import Mathlib.Data.List.Sort
import Fluo.Lib.Uri
/-!
# The keys of the HTTP cache interceptor

The key that `CacheInterceptor` computes for a GET request: the path, the
query parameters in a sorted order where the strategy includes them, and the
principal. Texts are UTF-16, `none` is the `URIError` of `encodeURIComponent`.
`localeCompare` is the collation of the host.
-/

namespace Fluo.CacheManager
open Fluo.Lib

structure Principal where
  subject : Utf16
  issuer : Option Utf16

inductive QueryValue
  | one (value : Utf16)
  | many (values : List Utf16)

/-- The request and principal of an interceptor context. `query` holds the
entries of the query record, `none` for `undefined`. -/
structure InterceptorContext where
  path : Utf16
  query : List (Utf16 × Option QueryValue)
  principal : Option Principal

inductive BuiltInKeyStrategy
  | route | routeQuery | full

inductive CacheKeyStrategy
  | builtIn (strategy : BuiltInKeyStrategy)
  | custom (factory : InterceptorContext → Option Utf16)

abbrev PrincipalScopeResolver := InterceptorContext → Option Utf16

inductive CacheKeyDecoratorValue
  | text (key : Utf16)
  | factory (key : InterceptorContext → Option Utf16)

def unit (c : Char) : UInt16 := c.toNat.toUInt16

/-! ## The code -/

section
variable (localeCompare : Utf16 → Utf16 → Int)

def pairText (pair : Utf16 × Utf16) : Option Utf16 := do
  let key ← encodeURIComponent pair.1
  let value ← encodeURIComponent pair.2
  return key ++ unit '=' :: value

def entryText (entry : Utf16 × QueryValue) : Option Utf16 :=
  match entry.2 with
  | .many values => do
    let texts ← ((values.mergeSort fun a b => localeCompare a b ≤ 0).map (entry.1, ·)).mapM pairText
    return [unit '&'].intercalate texts
  | .one value => pairText (entry.1, value)

def buildSortedQueryString (query : List (Utf16 × Option QueryValue)) : Option Utf16 := do
  let defined := query.filterMap fun entry => entry.2.map (entry.1, ·)
  let texts ← (defined.mergeSort fun a b => localeCompare a.1 b.1 ≤ 0).mapM (entryText localeCompare)
  return [unit '&'].intercalate texts

def appendPrincipalScope (key : Utf16) (context : InterceptorContext) (resolver : Option PrincipalScopeResolver) : Option Utf16 :=
  match resolver with
  | some resolver =>
    match resolver context with
    | some scope => some (key ++ units "|principal:" ++ scope)
    | none => some key
  | none =>
    match context.principal with
    | none => some key
    | some principal => do
      let issuer ← encodeURIComponent (principal.issuer.getD (units "unknown"))
      let subject ← encodeURIComponent principal.subject
      return key ++ units "|principal:" ++ issuer ++ unit ':' :: subject

def defaultCacheKey (context : InterceptorContext) (strategy : CacheKeyStrategy) (resolver : Option PrincipalScopeResolver) :
    Option Utf16 :=
  match strategy with
  | .custom factory => factory context
  | .builtIn .route => appendPrincipalScope context.path context resolver
  | .builtIn _ => do
    let queryString ← buildSortedQueryString localeCompare context.query
    if queryString = [] then appendPrincipalScope context.path context resolver
    else appendPrincipalScope (context.path ++ unit '?' :: queryString) context resolver

/-- An empty `@CacheKey` text counts as none. -/
def resolveCacheKeyValue (metadata : Option CacheKeyDecoratorValue) (context : InterceptorContext) (strategy : CacheKeyStrategy)
    (resolver : Option PrincipalScopeResolver) : Option Utf16 :=
  match metadata with
  | none => defaultCacheKey localeCompare context strategy resolver
  | some (.text key) => if key = [] then defaultCacheKey localeCompare context strategy resolver else some key
  | some (.factory key) => key context

end

/-! ## What a key stands for -/

def QueryValue.values : QueryValue → List Utf16
  | .one value => [value]
  | .many values => values

/-- The parameters of a request, one pair for each value. -/
def parameters (query : List (Utf16 × Option QueryValue)) : List (Utf16 × Utf16) :=
  query.flatMap fun entry => (entry.2.elim [] QueryValue.values).map (entry.1, ·)

def BuiltInKeyStrategy.includesQuery : BuiltInKeyStrategy → Bool
  | .route => false
  | .routeQuery | .full => true

/-- The same path, the same query multimap where the strategy includes the
query, and the same issuer and subject or no principal. -/
def SameResource (strategy : BuiltInKeyStrategy) (a b : InterceptorContext) : Prop :=
  a.path = b.path ∧ (strategy.includesQuery → (parameters a.query).Perm (parameters b.query)) ∧ a.principal = b.principal

/-! ## Query text -/

theorem mapM_eq_some {α β : Type} {f : α → Option β} : ∀ {l : List α} {l' : List β},
    l.mapM f = some l' ↔ List.Forall₂ (fun a b => f a = some b) l l'
  | [], l' => by simp [eq_comm]
  | a :: l, l' => by
    have ih : ∀ {l' : List β}, l.mapM f = some l' ↔ List.Forall₂ (fun a b => f a = some b) l l' := mapM_eq_some
    rw [List.mapM_cons, Option.bind_eq_bind, Option.bind_eq_some_iff, List.forall₂_cons_left_iff]
    refine exists_congr fun b => ?_
    simp only [Option.bind_eq_bind, Option.bind_eq_some_iff, ih, Option.pure_def, Option.some.injEq]
    exact ⟨fun ⟨hb, l', hl, h⟩ => ⟨l', hb, hl, h.symm⟩, fun ⟨l', hb, hl, h⟩ => ⟨hb, l', hl, h.symm⟩⟩

def Spelled (pair : Utf16 × Utf16) (text : Utf16) : Prop := pairText pair = some text

namespace Spelled
variable {pair : Utf16 × Utf16} {text : Utf16}

theorem iff : Spelled pair text ↔ ∃ key value, encodeURIComponent pair.1 = some key ∧ encodeURIComponent pair.2 = some value ∧
    text = key ++ unit '=' :: value := by
  simp only [Spelled, pairText, Option.bind_eq_bind, Option.bind_eq_some_iff, Option.pure_def, Option.some.injEq]
  exact ⟨fun ⟨key, hk, value, hv, h⟩ => ⟨key, value, hk, hv, h.symm⟩, fun ⟨key, value, hk, hv, h⟩ => ⟨key, hk, value, hv, h.symm⟩⟩

theorem leftUnique : Relator.LeftUnique Spelled := by
  intro p q text hp hq
  obtain ⟨key, value, hk, hv, rfl⟩ := iff.1 hp
  obtain ⟨key', value', hk', hv', h⟩ := iff.1 hq
  have hsep {s t : Utf16} (h : encodeURIComponent s = some t) : unit '=' ∉ t :=
    encodeURIComponent_notMem h (by decide) (by decide)
  obtain ⟨rfl, rfl⟩ := append_cons_inj (hsep hv) (hsep hv') h
  exact Prod.ext (encodeURIComponent_inj hk hk') (encodeURIComponent_inj hv hv')

theorem notMem (h : Spelled pair text) {u : UInt16} (hu : isUnescaped u.toNat = false) (hp : u ≠ 0x25) (he : u ≠ unit '=') :
    u ∉ text := by
  obtain ⟨key, value, hk, hv, rfl⟩ := iff.1 h
  rw [List.mem_append, List.mem_cons]
  exact fun hm => hm.elim (encodeURIComponent_notMem hk hu hp) fun hm => hm.elim he (encodeURIComponent_notMem hv hu hp)

theorem fields (h : Spelled pair text) : Lib.fields (unit '&') text = [text] := by
  refine fields_of_notMem (h.notMem (by decide) (by decide) (by decide)) fun hnil => ?_
  obtain ⟨key, value, -, -, rfl⟩ := iff.1 h
  simp at hnil

end Spelled

def Lists (pairs : List (Utf16 × Utf16)) (text : Utf16) : Prop :=
  ∃ sorted : List (Utf16 × Utf16), sorted.Perm pairs ∧ List.Forall₂ Spelled sorted (fields (unit '&') text)

namespace Lists

variable {ps : List (Utf16 × Utf16)} {text : Utf16} {localeCompare : Utf16 → Utf16 → Int}

theorem perm {qs : List (Utf16 × Utf16)} (hp : Lists ps text) (hq : Lists qs text) : ps.Perm qs := by
  obtain ⟨ps', hps, hp⟩ := hp
  obtain ⟨qs', hqs, hq⟩ := hq
  obtain rfl := List.left_unique_forall₂' Spelled.leftUnique hp hq
  exact hps.symm.trans hqs

theorem one {pair : Utf16 × Utf16} (h : Spelled pair text) : Lists [pair] text :=
  ⟨[pair], .refl _, h.fields ▸ .cons h .nil⟩

theorem intercalate {α : Type} {pairs : α → List (Utf16 × Utf16)} {entries : List α} {texts : List Utf16}
    (h : List.Forall₂ (fun e t => Lists (pairs e) t) entries texts) : Lists (entries.flatMap pairs) ([unit '&'].intercalate texts) := by
  rw [Lists, fields_intercalate]
  induction h with
  | nil => exact ⟨[], .refl _, .nil⟩
  | cons h _ ih =>
    obtain ⟨ps, hps, hp⟩ := h
    obtain ⟨qs, hqs, hq⟩ := ih
    exact ⟨ps ++ qs, hps.append hqs, List.rel_append hp hq⟩

theorem entry {e : Utf16 × QueryValue}
    (h : entryText localeCompare e = some text) : Lists (e.2.values.map (e.1, ·)) text := by
  obtain ⟨key, value⟩ := e
  cases value with
  | one value => exact .one h
  | many values =>
    simp only [entryText, Option.bind_eq_bind, Option.bind_eq_some_iff, Option.pure_def, Option.some.injEq] at h
    obtain ⟨texts, htexts, rfl⟩ := h
    have hone := @intercalate _ (fun pair => [pair]) _ _ ((mapM_eq_some.1 htexts).imp fun _ _ h => one h)
    rw [List.flatMap_singleton'] at hone
    obtain ⟨sorted, hsorted, hspelled⟩ := hone
    exact ⟨sorted, hsorted.trans ((List.mergeSort_perm _ _).map _), hspelled⟩

theorem buildSortedQueryString {query : List (Utf16 × Option QueryValue)}
    (h : buildSortedQueryString localeCompare query = some text) : Lists (parameters query) text := by
  simp only [CacheManager.buildSortedQueryString, Option.bind_eq_bind, Option.bind_eq_some_iff, Option.pure_def, Option.some.injEq] at h
  obtain ⟨texts, htexts, rfl⟩ := h
  obtain ⟨sorted, hsorted, hspelled⟩ := intercalate ((mapM_eq_some.1 htexts).imp fun _ _ h => entry h)
  refine ⟨sorted, hsorted.trans (((List.mergeSort_perm _ _).flatMap_right _).trans (.of_eq ?_)), hspelled⟩
  rw [parameters]
  clear htexts hsorted
  induction query with
  | nil => rfl
  | cons e rest ih =>
    rw [List.flatMap_cons, ← ih]
    cases h : e.2 <;> simp [h]

theorem notMem (h : Lists ps text) {u : UInt16} (hu : isUnescaped u.toNat = false)
    (hp : u ≠ 0x25) (he : u ≠ unit '=') (ha : u ≠ unit '&') : u ∉ text := by
  intro hm
  obtain ⟨sorted, -, hspelled⟩ := h
  obtain ⟨part, hpart, hm⟩ := mem_fields hm ha
  generalize fields (unit '&') text = parts at hspelled hpart
  induction hspelled with
  | nil => simp at hpart
  | cons hs _ ih =>
    rcases List.mem_cons.1 hpart with rfl | hpart
    · exact hs.notMem hu hp he hm
    · exact ih hpart

end Lists

/-! ## The three parts of a key -/

section
variable (localeCompare : Utf16 → Utf16 → Int)

/-- What the key has after the path for the query. -/
def queryText (strategy : BuiltInKeyStrategy) (context : InterceptorContext) : Option Utf16 :=
  if strategy.includesQuery then
    (buildSortedQueryString localeCompare context.query).map fun text => if text = [] then [] else unit '?' :: text
  else some []

/-- What the key has at its end for the principal. -/
def principalText (context : InterceptorContext) : Option Utf16 := appendPrincipalScope [] context none

theorem appendPrincipalScope_eq (key : Utf16) (context : InterceptorContext) :
    appendPrincipalScope key context none = (principalText context).map (key ++ ·) := by
  unfold principalText appendPrincipalScope
  cases hp : context.principal with
  | none => simp
  | some principal =>
    cases hi : encodeURIComponent (principal.issuer.getD (units "unknown")) with
    | none => simp [hi]
    | some issuer =>
      cases hs : encodeURIComponent principal.subject with
      | none => simp [hi, hs]
      | some subject => simp [hi, hs]

variable {context : InterceptorContext} {strategy : BuiltInKeyStrategy}

theorem defaultCacheKey_eq_some {key : Utf16} :
    defaultCacheKey localeCompare context (.builtIn strategy) none = some key ↔
      ∃ query principal, queryText localeCompare strategy context = some query ∧ principalText context = some principal ∧
        key = context.path ++ query ++ principal := by
  have hroute (query : Utf16) : appendPrincipalScope (context.path ++ query) context none = some key ↔
      ∃ principal, principalText context = some principal ∧ key = context.path ++ query ++ principal := by
    rw [appendPrincipalScope_eq, Option.map_eq_some_iff]
    exact exists_congr fun _ => and_congr_right fun _ => eq_comm
  have hfull : (buildSortedQueryString localeCompare context.query).bind (fun text =>
      if text = [] then appendPrincipalScope context.path context none
      else appendPrincipalScope (context.path ++ unit '?' :: text) context none) = some key ↔
      ∃ query principal, queryText localeCompare .full context = some query ∧ principalText context = some principal ∧
        key = context.path ++ query ++ principal := by
    rw [queryText, if_pos (show BuiltInKeyStrategy.includesQuery .full = true from rfl)]
    cases buildSortedQueryString localeCompare context.query with
    | none => simp
    | some text =>
      by_cases ht : text = []
      · simpa [ht] using hroute []
      · simpa [ht] using hroute (unit '?' :: text)
  cases strategy with
  | route => simpa [defaultCacheKey, queryText, BuiltInKeyStrategy.includesQuery] using hroute []
  | routeQuery => exact hfull
  | full => exact hfull

theorem queryText_cases {query : Utf16}
    (h : queryText localeCompare strategy context = some query) :
    unit '|' ∉ query ∧ (query = [] ∨ ∃ text, query = unit '?' :: text ∧ unit '?' ∉ text) := by
  unfold queryText at h
  split at h
  · obtain ⟨text, ht, rfl⟩ := Option.map_eq_some_iff.1 h
    have hno {u : UInt16} (hu : isUnescaped u.toNat = false) (hp : u ≠ 0x25) (he : u ≠ unit '=') (ha : u ≠ unit '&') : u ∉ text :=
      (Lists.buildSortedQueryString ht).notMem hu hp he ha
    split
    · simp
    · refine ⟨?_, .inr ⟨text, rfl, hno (by decide) (by decide) (by decide) (by decide)⟩⟩
      rw [List.mem_cons]
      exact fun hm => hm.elim (by decide) (hno (by decide) (by decide) (by decide) (by decide))
  · cases h; simp

theorem queryText_perm (hs : strategy.includesQuery) {a b : InterceptorContext} {query : Utf16}
    (ha : queryText localeCompare strategy a = some query) (hb : queryText localeCompare strategy b = some query) :
    (parameters a.query).Perm (parameters b.query) := by
  rw [queryText, if_pos hs] at ha hb
  obtain ⟨s, hs, hsq⟩ := Option.map_eq_some_iff.1 ha
  obtain ⟨t, ht, htq⟩ := Option.map_eq_some_iff.1 hb
  have hst : s = t := by
    rw [← htq] at hsq
    split at hsq <;> split at hsq
    next hs ht => rw [hs, ht]
    next => cases hsq
    next => cases hsq
    next => exact (List.cons.inj hsq).2
  exact (hst ▸ Lists.buildSortedQueryString hs).perm (Lists.buildSortedQueryString ht)

end

variable {context a b : InterceptorContext} {text : Utf16} {localeCompare : Utf16 → Utf16 → Int} {strategy : BuiltInKeyStrategy}

theorem principalText_cases (h : principalText context = some text) :
    context.principal = none ∧ text = [] ∨
    ∃ principal issuer subject, context.principal = some principal ∧
      encodeURIComponent (principal.issuer.getD (units "unknown")) = some issuer ∧ encodeURIComponent principal.subject = some subject ∧
      text = unit '|' :: (units "principal:" ++ issuer ++ unit ':' :: subject) := by
  unfold principalText appendPrincipalScope at h
  cases hp : context.principal with
  | none => exact .inl ⟨rfl, by simpa [hp] using h.symm⟩
  | some principal =>
    simp only [hp, Option.bind_eq_bind, Option.bind_eq_some_iff, Option.pure_def, Option.some.injEq] at h
    obtain ⟨issuer, hi, subject, hs, rfl⟩ := h
    exact .inr ⟨principal, issuer, subject, rfl, hi, hs, rfl⟩

theorem principalText_notMem (h : principalText context = some text) :
    unit '?' ∉ text ∧ (text = [] ∨ ∃ rest, text = unit '|' :: rest ∧ unit '|' ∉ rest) := by
  rcases principalText_cases h with ⟨-, rfl⟩ | ⟨principal, issuer, subject, -, hi, hs, rfl⟩
  · simp
  · have hno {u : UInt16} (hu : isUnescaped u.toNat = false) (hp : u ≠ 0x25) (hc : u ≠ unit ':') (hn : u ∉ units "principal:") :
        u ∉ units "principal:" ++ issuer ++ unit ':' :: subject := by
      rw [List.mem_append, List.mem_append, List.mem_cons]
      rintro ((hm | hm) | rfl | hm)
      · exact hn hm
      · exact encodeURIComponent_notMem hi hu hp hm
      · exact hc rfl
      · exact encodeURIComponent_notMem hs hu hp hm
    refine ⟨?_, .inr ⟨_, rfl, hno (by decide) (by decide) (by decide) (by decide)⟩⟩
    rw [List.mem_cons]
    exact fun hm => hm.elim (by decide) (hno (by decide) (by decide) (by decide) (by decide))

theorem principalText_inj (ha : principalText a = some text) (hb : principalText b = some text) :
    a.principal = none ∧ b.principal = none ∨
    ∃ p q, a.principal = some p ∧ b.principal = some q ∧ p.subject = q.subject ∧
      p.issuer.getD (units "unknown") = q.issuer.getD (units "unknown") := by
  rcases principalText_cases ha with ⟨hp, rfl⟩ | ⟨p, issuer, subject, hp, hi, hs, rfl⟩ <;>
    rcases principalText_cases hb with ⟨hq, h⟩ | ⟨q, issuer', subject', hq, hi', hs', h⟩
  · exact .inl ⟨hp, hq⟩
  · cases h
  · cases h
  · have hcolon {s t : Utf16} (h : encodeURIComponent s = some t) : unit ':' ∉ t := encodeURIComponent_notMem h (by decide) (by decide)
    obtain ⟨hissuer, rfl⟩ := append_cons_inj (hcolon hs) (hcolon hs') (List.cons.inj h).2
    obtain rfl := List.append_cancel_left hissuer
    exact .inr ⟨p, q, hp, hq, encodeURIComponent_inj hs hs', encodeURIComponent_inj hi hi'⟩

/-! ## Which keys coincide -/

/-- The key with parts `b` is spelled out by the longer path `a`, which has
no query part and either no principal part or the same one. -/
def SpelledBy (b query principal a query' principal' : Utf16) : Prop :=
  query' = [] ∧ (principal' = [] ∧ principal ≠ [] ∧ a = b ++ query ++ principal ∨ principal' = principal ∧ query ≠ [] ∧ a = b ++ query)

theorem append_cons_ne {c d : UInt16} {a b x y : Utf16} (hd : d ∉ c :: x) (hc : c ∉ d :: y) : a ++ c :: x ≠ b ++ d :: y := by
  intro h
  rcases List.append_eq_append_iff.1 h with ⟨m, -, hm⟩ | ⟨m, -, hm⟩
  · exact hd (hm ▸ List.mem_append_right m List.mem_cons_self)
  · exact hc (hm ▸ List.mem_append_right m List.mem_cons_self)

theorem parts_cases {a b q q' p p' : Utf16} (hq : unit '|' ∉ q ∧ (q = [] ∨ ∃ text, q = unit '?' :: text ∧ unit '?' ∉ text))
    (hq' : unit '|' ∉ q' ∧ (q' = [] ∨ ∃ text, q' = unit '?' :: text ∧ unit '?' ∉ text))
    (hp : unit '?' ∉ p ∧ (p = [] ∨ ∃ rest, p = unit '|' :: rest ∧ unit '|' ∉ rest))
    (hp' : unit '?' ∉ p' ∧ (p' = [] ∨ ∃ rest, p' = unit '|' :: rest ∧ unit '|' ∉ rest)) (h : a ++ q ++ p = b ++ q' ++ p') :
    a = b ∧ q = q' ∧ p = p' ∨ SpelledBy b q' p' a q p ∨ SpelledBy a q p b q' p' := by
  -- with the principal parts gone, the query parts are compared the same way
  have hquery (h : a ++ q = b ++ q') : a = b ∧ q = q' ∨ q = [] ∧ q' ≠ [] ∧ a = b ++ q' ∨ q' = [] ∧ q ≠ [] ∧ b = a ++ q := by
    rcases hq.2 with rfl | ⟨text, rfl, ht⟩ <;> rcases hq'.2 with rfl | ⟨text', rfl, ht'⟩
    · exact .inl ⟨by simpa using h, rfl⟩
    · exact .inr (.inl ⟨rfl, by simp, by simpa using h⟩)
    · exact .inr (.inr ⟨rfl, by simp, by simpa using h.symm⟩)
    · obtain ⟨rfl, rfl⟩ := append_cons_inj ht ht' h
      exact .inl ⟨rfl, rfl⟩
  have hsame (h : a ++ q = b ++ q') (hpp : p = p') : a = b ∧ q = q' ∧ p = p' ∨ SpelledBy b q' p' a q p ∨ SpelledBy a q p b q' p' := by
    rcases hquery h with ⟨ha, hq⟩ | ⟨hq, hne, ha⟩ | ⟨hq, hne, hb⟩
    · exact .inl ⟨ha, hq, hpp⟩
    · exact .inr (.inl ⟨hq, .inr ⟨hpp, hne, ha⟩⟩)
    · exact .inr (.inr ⟨hq, .inr ⟨hpp.symm, hne, hb⟩⟩)
  rcases hp.2 with rfl | ⟨rest, rfl, hr⟩ <;> rcases hp'.2 with rfl | ⟨rest', rfl, hr'⟩
  · exact hsame (by simpa using h) rfl
  · rcases hq.2 with rfl | ⟨text, rfl, ht⟩
    · exact .inr (.inl ⟨rfl, .inl ⟨rfl, by simp, by simpa using h⟩⟩)
    · exact absurd (by simpa using h) (append_cons_ne (a := a) (b := b ++ q') hq.1 hp'.1)
  · rcases hq'.2 with rfl | ⟨text, rfl, ht⟩
    · exact .inr (.inr ⟨rfl, .inl ⟨rfl, by simp, by simpa using h.symm⟩⟩)
    · exact absurd (by simpa using h.symm) (append_cons_ne (a := b) (b := a ++ q) hq'.1 hp.1)
  · obtain ⟨hab, rfl⟩ := append_cons_inj hr hr' h
    exact hsame hab rfl

/-- The path of `a` spells out the key of `b`. -/
def Spells (localeCompare : Utf16 → Utf16 → Int) (strategy : BuiltInKeyStrategy) (a b : InterceptorContext) : Prop :=
  ∃ query principal query' principal', queryText localeCompare strategy b = some query ∧ principalText b = some principal ∧
    queryText localeCompare strategy a = some query' ∧ principalText a = some principal' ∧
    SpelledBy b.path query principal a.path query' principal'

/-- `a` and `b` differ in that `a` names no issuer and `b` the issuer `unknown`. -/
def TakesForUnknown (localeCompare : Utf16 → Utf16 → Int) (strategy : BuiltInKeyStrategy) (a b : InterceptorContext) : Prop :=
  ∃ query principal subject, queryText localeCompare strategy a = some query ∧ queryText localeCompare strategy b = some query ∧
    principalText a = some principal ∧ a.path = b.path ∧
    a.principal = some ⟨subject, none⟩ ∧ b.principal = some ⟨subject, some (units "unknown")⟩

/-- Neither path spells out the other's key, and neither missing issuer meets an issuer named `unknown`. -/
def Distinguishable (localeCompare : Utf16 → Utf16 → Int) (strategy : BuiltInKeyStrategy) (a b : InterceptorContext) : Prop :=
  ¬Spells localeCompare strategy a b ∧ ¬Spells localeCompare strategy b a ∧
  ¬TakesForUnknown localeCompare strategy a b ∧ ¬TakesForUnknown localeCompare strategy b a

theorem Spells.collide
    (h : Spells localeCompare strategy a b) :
    (∃ key, defaultCacheKey localeCompare a (.builtIn strategy) none = some key ∧
      defaultCacheKey localeCompare b (.builtIn strategy) none = some key) ∧ a.path ≠ b.path := by
  obtain ⟨query, principal, query', principal', hqb, hpb, hqa, hpa, rfl, ⟨rfl, hne, hpath⟩ | ⟨rfl, hne, hpath⟩⟩ := h
  · refine ⟨⟨b.path ++ query ++ principal, (defaultCacheKey_eq_some _).2 ⟨[], [], hqa, hpa, by simp [hpath]⟩,
      (defaultCacheKey_eq_some _).2 ⟨query, principal, hqb, hpb, rfl⟩⟩, ?_⟩
    simp [hpath, hne]
  · refine ⟨⟨b.path ++ query ++ principal', (defaultCacheKey_eq_some _).2 ⟨[], principal', hqa, hpa, by simp [hpath]⟩,
      (defaultCacheKey_eq_some _).2 ⟨query, principal', hqb, hpb, rfl⟩⟩, ?_⟩
    simp [hpath, hne]

theorem TakesForUnknown.collide
    (h : TakesForUnknown localeCompare strategy a b) :
    (∃ key, defaultCacheKey localeCompare a (.builtIn strategy) none = some key ∧
      defaultCacheKey localeCompare b (.builtIn strategy) none = some key) ∧ a.principal ≠ b.principal := by
  obtain ⟨query, principal, subject, hqa, hqb, hpa, hpath, ha, hb⟩ := h
  have hpb : principalText b = some principal := by
    rw [← hpa, principalText, principalText, appendPrincipalScope, appendPrincipalScope]
    simp only [ha, hb, Option.getD_none, Option.getD_some]
  refine ⟨⟨a.path ++ query ++ principal, (defaultCacheKey_eq_some _).2 ⟨query, principal, hqa, hpa, rfl⟩,
    (defaultCacheKey_eq_some _).2 ⟨query, principal, hqb, hpb, by rw [hpath]⟩⟩, ?_⟩
  simp [ha, hb]

/-- Equal keys mean the same resource and principal exactly where the requests
are distinguishable. -/
theorem cache_keys_separate (localeCompare : Utf16 → Utf16 → Int) (strategy : BuiltInKeyStrategy) (a b : InterceptorContext) :
    (∀ key, resolveCacheKeyValue localeCompare none a (.builtIn strategy) none = some key →
      resolveCacheKeyValue localeCompare none b (.builtIn strategy) none = some key → SameResource strategy a b) ↔
    Distinguishable localeCompare strategy a b := by
  constructor
  · intro h
    have hspells {a b : InterceptorContext} (h : ∀ key, resolveCacheKeyValue localeCompare none a (.builtIn strategy) none = some key →
        resolveCacheKeyValue localeCompare none b (.builtIn strategy) none = some key → SameResource strategy a b) :
        ¬Spells localeCompare strategy a b ∧ ¬TakesForUnknown localeCompare strategy a b := by
      constructor
      · intro hs
        obtain ⟨⟨key, ha, hb⟩, hne⟩ := hs.collide
        exact hne (h key ha hb).1
      · intro hs
        obtain ⟨⟨key, ha, hb⟩, hne⟩ := hs.collide
        exact hne (h key ha hb).2.2
    have hsymm := hspells (a := b) (b := a) fun key hb ha =>
      have ⟨hpath, hquery, hprincipal⟩ := h key ha hb
      ⟨hpath.symm, fun hs => (hquery hs).symm, hprincipal.symm⟩
    exact ⟨(hspells h).1, hsymm.1, (hspells h).2, hsymm.2⟩
  · rintro ⟨hab, hba, hunknown, hunknown'⟩ key ha hb
    obtain ⟨q, p, hq, hp, hkey⟩ := (defaultCacheKey_eq_some localeCompare).1 ha
    obtain ⟨q', p', hq', hp', rfl⟩ := (defaultCacheKey_eq_some localeCompare).1 hb
    rcases parts_cases (queryText_cases localeCompare hq) (queryText_cases localeCompare hq') (principalText_notMem hp)
      (principalText_notMem hp') hkey.symm with ⟨hpath, rfl, rfl⟩ | hs | hs
    · refine ⟨hpath, fun hs => queryText_perm localeCompare hs hq hq', ?_⟩
      rcases principalText_inj hp hp' with ⟨ha, hb⟩ | ⟨⟨subject, issuer⟩, ⟨_, issuer'⟩, ha, hb, rfl, hissuer⟩
      · rw [ha, hb]
      · cases issuer with
        | none =>
          cases issuer' with
          | none => rw [ha, hb]
          | some issuer' =>
            obtain rfl : units "unknown" = issuer' := hissuer
            exact absurd ⟨q, p, subject, hq, hq', hp, hpath, ha, hb⟩ hunknown
        | some issuer =>
          cases issuer' with
          | none =>
            obtain rfl : issuer = units "unknown" := hissuer
            exact absurd ⟨q, p, subject, hq', hq, hp', hpath.symm, hb, ha⟩ hunknown'
          | some issuer' => rw [ha, hb, show issuer = issuer' from hissuer]
    · exact absurd ⟨q', p', q, p, hq', hp', hq, hp, hs⟩ hab
    · exact absurd ⟨q, p, q', p', hq, hp, hq', hp', hs⟩ hba

/-- Anonymously, the path `/me|principal:iss:alice` has the key under which the
answer for `alice` at `/me` is cached. -/
theorem cache_keys_collide : ¬∀ key,
    resolveCacheKeyValue (fun _ _ => 0) none ⟨units "/me|principal:iss:alice", [], none⟩ (.builtIn .route) none = some key →
    resolveCacheKeyValue (fun _ _ => 0) none ⟨units "/me", [], some ⟨units "alice", some (units "iss")⟩⟩ (.builtIn .route) none =
      some key →
    SameResource .route ⟨units "/me|principal:iss:alice", [], none⟩ ⟨units "/me", [], some ⟨units "alice", some (units "iss")⟩⟩ := by
  intro h
  have hsame := h (units "/me|principal:iss:alice") (by decide) (by decide)
  exact absurd hsame.1 (by decide)

end Fluo.CacheManager
