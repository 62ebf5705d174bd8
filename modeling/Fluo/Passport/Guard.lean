import Fluo.Passport.Decorators
/-!
# The auth guard

`AuthGuard.canActivate`: which requests it lets through, by the merged requirement of the
handler and by what the selected strategy returns or throws. `E` is any other error.
-/

namespace Fluo.Passport
open Fluo.Lib
open Fluo.Core (MetadataPropertyKey)
open Fluo.Http.Mapping (trim trim_trim)

/-- What a strategy may return. The fields are the properties that are `in` an object or, beside its items, in an array;
`other` is a number, a bigint, a symbol or a function. -/
inductive Value
  | undefined
  | null
  | bool (b : Bool)
  | str (text : Utf16)
  | other (truthy : Bool)
  | arr (items : List Value) (fields : List (Utf16 × Value))
  | obj (fields : List (Utf16 × Value))

namespace Value

def truthy : Value → Bool
  | .undefined => false
  | .null => false
  | .bool b => b
  | .str text => text ≠ []
  | .other truthy => truthy
  | .arr _ _ => true
  | .obj _ => true

/-- `value[name]`, if `typeof value` is `object`, and `name in value`. -/
def field? : Value → String → Option Value
  | .arr _ fields, name => OrderedMap.get fields (units name)
  | .obj fields, name => OrderedMap.get fields (units name)
  | _, _ => none

def read (value : Value) (name : String) : Value := (value.field? name).getD .undefined

def isUndefined : Value → Bool
  | .undefined => true
  | _ => false

def isString : Value → Bool
  | .str _ => true
  | _ => false

def isRecord : Value → Bool
  | .obj _ => true
  | _ => false

def isStringArray : Value → Bool
  | .arr items _ => items.all isString
  | _ => false

def isPrincipal (value : Value) : Bool :=
  value.isRecord && (value.read "subject").isString && (value.read "subject").truthy && (value.read "claims").isRecord &&
    ((value.read "issuer").isUndefined || (value.read "issuer").isString) &&
    ((value.read "audience").isUndefined || (value.read "audience").isString || (value.read "audience").isStringArray) &&
    ((value.read "roles").isUndefined || (value.read "roles").isStringArray) &&
    ((value.read "scopes").isUndefined || (value.read "scopes").isStringArray)

def isText (text : Utf16) : Value → Bool
  | .str own => own = text
  | _ => false

/-- `principal.scopes?.includes(scope)` -/
def includesScope (principal : Value) (scope : Utf16) : Bool :=
  match principal.read "scopes" with
  | .arr items _ => items.any (isText scope)
  | _ => false

end Value

def isAuthHandledResult (result : Value) : Bool :=
  match result.field? "handled" with
  | some (.bool true) => true
  | _ => false

def isAuthOptionalResult (result : Value) : Bool :=
  match result.field? "authenticated" with
  | some (.bool false) => true
  | _ => false

def resolvePrincipal (result : Value) : Value :=
  if isAuthHandledResult result then result.read "principal"
  else if isAuthOptionalResult result then .undefined
  else result

def hasRequiredScopes (principal : Value) (scopes : List Utf16) : Bool := scopes.all principal.includesScope

/-! ## The guard -/

/-- The errors for which `isAuthenticationFailure` holds. -/
inductive AuthFailure
  | required (message : Utf16)
  | expired (message : Utf16)
  | failed (message : Utf16)

inductive AuthError (E : Type)
  | failure (failure : AuthFailure)
  | forbidden (message : Utf16)
  | other (error : E)

/-- What `container.resolve` rejects with. -/
inductive ResolveError (E : Type)
  | containerResolution (message : Utf16)
  | other (error : E)

inductive GuardError (E : Type)
  | strategyResolution (message : Utf16)
  | unauthorized (message : Utf16) (cause : AuthFailure)
  | forbidden (message : Utf16)
  | other (error : E)

structure RequestContext where
  principal : Option Value := none
  /-- `response.committed` -/
  committed : Bool := false

/-- `authenticate`: what it returns or throws, and what has become of the request context by then. -/
abbrev AuthStrategy (E : Type) := RequestContext → Except (AuthError E) Value × RequestContext

structure AuthGuard (Token : Type) where
  strategies : OrderedMap Utf16 Token := []
  defaultStrategy : Option Utf16 := none

def scopesOf (requirement : Option AuthRequirement) : List Utf16 := (requirement.bind (·.scopes)).getD []

def isOptional (requirement : Option AuthRequirement) : Bool := requirement.bind (·.optional?) = some true

section Guard
variable {E Token : Type}

/-- What `canActivate` makes of a result. -/
def accept (requirement : Option AuthRequirement) (context : RequestContext) (result : Value) : Except (AuthError E) RequestContext :=
  let principal := resolvePrincipal result
  if isAuthHandledResult result && !principal.truthy then
    if !context.committed then
      .error (.failure (.failed (units "Auth strategy returned handled:true without a principal but did not commit a response.")))
    else .ok context
  else if !principal.truthy then
    if isAuthOptionalResult result && isOptional requirement && (scopesOf requirement).isEmpty then .ok context
    else .error (.failure (.failed (units "Authentication strategy did not return a principal.")))
  else if !principal.isPrincipal then
    .error (.failure (.failed (units "Authentication strategy returned an invalid principal.")))
  else if !(scopesOf requirement).isEmpty && !hasRequiredScopes principal (scopesOf requirement) then
    .error (.forbidden (units "Access denied."))
  else .ok { context with principal := some principal }

/-- The `catch` of `canActivate`. -/
def toGuardError : AuthError E → GuardError E
  | .failure failure => .unauthorized (units "Authentication required.") failure
  | .forbidden message => .forbidden message
  | .other error => .other error

def toResolutionError (strategyName : Utf16) : ResolveError E → GuardError E
  | .containerResolution message =>
    .strategyResolution (units "Failed to resolve auth strategy \"" ++ strategyName ++ units "\": " ++ message)
  | .other error => .other error

namespace AuthGuard

variable (guard : AuthGuard Token) (resolve : Token → Except (ResolveError E) (AuthStrategy E))

def strategyName (requirement : Option AuthRequirement) : Utf16 := ((requirement.bind (·.strategy)) <|> guard.defaultStrategy).getD []

/-- The request context in which `canActivate` resolves to `true`, or the error it rejects with. -/
def canActivate (requirement : Option AuthRequirement) (context : RequestContext) : Except (GuardError E) RequestContext :=
  let strategyName := guard.strategyName requirement
  if strategyName = [] then
    if !(scopesOf requirement).isEmpty then .error (.strategyResolution (units "Auth requirement exists without an active strategy."))
    else .ok context
  else
    match guard.strategies.get strategyName with
    | none => .error (.strategyResolution (units "No auth strategy registered for " ++ strategyName ++ units "."))
    | some strategyToken => do
      let strategy ← (resolve strategyToken).mapError (toResolutionError strategyName)
      let (outcome, context) := strategy context
      (outcome >>= accept requirement context).mapError toGuardError

/-- The selected strategy returned the result, and left the request context like this. -/
def Returns (requirement : Option AuthRequirement) (context : RequestContext) (result : Value) (left : RequestContext) : Prop :=
  ∃ strategyToken strategy, guard.strategyName requirement ≠ [] ∧ guard.strategies.get (guard.strategyName requirement) = some strategyToken ∧
    resolve strategyToken = .ok strategy ∧ strategy context = (.ok result, left)

end AuthGuard

end Guard

/-! ## Scopes are kept -/

theorem mem_normalizeScopeItems {items : List Utf16} {scope : Utf16} (h : scope ∈ items) (hscope : trim scope ≠ []) :
    trim scope ∈ (normalizeScopeItems items).getD [] := by
  have hfold (items normalized : List Utf16) (h : scope ∈ items ∨ trim scope ∈ normalized) :
      trim scope ∈ items.foldl (fun normalized item =>
        let scope := trim item
        if scope = [] ∨ scope ∈ normalized then normalized else normalized ++ [scope]) normalized := by
    induction items generalizing normalized with
    | nil => simpa using h
    | cons item rest ih =>
      rw [List.foldl_cons]
      apply ih
      dsimp only
      split <;> grind
  have hmem := hfold items [] (.inl h)
  unfold normalizeScopeItems
  dsimp only
  split
  · rename_i hnil
    rw [hnil] at hmem
    cases hmem
  · exact hmem

section Merging
variable {base extra requirement : Option AuthRequirement} {scope : Utf16}

theorem scopesOf_requirementOf {strategy : Option Utf16} {optional : Option Bool} {scopes : Option (List Utf16)} (h : scope ∈ scopes.getD []) :
    scope ∈ scopesOf (requirementOf strategy optional scopes) := by
  cases scopes with
  | none => cases h
  | some scopes => simpa [requirementOf, scopesOf] using h

theorem scopesOf_merge (h : scope ∈ scopesOf base ∨ scope ∈ scopesOf extra) (hscope : trim scope ≠ []) :
    trim scope ∈ scopesOf (mergeAuthRequirements base extra) := by
  have hsome : ¬ (base = none ∧ extra = none) := by
    rintro ⟨rfl, rfl⟩
    rcases h with h | h <;> cases h
  rw [mergeAuthRequirements, if_neg hsome]
  exact scopesOf_requirementOf (mem_normalizeScopeItems (List.mem_append.2 h) hscope)

theorem scopesOf_normalize (h : scope ∈ scopesOf requirement) (hscope : trim scope ≠ []) : trim scope ∈ scopesOf (normalizeRequirement requirement) := by
  cases requirement with
  | none => cases h
  | some requirement =>
    refine scopesOf_requirementOf ?_
    cases hscopes : requirement.scopes with
    | none =>
      rw [scopesOf, Option.bind_some, hscopes] at h
      cases h
    | some scopes =>
      rw [scopesOf, Option.bind_some, hscopes] at h
      exact mem_normalizeScopeItems h hscope

end Merging

structure Tidy (scope : Utf16) : Prop where
  trimmed : trim scope = scope
  visible : scope ≠ []

theorem tidy_trim {scope : Utf16} (h : trim scope ≠ []) : Tidy (trim scope) := ⟨trim_trim scope, h⟩

section Tidy
variable {base extra requirement : Option AuthRequirement} {scope : Utf16} (hscope : Tidy scope)
include hscope

theorem Tidy.trim_ne_nil : trim scope ≠ [] := by
  rw [hscope.trimmed]
  exact hscope.visible

theorem Tidy.merge (h : scope ∈ scopesOf base ∨ scope ∈ scopesOf extra) : scope ∈ scopesOf (mergeAuthRequirements base extra) := by
  have hmem := scopesOf_merge h hscope.trim_ne_nil
  rwa [hscope.trimmed] at hmem

theorem Tidy.normalize (h : scope ∈ scopesOf requirement) : scope ∈ scopesOf (normalizeRequirement requirement) := by
  have hmem := scopesOf_normalize h hscope.trim_ne_nil
  rwa [hscope.trimmed] at hmem

theorem Tidy.put {map : MethodRequirements} {key : MetadataPropertyKey} (h : scope ∈ scopesOf (map.get key)) (propertyKey : MetadataPropertyKey)
    (patch : AuthRequirement) : scope ∈ scopesOf ((putRequirement map propertyKey patch).get key) := by
  unfold putRequirement
  by_cases hkey : key = propertyKey
  · subst hkey
    have hmerged : scope ∈ scopesOf (mergeAuthRequirements (map.get key) (some patch)) := hscope.merge (.inl h)
    split
    · rename_i merged heq
      rwa [OrderedMap.get_set_self, ← heq]
    · rename_i heq
      rw [heq] at hmerged
      cases hmerged
  · split
    · rwa [OrderedMap.get_set_of_ne _ hkey]
    · rwa [OrderedMap.get_filter_of_ne _ hkey]

end Tidy

/-! ## Declared scopes -/

/-- The decorators of a class run before it has its bag, and its requirement is asked for after that. -/
def Ordered (s : State) : Label → Prop
  | .decorate cls _ _ => cls ∉ s.attached
  | .attach _ => True
  | .read cls _ => cls ∈ s.attached

instance (s : State) (l : Label) : Decidable (Ordered s l) :=
  match l with
  | .decorate cls _ _ => inferInstanceAs (Decidable (cls ∉ s.attached))
  | .attach _ => isTrue trivial
  | .read cls _ => inferInstanceAs (Decidable (cls ∈ s.attached))

/-- A decorator of the class or of the method declares the scope. -/
def Declares (cls : Core.Class) (methodName : MetadataPropertyKey) (scope : Utf16) : Label → Prop
  | .decorate target (.requireScopes scopes) propertyKey => target = cls ∧ propertyKey.all (· = methodName) = true ∧ scope ∈ scopes
  | _ => False

def ownRequirement (s : State) (cls : Core.Class) : Option MetadataPropertyKey → Option AuthRequirement
  | none => s.classRequirement cls
  | some propertyKey => ((s.methodRequirements cls).bind fun i => s.maps[i]?).bind fun map => map.get propertyKey

/-- Nothing has been read of a class without a bag, and the maps of the bags have been made. -/
structure Fresh (s : State) : Prop where
  unread : ∀ cls propertyKey, cls ∉ s.attached → s.mergedMethod cls propertyKey = none
  made : ∀ p i, s.methodRequirements p = some i → i < s.maps.length

theorem fresh_init : Fresh {} where
  unread _ _ _ := rfl
  made _ _ h := by cases h

section Steps
variable {stores : Stores} {s s' : State} {cls : Core.Class} {key : Option MetadataPropertyKey} {scope : Utf16}

theorem find_of_own {Record : Type} {slot : Slot Record} {record : Record} (h : slot cls = some record) : slot.find cls = some record := by
  obtain ⟨above, hchain⟩ := Slot.chain_eq_cons cls
  rw [Slot.find, hchain, List.findSome?_cons, h]

theorem find_made (h : Fresh s) {i : Nat} (hi : s.methodRequirements.find cls = some i) : i < s.maps.length := by
  obtain ⟨p, -, hp⟩ := List.exists_of_findSome?_eq_some hi
  exact h.made p i hp

theorem Fresh.step (h : Fresh s) {l : Label} (hordered : Ordered s l) (hstep : step stores s l = some s') : Fresh s' := by
  cases l with
  | attach cls =>
    cases hstep
    exact ⟨fun d propertyKey hd => h.unread d propertyKey fun hmem => hd (List.mem_cons_of_mem _ hmem), h.made⟩
  | read cls propertyKey =>
    cases hstep
    cases propertyKey with
    | none => exact ⟨h.unread, h.made⟩
    | some propertyKey =>
      refine ⟨fun d key hd => ?_, h.made⟩
      have hne : d ≠ cls := by
        rintro rfl
        exact hd hordered
      simp only [remember, Function.update_of_ne hne]
      exact h.unread d key hd
  | decorate cls decorator propertyKey =>
    cases hstep
    cases propertyKey with
    | none => exact ⟨h.unread, h.made⟩
    | some propertyKey =>
      simp only [decorate, State.defineMethod]
      split
      · rename_i i hi
        refine ⟨h.unread, fun p j hj => ?_⟩
        rw [List.length_modify]
        by_cases hp : p = cls
        · subst hp
          simp only [Function.update_self, Option.some.injEq] at hj
          exact hj ▸ find_made h hi
        · simp only [Function.update_of_ne hp] at hj
          exact h.made p j hj
      · refine ⟨h.unread, fun p j hj => ?_⟩
        rw [List.length_append]
        by_cases hp : p = cls
        · subst hp
          simp only [Function.update_self, Option.some.injEq] at hj
          exact hj ▸ Nat.lt_succ_self _
        · simp only [Function.update_of_ne hp] at hj
          exact Nat.lt_succ_of_lt (h.made p j hj)

theorem decorate_mergedMethod (target : Core.Class) (decorator : AuthDecorator) (propertyKey : Option MetadataPropertyKey) :
    (decorate stores s target decorator propertyKey).mergedMethod = s.mergedMethod := by
  cases propertyKey with
  | none => rfl
  | some propertyKey =>
    simp only [decorate, State.defineMethod]
    split <;> rfl

theorem ownRequirement_decorate (hfresh : Fresh s) (hscope : Tidy scope) (h : scope ∈ scopesOf (ownRequirement s cls key)) (target : Core.Class)
    (decorator : AuthDecorator) (propertyKey : Option MetadataPropertyKey) :
    scope ∈ scopesOf (ownRequirement (decorate stores s target decorator propertyKey) cls key) := by
  cases propertyKey with
  | none =>
    cases key with
    | some key => exact h
    | none =>
      by_cases htarget : cls = target
      · subst htarget
        simp only [decorate, State.defineClass, ownRequirement, Function.update_self]
        refine hscope.merge (.inl ?_)
        cases hown : s.classRequirement cls with
        | none =>
          rw [ownRequirement, hown] at h
          cases h
        | some record =>
          rw [ownRequirement, hown] at h
          rwa [find_of_own hown]
      · simpa only [decorate, State.defineClass, ownRequirement, Function.update_of_ne htarget] using h
  | some propertyKey =>
    cases key with
    | none =>
      simp only [decorate, State.defineMethod]
      split <;> exact h
    | some key =>
      -- the class has a map, which stays its own and at most gains requirements
      cases hown : s.methodRequirements cls with
      | none =>
        rw [ownRequirement, hown] at h
        cases h
      | some i =>
        simp only [ownRequirement, hown, Option.bind_some] at h
        have hi := hfresh.made cls i hown
        rw [List.getElem?_eq_getElem hi, Option.bind_some] at h
        simp only [decorate, State.defineMethod]
        split
        · rename_i j hj
          have hsame : Function.update s.methodRequirements target (some j) cls = some i := by
            by_cases htarget : cls = target
            · subst htarget
              rw [Function.update_self, ← hj, find_of_own hown]
            · rw [Function.update_of_ne htarget, hown]
          simp only [ownRequirement, hsame, Option.bind_some]
          by_cases hji : j = i
          · subst hji
            rw [List.getElem?_modify_eq, List.getElem?_eq_getElem hi]
            exact hscope.put h propertyKey _
          · rw [List.getElem?_modify_ne _ _ hji, List.getElem?_eq_getElem hi]
            exact h
        · rename_i hnone
          have htarget : cls ≠ target := by
            rintro rfl
            rw [find_of_own hown] at hnone
            cases hnone
          simp only [ownRequirement, Function.update_of_ne htarget, hown, Option.bind_some]
          rw [List.getElem?_append_left hi, List.getElem?_eq_getElem hi]
          exact h

theorem ownRequirement_declared (hfresh : Fresh s) {scopes : List Utf16} (hmem : scope ∈ scopes) (hscope : trim scope ≠ []) :
    trim scope ∈ scopesOf (ownRequirement (decorate stores s cls (.requireScopes scopes) key) cls key) := by
  have htidy := tidy_trim hscope
  have hpatch : scope ∈ scopesOf (some (AuthDecorator.requireScopes scopes).patch) := hmem
  cases key with
  | none =>
    simp only [decorate, State.defineClass, ownRequirement, Function.update_self]
    exact htidy.merge (.inr (scopesOf_merge (.inr hpatch) hscope))
  | some key =>
    have hput (map : MethodRequirements) :
        trim scope ∈ scopesOf ((putRequirement map key (AuthDecorator.requireScopes scopes).patch).get key) := by
      have hmerged : trim scope ∈ scopesOf (mergeAuthRequirements (map.get key) (some (AuthDecorator.requireScopes scopes).patch)) :=
        scopesOf_merge (.inr hpatch) hscope
      unfold putRequirement
      split
      · rename_i merged heq
        rwa [OrderedMap.get_set_self, ← heq]
      · rename_i heq
        rw [heq] at hmerged
        cases hmerged
    simp only [decorate, State.defineMethod]
    split
    · rename_i i hi
      simp only [ownRequirement, Function.update_self, Option.bind_some]
      rw [List.getElem?_modify_eq, List.getElem?_eq_getElem (find_made hfresh hi)]
      exact hput _
    · simp only [ownRequirement, Function.update_self, Option.bind_some, List.getElem?_concat_length]
      exact hput _

/-- The scope is recorded for the class, or for one of its methods, and is in what is kept of these methods. -/
structure Demanded (cls : Core.Class) (key : Option MetadataPropertyKey) (scope : Utf16) (s : State) : Prop where
  recorded : scope ∈ scopesOf (ownRequirement s cls key)
  kept : ∀ methodName requirement, key.all (· = methodName) = true → s.mergedMethod cls methodName = some requirement → scope ∈ scopesOf requirement

theorem read_of_own {Record : Type} {slot : Slot Record} {record : Record} (hattached : cls ∈ s.attached) (h : slot cls = some record) :
    s.read slot cls = some record := by
  simp [State.read, hattached, h]

theorem Demanded.get (h : Demanded cls key scope s) (hscope : Tidy scope) (hattached : cls ∈ s.attached) {methodName : MetadataPropertyKey}
    (hkey : key.all (· = methodName) = true) : scope ∈ scopesOf (getAuthRequirement stores s cls (some methodName)) := by
  rw [getAuthRequirement]
  cases hmerged : s.mergedMethod cls methodName with
  | some requirement => exact h.kept methodName requirement hkey hmerged
  | none =>
    have hrecorded := h.recorded
    refine hscope.merge ?_
    cases key with
    | none =>
      left
      cases hown : s.classRequirement cls with
      | none =>
        rw [ownRequirement, hown] at hrecorded
        cases hrecorded
      | some record =>
        rw [ownRequirement, hown] at hrecorded
        rw [getOwnClassRequirement, read_of_own hattached hown]
        exact hscope.merge (.inr (hscope.normalize hrecorded))
    | some key =>
      right
      cases hown : s.methodRequirements cls with
      | none =>
        rw [ownRequirement, hown] at hrecorded
        cases hrecorded
      | some i =>
        rw [ownRequirement, hown] at hrecorded
        have hsame : key = methodName := by simpa using hkey
        rw [getOwnMethodRequirement, read_of_own hattached hown, ← hsame]
        exact hscope.merge (.inr (hscope.normalize hrecorded))

theorem Demanded.step (h : Demanded cls key scope s) (hfresh : Fresh s) (hscope : Tidy scope) {l : Label} (hordered : Ordered s l)
    (hstep : step stores s l = some s') : Demanded cls key scope s' := by
  cases l with
  | attach target =>
    cases hstep
    exact ⟨h.recorded, h.kept⟩
  | decorate target decorator propertyKey =>
    cases hstep
    refine ⟨ownRequirement_decorate hfresh hscope h.recorded target decorator propertyKey, fun methodName requirement hkey hmerged => ?_⟩
    rw [decorate_mergedMethod] at hmerged
    exact h.kept methodName requirement hkey hmerged
  | read target propertyKey =>
    cases hstep
    cases propertyKey with
    | none => exact ⟨h.recorded, h.kept⟩
    | some propertyKey =>
      refine ⟨h.recorded, fun methodName requirement hkey hmerged => ?_⟩
      by_cases htarget : cls = target
      · subst htarget
        by_cases hname : methodName = propertyKey
        · subst hname
          simp only [remember, Function.update_self, Option.some.injEq] at hmerged
          exact hmerged ▸ h.get hscope hordered hkey
        · simp only [remember, Function.update_self, Function.update_of_ne hname] at hmerged
          exact h.kept methodName requirement hkey hmerged
      · simp only [remember, Function.update_of_ne htarget] at hmerged
        exact h.kept methodName requirement hkey hmerged

theorem declared_demanded {ls : List Label} (h : Run (Passport.step stores) Ordered {} ls s) (hattached : cls ∈ s.attached)
    {methodName : MetadataPropertyKey} {l : Label} (hl : l ∈ ls) (hdeclares : Declares cls methodName scope l) (hscope : trim scope ≠ []) :
    trim scope ∈ scopesOf (getAuthRequirement stores s cls (some methodName)) := by
  obtain ⟨before, after, rfl⟩ := List.append_of_mem hl
  obtain ⟨s₁, hbefore, hrest⟩ := h.of_append
  have hfresh := hbefore.keeps Fresh (fun _ _ _ hordered hfresh hstep => hfresh.step hordered hstep) fresh_init
  have htidy := tidy_trim hscope
  cases hrest with
  | @cons _ _ s₂ _ _ hordered hstep hafter =>
    cases l with
    | attach target => cases hdeclares
    | read target propertyKey => cases hdeclares
    | decorate target decorator propertyKey =>
      cases decorator with
      | useAuth strategy => cases hdeclares
      | useOptionalAuth strategy => cases hdeclares
      | requireScopes scopes =>
        obtain ⟨rfl, hkey, hmem⟩ := hdeclares
        have hfresh' := hfresh.step hordered hstep
        have hdemanded : Demanded target propertyKey (trim scope) s₂ := by
          cases hstep
          refine ⟨ownRequirement_declared hfresh hmem hscope, fun methodName requirement _ hmerged => ?_⟩
          rw [decorate_mergedMethod, hfresh.unread target methodName hordered] at hmerged
          cases hmerged
        have hkept := hafter.keeps (fun s => Fresh s ∧ Demanded target propertyKey (trim scope) s)
          (fun _ _ _ hordered h hstep => ⟨h.1.step hordered hstep, h.2.step h.1 htidy hordered hstep⟩) ⟨hfresh', hdemanded⟩
        exact hkept.2.get htidy hattached hkey

end Steps

/-! ## Soundness -/

section Soundness
variable {E Token : Type} {guard : AuthGuard Token} {resolve : Token → Except (ResolveError E) (AuthStrategy E)}
  {requirement : Option AuthRequirement} {context context' : RequestContext}

/-- The guard let the request through with a principal: the selected strategy produced it, it is well formed, and it has the scopes. -/
structure Authenticated (guard : AuthGuard Token) (resolve : Token → Except (ResolveError E) (AuthStrategy E)) (requirement : Option AuthRequirement)
    (context context' : RequestContext) (scopes : Utf16 → Prop) (principal : Value) : Prop where
  produced : ∃ result left, guard.Returns resolve requirement context result left ∧ resolvePrincipal result = principal
  wellFormed : principal.isPrincipal = true
  written : context'.principal = some principal
  holds : ∀ scope, scopes scope → principal.includesScope scope = true

theorem accept_ok {context : RequestContext} {result : Value} (h : accept (E := E) requirement context result = .ok context') :
    (context' = context ∧ context.committed = true) ∨
      (context' = context ∧ isAuthOptionalResult result = true ∧ isOptional requirement = true ∧ scopesOf requirement = []) ∨
      (context' = { context with principal := some (resolvePrincipal result) } ∧ (resolvePrincipal result).isPrincipal = true ∧
        hasRequiredScopes (resolvePrincipal result) (scopesOf requirement) = true) := by
  unfold accept at h
  dsimp only at h
  split at h
  · split at h
    · cases h
    · rename_i hcommitted
      cases h
      exact .inl ⟨rfl, by simpa using hcommitted⟩
  · split at h
    · split at h
      · rename_i hoptional
        cases h
        simp only [Bool.and_eq_true, List.isEmpty_iff] at hoptional
        exact .inr (.inl ⟨rfl, hoptional.1.1, hoptional.1.2, hoptional.2⟩)
      · cases h
    · split at h
      · cases h
      · split at h
        · cases h
        · rename_i hprincipal hscopes
          cases h
          refine .inr (.inr ⟨rfl, by simpa using hprincipal, ?_⟩)
          cases hempty : scopesOf requirement with
          | nil => rfl
          | cons scope rest => simpa [hempty] using hscopes

/-- Without an active strategy, and with no scopes. -/
def Unguarded (guard : AuthGuard Token) (requirement : Option AuthRequirement) : Prop := guard.strategyName requirement = [] ∧ scopesOf requirement = []

/-- Optional, with no scopes, and the strategy reported no authentication. -/
def Anonymous (guard : AuthGuard Token) (resolve : Token → Except (ResolveError E) (AuthStrategy E)) (requirement : Option AuthRequirement)
    (context : RequestContext) : Prop :=
  isOptional requirement = true ∧ scopesOf requirement = [] ∧
    ∃ result left, guard.Returns resolve requirement context result left ∧ isAuthOptionalResult result = true

theorem canActivate_ok (h : guard.canActivate resolve requirement context = .ok context') (hopen : context'.committed = false) :
    Unguarded guard requirement ∨ Anonymous guard resolve requirement context ∨
      ∃ principal, Authenticated guard resolve requirement context context' (· ∈ scopesOf requirement) principal := by
  unfold AuthGuard.canActivate at h
  dsimp only at h
  split at h
  · rename_i hnone
    split at h
    · cases h
    · rename_i hscopes
      exact .inl ⟨hnone, by simpa using hscopes⟩
  · rename_i hname
    split at h
    · cases h
    · rename_i token htoken
      obtain ⟨strategy, hstrategy, h⟩ := bind_eq_ok.1 h
      have hresolve : resolve token = .ok strategy := by
        cases hresolve : resolve token <;> rw [hresolve] at hstrategy <;> cases hstrategy
        rfl
      cases houtcome : strategy context with
      | mk outcome left =>
        rw [houtcome] at h
        dsimp only at h
        cases outcome with
        | error error => cases h
        | ok result =>
          have hreturns : guard.Returns resolve requirement context result left := ⟨token, strategy, hname, htoken, hresolve, houtcome⟩
          have hpass : accept (E := E) requirement left result = .ok context' := by
            rw [ok_bind] at h
            cases hpass : accept (E := E) requirement left result <;> rw [hpass] at h <;> cases h
            rfl
          rcases accept_ok hpass with ⟨rfl, hcommitted⟩ | ⟨-, hresult, hoptional, hscopes⟩ | ⟨rfl, hprincipal, hscopes⟩
          · rw [hcommitted] at hopen
            cases hopen
          · exact .inr (.inl ⟨hoptional, hscopes, result, left, hreturns, hresult⟩)
          · exact .inr (.inr ⟨_, ⟨result, left, hreturns, rfl⟩, hprincipal, rfl, List.all_eq_true.1 hscopes⟩)

/-- The scopes that the decorators declared on the class or on the method. -/
def Declared (ls : List Label) (cls : Core.Class) (methodName : MetadataPropertyKey) (scope : Utf16) : Prop :=
  ∃ l ∈ ls, Declares cls methodName scope l

/-- A request that is let through, and not answered already, meets no requirement, or an optional one without credentials, or has a principal
of the selected strategy with every scope declared on the class and on the method, trimmed; blank ones do not count. -/
theorem canActivate_sound {stores : Stores} {ls : List Label} {s : State} (h : Run (step stores) Ordered {} ls s) {cls : Core.Class}
    (hattached : cls ∈ s.attached) (methodName : MetadataPropertyKey)
    (hactivate : guard.canActivate resolve (getAuthRequirement stores s cls (some methodName)) context = .ok context')
    (hopen : context'.committed = false) :
    Unguarded guard (getAuthRequirement stores s cls (some methodName)) ∨
      Anonymous guard resolve (getAuthRequirement stores s cls (some methodName)) context ∨
      ∃ principal, Authenticated guard resolve (getAuthRequirement stores s cls (some methodName)) context context'
        (fun scope => scope ≠ [] ∧ ∃ declared, Declared ls cls methodName declared ∧ trim declared = scope) principal := by
  rcases canActivate_ok hactivate hopen with hnone | hanonymous | ⟨principal, hauthenticated⟩
  · exact .inl hnone
  · exact .inr (.inl hanonymous)
  · refine .inr (.inr ⟨principal, hauthenticated.produced, hauthenticated.wellFormed, hauthenticated.written, ?_⟩)
    rintro scope ⟨hscope, declared, ⟨l, hl, hdeclares⟩, rfl⟩
    exact hauthenticated.holds _ (declared_demanded h hattached hl hdeclares hscope)

end Soundness

private def accounts : Core.Class := .base 0
private def close : MetadataPropertyKey := .text (units "close")

/-- Anyone's account may be closed by an admin, and read by others. -/
private def adminAccounts : List Label :=
  [.decorate accounts (.requireScopes [units " admin ", units ""]) (some close), .decorate accounts (.useAuth (units "jwt")) none,
    .decorate accounts (.requireScopes [units "accounts"]) none, .attach accounts, .read accounts (some close)]

private def accountsState : State := after (step ⟨fun _ => none, fun _ _ => none⟩) {} adminAccounts

private def adminOf (scopes : List String) : Value :=
  .obj [(units "subject", .str (units "ann")), (units "claims", .obj []), (units "scopes", .arr (scopes.map fun scope => .str (units scope)) [])]

private def jwtGuard : AuthGuard Unit where
  strategies := [(units "jwt", ())]

private def verifies (_ : Unit) : Except (ResolveError Unit) (AuthStrategy Unit) :=
  .ok fun context => (.ok (adminOf ["accounts", "admin"]), context)

private theorem ordered_accounts : Run (step ⟨fun _ => none, fun _ _ => none⟩) Ordered {} adminAccounts accountsState :=
  Run.of_passes (fun _ _ h => of_decide_eq_true h)
    (by decide : passes (step ⟨fun _ => none, fun _ _ => none⟩) (fun s l => decide (Ordered s l)) {} adminAccounts = true)

private def closeRequirement : Option AuthRequirement := getAuthRequirement ⟨fun _ => none, fun _ _ => none⟩ accountsState accounts (some close)

theorem canActivate_sound_accounts : Unguarded jwtGuard closeRequirement ∨ Anonymous jwtGuard verifies closeRequirement {} ∨
    ∃ principal, Authenticated jwtGuard verifies closeRequirement {} { principal := some (adminOf ["accounts", "admin"]) }
      (fun scope => scope ≠ [] ∧ ∃ declared, Declared adminAccounts accounts close declared ∧ trim declared = scope) principal :=
  canActivate_sound ordered_accounts (by decide) close rfl rfl

/-- The scope as it was declared, with its blanks, is not among those of the principal. -/
theorem canActivate_trims : ¬ ∀ (stores : Stores) (ls : List Label) (s : State) (cls : Core.Class) (methodName : MetadataPropertyKey)
    (guard : AuthGuard Unit) (resolve : Unit → Except (ResolveError Unit) (AuthStrategy Unit)) (context context' : RequestContext),
    Run (step stores) Ordered {} ls s → cls ∈ s.attached →
    guard.canActivate resolve (getAuthRequirement stores s cls (some methodName)) context = .ok context' → context'.committed = false →
    Unguarded guard (getAuthRequirement stores s cls (some methodName)) ∨
      Anonymous guard resolve (getAuthRequirement stores s cls (some methodName)) context ∨
      ∃ principal, Authenticated guard resolve (getAuthRequirement stores s cls (some methodName)) context context' (Declared ls cls methodName) principal := by
  intro h
  have hsound := h _ _ _ accounts close jwtGuard verifies {} { principal := some (adminOf ["accounts", "admin"]) } ordered_accounts (by decide) rfl rfl
  rcases hsound with ⟨hname, -⟩ | ⟨hoptional, -⟩ | ⟨principal, hauthenticated⟩
  · exact absurd hname (by decide)
  · exact absurd hoptional (by decide)
  · cases hauthenticated.written
    have hdeclared : Declared adminAccounts accounts close (units " admin ") := ⟨_, List.mem_cons_self, rfl, by decide, List.mem_cons_self⟩
    exact absurd (hauthenticated.holds _ hdeclared) (by decide)

end Fluo.Passport
