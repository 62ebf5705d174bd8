import Fluo.Lib.Runs
/-!
# The request scope of a dispatch

What `dispatch` and `dispatchNativeRoute` do with containers: the lazily
promoted `container` property of the request context, the pipeline's own
promotions, and the `finally` block. Whatever runs in between (middleware,
guards, interceptors, observers, the handler, `onError`) uses the handles it
has read from the context, in any order and also after the dispatch.

The native route is the dispatch without observers that starts on the root.
-/

namespace Fluo.Http

open Lib (Run after passes)

inductive ContainerRef
  | root
  /-- The `id`-th container that `rootContainer.createRequestScope()` returned here. -/
  | requestScope (id : Nat)
  deriving DecidableEq

structure DispatchScope where
  container : ContainerRef
  requestScoped : Bool

/-- What `requestContext.container` reads as: the wrapper or a container. -/
inductive Handle
  | wrapped
  | actual (container : ContainerRef)
  deriving DecidableEq

inductive Phase
  /-- In the `try` block or its `catch`. -/
  | running
  /-- In the `finally` block, at the request-finish observers. -/
  | finishing
  | ended
  deriving DecidableEq

inductive Party
  | handle | dispatcher | application
  deriving DecidableEq

/-- A call of `dispose()` that took effect. -/
structure Disposal where
  container : ContainerRef
  party : Party
  phase : Phase
  deriving DecidableEq

structure DispatchOptions where
  observers : Nat
  /-- Some application middleware applies to the request. -/
  middlewareMayRequireScope : Bool

structure Dispatch where
  options : DispatchOptions
  phase : Phase
  dispatchScope : DispatchScope
  containerPromotionOpen : Bool
  activeContainer : ContainerRef
  promoted : Bool
  /-- Request scopes created so far. -/
  created : Nat
  /-- The handles read from the context so far. -/
  exposed : List Handle
  /-- Newest first. -/
  disposals : List Disposal

namespace Dispatch

def isDisposed (s : Dispatch) (container : ContainerRef) : Bool := s.disposals.any (·.container == container)

/-- `Container.dispose()` takes effect once. -/
def dispose (s : Dispatch) (container : ContainerRef) (party : Party) : Dispatch :=
  if s.isDisposed container then s else { s with disposals := ⟨container, party, s.phase⟩ :: s.disposals }

/-- The setter of `requestContext.container`. -/
def setContainer (s : Dispatch) (value : ContainerRef) : Dispatch := { s with activeContainer := value, promoted := true }

/-- The getter of `requestContext.container`. -/
def getContainer (s : Dispatch) : Handle := if s.promoted then .actual s.activeContainer else .wrapped

/-- `createRequestDispatchScope`, which throws once the root is disposed. -/
def createRequestDispatchScope (s : Dispatch) : Option (DispatchScope × Dispatch) :=
  if s.isDisposed .root then none else some (⟨.requestScope s.created, true⟩, { s with created := s.created + 1 })

/-- The state in which an exception leaves it is the one before. -/
def ensureRequestScope (s : Dispatch) : Option Dispatch :=
  if s.dispatchScope.requestScoped then some s
  else (createRequestDispatchScope s).map fun (scope, s) => { s with dispatchScope := scope }.setContainer scope.container

def promoteOnContainerAccess (s : Dispatch) : Option (ContainerRef × Dispatch) :=
  if s.containerPromotionOpen then (ensureRequestScope s).map fun s => (s.dispatchScope.container, s)
  else some (s.dispatchScope.container, s)

def ensurePromoted (s : Dispatch) : Option (ContainerRef × Dispatch) :=
  if s.promoted then some (s.activeContainer, s)
  else (promoteOnContainerAccess s).map fun (container, s) => (container, s.setContainer container)

/-- `handle.resolve(token)`; a container's own resolve changes no scope. -/
def resolve (s : Dispatch) : Handle → Dispatch
  | .wrapped => ((ensurePromoted s).map Prod.snd).getD s
  | .actual _ => s

/-- `handle.dispose()`. -/
def disposeHandle (s : Dispatch) : Handle → Dispatch
  | .wrapped => if s.promoted then s.dispose s.activeContainer .handle else s
  | .actual container => s.dispose container .handle

/-- The rest of the `finally` block, once the observers have run. -/
def finish (s : Dispatch) : Dispatch :=
  let s := if s.dispatchScope.requestScoped then s else s.setContainer s.dispatchScope.container
  let s := { s with containerPromotionOpen := false, phase := .ended }
  if s.dispatchScope.requestScoped then s.dispose s.dispatchScope.container .dispatcher else s

end Dispatch

def dispatchStartMayRequireRequestScope (options : DispatchOptions) : Bool :=
  options.observers != 0 || options.middlewareMayRequireScope

/-- A dispatch once its context is set up, the root not being disposed. -/
def Dispatch.start (options : DispatchOptions) : Dispatch :=
  let scope : DispatchScope := if dispatchStartMayRequireRequestScope options then ⟨.requestScope 0, true⟩ else ⟨.root, false⟩
  { options, phase := .running, dispatchScope := scope, containerPromotionOpen := true, activeContainer := scope.container,
    promoted := false, created := if scope.requestScoped then 1 else 0, exposed := [], disposals := [] }

inductive DispatchEvent
  /-- The pipeline calls `ensureRequestScope`. -/
  | ensureRequestScope
  /-- Somebody reads `requestContext.container`. -/
  | read
  | resolve (handle : Handle)
  | dispose (handle : Handle)
  /-- The `try` statement is left, by a return or an exception. -/
  | leave
  /-- The request-finish observers have run, or failed and been logged. -/
  | finish
  /-- Logging the failure of a request-finish observer throws. -/
  | failFinish
  /-- The application disposes the root container. -/
  | shutdown

def Dispatch.step (s : Dispatch) : DispatchEvent → Option Dispatch
  | .ensureRequestScope => if s.phase = .running then some (s.ensureRequestScope.getD s) else none
  | .read => some { s with exposed := s.getContainer :: s.exposed }
  | .resolve handle => if handle ∈ s.exposed then some (s.resolve handle) else none
  | .dispose handle => if handle ∈ s.exposed then some (s.disposeHandle handle) else none
  | .leave => if s.phase = .running then some { s with phase := .finishing } else none
  | .finish => if s.phase = .finishing then some s.finish else none
  | .failFinish => if s.phase = .finishing ∧ s.options.observers ≠ 0 then some { s with phase := .ended } else none
  | .shutdown => some (s.dispose .root .application)

/-! ## The lifecycle -/

/-- At most one request scope is created; once the dispatch has ended it has
been disposed once, after the finish observers; no handle disposes the root. -/
structure Dispatch.Lifecycle (s : Dispatch) : Prop where
  created : s.created ≤ 1
  disposed : s.phase = .ended → ∀ id < s.created,
    s.disposals.filter (·.container = .requestScope id) = [⟨.requestScope id, .dispatcher, .ended⟩]
  rootKept : ∀ d ∈ s.disposals, d.container = .root → d.party ≠ .handle

/-- Logging a failed finish observer does not throw, and `dispose()` is called
on a handle only while it has promoted nothing, or after a dispatch that
had a request scope. -/
def Dispatch.Careful (s : Dispatch) : DispatchEvent → Prop
  | .dispose handle =>
    if s.phase = .ended then s.dispatchScope.requestScoped ∨ s.isDisposed .root else handle = .wrapped ∧ s.promoted = false
  | .failFinish => False
  | _ => True

/-- The container of a dispatch that has created so many request scopes. -/
def scopeAfter (created : Nat) : DispatchScope := if created = 0 then ⟨.root, false⟩ else ⟨.requestScope 0, true⟩

namespace Dispatch

structure Inv (s : Dispatch) : Prop where
  created : s.created ≤ 1
  scope : s.dispatchScope = scopeAfter s.created
  active : s.promoted → s.activeContainer = s.dispatchScope.container
  exposed : ∀ c, .actual c ∈ s.exposed → s.promoted ∧ c = s.dispatchScope.container
  /-- Before the end a promotion has created the scope, and only the application disposes. -/
  before : s.phase ≠ .ended → s.containerPromotionOpen ∧ (s.promoted → s.created = 1) ∧
    ∀ d ∈ s.disposals, d.container = .root ∧ d.party = .application
  after : s.phase = .ended → s.containerPromotionOpen = false ∧ (s.promoted ∨ s.created = 1) ∧
    ∀ d ∈ s.disposals, d = ⟨.requestScope 0, .dispatcher, .ended⟩ ∨ d.container = .root ∧ d.party = .application
  disposed : s.phase = .ended → s.created = 1 →
    s.disposals.filter (·.container = .requestScope 0) = [⟨.requestScope 0, .dispatcher, .ended⟩]

theorem Inv.start (options : DispatchOptions) : (start options).Inv := by
  unfold Dispatch.start
  cases dispatchStartMayRequireRequestScope options <;>
    exact ⟨by simp, by simp [scopeAfter], by simp, by simp, by simp, by simp, by simp⟩

variable {s s' : Dispatch}

theorem Inv.lifecycle (h : s.Inv) : s.Lifecycle where
  created := h.created
  disposed := by
    intro hp id hid
    have hc := h.created
    obtain rfl : id = 0 := by omega
    exact h.disposed hp (by omega)
  rootKept := by
    intro d hd hroot
    by_cases hp : s.phase = .ended
    · rcases (h.after hp).2.2 d hd with rfl | ⟨-, hparty⟩
      · cases hroot
      · rw [hparty]; decide
    · rw [((h.before hp).2.2 d hd).2]; decide

/-! ### What the operations keep -/

theorem dispose_of_isDisposed {c : ContainerRef} (h : s.isDisposed c = true) (party : Party) : s.dispose c party = s :=
  if_pos h

theorem Inv.shutdown (h : s.Inv) : (s.dispose .root .application).Inv := by
  unfold dispose
  split
  next => exact h
  next =>
    refine { h with before := fun hp => ?_, after := fun hp => ?_, disposed := fun hp hc => ?_ }
    · obtain ⟨ho, hprom, hd⟩ := h.before hp
      exact ⟨ho, hprom, List.forall_mem_cons.2 ⟨⟨rfl, rfl⟩, hd⟩⟩
    · obtain ⟨ho, hprom, hd⟩ := h.after hp
      exact ⟨ho, hprom, List.forall_mem_cons.2 ⟨.inr ⟨rfl, rfl⟩, hd⟩⟩
    · simpa using h.disposed hp hc

theorem Inv.ensureRequestScope (h : s.Inv) (hp : s.phase ≠ .ended) (hs : s.ensureRequestScope = some s') :
    s'.Inv ∧ s'.created = 1 ∧ s'.phase = s.phase ∧ s'.disposals = s.disposals := by
  unfold Dispatch.ensureRequestScope at hs
  split at hs
  next hr =>
    cases hs
    refine ⟨h, ?_, rfl, rfl⟩
    rw [h.scope, scopeAfter] at hr
    split at hr
    next => cases hr
    next hc => have := h.created; omega
  next hr =>
    obtain ⟨⟨scope, t⟩, ht, rfl⟩ := Option.map_eq_some_iff.1 hs
    unfold createRequestDispatchScope at ht
    split at ht
    next => cases ht
    next =>
      cases ht
      have hc : s.created = 0 := by
        by_contra hne
        rw [h.scope, scopeAfter, if_neg hne] at hr
        exact hr rfl
      obtain ⟨ho, hprom, hd⟩ := h.before hp
      have hfalse : ¬s.promoted = true := fun hpr => by rw [hprom hpr] at hc; cases hc
      refine ⟨⟨by simp [setContainer, hc], by simp [setContainer, scopeAfter, hc], fun _ => rfl, ?_, fun _ => ⟨ho, fun _ => ?_, hd⟩,
        fun hend => absurd hend hp, fun hend => absurd hend hp⟩, by simp [setContainer, hc], rfl, rfl⟩
      · exact fun c hmem => absurd (h.exposed c hmem).1 hfalse
      · simp [setContainer, hc]

theorem Inv.setContainer (h : s.Inv) (hc : s.phase ≠ .ended → s.created = 1) :
    (s.setContainer s.dispatchScope.container).Inv :=
  { created := h.created
    scope := h.scope
    active := fun _ => rfl
    exposed := fun c hmem => ⟨rfl, (h.exposed c hmem).2⟩
    before := fun hp => ⟨(h.before hp).1, fun _ => hc hp, (h.before hp).2.2⟩
    after := fun hp => ⟨(h.after hp).1, .inl rfl, (h.after hp).2.2⟩
    disposed := h.disposed }

theorem Inv.ensurePromoted {c : ContainerRef} (h : s.Inv) (hs : s.ensurePromoted = some (c, s')) : s'.Inv := by
  unfold Dispatch.ensurePromoted at hs
  split at hs
  next => cases hs; exact h
  next =>
    obtain ⟨⟨c', t⟩, ht, hs⟩ := Option.map_eq_some_iff.1 hs
    cases hs
    unfold promoteOnContainerAccess at ht
    split at ht
    next ho =>
      obtain ⟨t', ht', he⟩ := Option.map_eq_some_iff.1 ht
      cases he
      have hp : s.phase ≠ .ended := fun hp => by rw [(h.after hp).1] at ho; cases ho
      obtain ⟨hi, hc, -, -⟩ := h.ensureRequestScope hp ht'
      exact hi.setContainer fun _ => hc
    next ho =>
      cases ht
      refine h.setContainer fun hp => ?_
      exact absurd (h.before hp).1 ho

theorem Inv.resolve (h : s.Inv) (handle : Handle) : (s.resolve handle).Inv := by
  cases handle with
  | actual => exact h
  | wrapped =>
    unfold Dispatch.resolve
    cases he : s.ensurePromoted with
    | none => exact h
    | some r => exact h.ensurePromoted he

theorem Inv.disposeHandle (h : s.Inv) {handle : Handle} (hm : handle ∈ s.exposed)
    (hc : s.Careful (.dispose handle)) : s.disposeHandle handle = s := by
  dsimp only [Careful] at hc
  split at hc
  next hp =>
    -- what the handle reaches has been disposed already
    have hgone : s.isDisposed s.dispatchScope.container = true := by
      have hsc := h.scope
      unfold scopeAfter at hsc
      split at hsc
      next =>
        rw [hsc] at hc ⊢
        exact hc.resolve_left Bool.false_ne_true
      next hne =>
        have hd := h.disposed hp (by have := h.created; omega)
        rw [hsc, isDisposed, List.any_eq_true]
        have hmem : (⟨.requestScope 0, .dispatcher, .ended⟩ : Disposal) ∈ s.disposals :=
          List.mem_of_mem_filter (hd ▸ List.mem_singleton_self _)
        exact ⟨_, hmem, by simp⟩
    cases handle with
    | wrapped =>
      dsimp only [Dispatch.disposeHandle]
      split
      next hpr =>
        rw [h.active hpr]
        exact dispose_of_isDisposed hgone _
      next => rfl
    | actual c =>
      rw [(h.exposed c hm).2]
      exact dispose_of_isDisposed hgone _
  next =>
    obtain ⟨rfl, hpr⟩ := hc
    simp [Dispatch.disposeHandle, hpr]

theorem Inv.finish (h : s.Inv) (hp : s.phase = .finishing) : s.finish.Inv := by
  have hne : s.phase ≠ .ended := by rw [hp]; decide
  obtain ⟨-, -, hd⟩ := h.before hne
  have hsc := h.scope
  unfold scopeAfter at hsc
  unfold Dispatch.finish
  split at hsc
  next hc =>
    simp only [hsc, Bool.false_eq_true, if_false, Dispatch.setContainer]
    exact ⟨h.created, by simp [scopeAfter, hc], fun _ => rfl, fun c hmem => ⟨rfl, (h.exposed c hmem).2.trans (by rw [hsc])⟩,
      fun hn => absurd rfl hn, fun _ => ⟨rfl, .inl rfl, fun d hm => .inr (hd d hm)⟩, fun _ h1 => by simp [hc] at h1⟩
  next hc =>
    have h1 : s.created = 1 := by have := h.created; omega
    have hfresh {t : Dispatch} (ht : t.disposals = s.disposals) : ¬t.isDisposed (.requestScope 0) = true := by
      rw [Bool.not_eq_true, isDisposed, List.any_eq_false, ht]
      intro d hm
      rw [(hd d hm).1]
      decide
    have hnone : s.disposals.filter (·.container = .requestScope 0) = [] := by
      rw [List.filter_eq_nil_iff]
      intro d hm
      rw [(hd d hm).1]
      decide
    simp only [hsc, if_true, Dispatch.dispose]
    split
    next hd => exact absurd hd (hfresh rfl)
    next =>
      exact ⟨h.created, by simp [scopeAfter, h1], fun hpr => (h.active hpr).trans (by rw [hsc]),
        fun c hmem => ⟨(h.exposed c hmem).1, (h.exposed c hmem).2.trans (by rw [hsc])⟩, fun hn => absurd rfl hn,
        fun _ => ⟨rfl, .inr h1, List.forall_mem_cons.2 ⟨.inl rfl, fun d hm => .inr (hd d hm)⟩⟩,
        fun _ _ => by rw [List.filter_cons_of_pos (by simp), hnone]⟩

theorem Inv.step {e : DispatchEvent} (h : s.Inv) (hc : s.Careful e) (hs : s.step e = some s') : s'.Inv := by
  cases e with
  | ensureRequestScope =>
    obtain ⟨hp, hs⟩ := Option.ite_none_right_eq_some.1 hs
    cases hs
    cases he : s.ensureRequestScope with
    | none => exact h
    | some t => exact (h.ensureRequestScope (by rw [hp]; decide) he).1
  | read =>
    cases hs
    refine { h with exposed := fun c hmem => ?_ }
    rcases List.mem_cons.1 hmem with hget | hmem
    · unfold getContainer at hget
      split at hget
      next hpr => cases hget; exact ⟨hpr, h.active hpr⟩
      next => cases hget
    · exact h.exposed c hmem
  | resolve handle =>
    obtain ⟨-, hs⟩ := Option.ite_none_right_eq_some.1 hs
    cases hs
    exact h.resolve handle
  | dispose handle =>
    obtain ⟨hm, hs⟩ := Option.ite_none_right_eq_some.1 hs
    cases hs
    rw [h.disposeHandle hm hc]
    exact h
  | leave =>
    obtain ⟨hp, hs⟩ := Option.ite_none_right_eq_some.1 hs
    cases hs
    have hne : s.phase ≠ .ended := by rw [hp]; decide
    exact { h with before := fun _ => h.before hne, after := (fun hend => by cases hend), disposed := (fun hend => by cases hend) }
  | finish =>
    obtain ⟨hp, hs⟩ := Option.ite_none_right_eq_some.1 hs
    cases hs
    exact h.finish hp
  | failFinish => exact hc.elim
  | shutdown =>
    cases hs
    exact h.shutdown

end Dispatch

private def isCareful (s : Dispatch) : DispatchEvent → Bool
  | .dispose handle =>
    if s.phase = .ended then s.dispatchScope.requestScoped || s.isDisposed .root else decide (handle = .wrapped) && !s.promoted
  | .failFinish => false
  | _ => true

private theorem careful_of (s : Dispatch) (e : DispatchEvent) (h : isCareful s e = true) : s.Careful e := by
  cases e <;> simp_all [isCareful, Dispatch.Careful]

private def promotedRun : List DispatchEvent := [.read, .dispose .wrapped, .resolve .wrapped, .leave, .finish, .dispose .wrapped]

private def singletonRun : List DispatchEvent := [.read, .leave, .finish, .dispose .wrapped]

end Fluo.Http
