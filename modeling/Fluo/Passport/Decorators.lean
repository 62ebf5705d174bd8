import Fluo.Core.Metadata
import Fluo.Lib.Runs
import Fluo.Lib.Slots
/-!
# Auth requirements

What `UseAuth`, `UseOptionalAuth` and `RequireScopes` keep in the metadata bags of
controllers, and what `getAuthRequirement` makes of it. A map of method requirements
is an object of its own: bags that hold the same map see each other's entries.
-/

namespace Fluo.Passport
open Fluo.Lib
open Fluo.Core (MetadataPropertyKey)
open Fluo.Http.Mapping (trim)

structure AuthRequirement where
  strategy : Option Utf16 := none
  /-- Not there, or there and perhaps `undefined`. -/
  optional : Option (Option Bool) := none
  scopes : Option (List Utf16) := none
deriving DecidableEq

/-! ## Merging -/

def normalizeScopeItems (items : List Utf16) : Option (List Utf16) :=
  let normalized := items.foldl (fun normalized item =>
    let scope := trim item
    if scope = [] ∨ scope ∈ normalized then normalized else normalized ++ [scope]) []
  if normalized = [] then none else some normalized

def normalizeDeclaredScopes (scopes : Option (List Utf16)) : Option (List Utf16) := scopes.bind normalizeScopeItems

def AuthRequirement.optional? (requirement : AuthRequirement) : Option Bool := requirement.optional.join

/-- The requirement, unless it requires nothing. -/
def requirementOf (strategy : Option Utf16) (optional : Option Bool) (scopes : Option (List Utf16)) : Option AuthRequirement :=
  if (strategy.getD [] = []) ∧ scopes = none ∧ optional ≠ some true then none else some ⟨strategy, some optional, scopes⟩

def mergeAuthRequirements (base extra : Option AuthRequirement) : Option AuthRequirement :=
  if base = none ∧ extra = none then none
  else
    let scopesOf (requirement : Option AuthRequirement) := (requirement.bind (·.scopes)).getD []
    let scopes := normalizeDeclaredScopes (some (scopesOf base ++ scopesOf extra))
    let optional := match extra.bind (·.optional) with
      | some own => own
      | none => if base.bind (·.optional?) = some true ∧ (extra.bind (·.strategy)).getD [] ≠ [] then some false else base.bind (·.optional?)
    requirementOf (extra.bind (·.strategy) <|> base.bind (·.strategy)) optional scopes

def normalizeRequirement (requirement : Option AuthRequirement) : Option AuthRequirement :=
  requirement.bind fun requirement => requirementOf requirement.strategy requirement.optional? (normalizeDeclaredScopes requirement.scopes)

/-! ## The bags -/

abbrev MethodRequirements := OrderedMap MetadataPropertyKey AuthRequirement

/-- What `defineAuthRequirement` has stored. -/
structure Stores where
  classRequirement : Core.Class → Option AuthRequirement
  methodRequirement : Core.Class → MetadataPropertyKey → Option AuthRequirement

structure State where
  classRequirement : Slot AuthRequirement := fun _ => none
  /-- The map that a bag holds, by its place in `maps`. -/
  methodRequirements : Slot Nat := fun _ => none
  maps : List MethodRequirements := []
  /-- The classes that have their bag already, as a property. -/
  attached : List Core.Class := []
  mergedClass : Core.Class → Option (Option AuthRequirement) := fun _ => none
  mergedMethod : Core.Class → MetadataPropertyKey → Option (Option AuthRequirement) := fun _ _ => none

/-- `getStandardMetadataBag(target)?.[key]`: the bag that the class itself has over the bag of the nearest class above that has one. -/
def State.read {Record : Type} (s : State) (slot : Slot Record) (cls : Core.Class) : Option Record :=
  let above := cls.chain.tail.find? fun p => p ∈ s.attached
  if cls ∈ s.attached then slot cls <|> above.bind slot.find else above.bind slot.find

/-! ## Decorators -/

inductive AuthDecorator
  | useAuth (strategy : Utf16)
  | useOptionalAuth (strategy : Utf16)
  | requireScopes (scopes : List Utf16)

def AuthDecorator.patch : AuthDecorator → AuthRequirement
  | .useAuth strategy => { strategy := some strategy }
  | .useOptionalAuth strategy => { optional := some (some true), strategy := some strategy }
  | .requireScopes scopes => { scopes := some scopes }

section Reading
variable (stores : Stores) (s : State)

def getOwnClassRequirement (cls : Core.Class) : Option AuthRequirement :=
  mergeAuthRequirements (stores.classRequirement cls) (normalizeRequirement (s.read s.classRequirement cls))

def getOwnMethodRequirement (cls : Core.Class) (propertyKey : MetadataPropertyKey) : Option AuthRequirement :=
  let map := (s.read s.methodRequirements cls).bind fun i => s.maps[i]?
  mergeAuthRequirements (stores.methodRequirement cls propertyKey) (normalizeRequirement (map.bind fun map => map.get propertyKey))

/-- `getAuthRequirement`, of a class or of one of its methods. -/
def getAuthRequirement (cls : Core.Class) : Option MetadataPropertyKey → Option AuthRequirement
  | none => (s.mergedClass cls).getD (getOwnClassRequirement stores s cls)
  | some propertyKey =>
    (s.mergedMethod cls propertyKey).getD (mergeAuthRequirements (getOwnClassRequirement stores s cls) (getOwnMethodRequirement stores s cls propertyKey))

/-- `getAuthRequirement` keeps what it returns. -/
def remember (cls : Core.Class) : Option MetadataPropertyKey → State
  | none => { s with mergedClass := Function.update s.mergedClass cls (some (getAuthRequirement stores s cls none)) }
  | some propertyKey =>
    let cache := Function.update (s.mergedMethod cls) propertyKey (some (getAuthRequirement stores s cls (some propertyKey)))
    { s with mergedMethod := Function.update s.mergedMethod cls cache }

end Reading

/-- `defineStandardAuthRequirement`, of a class. -/
def State.defineClass (s : State) (cls : Core.Class) (requirement : Option AuthRequirement) : State :=
  { s with classRequirement := Function.update s.classRequirement cls (mergeAuthRequirements (s.classRequirement.find cls) requirement) }

def putRequirement (map : MethodRequirements) (propertyKey : MetadataPropertyKey) (patch : AuthRequirement) : MethodRequirements :=
  match mergeAuthRequirements (map.get propertyKey) (some patch) with
  | some merged => map.set propertyKey merged
  | none => map.filter fun entry => entry.1 ≠ propertyKey

/-- `defineStandardAuthRequirement`, of a method. -/
def State.defineMethod (s : State) (cls : Core.Class) (propertyKey : MetadataPropertyKey) (patch : AuthRequirement) : State :=
  match s.methodRequirements.find cls with
  | some i =>
    { s with
      maps := s.maps.modify i fun map => putRequirement map propertyKey patch
      methodRequirements := Function.update s.methodRequirements cls (some i) }
  | none =>
    { s with
      maps := s.maps ++ [putRequirement [] propertyKey patch]
      methodRequirements := Function.update s.methodRequirements cls (some s.maps.length) }

/-- `applyAuthRequirement`, to a class or to one of its methods. -/
def decorate (stores : Stores) (s : State) (cls : Core.Class) (decorator : AuthDecorator) : Option MetadataPropertyKey → State
  | none => s.defineClass cls (mergeAuthRequirements (getOwnClassRequirement stores s cls) (some decorator.patch))
  | some propertyKey => s.defineMethod cls propertyKey decorator.patch

inductive Label
  | decorate (cls : Core.Class) (decorator : AuthDecorator) (propertyKey : Option MetadataPropertyKey)
  /-- The decorator runtime gives the class its bag. -/
  | attach (cls : Core.Class)
  | read (cls : Core.Class) (propertyKey : Option MetadataPropertyKey)

def step (stores : Stores) (s : State) : Label → Option State
  | .decorate cls decorator propertyKey => some (decorate stores s cls decorator propertyKey)
  | .attach cls => some { s with attached := cls :: s.attached }
  | .read cls propertyKey => some (remember stores s cls propertyKey)

/-! ## Isolation -/

/-- A decorator leaves the requirement of every class that is not the decorated one or below it, and of all its methods, as it was. -/
def Isolated (stores : Stores) (s : State) : Label → Prop
  | .decorate cls decorator propertyKey => ∀ d : Core.Class, cls ∉ d.chain → ∀ key,
      getAuthRequirement stores (decorate stores s cls decorator propertyKey) d key = getAuthRequirement stores s d key
  | _ => True

/-- A method is decorated in a class whose bag has a map of its own, or finds none in the bags above. -/
def Own (s : State) : Label → Prop
  | .decorate cls _ (some _) => s.methodRequirements.Own cls
  | _ => True

instance (s : State) (l : Label) : Decidable (Own s l) :=
  match l with
  | .decorate cls _ (some _) => inferInstanceAs (Decidable (s.methodRequirements.Own cls))
  | .decorate _ _ none => isTrue trivial
  | .attach _ => isTrue trivial
  | .read _ _ => isTrue trivial

structure Inv (s : State) : Prop where
  made : ∀ p i, s.methodRequirements p = some i → i < s.maps.length
  apart : ∀ p q i, s.methodRequirements p = some i → s.methodRequirements q = some i → p = q

theorem Inv.init : Inv {} where
  made := by
    intro p i h
    cases h
  apart := by
    intro p q i h
    cases h

section Steps
variable {stores : Stores} {s s' : State} {cls d : Core.Class}

theorem read_congr {Record : Type} {slot slot' : Slot Record} (h : ∀ p ∈ d.chain, slot' p = slot p) : s.read slot' d = s.read slot d := by
  have habove : ∀ p ∈ d.chain.tail, slot'.find p = slot.find p := fun p hp =>
    Slot.find_congr fun q hq => h q (Proto.chain_subset (List.mem_of_mem_tail hp) hq)
  have hbind : ((d.chain.tail.find? fun p => p ∈ s.attached).bind slot'.find) = (d.chain.tail.find? fun p => p ∈ s.attached).bind slot.find := by
    cases hfind : d.chain.tail.find? fun p => p ∈ s.attached with
    | none => rfl
    | some p => exact habove p (List.mem_of_find?_eq_some hfind)
  simp only [State.read]
  rw [hbind, h d d.mem_chain_self]

theorem mem_chain_of_read {Record : Type} {slot : Slot Record} {record : Record} (h : s.read slot d = some record) :
    ∃ p ∈ d.chain, slot p = some record := by
  have habove : ∀ {record}, ((d.chain.tail.find? fun p => p ∈ s.attached).bind slot.find) = some record → ∃ p ∈ d.chain, slot p = some record := by
    intro record h
    obtain ⟨p, hp, hfind⟩ := Option.bind_eq_some_iff.1 h
    obtain ⟨q, hq, hrecord⟩ := List.exists_of_findSome?_eq_some hfind
    exact ⟨q, Proto.chain_subset (List.mem_of_mem_tail (List.mem_of_find?_eq_some hp)) hq, hrecord⟩
  simp only [State.read] at h
  split at h
  · cases hself : slot d with
    | some own =>
      rw [hself] at h
      cases h
      exact ⟨d, d.mem_chain_self, hself⟩
    | none =>
      rw [hself] at h
      exact habove h
  · exact habove h

theorem getAuthRequirement_congr (hclass : s'.read s'.classRequirement d = s.read s.classRequirement d)
    (hmethod : (s'.read s'.methodRequirements d).bind (s'.maps[·]?) = (s.read s.methodRequirements d).bind (s.maps[·]?))
    (hmergedClass : s'.mergedClass = s.mergedClass) (hmergedMethod : s'.mergedMethod = s.mergedMethod) (key : Option MetadataPropertyKey) :
    getAuthRequirement stores s' d key = getAuthRequirement stores s d key := by
  have hown : getOwnClassRequirement stores s' d = getOwnClassRequirement stores s d := by rw [getOwnClassRequirement, hclass, getOwnClassRequirement]
  cases key with
  | none => rw [getAuthRequirement, getAuthRequirement, hmergedClass, hown]
  | some propertyKey =>
    have hownMethod : getOwnMethodRequirement stores s' d propertyKey = getOwnMethodRequirement stores s d propertyKey := by
      rw [getOwnMethodRequirement, hmethod, getOwnMethodRequirement]
    rw [getAuthRequirement, getAuthRequirement, hmergedMethod, hown, hownMethod]

theorem defineClass_isolated (requirement : Option AuthRequirement) (hd : cls ∉ d.chain) (key : Option MetadataPropertyKey) :
    getAuthRequirement stores (s.defineClass cls requirement) d key = getAuthRequirement stores s d key := by
  refine getAuthRequirement_congr ?_ (by rfl) (by rfl) (by rfl) key
  refine read_congr fun p hp => ?_
  have hne : p ≠ cls := fun heq => hd (heq ▸ hp)
  exact Function.update_of_ne hne _ _

theorem find_eq_of_own (h : s.methodRequirements.Own cls) : s.methodRequirements.find cls = s.methodRequirements cls := by
  obtain ⟨above, hchain⟩ := Slot.chain_eq_cons cls
  rcases h with hself | hnone
  · obtain ⟨i, hi⟩ := Option.isSome_iff_exists.1 hself
    rw [Slot.find, hchain, List.findSome?_cons, hi]
  · have hfind : s.methodRequirements.find cls = none := Option.isNone_iff_eq_none.1 hnone
    rw [hfind]
    exact (List.findSome?_eq_none_iff.1 hfind cls cls.mem_chain_self).symm

theorem defineMethod_isolated (h : Inv s) (hown : s.methodRequirements.Own cls) (propertyKey : MetadataPropertyKey) (patch : AuthRequirement)
    (hd : cls ∉ d.chain) (key : Option MetadataPropertyKey) :
    getAuthRequirement stores (s.defineMethod cls propertyKey patch) d key = getAuthRequirement stores s d key := by
  have hslot : ∀ i, ∀ p ∈ d.chain, Function.update s.methodRequirements cls (some i) p = s.methodRequirements p := fun i p hp =>
    Function.update_of_ne (fun heq => hd (by rw [← heq]; exact hp)) _ _
  unfold State.defineMethod
  rw [find_eq_of_own hown]
  cases hi : s.methodRequirements cls with
  | some i =>
    refine getAuthRequirement_congr (by rfl) ?_ (by rfl) (by rfl) key
    change (s.read (Function.update s.methodRequirements cls (some i)) d).bind _ = _
    rw [read_congr (hslot i)]
    cases hread : s.read s.methodRequirements d with
    | none => rfl
    | some j =>
      obtain ⟨p, hp, hj⟩ := mem_chain_of_read hread
      have hne : i ≠ j := by
        rintro rfl
        exact hd (h.apart cls p i hi hj ▸ hp)
      exact List.getElem?_modify_ne _ _ hne
  | none =>
    refine getAuthRequirement_congr (by rfl) ?_ (by rfl) (by rfl) key
    change (s.read (Function.update s.methodRequirements cls (some s.maps.length)) d).bind _ = _
    rw [read_congr (hslot s.maps.length)]
    cases hread : s.read s.methodRequirements d with
    | none => rfl
    | some j =>
      obtain ⟨p, -, hj⟩ := mem_chain_of_read hread
      exact List.getElem?_append_left (h.made p j hj)

theorem Inv.defineMethod (h : Inv s) (hown : s.methodRequirements.Own cls) (propertyKey : MetadataPropertyKey) (patch : AuthRequirement) :
    Inv (s.defineMethod cls propertyKey patch) := by
  unfold State.defineMethod
  rw [find_eq_of_own hown]
  cases hi : s.methodRequirements cls with
  | some i =>
    have hsame : Function.update s.methodRequirements cls (some i) = s.methodRequirements := by rw [← hi, Function.update_eq_self]
    dsimp only
    rw [hsame]
    refine ⟨fun p j hj => ?_, h.apart⟩
    rw [List.length_modify]
    exact h.made p j hj
  | none =>
    -- a new map, which no bag has
    have hcases : ∀ p j, Function.update s.methodRequirements cls (some s.maps.length) p = some j →
        (p = cls ∧ j = s.maps.length) ∨ s.methodRequirements p = some j := by
      intro p j hj
      by_cases hp : p = cls
      · subst hp
        rw [Function.update_self] at hj
        exact .inl ⟨rfl, (Option.some.inj hj).symm⟩
      · rw [Function.update_of_ne hp] at hj
        exact .inr hj
    refine ⟨fun p j hj => ?_, fun p q j hp hq => ?_⟩
    · rw [List.length_append]
      rcases hcases p j hj with ⟨-, rfl⟩ | hj
      · exact Nat.lt_succ_self _
      · exact Nat.lt_succ_of_lt (h.made p j hj)
    · rcases hcases p j hp with ⟨hpcls, hj⟩ | hp' <;> rcases hcases q j hq with ⟨hqcls, hj'⟩ | hq'
      · exact hpcls.trans hqcls.symm
      · exact absurd (h.made q j hq') (hj ▸ Nat.lt_irrefl _)
      · exact absurd (h.made p j hp') (hj' ▸ Nat.lt_irrefl _)
      · exact h.apart p q j hp' hq'

theorem step_inv {l : Label} (hown : Own s l) (h : Inv s) (hstep : step stores s l = some s') : Inv s' := by
  cases l with
  | decorate cls decorator propertyKey =>
    cases hstep
    cases propertyKey with
    | none => exact ⟨h.made, h.apart⟩
    | some propertyKey => exact h.defineMethod hown propertyKey decorator.patch
  | attach cls =>
    cases hstep
    exact ⟨h.made, h.apart⟩
  | read cls propertyKey =>
    cases hstep
    cases propertyKey with
    | none => exact ⟨h.made, h.apart⟩
    | some propertyKey => exact ⟨h.made, h.apart⟩

theorem step_isolated {l : Label} (hown : Own s l) (h : Inv s) : Isolated stores s l := by
  cases l with
  | decorate cls decorator propertyKey =>
    intro d hd key
    cases propertyKey with
    | none => exact defineClass_isolated _ hd key
    | some propertyKey => exact defineMethod_isolated h hown propertyKey decorator.patch hd key
  | _ => trivial

end Steps

/-- Of decorators that find a map of their class's own, or none, none reaches another class than its own and those below it. -/
theorem isolated_of_own {stores : Stores} {ls : List Label} {s : State} (h : Run (step stores) Own {} ls s) :
    Run (step stores) (Isolated stores) {} ls s :=
  h.mono_of_inv Inv (fun _ _ _ hown hinv hstep => step_inv hown hinv hstep) (fun _ _ _ hown hinv _ => step_isolated hown hinv) .init

/-- A controller, and two that extend it. -/
private def reports : Core.Class := .base 0
private def publicReports : Core.Class := .extend 1 reports
private def adminReports : Core.Class := .extend 2 reports

private def list : MetadataPropertyKey := .text (units "list")
private def show' : MetadataPropertyKey := .text (units "show")

private def noRequirements : Stores := ⟨fun _ => none, fun _ _ => none⟩

/-- The controllers below are decorated on the class, and one has a method map before its base does. -/
private def careful : List Label :=
  [.decorate publicReports (.useOptionalAuth (units "cookie")) (some show'), .decorate reports (.useAuth (units "jwt")) (some list), .attach reports,
    .read reports (some list), .decorate publicReports (.useOptionalAuth (units "cookie")) (some list), .attach publicReports,
    .decorate adminReports (.requireScopes [units "admin"]) none, .attach adminReports]

theorem isolated_of_own_reports :
    Run (step noRequirements) (Isolated noRequirements) {} careful (after (step noRequirements) {} careful) :=
  isolated_of_own (Run.of_passes (fun _ _ h => of_decide_eq_true h)
    (by decide : passes (step noRequirements) (fun s l => decide (Own s l)) {} careful = true))

/-- The base requires of its method what it did before, unless it is decorated itself. -/
private def leavesBase (s : State) : Label → Bool
  | .decorate cls decorator propertyKey => cls ∈ reports.chain ∨
      getAuthRequirement noRequirements (decorate noRequirements s cls decorator propertyKey) reports (some list) =
        getAuthRequirement noRequirements s reports (some list)
  | _ => true

private theorem leavesBase_of_isolated {s : State} {l : Label} (h : Isolated noRequirements s l) : leavesBase s l = true := by
  cases l with
  | decorate cls decorator propertyKey =>
    refine decide_eq_true ?_
    by_cases hmem : cls ∈ reports.chain
    · exact .inl hmem
    · exact .inr (h reports hmem (some list))
  | _ => rfl

private def madePublic : List Label :=
  [.decorate reports (.useAuth (units "jwt")) (some list), .attach reports,
    .decorate publicReports (.useOptionalAuth (units "cookie")) (some list)]

/-- A method that a controller below makes public is public in the base. -/
theorem optional_reaches_base : ¬ ∀ (stores : Stores) (ls : List Label) (s : State), Run (step stores) (fun _ _ => True) {} ls s →
    Run (step stores) (Isolated stores) {} ls s := by
  intro h
  have hrun : Run (step noRequirements) (fun _ _ => True) {} madePublic (after (step noRequirements) {} madePublic) :=
    Run.of_passes (fun _ _ _ => trivial) (by decide : passes (step noRequirements) (fun _ _ => true) {} madePublic = true)
  exact absurd ((h noRequirements madePublic _ hrun).passes fun _ _ => leavesBase_of_isolated) (by decide)

end Fluo.Passport
