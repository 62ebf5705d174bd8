import Mathlib.Data.List.Nodup
import Mathlib.Data.List.Perm.Basic
import Fluo.Lib.OrderedMap
import Fluo.Lib.Runs
import Fluo.Lib.Slots
/-!
# The containers of GraphQL operations

`websocketOperationContainers` of `GraphqlLifecycleService`: an operation of a
WebSocket gets a request scope when it subscribes, and the scope is disposed when
the operation completes, cannot be prepared, or loses its socket.
-/

namespace Fluo.Graphql.OperationContainers
open Lib Lib.OrderedMap

structure State (κ ι : Type) where
  /-- The maps of all sockets as one map. -/
  websocketOperationContainers : OrderedMap (κ × ι) Nat := []
  /-- `createRequestScope` has been called this often. -/
  created : Nat := 0
  /-- The subscriptions whose `contextFactory` has not settled. -/
  preparing : List (κ × ι) := []
  /-- For each pass over the containers of a socket, those it has not come to. -/
  passes : List (List Nat) := []
  /-- The calls of `dispose`. -/
  disposed : List Nat := []

/-- What the request of a subscription leads to. -/
inductive Payload
  /-- The `context` option throws. -/
  | contextThrows
  /-- The document is not parsed, or has validation errors. -/
  | invalid
  | valid

variable {κ ι : Type} [DecidableEq κ] [DecidableEq ι]

namespace State

def socketContainers (s : State κ ι) (socket : κ) : OrderedMap (κ × ι) Nat :=
  s.websocketOperationContainers.filter fun entry => entry.1.1 = socket

/-- Without `limits` there is no error. -/
def createWebSocketOperationLimitError (limit : Option Nat) (s : State κ ι) (socket : κ) (operation : ι) : Bool :=
  limit.any fun maxOperations =>
    (s.websocketOperationContainers.get (socket, operation)).isNone && maxOperations ≤ (s.socketContainers socket).length

def getOrCreateWebSocketOperationContainer (s : State κ ι) (socket : κ) (operation : ι) : State κ ι :=
  match s.websocketOperationContainers.get (socket, operation) with
  | some _ => s
  | none =>
    { s with
      websocketOperationContainers := s.websocketOperationContainers.set (socket, operation) s.created
      created := s.created + 1 }

def disposeWebSocketOperationContainer (s : State κ ι) (socket : κ) (operation : ι) : State κ ι :=
  match s.websocketOperationContainers.get (socket, operation) with
  | none => s
  | some operationContainer =>
    { s with
      websocketOperationContainers := s.websocketOperationContainers.filter fun entry => entry.1 ≠ (socket, operation)
      disposed := s.disposed ++ [operationContainer] }

/-- The first of the containers is disposed at once. -/
def disposeAllWebSocketOperationContainers (s : State κ ι) (socket : κ) : State κ ι :=
  match (s.socketContainers socket).map Prod.snd with
  | [] => s
  | operationContainer :: rest =>
    { s with
      websocketOperationContainers := s.websocketOperationContainers.filter fun entry => !decide (entry.1.1 = socket)
      passes := s.passes ++ [rest]
      disposed := s.disposed ++ [operationContainer] }

/-- `handleWebSocketSubscribe` up to `contextFactory`. -/
def handleWebSocketSubscribe (limit : Option Nat) (s : State κ ι) (socket : κ) (operation : ι) (payload : Payload) : State κ ι :=
  if s.createWebSocketOperationLimitError limit socket operation then s
  else
    let started := s.getOrCreateWebSocketOperationContainer socket operation
    match payload with
    -- `buildGraphqlContext` stands before the `try`
    | .contextThrows => started
    | .invalid => started.disposeWebSocketOperationContainer socket operation
    | .valid => { started with preparing := s.preparing ++ [(socket, operation)] }

end State

inductive Label (κ ι : Type)
  | subscribe (socket : κ) (operation : ι) (payload : Payload)
  /-- A `contextFactory` settles. -/
  | prepared (socket : κ) (operation : ι) (failed : Bool)
  | complete (socket : κ) (operation : ι)
  /-- The socket is gone, or the shutdown has come to it. -/
  | disconnect (socket : κ)
  /-- A pass goes on to its next container. -/
  | next (index : Nat)

def step (limit : Option Nat) (s : State κ ι) : Label κ ι → Option (State κ ι)
  | .subscribe socket operation payload => some (s.handleWebSocketSubscribe limit socket operation payload)
  | .prepared socket operation failed =>
    if (socket, operation) ∈ s.preparing then
      let settled := { s with preparing := s.preparing.erase (socket, operation) }
      some (if failed then settled.disposeWebSocketOperationContainer socket operation else settled)
    else none
  | .complete socket operation => some (s.disposeWebSocketOperationContainer socket operation)
  | .disconnect socket => some (s.disposeAllWebSocketOperationContainers socket)
  | .next index =>
    match s.passes[index]? with
    | some (operationContainer :: rest) => some { s with passes := s.passes.set index rest, disposed := s.disposed ++ [operationContainer] }
    | _ => none

/-! ## Where the containers are -/

/-- The containers that are held, are about to be disposed or have been disposed. -/
def State.containers (s : State κ ι) : List Nat := s.websocketOperationContainers.map Prod.snd ++ s.passes.flatten ++ s.disposed

structure Accounted (limit : Option Nat) (s : State κ ι) : Prop where
  keyed : s.websocketOperationContainers.Keyed
  once : ∀ container, s.containers.count container = if container < s.created then 1 else 0
  within : ∀ maxOperations ∈ limit, ∀ socket, (s.socketContainers socket).length ≤ maxOperations

variable {limit : Option Nat} {s s' : State κ ι} {socket : κ} {operation : ι}

theorem count_of_get {map : OrderedMap (κ × ι) Nat} (h : map.Keyed) {key : κ × ι} {found : Nat} (hget : map.get key = some found) (container : Nat) :
    (map.map Prod.snd).count container =
      ((map.filter fun entry => entry.1 ≠ key).map Prod.snd).count container + [found].count container := by
  induction map with
  | nil => cases hget
  | cons entry rest ih =>
    have hkeyed := List.nodup_cons.1 h
    rw [get_cons] at hget
    by_cases hkey : entry.1 = key
    · rw [if_pos hkey] at hget
      cases hget
      have hrest : rest.filter (fun other => other.1 ≠ key) = rest := by
        apply List.filter_eq_self.2
        intro other hother
        exact decide_eq_true fun hsame => hkeyed.1 (List.mem_map.2 ⟨other, hother, hsame.trans hkey.symm⟩)
      rw [List.filter_cons_of_neg (by simp [hkey]), hrest]
      simp [List.count_cons]
    · rw [if_neg hkey] at hget
      have hle := ih hkeyed.2 hget
      rw [List.filter_cons_of_pos (by simp [hkey])]
      simp only [List.map_cons, List.count_cons] at hle ⊢
      omega

theorem Accounted.getOrCreate (h : Accounted limit s) (hlimit : s.createWebSocketOperationLimitError limit socket operation = false) :
    Accounted limit (s.getOrCreateWebSocketOperationContainer socket operation) := by
  unfold State.getOrCreateWebSocketOperationContainer
  cases hget : s.websocketOperationContainers.get (socket, operation) with
  | some _ => exact h
  | none =>
    have hset := set_of_notMem (get_eq_none.1 hget) s.created
    refine ⟨h.keyed.set _ _, fun container => ?_, fun maxOperations hmax socket' => ?_⟩
    · have honce := h.once container
      simp only [State.containers, hset, List.map_append, List.map_cons, List.map_nil, List.count_append, List.count_singleton, beq_iff_eq] at honce ⊢
      split_ifs at honce ⊢ <;> omega
    · have hle := h.within maxOperations hmax socket'
      have hlt : (s.socketContainers socket).length < maxOperations := by
        rw [State.createWebSocketOperationLimitError, Option.mem_def.1 hmax] at hlimit
        simpa [hget] using hlimit
      simp only [State.socketContainers, hset, List.filter_append, List.length_append] at hle hlt ⊢
      by_cases hsocket : socket = socket'
      · subst hsocket
        simp
        omega
      · simpa [hsocket] using hle

omit [DecidableEq ι] in
theorem Accounted.remove (h : Accounted limit s) (keep : (κ × ι) × Nat → Bool) (passes : List (List Nat)) (disposed : List Nat)
    (hcount : ∀ container, ((s.websocketOperationContainers.filter keep).map Prod.snd ++ passes.flatten ++ disposed).count container =
      s.containers.count container) :
    Accounted limit { s with websocketOperationContainers := s.websocketOperationContainers.filter keep, passes, disposed } where
  keyed := List.Nodup.sublist (List.filter_sublist.map _) h.keyed
  once container := (hcount container).trans (h.once container)
  within maxOperations hmax socket := by
    refine Nat.le_trans ?_ (h.within maxOperations hmax socket)
    exact (List.filter_sublist.filter _).length_le

theorem Accounted.disposeOne (h : Accounted limit s) : Accounted limit (s.disposeWebSocketOperationContainer socket operation) := by
  unfold State.disposeWebSocketOperationContainer
  cases hget : s.websocketOperationContainers.get (socket, operation) with
  | none => exact h
  | some operationContainer =>
    refine h.remove _ s.passes _ fun container => ?_
    have hcount := count_of_get h.keyed hget container
    simp only [State.containers, List.count_append] at hcount ⊢
    omega

omit [DecidableEq ι] in
theorem Accounted.disposeAll (h : Accounted limit s) : Accounted limit (s.disposeAllWebSocketOperationContainers socket) := by
  unfold State.disposeAllWebSocketOperationContainers
  split
  · exact h
  · next operationContainer rest hcontainers =>
    refine h.remove _ _ _ fun container => ?_
    have hcount := ((List.filter_append_perm (fun entry => decide (entry.1.1 = socket)) s.websocketOperationContainers).map Prod.snd).count_eq container
    rw [List.map_append, ← State.socketContainers, hcontainers] at hcount
    simp only [State.containers, List.count_append, List.count_cons, List.flatten_append, List.flatten_cons, List.flatten_nil, List.count_nil] at hcount ⊢
    omega

theorem Accounted.step {l : Label κ ι} (h : Accounted limit s) (hs : OperationContainers.step limit s l = some s') : Accounted limit s' := by
  cases l with
  | subscribe socket operation payload =>
    cases hs
    unfold State.handleWebSocketSubscribe
    cases hlimit : s.createWebSocketOperationLimitError limit socket operation with
    | true => exact h
    | false =>
      have hstarted := h.getOrCreate hlimit
      cases payload with
      | contextThrows => exact hstarted
      | invalid => exact hstarted.disposeOne
      | valid => exact ⟨hstarted.keyed, hstarted.once, hstarted.within⟩
  | prepared socket operation failed =>
    dsimp only [OperationContainers.step] at hs
    split at hs
    · cases hs
      have hsettled : Accounted limit { s with preparing := s.preparing.erase (socket, operation) } := ⟨h.keyed, h.once, h.within⟩
      cases failed with
      | true => exact hsettled.disposeOne
      | false => exact hsettled
    · cases hs
  | complete socket operation =>
    cases hs
    exact h.disposeOne
  | disconnect socket =>
    cases hs
    exact h.disposeAll
  | next index =>
    dsimp only [OperationContainers.step] at hs
    split at hs
    · next operationContainer rest hpass =>
      cases hs
      refine ⟨h.keyed, fun container => ?_, h.within⟩
      -- the container moves from its pass to those that are disposed
      have hcount := (flatten_set_perm hpass rest).count_eq container
      rw [← h.once container]
      simp only [State.containers, List.count_append, List.count_cons, List.count_nil] at hcount ⊢
      omega
    · cases hs

theorem Accounted.run {labels : List (Label κ ι)} (h : Run (OperationContainers.step limit) (fun _ _ => True) {} labels s) : Accounted limit s :=
  h.keeps (Accounted limit) (fun _ _ _ _ h hs => h.step hs) ⟨.nil, fun _ => rfl, fun _ _ _ => Nat.zero_le _⟩

/-- In every run each container that was created is held for one operation, waits for its turn in a pass, or has been disposed, and this only
once; and once no operation and no pass is left, each has been disposed once. -/
theorem containers_accounted {labels : List (Label κ ι)} (h : Run (step limit) (fun _ _ => True) {} labels s) :
    (∀ container < s.created, s.containers.count container = 1) ∧
      (s.websocketOperationContainers = [] → s.passes.flatten = [] → ∀ container < s.created, s.disposed.count container = 1) := by
  have honce : ∀ container < s.created, s.containers.count container = 1 := by
    intro container hlt
    rw [(Accounted.run h).once container, if_pos hlt]
  refine ⟨honce, fun hcontainers hpasses => ?_⟩
  rwa [State.containers, hcontainers, hpasses] at honce

/-- A socket is lost while one of its operations is prepared. -/
def lost : List (Label Nat Nat) :=
  [.subscribe 0 1 .valid, .subscribe 0 2 .valid, .subscribe 0 3 .invalid, .prepared 0 1 false, .disconnect 0, .prepared 0 2 true, .next 0]

theorem containers_accounted_lost : (after (step (some 2)) {} lost).disposed.count 1 = 1 :=
  (containers_accounted (Run.of_passes (fun _ _ _ => trivial) (by decide : passes (step (some 2)) (fun _ _ => true) {} lost = true))).2 rfl rfl 1
    (by decide)

/-- In every run the operations of a socket keep within the limit. -/
theorem operations_within_limit {labels : List (Label κ ι)} {maxOperations : Nat} (h : Run (step (some maxOperations)) (fun _ _ => True) {} labels s)
    (socket : κ) : (s.socketContainers socket).length ≤ maxOperations := (Accounted.run h).within maxOperations rfl socket

theorem operations_within_limit_lost : ((after (step (some 2)) {} (lost.take 4)).socketContainers 0).length ≤ 2 :=
  operations_within_limit (Run.of_passes (fun _ _ _ => trivial) (by decide : passes (step (some 2)) (fun _ _ => true) {} (lost.take 4) = true)) 0

end Fluo.Graphql.OperationContainers
