import Fluo.Lib.Runs
import Fluo.Lib.Slots
/-!
# Upgrade admission of the Node gateways

`NodeWebSocketGatewayLifecycleService`, from the `upgrade` event of a request to the end of
its connection. What a guard, `ws` and the sockets do is the environment's. A shutdown is
here as far as the upgrades see it; that it forgets all connections at its end is not.
-/

namespace Fluo.Websockets
open Fluo.Lib

structure WebSocketUpgradeRejection where
  body : Option String := none
  headers : List (String × String) := []
  status : Nat
deriving DecidableEq

/-- An option where `isFinitePositiveInteger` holds, or its default; `none` is also what is no integer. -/
def positiveIntegerOr (fallback : Nat) : Option Int → Nat
  | some configured => if 0 < configured then configured.toNat else fallback
  | none => fallback

structure UpgradeConfig where
  /-- `limits.maxConnections` -/
  maxConnections : Option Int
  hasGuard : Bool

def DEFAULT_MAX_WEBSOCKET_CONNECTIONS : Nat := 1000

def UpgradeConfig.resolveMaxConnectionCount (config : UpgradeConfig) : Nat :=
  positiveIntegerOr DEFAULT_MAX_WEBSOCKET_CONNECTIONS config.maxConnections

/-- An upgrade request, and the connection that it may become. -/
inductive Upgrade
  /-- The guard is awaited. -/
  | guarding (activeConnectionCount : Nat)
  /-- There is no rejection, and the handshake comes next. -/
  | admitted
  | open
  /-- `unregisterSocket` has been called. -/
  | closed
  | rejected (rejection : WebSocketUpgradeRejection)
  /-- `ws` has answered the bad handshake itself. -/
  | answered
  /-- Another listener may take it. -/
  | ignored
deriving DecidableEq

structure UpgradeState where
  isShuttingDown : Bool := false
  pendingUpgradeReservations : Nat := 0
  /-- A socket has the place of its request as its id. -/
  socketRegistry : List Nat := []
  upgrades : List Upgrade := []
deriving DecidableEq

inductive UpgradeTarget
  | badUrl
  | noGateway (otherListeners : Bool)
  | gateway

inductive GuardOutcome
  | accepted
  | refused
  | rejection (rejection : WebSocketUpgradeRejection)
  | httpException (message : String) (status : Nat)
  | error

inductive HandshakeOutcome
  | connected
  | threw
  /-- Neither: `ws` answers the request itself. -/
  | answered

inductive UpgradeLabel
  | upgrade (target : UpgradeTarget)
  | guard (i : Nat) (outcome : GuardOutcome)
  | handshake (i : Nat) (outcome : HandshakeOutcome)
  | close (i : Nat)
  | error (i : Nat)
  /-- The heartbeat or an overflow ends the connection. -/
  | terminate (i : Nat)
  | shutdown

/-! ## Requests -/

def badUpgradeRequest : WebSocketUpgradeRejection := { status := 400 }

def noGatewayRequest : WebSocketUpgradeRejection := { status := 404 }

def shuttingDownRejection : WebSocketUpgradeRejection := { body := some "WebSocket server is shutting down.", status := 503 }

def limitRejection : WebSocketUpgradeRejection := { body := some "WebSocket connection limit exceeded.", status := 429 }

def guardRejection : WebSocketUpgradeRejection := { body := some "WebSocket upgrade rejected.", status := 403 }

/-- What the listener answers to an error. -/
def errorRejection : WebSocketUpgradeRejection := { body := some "Internal server error", status := 500 }

namespace UpgradeState

def add (s : UpgradeState) (upgrade : Upgrade) : UpgradeState := { s with upgrades := s.upgrades ++ [upgrade] }

def set (s : UpgradeState) (i : Nat) (upgrade : Upgrade) : UpgradeState := { s with upgrades := s.upgrades.set i upgrade }

def resolveReservedConnectionCount (s : UpgradeState) : Nat := s.socketRegistry.length + s.pendingUpgradeReservations

def tryReserveUpgradeSlot (config : UpgradeConfig) (s : UpgradeState) : Option UpgradeState :=
  if s.resolveReservedConnectionCount ≥ config.resolveMaxConnectionCount then none
  else some { s with pendingUpgradeReservations := s.pendingUpgradeReservations + 1 }

/-- A subtraction of `Nat` stops at zero, as the check before it does. -/
def releaseUpgradeReservation (s : UpgradeState) : UpgradeState :=
  { s with pendingUpgradeReservations := s.pendingUpgradeReservations - 1 }

/-- `handleUpgradeRequest`, to its first await. -/
def upgrade (config : UpgradeConfig) (s : UpgradeState) : UpgradeTarget → UpgradeState
  | .badUrl => s.add (.rejected badUpgradeRequest)
  | .noGateway otherListeners => s.add (if otherListeners then .ignored else .rejected noGatewayRequest)
  | .gateway =>
    if s.isShuttingDown then s.add (.rejected shuttingDownRejection)
    else match s.tryReserveUpgradeSlot config with
      | none => s.add (.rejected limitRejection)
      | some s => s.add (if config.hasGuard then .guarding (s.resolveReservedConnectionCount - 1) else .admitted)

/-- The rest of `resolveUpgradeRejection`. -/
def guard (s : UpgradeState) (i : Nat) : GuardOutcome → UpgradeState
  | .httpException message status => s.releaseUpgradeReservation.set i (.rejected { body := some message, status })
  | .error => s.releaseUpgradeReservation.set i (.rejected errorRejection)
  | outcome =>
    if s.isShuttingDown then s.releaseUpgradeReservation.set i (.rejected shuttingDownRejection)
    else match outcome with
      | .refused => s.releaseUpgradeReservation.set i (.rejected guardRejection)
      | .rejection rejection => s.releaseUpgradeReservation.set i (.rejected rejection)
      | _ => s.set i .admitted

def registerSocketConnection (s : UpgradeState) (i : Nat) : UpgradeState :=
  let s := s.releaseUpgradeReservation
  { s with socketRegistry := s.socketRegistry ++ [i] }

/-- `handleUpgrade` of `ws`, with the `catch` around it. -/
def handshake (s : UpgradeState) (i : Nat) : HandshakeOutcome → UpgradeState
  | .connected => (s.registerSocketConnection i).set i .open
  | .threw => s.releaseUpgradeReservation.set i (.rejected errorRejection)
  | .answered => s.set i .answered

def unregisterSocket (s : UpgradeState) (i : Nat) : UpgradeState :=
  { s with socketRegistry := s.socketRegistry.erase i }.set i .closed

@[simp] theorem set_upgrades (s : UpgradeState) (i : Nat) (u : Upgrade) : (s.set i u).upgrades = s.upgrades.set i u := rfl
@[simp] theorem release_upgrades (s : UpgradeState) : s.releaseUpgradeReservation.upgrades = s.upgrades := rfl
@[simp] theorem register_upgrades (s : UpgradeState) (i : Nat) : (s.registerSocketConnection i).upgrades = s.upgrades := rfl
@[simp] theorem unregister_upgrades (s : UpgradeState) (i : Nat) : (s.unregisterSocket i).upgrades = s.upgrades.set i .closed := rfl

end UpgradeState

def Upgrade.isGuarding : Upgrade → Bool
  | .guarding _ => true
  | _ => false

/-- An event of a socket, which there may be more than one of. -/
def UpgradeState.unregister (s : UpgradeState) (i : Nat) : Option UpgradeState := do
  let upgrade ← s.upgrades[i]?
  if upgrade = .open ∨ upgrade = .closed then some (s.unregisterSocket i) else none

def upgradeStep (config : UpgradeConfig) (s : UpgradeState) : UpgradeLabel → Option UpgradeState
  | .upgrade target => some (s.upgrade config target)
  | .guard i outcome => do
    let upgrade ← s.upgrades[i]?
    if upgrade.isGuarding = true then some (s.guard i outcome) else none
  | .handshake i outcome => do
    let upgrade ← s.upgrades[i]?
    if upgrade = .admitted then some (s.handshake i outcome) else none
  | .close i => s.unregister i
  | .error i => s.unregister i
  | .terminate i => s.unregister i
  | .shutdown => some { s with isShuttingDown := true }

/-! ## Accounting -/

/-- The request has passed the limit, and the answer to it is open. -/
def Upgrade.isInFlight : Upgrade → Bool
  | .guarding _ => true
  | .admitted => true
  | _ => false

structure UpgradeState.Accounted (config : UpgradeConfig) (s : UpgradeState) : Prop where
  count : s.resolveReservedConnectionCount = s.upgrades.countP Upgrade.isInFlight + s.upgrades.count .open
  limit : s.resolveReservedConnectionCount ≤ config.resolveMaxConnectionCount
  /-- Without requests and connections the service is as before the first. -/
  none  : (∀ upgrade ∈ s.upgrades, upgrade.isInFlight = false ∧ upgrade ≠ .open) → s.resolveReservedConnectionCount = 0

/-- `ws` answers a bad handshake itself. -/
def UpgradeLabel.isAnswered : UpgradeLabel → Bool
  | .handshake _ .answered => true
  | _ => false

variable {config : UpgradeConfig} {s s' : UpgradeState}

inductive UpgradeStepped (config : UpgradeConfig) (s : UpgradeState) (answered : Bool) : UpgradeState → Prop
  | refuse (new : Upgrade) : answered = false → new.isInFlight = false → new ≠ .open → new ≠ .answered → UpgradeStepped config s answered (s.add new)
  | reserve (new : Upgrade) : answered = false → s.resolveReservedConnectionCount < config.resolveMaxConnectionCount →
      new.isInFlight → UpgradeStepped config s answered { s.add new with pendingUpgradeReservations := s.pendingUpgradeReservations + 1 }
  | pass (i : Nat) (old : Upgrade) : answered = false → s.upgrades[i]? = some old → old.isInFlight → UpgradeStepped config s answered (s.set i .admitted)
  | reject (i : Nat) (old : Upgrade) (rejection : WebSocketUpgradeRejection) : answered = false → s.upgrades[i]? = some old → old.isInFlight →
      UpgradeStepped config s answered (s.releaseUpgradeReservation.set i (.rejected rejection))
  | register (i : Nat) : answered = false → s.upgrades[i]? = some .admitted →
      UpgradeStepped config s answered ((s.registerSocketConnection i).set i .open)
  | answer (i : Nat) : answered = true → s.upgrades[i]? = some .admitted → UpgradeStepped config s answered (s.set i .answered)
  | unregister (i : Nat) (old : Upgrade) : answered = false → s.upgrades[i]? = some old → old = .open ∨ old = .closed →
      UpgradeStepped config s answered (s.unregisterSocket i)
  | shutdown : answered = false → UpgradeStepped config s answered { s with isShuttingDown := true }

theorem stepped_upgrade (target : UpgradeTarget) : UpgradeStepped config s false (s.upgrade config target) := by
  cases target with
  | badUrl => exact .refuse _ rfl rfl (by simp) (by simp)
  | noGateway otherListeners => cases otherListeners <;> exact .refuse _ rfl rfl (by simp) (by simp)
  | gateway =>
    simp only [UpgradeState.upgrade, UpgradeState.tryReserveUpgradeSlot]
    split
    · exact .refuse _ rfl rfl (by simp) (by simp)
    · by_cases hlt : s.resolveReservedConnectionCount < config.resolveMaxConnectionCount
      · rw [if_neg (by omega)]
        exact .reserve _ rfl hlt (by cases config.hasGuard <;> rfl)
      · rw [if_pos (by omega)]
        exact .refuse _ rfl rfl (by simp) (by simp)

theorem stepped_guard {i : Nat} {old : Upgrade} (outcome : GuardOutcome) (hi : s.upgrades[i]? = some old) (hf : old.isInFlight) :
    UpgradeStepped config s false (s.guard i outcome) := by
  cases outcome with
  | httpException message status => exact .reject i old _ rfl hi hf
  | error => exact .reject i old _ rfl hi hf
  | accepted =>
    simp only [UpgradeState.guard]
    split
    · exact .reject i old _ rfl hi hf
    · exact .pass i old rfl hi hf
  | refused =>
    simp only [UpgradeState.guard]
    split <;> exact .reject i old _ rfl hi hf
  | rejection rejection =>
    simp only [UpgradeState.guard]
    split <;> exact .reject i old _ rfl hi hf

theorem stepped_unregister {i : Nat} (h : s.unregister i = some s') : UpgradeStepped config s false s' := by
  obtain ⟨old, hi, ho, rfl⟩ := bind_guarded_eq_some h
  exact .unregister i old rfl hi ho

theorem upgradeStep_cases {l : UpgradeLabel} (h : upgradeStep config s l = some s') : UpgradeStepped config s l.isAnswered s' := by
  cases l with
  | upgrade target =>
    cases h
    exact stepped_upgrade target
  | guard i outcome =>
    obtain ⟨old, hi, ho, rfl⟩ := bind_guarded_eq_some h
    refine stepped_guard outcome hi ?_
    cases old with
    | guarding => rfl
    | _ => cases ho
  | handshake i outcome =>
    obtain ⟨old, hi, rfl, rfl⟩ := bind_guarded_eq_some h
    cases outcome with
    | connected => exact .register i rfl hi
    | threw => exact .reject i _ _ rfl hi rfl
    | answered => exact .answer i rfl hi
  | close i => exact stepped_unregister h
  | error i => exact stepped_unregister h
  | terminate i => exact stepped_unregister h
  | shutdown =>
    cases h
    exact .shutdown rfl

/-- Each slot is an upgrade's: one in flight, an open connection's, or one whose handshake `ws` has answered. -/
structure UpgradeState.Ok (config : UpgradeConfig) (s : UpgradeState) : Prop where
  pending  : s.pendingUpgradeReservations = s.upgrades.countP Upgrade.isInFlight + s.upgrades.count .answered
  size     : s.socketRegistry.length = s.upgrades.count .open
  nodup    : s.socketRegistry.Nodup
  registry : ∀ i, i ∈ s.socketRegistry ↔ s.upgrades[i]? = some .open
  limit    : s.resolveReservedConnectionCount ≤ config.resolveMaxConnectionCount

def Upgrade.holds (upgrade : Upgrade) : Nat := (if upgrade.isInFlight then 1 else 0) + if upgrade = .answered then 1 else 0

theorem Upgrade.isInFlight_ne {upgrade : Upgrade} (h : upgrade.isInFlight) : upgrade ≠ .open ∧ upgrade ≠ .answered := by
  cases upgrade <;> simp_all [Upgrade.isInFlight]

theorem Upgrade.holds_isInFlight {upgrade : Upgrade} (h : upgrade.isInFlight) : upgrade.holds = 1 := by
  simp [Upgrade.holds, h, (Upgrade.isInFlight_ne h).2]

theorem count_set_add {l : List Upgrade} {i : Nat} {old : Upgrade} (hi : l[i]? = some old) (new upgrade : Upgrade) :
    (l.set i new).count upgrade + (if old = upgrade then 1 else 0) = l.count upgrade + if new = upgrade then 1 else 0 := by
  simpa [List.count] using countP_set_add (p := (· == upgrade)) hi new

namespace UpgradeState.Ok
variable {i n : Nat} {old new : Upgrade}

theorem add (hs : s.Ok config) (ho : new ≠ .open) (hn : n = s.pendingUpgradeReservations + new.holds)
    (hl : s.socketRegistry.length + n ≤ config.resolveMaxConnectionCount) :
    UpgradeState.Ok config { s.add new with pendingUpgradeReservations := n } where
  pending := by
    have hp := hs.pending
    simp only [UpgradeState.add, List.countP_append, List.count_append, List.countP_singleton, List.count_singleton, beq_iff_eq]
    simp only [hn, Upgrade.holds]
    omega
  size := by simpa [UpgradeState.add, List.count_append, List.count_singleton, ho] using hs.size
  nodup := hs.nodup
  registry := by
    intro j
    simp only [UpgradeState.add, getElem?_concat_iff, hs.registry j]
    simp [Ne.symm ho]
  limit := hl

theorem replace (hs : s.Ok config) (hi : s.upgrades[i]? = some old) (ho : old ≠ .open) (ho' : new ≠ .open)
    (hn : n + old.holds = s.pendingUpgradeReservations + new.holds) (hl : n ≤ s.pendingUpgradeReservations) :
    UpgradeState.Ok config { s.set i new with pendingUpgradeReservations := n } where
  pending := by
    have hp := hs.pending
    have hf := countP_set_add (p := Upgrade.isInFlight) hi new
    have ha := count_set_add hi new .answered
    simp only [Upgrade.holds] at hn
    simp only [UpgradeState.set]
    omega
  size := by
    have hc := count_set_add hi new .open
    simp only [ho, ho', if_false, Nat.add_zero] at hc
    simpa [UpgradeState.set, hc] using hs.size
  nodup := hs.nodup
  registry := by
    intro j
    simp only [UpgradeState.set, getElem?_set_iff hi, hs.registry j]
    constructor
    · intro hj
      refine .inr ⟨?_, hj⟩
      rintro rfl
      exact ho (by simpa [hi] using hj)
    · rintro (⟨_, he⟩ | ⟨_, hj⟩)
      · exact absurd he.symm ho'
      · exact hj
  limit := by
    have := hs.limit
    simp only [UpgradeState.resolveReservedConnectionCount, UpgradeState.set] at this ⊢
    omega

theorem register (hs : s.Ok config) (hi : s.upgrades[i]? = some .admitted) : ((s.registerSocketConnection i).set i .open).Ok config := by
  have hp := hs.pending
  have hn := hs.size
  have hl : s.socketRegistry.length + s.pendingUpgradeReservations ≤ config.resolveMaxConnectionCount := hs.limit
  have hi' : i ∉ s.socketRegistry := by simp [hs.registry, hi]
  have hf : (s.upgrades.set i .open).countP Upgrade.isInFlight + 1 = s.upgrades.countP Upgrade.isInFlight :=
    countP_set_add (p := Upgrade.isInFlight) hi .open
  have ha : (s.upgrades.set i .open).count .answered = s.upgrades.count .answered := count_set_add hi .open .answered
  have ho : (s.upgrades.set i .open).count .open = s.upgrades.count .open + 1 := count_set_add hi .open .open
  constructor
  · show s.pendingUpgradeReservations - 1 = (s.upgrades.set i .open).countP Upgrade.isInFlight + (s.upgrades.set i .open).count .answered
    omega
  · show (s.socketRegistry ++ [i]).length = (s.upgrades.set i .open).count .open
    simp only [List.length_append, List.length_singleton]
    omega
  · show (s.socketRegistry ++ [i]).Nodup
    exact List.nodup_append.2 ⟨hs.nodup, by simp, by simpa using fun j hj => ne_of_mem_of_not_mem hj hi'⟩
  · intro j
    show j ∈ s.socketRegistry ++ [i] ↔ (s.upgrades.set i .open)[j]? = some .open
    rw [List.mem_append, List.mem_singleton, getElem?_set_iff hi, hs.registry j]
    by_cases hj : j = i <;> simp [hj]
  · show (s.socketRegistry ++ [i]).length + (s.pendingUpgradeReservations - 1) ≤ config.resolveMaxConnectionCount
    simp only [List.length_append, List.length_singleton]
    omega

theorem unregister (hs : s.Ok config) (hi : s.upgrades[i]? = some old) (ho : old = .open ∨ old = .closed) : (s.unregisterSocket i).Ok config := by
  have hl : s.socketRegistry.length + s.pendingUpgradeReservations ≤ config.resolveMaxConnectionCount := hs.limit
  have hf : (s.upgrades.set i .closed).countP Upgrade.isInFlight = s.upgrades.countP Upgrade.isInFlight := by
    have := countP_set_add (p := Upgrade.isInFlight) hi .closed
    rcases ho with rfl | rfl <;> exact this
  have ha : (s.upgrades.set i .closed).count .answered = s.upgrades.count .answered := by
    have := count_set_add hi .closed .answered
    rcases ho with rfl | rfl <;> exact this
  have hc := count_set_add hi .closed .open
  have hn : (s.socketRegistry.erase i).length + (if old = .open then 1 else 0) = s.socketRegistry.length := by
    rcases ho with rfl | rfl
    · have hmem : i ∈ s.socketRegistry := (hs.registry i).2 hi
      have hpos := List.length_pos_of_mem hmem
      rw [List.length_erase_of_mem hmem, if_pos rfl]
      omega
    · have hmem : i ∉ s.socketRegistry := by simp [hs.registry, hi]
      simp [List.erase_of_not_mem hmem]
  have hsize := hs.size
  constructor
  · show s.pendingUpgradeReservations = (s.upgrades.set i .closed).countP Upgrade.isInFlight + (s.upgrades.set i .closed).count .answered
    rw [hf, ha]
    exact hs.pending
  · show (s.socketRegistry.erase i).length = (s.upgrades.set i .closed).count .open
    simp only [reduceCtorEq, if_false, Nat.add_zero] at hc
    omega
  · exact hs.nodup.erase i
  · intro j
    show j ∈ s.socketRegistry.erase i ↔ (s.upgrades.set i .closed)[j]? = some .open
    rw [hs.nodup.mem_erase_iff, getElem?_set_iff hi, hs.registry j]
    simp
  · show (s.socketRegistry.erase i).length + s.pendingUpgradeReservations ≤ config.resolveMaxConnectionCount
    omega

end UpgradeState.Ok

theorem UpgradeStepped.ok {answered : Bool} (h : UpgradeStepped config s answered s') (hs : s.Ok config) : s'.Ok config := by
  have hl : s.socketRegistry.length + s.pendingUpgradeReservations ≤ config.resolveMaxConnectionCount := hs.limit
  have hp := hs.pending
  cases h with
  | refuse new _ hf ho hw => exact hs.add ho (by simp [Upgrade.holds, hf, hw]) hl
  | reserve new _ hlt hf =>
    simp only [UpgradeState.resolveReservedConnectionCount] at hlt
    exact hs.add (Upgrade.isInFlight_ne hf).1 (by rw [Upgrade.holds_isInFlight hf]) (by omega)
  | pass i old _ hi hf =>
    exact hs.replace hi (Upgrade.isInFlight_ne hf).1 (by simp) (by rw [Upgrade.holds_isInFlight hf]; rfl) (Nat.le_refl _)
  | reject i old rejection _ hi hf =>
    have hpos : 0 < s.upgrades.countP Upgrade.isInFlight := List.countP_pos_iff.2 ⟨old, List.mem_of_getElem? hi, hf⟩
    have hr : Upgrade.holds (.rejected rejection) = 0 := by simp [Upgrade.holds, Upgrade.isInFlight]
    refine hs.replace hi (Upgrade.isInFlight_ne hf).1 (by simp) ?_ (Nat.sub_le _ 1)
    rw [Upgrade.holds_isInFlight hf, hr]
    exact Nat.sub_add_cancel (by omega)
  | register i _ hi => exact hs.register hi
  | answer i _ hi => exact hs.replace hi (by simp) (by simp) (by simp [Upgrade.holds, Upgrade.isInFlight]) (Nat.le_refl _)
  | unregister i old _ hi ho => exact hs.unregister hi ho
  | shutdown _ => exact ⟨hs.pending, hs.size, hs.nodup, hs.registry, hs.limit⟩

theorem UpgradeStepped.answered {answered : Bool} (h : UpgradeStepped config s answered s') :
    s'.upgrades.count .answered = s.upgrades.count .answered + if answered then 1 else 0 := by
  cases h with
  | refuse new ha _ _ hw => simp [UpgradeState.add, ha, List.count_append, hw]
  | reserve new ha _ hf => simp [UpgradeState.add, ha, List.count_append, (Upgrade.isInFlight_ne hf).2]
  | pass i old ha hi hf => simpa [ha, (Upgrade.isInFlight_ne hf).2] using count_set_add hi .admitted .answered
  | reject i old rejection ha hi hf => simpa [ha, (Upgrade.isInFlight_ne hf).2] using count_set_add hi (.rejected rejection) .answered
  | register i ha hi => simpa [ha] using count_set_add hi .open .answered
  | answer i ha hi => simpa [ha] using count_set_add hi .answered .answered
  | unregister i old ha hi ho =>
    have hw : old ≠ .answered := by rcases ho with rfl | rfl <;> simp
    simpa [ha, hw] using count_set_add hi .closed .answered
  | shutdown ha => simp [ha]

theorem UpgradeState.Ok.empty : UpgradeState.Ok config {} := ⟨rfl, rfl, .nil, by simp, Nat.zero_le _⟩

/-! ## Runs -/

theorem run_ok {ls : List UpgradeLabel} (h : Run (upgradeStep config) (fun _ _ => True) s ls s') (hs : s.Ok config) :
    s'.Ok config ∧ s'.upgrades.count .answered = s.upgrades.count .answered + ls.countP UpgradeLabel.isAnswered := by
  induction h with
  | nil => exact ⟨hs, rfl⟩
  | cons _ hstep _ ih =>
    have hc := upgradeStep_cases hstep
    obtain ⟨hok, ha⟩ := ih (hc.ok hs)
    refine ⟨hok, ?_⟩
    rw [ha, hc.answered, List.countP_cons]
    omega

theorem UpgradeState.Ok.accounted_iff (hs : s.Ok config) : s.Accounted config ↔ s.upgrades.count .answered = 0 := by
  have hp := hs.pending
  have hn := hs.size
  constructor
  · intro h
    have hc := h.count
    simp only [resolveReservedConnectionCount] at hc
    omega
  · intro ha
    have hc : s.resolveReservedConnectionCount = s.upgrades.countP Upgrade.isInFlight + s.upgrades.count .open := by
      simp only [resolveReservedConnectionCount]
      omega
    refine ⟨hc, hs.limit, fun hnone => ?_⟩
    have hf : s.upgrades.countP Upgrade.isInFlight = 0 := List.countP_eq_zero.2 fun u hu => by simp [(hnone u hu).1]
    have ho : s.upgrades.count .open = 0 := List.count_eq_zero.2 fun hu => (hnone _ hu).2 rfl
    omega

/-- The slots are accounted for in just the runs in which `ws` answers no handshake itself. -/
theorem upgrades_accounted_iff {ls : List UpgradeLabel} (h : Run (upgradeStep config) (fun _ _ => True) {} ls s) :
    s.Accounted config ↔ ∀ l ∈ ls, l.isAnswered = false := by
  obtain ⟨hok, ha⟩ := run_ok h .empty
  rw [hok.accounted_iff, ha]
  simp

private def twoConnections : UpgradeConfig := { maxConnections := some 2, hasGuard := true }

private def threeUpgrades : List UpgradeLabel :=
  [.upgrade .gateway, .upgrade .gateway, .upgrade .gateway, .guard 1 .refused, .guard 0 .accepted, .handshake 0 .connected, .error 0, .close 0]

theorem threeUpgrades_accounted : ∃ s, UpgradeState.Accounted twoConnections s ∧ s.upgrades.length = 3 :=
  ⟨_, (upgrades_accounted_iff (Run.of_passes (p := fun _ _ => true) (fun _ _ _ => trivial) (show Lib.passes _ _ _ threeUpgrades = true by decide))).2 (by decide), by decide⟩

/-- One bad handshake takes the only slot for good: there is no request and no connection, and the next request is rejected. -/
theorem bad_handshake_keeps_slot : ∃ config ls s, Run (upgradeStep config) (fun _ _ => True) {} ls s ∧
    (∀ upgrade ∈ s.upgrades, upgrade.isInFlight = false ∧ upgrade ≠ .open) ∧ s.resolveReservedConnectionCount = config.resolveMaxConnectionCount ∧
      s.upgrade config .gateway = s.add (.rejected limitRejection) ∧ ¬ s.Accounted config := by
  refine ⟨{ maxConnections := some 1, hasGuard := false }, [.upgrade .gateway, .handshake 0 .answered], { pendingUpgradeReservations := 1, upgrades := [.answered] },
    .cons trivial rfl (.single trivial rfl), by decide, by decide, by decide, fun h => ?_⟩
  have := h.none (by decide)
  revert this
  decide

end Fluo.Websockets
