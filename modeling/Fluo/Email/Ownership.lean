import Fluo.Email.Service
import Fluo.Lib.Slots
/-!
# Who closes the transport

When each transport that the service owns is closed once, none is used after that, and an initialisation
that follows a failed one has a transport to use.
-/

namespace Fluo.Email
open Fluo.Lib

def Start.isClosing : Start → Bool
  | .closing _ => true
  | _ => false

/-- The `send` is past its last check. -/
def Send.isChecked : Send → Bool
  | .checked (some _) => true
  | _ => false

/-- No call of `onModuleInit` waits for the initialisation any more. -/
def Start.isOver (config : Config) : Start → Bool
  | .settled _ => config.service = .slack
  | .finished _ => true
  | _ => false

/-- `onModuleInit` attempts an initialisation. -/
def State.begins (config : Config) (s : State) : Bool := s.initializes config && !s.isShutdownLifecycleState

/-- No initialisation begins after a transport could not be created or a shutdown failed; and no shutdown begins while a `send` is past its last check,
nor, of an owned transport, while it is closed after a failed start or a shutdown before has it. -/
def Sound (config : Config) (s : State) : Label → Bool
  | .onModuleInit => !s.begins config || (s.transports.all (·.status ≠ .rejected) && s.shutdowns.all (·.phase ≠ .settled false))
  | .onApplicationShutdown =>
    s.sends.all (!·.isChecked) && (!config.closes || (s.starts.all (!·.isClosing) && s.shutdowns.all (·.transport.isNone)))
  | _ => true

/-- After a shutdown every owned transport is closed, once; any other never is. -/
structure State.Closed (config : Config) (s : State) : Prop where
  other : config.closes = false → ∀ t ∈ s.transports, t.closes = 0
  owned : config.closes = true → ∀ d ∈ s.shutdowns, d.phase = .settled true → ∀ t ∈ s.transports, t.status = .created → t.closes = 1

structure Fine (config : Config) (s : State) (l : Label) : Prop where
  closed  : ∀ s', step config s l = some s' → s'.Closed config
  /-- `transport.send` is called before any `close` and any shutdown. -/
  sends   : ∀ s', step config s l = some s' → ∀ m i : Nat, s'.sends[m]? = some (.sending i) → s.sends[m]? ≠ some (.sending i) →
    s.shutdowns = [] ∧ ∀ t, s.transports[i]? = some t → t.closes = 0
  /-- The transport of an initialisation that begins, where there is one, was neither rejected nor closed. -/
  usable  : l = .onModuleInit → s.begins config = true → ∀ (i : Nat) t, s.transportPromise = some i → s.transports[i]? = some t →
    t.status ≠ .rejected ∧ t.closes = 0
  /-- Initialisation can be tried again. -/
  retries : s.lifecycleState = .failed → s.shutdowns = [] → (∀ start ∈ s.starts, start.isOver config = true) → s.begins config = true

/-! ## Before a shutdown -/

def Send.transport : Send → Option Nat
  | .joining _ transport | .checked transport => transport
  | .ensuring i => some i
  | _ => none

/-- What holds of an initialisation before any shutdown; of Email, it is the one there is until it is over. -/
def StartOk (config : Config) (s : State) (k : Nat) : Start → Prop
  | .awaiting i => s.transportPromise = some i ∧ (config.service = .email → s.lifecycleState = .starting ∧ s.bootstrapPromise = some k)
  | .verifying i => config.verifyOnModuleInit = true ∧ s.transportPromise = some i ∧
    (config.service = .email → s.lifecycleState = .starting ∧ s.bootstrapPromise = some k)
  | .closing i => config.service = .email ∧ config.closes = true ∧ s.lifecycleState = .failed ∧ s.bootstrapPromise = some k ∧
    s.resolvedTransport = some i ∧ ∀ t, s.transports[i]? = some t → t.closes = 1
  | .settled _ => config.service = .email → (s.lifecycleState = .ready ∨ s.lifecycleState = .failed) ∧ s.bootstrapPromise = some k
  | .finished _ => config.service = .email → s.bootstrapPromise = some k → s.lifecycleState = .ready

structure SendOk (config : Config) (s : State) (send : Send) : Prop where
  ready : config.usesReady = true → send = .checked none ∨ send.transport ≠ none → s.lifecycleState = .ready
  fresh : ∀ i, send.transport = some i → ∀ t, s.transports[i]? = some t → t.closes = 0

/-- Before any shutdown, at most the transport of the promise is open; every other one was closed after a failed start. -/
structure Open (config : Config) (s : State) : Prop where
  shutdowns : s.shutdowns = []
  lifecycle : s.isShutdownLifecycleState = false
  promise   : ∀ i, s.transportPromise = some i → i < s.transports.length
  resolved  : ∀ i, s.resolvedTransport = some i ↔ s.transportPromise = some i ∧ s.status i = some .created
  others    : ∀ (i : Nat) t, s.transports[i]? = some t → s.transportPromise ≠ some i → t.status = .created ∧ t.closes = 1
  current   : (∀ start ∈ s.starts, start.isClosing = false) → ∀ (i : Nat) t, s.transportPromise = some i → s.transports[i]? = some t → t.closes = 0
  unowned   : config.closes = false → ∀ t ∈ s.transports, t.closes = 0
  booted    : config.service = .email → s.lifecycleState = .starting ∨ s.lifecycleState = .ready → s.bootstrapPromise ≠ none
  boot      : ∀ k, s.bootstrapPromise = some k → k < s.starts.length
  starts    : ∀ (k : Nat) start, s.starts[k]? = some start → StartOk config s k start
  sends     : ∀ send ∈ s.sends, SendOk config s send

variable {config : Config} {s s' : State}

theorem Open.empty : Open config {} :=
  ⟨rfl, rfl, by simp, by simp, by simp, by simp, by simp, by simp, by simp, by simp, by simp⟩

theorem Open.orElse (h : Open config s) : (s.resolvedTransport <|> s.transportPromise) = s.transportPromise := by
  cases hr : s.resolvedTransport with
  | none => rfl
  | some i => exact ((h.resolved i).1 hr).1.symm

theorem Open.transport (h : Open config s) : s.ensureTransport.transportPromise = some s.transport := by
  unfold State.ensureTransport State.transport
  rw [h.orElse]
  cases hp : s.transportPromise with
  | none => rfl
  | some i => exact hp

theorem Open.ensureTransport (h : Open config s) : Open config s.ensureTransport := by
  unfold State.ensureTransport
  rw [h.orElse]
  cases hp : s.transportPromise with
  | some i => exact h
  | none =>
    have hr : s.resolvedTransport = none := by
      by_contra hr
      obtain ⟨i, hr⟩ := Option.ne_none_iff_exists'.1 hr
      rw [((h.resolved i).1 hr).1] at hp
      cases hp
    simp only [Option.isSome_none, Bool.false_eq_true, if_false]
    constructor
    · exact h.shutdowns
    · exact h.lifecycle
    · grind
    · grind [State.status]
    · grind [h.others]
    · grind
    · grind [h.unowned]
    · exact h.booted
    · exact h.boot
    · intro k start hk
      have := h.starts k start hk
      cases start <;> grind [StartOk]
    · intro send hsend
      have := h.sends send hsend
      exact ⟨this.ready, by grind [this.fresh]⟩

variable {k i d : Nat} {ok : Bool}

theorem Open.single (h : Open config s) (hemail : config.service = .email) {start : Start} (hk : s.starts[k]? = some start)
    (hboot : s.bootstrapPromise ≠ some k) : ∃ ok, start = .finished ok := by
  have hstart := h.starts k start hk
  cases start with
  | finished ok => exact ⟨ok, rfl⟩
  | awaiting i => exact absurd (hstart.2 hemail).2 hboot
  | verifying i => exact absurd (hstart.2.2 hemail).2 hboot
  | closing i => exact absurd hstart.2.2.2.1 hboot
  | settled ok => exact absurd (hstart hemail).2 hboot

theorem email_of_usesReady (h : config.usesReady = true) : config.service = .email ∧ config.verifyOnModuleInit = true := by
  simpa [Config.usesReady] using h

theorem Open.onModuleInit (h : Open config s) : Open config (s.onModuleInit config) := by
  unfold State.onModuleInit
  split
  · next hinit =>
    have hnone : config.service = .email → s.bootstrapPromise = none := by
      intro hemail
      simpa [State.initializes, hemail] using hinit
    have hstart : s.startTransport = { s.ensureTransport with lifecycleState := .starting, starts := s.starts ++ [.awaiting s.transport] } := by
      simp only [State.startTransport, h.lifecycle, Bool.false_eq_true, if_false, State.ensureTransport, State.transport]
      split <;> rfl
    have hkept : s.ensureTransport.starts = s.starts ∧ s.ensureTransport.bootstrapPromise = s.bootstrapPromise := by
      unfold State.ensureTransport
      split <;> exact ⟨rfl, rfl⟩
    have h1 := h.ensureTransport
    rw [hstart]
    constructor
    · exact h1.shutdowns
    · rfl
    · exact h1.promise
    · exact h1.resolved
    · exact h1.others
    · intro hall
      exact h1.current fun start hs' => hall start (List.mem_append_left _ (hkept.1 ▸ hs'))
    · exact h1.unowned
    · intro hemail _
      simp [hemail]
    · intro k hk
      have := h.boot k
      grind
    · intro k start hk
      rcases getElem?_concat_iff.1 hk with ⟨rfl, rfl⟩ | hk
      · exact ⟨h.transport, fun hemail => by simp [hemail]⟩
      · by_cases hemail : config.service = .email
        · obtain ⟨ok, rfl⟩ := h.single hemail hk (by simp [hnone hemail])
          intro _ hboot
          have hlt := (List.getElem?_eq_some_iff.1 hk).1
          simp only [if_pos hemail, Option.some.injEq] at hboot
          omega
        · have := h1.starts k start (hkept.1 ▸ hk)
          cases start <;> grind [StartOk]
    · intro send hsend
      have := h1.sends send hsend
      refine ⟨fun hready hhas => ?_, this.fresh⟩
      exact absurd (hkept.2.trans (hnone (email_of_usesReady hready).1))
        (h1.booted (email_of_usesReady hready).1 (.inr (this.ready hready hhas)))
  · exact h

def Start.isUnderWay : Start → Bool
  | .awaiting _ | .verifying _ => true
  | _ => false

theorem StartOk.underWay {start : Start} (h : StartOk config s k start) (hat : start.isUnderWay = true) :
    config.service = .email → s.lifecycleState = .starting ∧ s.bootstrapPromise = some k := by
  cases start with
  | awaiting i => exact h.2
  | verifying i => exact h.2.2
  | closing | settled | finished => cases hat

theorem Open.sends_underWay (h : Open config s) {start : Start} (hk : s.starts[k]? = some start) (hat : start.isUnderWay = true)
    (hready : config.usesReady = true) {send : Send} (hsend : send ∈ s.sends) : ¬(send = .checked none ∨ send.transport ≠ none) := by
  intro hhas
  have hstarting := ((h.starts k start hk).underWay hat (email_of_usesReady hready).1).1
  rw [(h.sends send hsend).ready hready hhas] at hstarting
  cases hstarting

theorem Open.others_underWay (h : Open config s) {start : Start} (hk : s.starts[k]? = some start) (hat : start.isUnderWay = true)
    (hemail : config.service = .email) {j : Nat} {other : Start} (hj : s.starts[j]? = some other) (hjk : j ≠ k) : ∃ ok, other = .finished ok :=
  h.single hemail hj (by simpa [((h.starts k start hk).underWay hat hemail).2] using Ne.symm hjk)

theorem Open.not_closing (h : Open config s) {start : Start} (hk : s.starts[k]? = some start) (hat : start.isUnderWay = true) :
    ∀ other ∈ s.starts, other.isClosing = false := by
  intro other hother
  obtain ⟨j, hj⟩ := List.mem_iff_getElem?.1 hother
  cases other with
  | closing i =>
    have hclosing := h.starts j _ hj
    have := ((h.starts k start hk).underWay hat hclosing.1).1
    rw [hclosing.2.2.1] at this
    cases this
  | awaiting | verifying | settled | finished => rfl

theorem Open.goOn (h : Open config s) {start : Start} (hk : s.starts[k]? = some start) (hat : start.isUnderWay = true)
    (l : LifecycleState) (hl : State.isShutdownLifecycleState { s with lifecycleState := l } = false) {new : Start}
    (hnew : StartOk config { s with lifecycleState := l } k new) : Open config ({ s with lifecycleState := l }.setStart k new) := by
  constructor
  · exact h.shutdowns
  · exact hl
  · exact h.promise
  · exact h.resolved
  · exact h.others
  · exact fun _ => h.current (h.not_closing hk hat)
  · exact h.unowned
  · intro hemail _
    simp [State.setStart, ((h.starts k start hk).underWay hat hemail).2]
  · simpa [State.setStart] using h.boot
  · intro j other hj
    rcases (getElem?_set_iff hk).1 hj with ⟨rfl, rfl⟩ | ⟨hjk, hj⟩
    · exact hnew
    · have hother := h.starts j other hj
      by_cases hemail : config.service = .email
      · obtain ⟨ok, rfl⟩ := h.others_underWay hk hat hemail hj hjk
        intro _ hboot
        have := ((h.starts k start hk).underWay hat hemail).2
        rw [show s.bootstrapPromise = some j from hboot] at this
        exact absurd (Option.some.inj this) hjk
      · cases other <;> simp_all [StartOk, State.setStart]
  · intro send hsend
    exact ⟨fun hready hhas => absurd hhas (h.sends_underWay hk hat hready hsend), (h.sends send hsend).fresh⟩

theorem getElem?_close {j : Nat} {t : Transport} (h : (s.close i).transports[j]? = some t) :
    ∃ before, s.transports[j]? = some before ∧ t.status = before.status ∧ t.closes = before.closes + if i = j then 1 else 0 := by
  simp only [State.close, List.getElem?_modify, Option.map_eq_map, Option.map_eq_some_iff] at h
  obtain ⟨before, hbefore, rfl⟩ := h
  refine ⟨before, hbefore, ?_⟩
  split <;> exact ⟨rfl, rfl⟩

@[simp] theorem status_close (i j : Nat) : (s.close i).status j = s.status j := by
  simp only [State.status, State.close, List.getElem?_modify, Option.map_eq_map, Option.map_map]
  congr 1
  funext t
  by_cases hij : i = j <;> simp [hij]

theorem Open.cleanUp (h : Open config s) {start : Start} (hk : s.starts[k]? = some start) (hat : start.isUnderWay = true)
    (hready : config.usesReady = true) (hcloses : config.closes = true) (hi : s.resolvedTransport = some i) :
    Open config (({ s with lifecycleState := .failed }.close i).setStart k (.closing i)) := by
  obtain ⟨hemail, -⟩ := email_of_usesReady hready
  obtain ⟨hpromise, hstatus⟩ := (h.resolved i).1 hi
  have hboot := ((h.starts k start hk).underWay hat hemail).2
  have hfresh := h.current (h.not_closing hk hat) i
  constructor
  · exact h.shutdowns
  · rfl
  · simpa [State.setStart, State.close] using h.promise
  · intro j
    have hsame : (({ s with lifecycleState := .failed }.close i).setStart k (.closing i)).status j = s.status j := status_close i j
    rw [hsame]
    exact h.resolved j
  · intro j t hj hne
    obtain ⟨before, hbefore, hsame, hcount⟩ := getElem?_close hj
    have hij : i ≠ j := fun hij => hne (hij ▸ hpromise)
    rw [hsame, hcount, if_neg hij]
    exact h.others j before hbefore hne
  · intro hall
    have hmem : Start.closing i ∈ s.starts.set k (.closing i) :=
      List.mem_of_getElem? ((getElem?_set_iff hk).2 (.inl ⟨rfl, rfl⟩))
    cases hall _ hmem
  · intro hno
    rw [hcloses] at hno
    cases hno
  · intro _ hl
    rcases hl with hl | hl <;> cases hl
  · simpa [State.setStart, State.close] using h.boot
  · intro j other hj
    rcases (getElem?_set_iff hk).1 hj with ⟨rfl, rfl⟩ | ⟨hjk, hj⟩
    · refine ⟨hemail, hcloses, rfl, hboot, hi, fun t ht => ?_⟩
      obtain ⟨before, hbefore, -, hcount⟩ := getElem?_close ht
      rw [hcount, if_pos rfl, hfresh before hpromise hbefore]
    · obtain ⟨ok, rfl⟩ := h.others_underWay hk hat hemail hj hjk
      intro _ hother
      rw [show s.bootstrapPromise = some j from hother] at hboot
      exact absurd (Option.some.inj hboot) hjk
  · intro send hsend
    refine ⟨fun _ hhas => absurd hhas (h.sends_underWay hk hat hready hsend), fun j hj => ?_⟩
    exact absurd (.inr (by simp [hj])) (h.sends_underWay hk hat hready hsend)

theorem Open.failStart (h : Open config s) {start : Start} (hk : s.starts[k]? = some start) (hat : start.isUnderWay = true)
    (hverifying : s.resolvedTransport ≠ none → config.service = .email → config.usesReady = true) : Open config (s.failStart config k) := by
  have hsettled : Open config ({ s with lifecycleState := .failed }.setStart k (.settled false)) :=
    h.goOn hk hat .failed rfl fun hemail => ⟨.inr rfl, ((h.starts k start hk).underWay hat hemail).2⟩
  simp only [State.failStart, h.lifecycle, Bool.false_eq_true, if_false]
  split
  · next i hservice hi =>
    split
    · next hcloses => exact h.cleanUp hk hat (hverifying (by simp [show s.resolvedTransport = some i from hi]) hservice) hcloses hi
    · exact hsettled
  · exact hsettled

theorem Open.clear (h : Open config s) (hk : s.starts[k]? = some (.closing i)) :
    Open config ({ s with resolvedTransport := none, transportPromise := none }.setStart k (.settled false)) := by
  obtain ⟨hemail, hcloses, hfailed, hboot, hi, hclosed⟩ := h.starts k _ hk
  obtain ⟨hpromise, hcreated⟩ := (h.resolved i).1 hi
  constructor
  · exact h.shutdowns
  · exact h.lifecycle
  · simp [State.setStart]
  · simp [State.setStart]
  · intro j t hj _
    by_cases hij : j = i
    · subst hij
      have hj : s.transports[j]? = some t := hj
      rw [State.status, hj] at hcreated
      exact ⟨Option.some.inj hcreated, hclosed t hj⟩
    · exact h.others j t hj (by simpa [hpromise] using Ne.symm hij)
  · simp [State.setStart]
  · exact h.unowned
  · exact h.booted
  · simpa [State.setStart] using h.boot
  · intro j other hj
    rcases (getElem?_set_iff hk).1 hj with ⟨rfl, rfl⟩ | ⟨hjk, hj⟩
    · exact fun _ => ⟨.inr hfailed, hboot⟩
    · obtain ⟨ok, rfl⟩ := h.single hemail hj (by simpa [hboot] using Ne.symm hjk)
      exact h.starts j _ hj
  · exact fun send hsend => ⟨(h.sends send hsend).ready, (h.sends send hsend).fresh⟩

theorem Open.start (h : Open config s) (hstep : s.start config k ok = some s') : Open config s' := by
  unfold State.start at hstep
  split at hstep
  · next i hk =>
    have hstart := h.starts k _ hk
    split at hstep
    · next hcreated =>
      split at hstep
      · next hl =>
        cases hstep
        exact h.goOn hk rfl s.lifecycleState h.lifecycle fun hemail => absurd (hstart.2 hemail).1 hl
      · split at hstep
        · next hverify =>
          cases hstep
          simp only [Bool.and_eq_true] at hverify
          exact h.goOn hk rfl s.lifecycleState h.lifecycle ⟨hverify.1, hstart⟩
        · cases hstep
          exact h.goOn hk rfl .ready rfl fun hemail => ⟨.inl rfl, (hstart.2 hemail).2⟩
    · next hrejected =>
      cases hstep
      apply h.failStart hk rfl
      intro hresolved
      obtain ⟨j, hj⟩ := Option.ne_none_iff_exists'.1 hresolved
      obtain ⟨hpromise, hcreated⟩ := (h.resolved j).1 hj
      rw [hstart.1] at hpromise
      cases hpromise
      rw [hrejected] at hcreated
      cases hcreated
    · cases hstep
  · next i hk =>
    have hstart := h.starts k _ hk
    split at hstep
    · split at hstep
      · next hl =>
        cases hstep
        exact h.goOn hk rfl s.lifecycleState h.lifecycle fun hemail => absurd (hstart.2.2 hemail).1 hl
      · cases hstep
        exact h.goOn hk rfl .ready rfl fun hemail => ⟨.inl rfl, (hstart.2.2 hemail).2⟩
    · cases hstep
      exact h.failStart hk rfl fun _ hemail => by simp [Config.usesReady, hemail, hstart.1]
  · next i hk =>
    cases hstep
    exact h.clear hk
  · cases hstep

theorem Open.finally_ (h : Open config s) (hstep : s.finally_ config k = some s') : Open config s' := by
  unfold State.finally_ at hstep
  split at hstep
  · next ok hservice hk =>
    cases hstep
    obtain ⟨hl, hboot⟩ := h.starts k _ hk hservice
    have hothers {j : Nat} {other : Start} (hj : s.starts[j]? = some other) (hjk : j ≠ k) : ∃ ok, other = .finished ok :=
      h.single hservice hj (by simpa [hboot] using Ne.symm hjk)
    constructor
    · exact h.shutdowns
    · exact h.lifecycle
    · exact h.promise
    · exact h.resolved
    · exact h.others
    · intro hall
      apply h.current
      intro other hother
      obtain ⟨j, hj⟩ := List.mem_iff_getElem?.1 hother
      by_cases hjk : j = k
      · subst hjk
        rw [hk] at hj
        cases hj
        rfl
      · obtain ⟨_, rfl⟩ := hothers hj hjk
        rfl
    · exact h.unowned
    · intro hemail hl
      have hnot : s.lifecycleState ≠ .failed := by
        intro hfailed
        simp [State.setStart, hfailed] at hl
      simpa [State.setStart, hnot] using h.booted hemail hl
    · intro j hj
      simp only [State.setStart] at hj
      split at hj
      · cases hj
      · simpa [State.setStart] using h.boot j hj
    · intro j other hj
      have hfinished : ∃ ok, other = .finished ok := by
        rcases (getElem?_set_iff hk).1 hj with ⟨rfl, rfl⟩ | ⟨hjk, hj⟩
        · exact ⟨ok, rfl⟩
        · exact hothers hj hjk
      obtain ⟨_, rfl⟩ := hfinished
      intro _ hj
      simp only [State.setStart] at hj
      split at hj
      · cases hj
      · next hnot => exact hl.resolve_right hnot
    · exact fun send hsend => ⟨(h.sends send hsend).ready, (h.sends send hsend).fresh⟩
  · cases hstep

theorem getElem?_settled {transports : List Transport} {j : Nat} {status : Status} {t : Transport}
    (h : (transports.modify i fun t => { t with status })[j]? = some t) :
    ∃ before, transports[j]? = some before ∧ t.closes = before.closes ∧ (j ≠ i → t = before) := by
  simp only [List.getElem?_modify, Option.map_eq_map, Option.map_eq_some_iff] at h
  obtain ⟨before, hbefore, rfl⟩ := h
  exact ⟨before, hbefore, by split <;> rfl, fun hji => if_neg (Ne.symm hji)⟩

theorem Open.create (h : Open config s) (hstep : s.create i ok = some s') : Open config s' := by
  unfold State.create at hstep
  split at hstep
  · next hcreating =>
    cases hstep
    have hpromise : s.transportPromise = some i := by
      by_contra hne
      obtain ⟨t, ht, hstatus⟩ := Option.map_eq_some_iff.1 hcreating
      rw [(h.others i t ht hne).1] at hstatus
      cases hstatus
    have hunresolved : s.resolvedTransport = none := by
      by_contra hne
      obtain ⟨j, hj⟩ := Option.ne_none_iff_exists'.1 hne
      obtain ⟨hj, hcreated⟩ := (h.resolved j).1 hj
      rw [hpromise] at hj
      cases hj
      rw [hcreating] at hcreated
      cases hcreated
    have hi : (s.transports.modify i fun t => { t with status := if ok then .created else .rejected })[i]?.map (·.status) =
        some (if ok then .created else .rejected) := by
      obtain ⟨t, ht, -⟩ := Option.map_eq_some_iff.1 hcreating
      simp [ht]
    constructor
    · exact h.shutdowns
    · exact h.lifecycle
    · simpa using h.promise
    · intro j
      simp only [State.status, hpromise, hunresolved]
      by_cases hij : i = j
      · subst hij
        rw [hi]
        cases ok <;> simp
      · cases ok <;> simp [hij]
    · intro j t hj hne
      obtain ⟨before, hbefore, -, hsame⟩ := getElem?_settled hj
      rw [hsame fun hji => hne (hji ▸ hpromise)]
      exact h.others j before hbefore hne
    · intro hall j t hp hj
      obtain ⟨before, hbefore, hcloses, -⟩ := getElem?_settled hj
      rw [hcloses]
      exact h.current hall j before hp hbefore
    · intro hno t ht
      obtain ⟨j, hj⟩ := List.mem_iff_getElem?.1 ht
      obtain ⟨before, hbefore, hcloses, -⟩ := getElem?_settled hj
      rw [hcloses]
      exact h.unowned hno before (List.mem_of_getElem? hbefore)
    · exact h.booted
    · exact h.boot
    · intro k start hk
      have hstart := h.starts k start hk
      cases start with
      | closing j =>
        have := hstart.2.2.2.2.1
        rw [hunresolved] at this
        cases this
      | awaiting | verifying | settled | finished => exact hstart
    · intro send hsend
      refine ⟨(h.sends send hsend).ready, fun j hj t ht => ?_⟩
      obtain ⟨before, hbefore, hcloses, -⟩ := getElem?_settled ht
      rw [hcloses]
      exact (h.sends send hsend).fresh j hj before hbefore
  · cases hstep

theorem Open.setSends (h : Open config s) {sends : List Send} (hsends : ∀ send ∈ sends, SendOk config s send) : Open config { s with sends } :=
  ⟨h.shutdowns, h.lifecycle, h.promise, h.resolved, h.others, h.current, h.unowned, h.booted, h.boot,
    fun k start hk => by cases start <;> exact h.starts k _ hk, fun send hsend => ⟨(hsends send hsend).ready, (hsends send hsend).fresh⟩⟩

theorem sendOk_of_none {send : Send} (hnone : send.transport = none) (hchecked : send ≠ .checked none) : SendOk config s send :=
  ⟨fun _ hhas => (hhas.elim hchecked fun hhas => hhas hnone).elim, by simp [hnone]⟩

theorem Open.ensureReady (h : Open config s) : Open config (s.ensureReady config) := by
  unfold State.ensureReady
  split
  · exact h.onModuleInit
  · exact h

theorem sendOk_readySend {transport : Option Nat}
    (hfresh : ∀ i, transport = some i → s.lifecycleState = .ready ∧ ∀ t, s.transports[i]? = some t → t.closes = 0) :
    SendOk config (s.ensureReady config) (s.readySend config transport) := by
  unfold State.readySend State.ensureReady
  cases hcan : s.canDeliver with
  | false => exact sendOk_of_none rfl (by simp)
  | true =>
    by_cases hready : s.lifecycleState = .ready
    · simp only [hready]
      exact ⟨fun _ _ => hready, fun i hi => (hfresh i hi).2⟩
    · have hnone : transport = none := by
        cases transport with
        | none => rfl
        | some i => exact absurd (hfresh i rfl).1 hready
      simp only [hready, Bool.not_true, Bool.false_eq_true, if_false]
      exact sendOk_of_none hnone (by simp)

theorem Open.ensuring (h : Open config s) (hcan : s.canDeliver = true) (hready : config.usesReady = true → s.lifecycleState = .ready) :
    SendOk config s.ensureTransport (.ensuring s.transport) := by
  have h1 := h.ensureTransport
  have hsame : s.ensureTransport.lifecycleState = s.lifecycleState := by
    unfold State.ensureTransport
    split <;> rfl
  have hopen : ∀ start ∈ s.ensureTransport.starts, start.isClosing = false := by
    intro start hstart
    obtain ⟨k, hk⟩ := List.mem_iff_getElem?.1 hstart
    cases start with
    | closing i =>
      have hfailed := (h1.starts k _ hk).2.2.1
      rw [hsame] at hfailed
      simp [State.canDeliver, hfailed] at hcan
    | awaiting | verifying | settled | finished => rfl
  refine ⟨fun huses _ => hsame.trans (hready huses), fun i hi t ht => ?_⟩
  cases hi
  exact h1.current hopen _ t h.transport ht

theorem sends_ensureTransport : s.ensureTransport.sends = s.sends := by
  unfold State.ensureTransport
  split <;> rfl

theorem sends_ensureReady : (s.ensureReady config).sends = s.sends := by
  unfold State.ensureReady State.onModuleInit State.startTransport State.ensureTransport
  split
  · split
    · split
      · rfl
      · dsimp only
        split <;> rfl
    · rfl
  · rfl

theorem Open.send (h : Open config s) : Open config (s.send config) := by
  unfold State.send
  split
  · have h1 := h.ensureReady
    have hsends : ∀ send ∈ s.sends, SendOk config (s.ensureReady config) send := fun send hsend => h1.sends send (by rwa [sends_ensureReady])
    exact h1.setSends (forall_mem_concat hsends (sendOk_readySend fun i hi => by cases hi))
  · next huses =>
    split
    · next hcan =>
      have h1 := h.ensureTransport
      have hsends : ∀ send ∈ s.sends, SendOk config s.ensureTransport send := fun send hsend => h1.sends send (by rwa [sends_ensureTransport])
      exact h1.setSends (forall_mem_concat hsends (h.ensuring hcan fun hready => absurd hready huses))
    · exact h.setSends (forall_mem_concat h.sends (sendOk_of_none rfl (by simp)))

theorem Open.continueSend (h : Open config s) {m : Nat} (hstep : s.continueSend config m ok = some s') : Open config s' := by
  have hset {send : Send} (hsend : SendOk config s send) : Open config (s.setSend m send) := h.setSends (forall_mem_set h.sends hsend m)
  have hsettled : SendOk config s .settled := sendOk_of_none rfl (by simp)
  unfold State.continueSend at hstep
  split at hstep
  · next k transport hm =>
    have hsend := h.sends _ (List.mem_of_getElem? hm)
    have hchecked (started : Bool) : SendOk config s (if started && s.lifecycleState = .ready then .checked transport else .settled) := by
      split
      · next hready =>
        simp only [Bool.and_eq_true, decide_eq_true_eq] at hready
        exact ⟨fun _ _ => hready.2, hsend.fresh⟩
      · exact hsettled
    split at hstep
    · cases hstep; exact hset (hchecked _)
    · cases hstep; exact hset (hchecked _)
    · cases hstep
  · next hm =>
    split at hstep
    · next hcan =>
      cases hstep
      have h1 := h.ensureTransport
      have hready := fun huses => (h.sends _ (List.mem_of_getElem? hm)).ready huses (.inl rfl)
      exact h1.setSends (forall_mem_set (fun send hsend => h1.sends send hsend) (h.ensuring hcan hready) m)
    · cases hstep; exact hset hsettled
  · cases hstep; exact hset (sendOk_of_none rfl (by simp))
  · next i hm =>
    have hsend := h.sends _ (List.mem_of_getElem? hm)
    split at hstep
    · split at hstep
      · cases hstep; exact hset hsettled
      · split at hstep
        · next huses =>
          cases hstep
          have h1 := h.ensureReady
          apply h1.setSends
          apply forall_mem_set fun send hsend => h1.sends send hsend
          apply sendOk_readySend
          rintro j ⟨⟩
          exact ⟨hsend.ready huses (.inr (by simp [Send.transport])), hsend.fresh i rfl⟩
        · cases hstep
          apply hset
          split
          · exact sendOk_of_none rfl (by simp)
          · exact hsettled
    · cases hstep; exact hset hsettled
    · cases hstep
  · cases hstep; exact hset hsettled
  · cases hstep

/-! ## After one has begun -/

inductive Released (s : State) : Prop
  | stopped : s.lifecycleState = .stopped → (∀ t ∈ s.transports, t.status = .created ∧ t.closes = 1) → (∀ d ∈ s.shutdowns, d.phase = .settled true) →
      ((∀ d ∈ s.shutdowns, d.transport = none) → s.transportPromise = none ∧ s.resolvedTransport = none) → Released s
  | awaiting (i : Nat) : s.lifecycleState = .stopping → s.shutdowns = [{ transport := some i, phase := .awaiting }] →
      (∀ (j : Nat) t, s.transports[j]? = some t → if j = i then t.closes = 0 else t.status = .created ∧ t.closes = 1) → Released s
  | closing (i : Nat) : s.lifecycleState = .stopping → s.shutdowns = [{ transport := some i, phase := .closing }] →
      (∀ t ∈ s.transports, t.status = .created ∧ t.closes = 1) → Released s
  | failed (i : Nat) : s.lifecycleState = .failed → s.shutdowns = [{ transport := some i, phase := .settled false }] → Released s

structure Down (config : Config) (s : State) : Prop where
  shutdowns : s.shutdowns ≠ []
  lifecycle : s.canDeliver = false
  failed    : s.lifecycleState = .failed → ∃ d ∈ s.shutdowns, d.phase = .settled false
  sends     : ∀ send ∈ s.sends, send.isChecked = false
  unowned   : config.closes = false → ∀ t ∈ s.transports, t.closes = 0
  owned     : config.closes = true → Released s

structure Quiet (config : Config) (s s' : State) : Prop where
  lifecycle  : s'.lifecycleState = s.lifecycleState
  shutdowns  : s'.shutdowns = s.shutdowns
  transports : s.lifecycleState ≠ .failed ∨ config.closes = false → s'.transports = s.transports
  promise    : s.transportPromise = none ∧ s.resolvedTransport = none → s'.transportPromise = none ∧ s'.resolvedTransport = none
  sends      : (∀ send ∈ s.sends, send.isChecked = false) → ∀ send ∈ s'.sends, send.isChecked = false

theorem Down.of_quiet (h : Down config s) (hq : Quiet config s s') : Down config s' where
  shutdowns := hq.shutdowns ▸ h.shutdowns
  lifecycle := by simpa [State.canDeliver, State.isShutdownLifecycleState, hq.lifecycle] using h.lifecycle
  failed hfailed := hq.shutdowns ▸ h.failed (hq.lifecycle ▸ hfailed)
  sends := hq.sends h.sends
  unowned hno := hq.transports (.inr hno) ▸ h.unowned hno
  owned howned := by
    have hlive {l : LifecycleState} (hl : s.lifecycleState = l) (hne : l ≠ .failed) : s'.transports = s.transports := hq.transports (.inl (hl ▸ hne))
    cases h.owned howned with
    | stopped hl hall hsettled hnone =>
      rw [← hlive hl (by simp)] at hall
      rw [← hq.shutdowns] at hsettled hnone
      exact .stopped (hq.lifecycle.trans hl) hall hsettled fun hall => hq.promise (hnone hall)
    | awaiting i hl hsd hall =>
      rw [← hlive hl (by simp)] at hall
      exact .awaiting i (hq.lifecycle.trans hl) (hq.shutdowns.trans hsd) hall
    | closing i hl hsd hall =>
      rw [← hlive hl (by simp)] at hall
      exact .closing i (hq.lifecycle.trans hl) (hq.shutdowns.trans hsd) hall
    | failed i hl hsd => exact .failed i (hq.lifecycle.trans hl) (hq.shutdowns.trans hsd)

theorem Quiet.rfl : Quiet config s s := ⟨.refl _, .refl _, fun _ => .refl _, id, id⟩

theorem Quiet.setSend (m : Nat) {send : Send} (hsend : send.isChecked = false) : Quiet config s (s.setSend m send) :=
  ⟨.refl _, .refl _, fun _ => .refl _, id, fun h => forall_mem_set h hsend m⟩

theorem Quiet.setStart (k : Nat) (start : Start) : Quiet config s (s.setStart k start) :=
  ⟨.refl _, .refl _, fun _ => .refl _, id, id⟩

theorem Down.lifecycle_cases (h : Down config s) : s.isShutdownLifecycleState = true ∨ s.lifecycleState = .failed := by
  cases hdown : s.isShutdownLifecycleState with
  | true => exact .inl rfl
  | false => exact .inr (by simpa [State.canDeliver, hdown] using h.lifecycle)

theorem Down.onModuleInit (h : Down config s) (hs : Sound config s .onModuleInit = true) : Quiet config s (s.onModuleInit config) := by
  unfold State.onModuleInit
  split
  · next hinit =>
    rcases h.lifecycle_cases with hdown | hfailed
    · simp only [State.startTransport, hdown, if_true]
      exact ⟨.refl _, .refl _, fun _ => .refl _, id, id⟩
    · obtain ⟨d, hd, hphase⟩ := h.failed hfailed
      have hbegins : s.begins config = true := by simp [State.begins, hinit, State.isShutdownLifecycleState, hfailed]
      simp only [Sound, hbegins, Bool.not_true, Bool.false_or, Bool.and_eq_true, List.all_eq_true, decide_eq_true_eq] at hs
      exact absurd hphase (hs.2 d hd)
  · exact .rfl

theorem Down.send (h : Down config s) : Quiet config s (s.send config) := by
  have hready : s.ensureReady config = s := by simp [State.ensureReady, h.lifecycle]
  have hphase (transport : Option Nat) : s.readySend config transport = .settled := by simp [State.readySend, h.lifecycle]
  unfold State.send
  rw [hready, hphase, h.lifecycle]
  split
  · exact ⟨.refl _, .refl _, fun _ => .refl _, id, fun h => forall_mem_concat h rfl⟩
  · exact ⟨.refl _, .refl _, fun _ => .refl _, id, fun h => forall_mem_concat h rfl⟩

theorem Down.continueSend (h : Down config s) {m : Nat} (hstep : s.continueSend config m ok = some s') : Quiet config s s' := by
  have hready : s.ensureReady config = s := by simp [State.ensureReady, h.lifecycle]
  have hphase (transport : Option Nat) : s.readySend config transport = .settled := by simp [State.readySend, h.lifecycle]
  have hnot : s.lifecycleState ≠ .ready := by
    intro hl
    simpa [State.canDeliver, State.isShutdownLifecycleState, hl] using h.lifecycle
  unfold State.continueSend at hstep
  simp only [hready, hphase, h.lifecycle, hnot, decide_false, Bool.and_false, Bool.false_eq_true, if_false] at hstep
  split at hstep
  · split at hstep
    · cases hstep; exact .setSend m rfl
    · cases hstep; exact .setSend m rfl
    · cases hstep
  · cases hstep; exact .setSend m rfl
  · cases hstep; exact .setSend m rfl
  · split at hstep
    · split at hstep
      · cases hstep; exact .setSend m rfl
      · split at hstep <;> cases hstep <;> exact .setSend m rfl
    · cases hstep; exact .setSend m rfl
    · cases hstep
  · cases hstep; exact .setSend m rfl
  · cases hstep

theorem Down.failStart (h : Down config s) (k : Nat) : Quiet config s (s.failStart config k) := by
  unfold State.failStart
  split
  · exact .setStart k _
  · next hdown =>
    -- the shutdown has failed, and what is closed now was closed before
    have hfailed := h.lifecycle_cases.resolve_left hdown
    dsimp only
    split
    · split
      · next hcloses => exact ⟨hfailed.symm, .refl _, fun hlive => by simp [hfailed, hcloses] at hlive, id, id⟩
      · exact ⟨hfailed.symm, .refl _, fun _ => .refl _, id, id⟩
    · exact ⟨hfailed.symm, .refl _, fun _ => .refl _, id, id⟩

theorem Down.start (h : Down config s) (hstep : s.start config k ok = some s') : Quiet config s s' := by
  have hnot : s.lifecycleState ≠ .starting := by
    intro hl
    simpa [State.canDeliver, State.isShutdownLifecycleState, hl] using h.lifecycle
  unfold State.start at hstep
  simp only [ne_eq, hnot, not_false_eq_true, if_true] at hstep
  split at hstep
  · split at hstep
    · cases hstep; exact .setStart k _
    · cases hstep; exact h.failStart k
    · cases hstep
  · split at hstep
    · cases hstep; exact .setStart k _
    · cases hstep; exact h.failStart k
  · cases hstep
    exact ⟨.refl _, .refl _, fun _ => .refl _, fun _ => ⟨.refl _, .refl _⟩, id⟩
  · cases hstep

theorem quiet_finally (hstep : s.finally_ config k = some s') : Quiet config s s' := by
  unfold State.finally_ at hstep
  split at hstep
  · cases hstep
    exact ⟨.refl _, .refl _, fun _ => .refl _, id, id⟩
  · cases hstep

theorem Down.create (h : Down config s) (hstep : s.create i ok = some s') : Down config s' := by
  unfold State.create at hstep
  split at hstep
  · next hcreating =>
    cases hstep
    have hnot : ¬∀ t ∈ s.transports, t.status = .created ∧ t.closes = 1 := by
      intro hall
      obtain ⟨t, ht, hstatus⟩ := Option.map_eq_some_iff.1 hcreating
      rw [(hall t (List.mem_of_getElem? ht)).1] at hstatus
      cases hstatus
    refine ⟨h.shutdowns, h.lifecycle, h.failed, h.sends, fun hno t ht => ?_, fun howned => ?_⟩
    · obtain ⟨j, hj⟩ := List.mem_iff_getElem?.1 ht
      obtain ⟨before, hbefore, hcloses, -⟩ := getElem?_settled hj
      rw [hcloses]
      exact h.unowned hno before (List.mem_of_getElem? hbefore)
    · cases h.owned howned with
      | stopped _ hall => exact absurd hall hnot
      | closing j _ _ hall => exact absurd hall hnot
      | failed j hl hsd => exact .failed j hl hsd
      | awaiting j hl hsd hall =>
        refine .awaiting j hl hsd fun m t hm => ?_
        obtain ⟨before, hbefore, hcloses, hsame⟩ := getElem?_settled hm
        have hwas := hall m before hbefore
        split
        · next hmj =>
          rw [if_pos hmj] at hwas
          rw [hcloses, hwas]
        · next hmj =>
          rw [if_neg hmj] at hwas
          have hmi : m ≠ i := by
            rintro rfl
            rw [State.status, hbefore] at hcreating
            have hstatus := Option.some.inj hcreating
            simp [hwas.1] at hstatus
          rw [hsame hmi]
          exact hwas
  · cases hstep

theorem Open.onApplicationShutdown (h : Open config s) (hs : Sound config s .onApplicationShutdown = true) :
    Down config (s.onApplicationShutdown config) := by
  simp only [Sound, Bool.and_eq_true, Bool.or_eq_true, List.all_eq_true, Bool.not_eq_true'] at hs
  obtain ⟨hsends, howns⟩ := hs
  have hcurrent (howned : config.closes = true) := h.current (howns.resolve_left (by simp [howned])).1
  unfold State.onApplicationShutdown
  dsimp only
  split
  · next _ _ i hi =>
    obtain ⟨hpromise, hcreated⟩ := (h.resolved i).1 hi
    cases hcloses : config.closes with
    | true =>
      simp only [State.release, State.releasing, hcloses, if_true, h.shutdowns]
      refine ⟨by simp, rfl, by simp [State.close], hsends, by simp [hcloses], fun _ => .closing i rfl rfl fun t ht => ?_⟩
      obtain ⟨j, hj⟩ := List.mem_iff_getElem?.1 ht
      obtain ⟨before, hbefore, hstatus, hcount⟩ := getElem?_close hj
      have hbefore : s.transports[j]? = some before := hbefore
      by_cases hij : i = j
      · subst hij
        rw [State.status, hbefore] at hcreated
        rw [hstatus, hcount, if_pos rfl, hcurrent hcloses i before hpromise hbefore]
        exact ⟨Option.some.inj hcreated, rfl⟩
      · rw [hstatus, hcount, if_neg hij]
        exact h.others j before hbefore (by simpa [hpromise] using hij)
    | false =>
      simp only [State.release, State.releasing, hcloses, Bool.false_eq_true, if_false]
      exact ⟨by simp, rfl, by simp, hsends, fun _ => h.unowned hcloses, by simp [hcloses]⟩
  · next i hnone hpromise =>
    refine ⟨by simp, rfl, by simp, hsends, h.unowned, fun howned => .awaiting i rfl (by simp [h.shutdowns]) fun j t hj => ?_⟩
    split
    · next hji => exact hcurrent howned j t (hji ▸ hpromise) hj
    · next hji => exact h.others j t hj (by simpa [show s.transportPromise = some i from hpromise] using Ne.symm hji)
  · next hresolved hpromise =>
    refine ⟨by simp, rfl, by simp, hsends, h.unowned, fun _ => .stopped rfl (fun t ht => ?_) (by simp [h.shutdowns]) fun _ => ⟨hpromise, hresolved⟩⟩
    obtain ⟨j, hj⟩ := List.mem_iff_getElem?.1 ht
    exact h.others j t hj (by simp [show s.transportPromise = none from hpromise])

theorem Down.onApplicationShutdown (h : Down config s) (hs : Sound config s .onApplicationShutdown = true) :
    Down config (s.onApplicationShutdown config) := by
  simp only [Sound, Bool.and_eq_true, Bool.or_eq_true, List.all_eq_true, Bool.not_eq_true'] at hs
  obtain ⟨-, howns⟩ := hs
  unfold State.onApplicationShutdown
  cases hcloses : config.closes with
  | false =>
    dsimp only
    split
    · simp only [State.release, State.releasing, hcloses, Bool.false_eq_true, if_false]
      exact ⟨by simp, rfl, by simp, h.sends, fun _ => h.unowned hcloses, by simp [hcloses]⟩
    · exact ⟨by simp, rfl, by simp, h.sends, h.unowned, by simp [hcloses]⟩
    · exact ⟨by simp, rfl, by simp, h.sends, h.unowned, by simp [hcloses]⟩
  | true =>
    have hnone : ∀ d ∈ s.shutdowns, d.transport = none := by
      intro d hd
      simpa using (howns.resolve_left (by simp [hcloses])).2 d hd
    cases h.owned hcloses with
    | stopped hl hall hsettled hidle =>
      obtain ⟨hpromise, hresolved⟩ := hidle hnone
      simp only [hpromise, hresolved]
      exact ⟨by simp, rfl, by simp, h.sends, h.unowned, fun _ => .stopped rfl hall (forall_mem_concat hsettled rfl) fun _ => ⟨rfl, rfl⟩⟩
    | awaiting i _ hsd | closing i _ hsd | failed i _ hsd => cases hnone _ (hsd ▸ List.mem_singleton_self _)

theorem Down.settleShutdown (h : Down config s) {before : Shutdown} (hd : s.shutdowns[d]? = some before) (transport : Option Nat) (ok : Bool)
    (howned : config.closes = true → Released (s.settleShutdown d transport ok)) : Down config (s.settleShutdown d transport ok) := by
  have hmem : ({ transport, phase := .settled ok } : Shutdown) ∈ s.shutdowns.set d { transport, phase := .settled ok } :=
    List.mem_of_getElem? ((getElem?_set_iff hd).2 (.inl ⟨rfl, rfl⟩))
  refine ⟨List.ne_nil_of_mem hmem, by cases ok <;> rfl, fun hfailed => ⟨_, hmem, ?_⟩, h.sends, h.unowned, howned⟩
  cases ok with
  | true => cases hfailed
  | false => rfl

theorem Released.unsettled (h : Released s) {it : Shutdown} (hd : s.shutdowns[d]? = some it) (hphase : ∀ ok, it.phase ≠ .settled ok) :
    ∃ i, it.transport = some i ∧ d = 0 ∧ s.shutdowns = [it] ∧
      (it.phase = .awaiting → ∀ (j : Nat) t, s.transports[j]? = some t → if j = i then t.closes = 0 else t.status = .created ∧ t.closes = 1) ∧
      (it.phase = .closing → ∀ t ∈ s.transports, t.status = .created ∧ t.closes = 1) := by
  have hzero {only : Shutdown} (hsd : s.shutdowns = [only]) : d = 0 ∧ only = it := by
    rw [hsd, List.getElem?_singleton] at hd
    split at hd
    · next hd0 => exact ⟨hd0, Option.some.inj hd⟩
    · cases hd
  cases h with
  | stopped _ _ hsettled => exact absurd (hsettled it (List.mem_of_getElem? hd)) (hphase true)
  | awaiting i _ hsd hall =>
    obtain ⟨hd0, rfl⟩ := hzero hsd
    exact ⟨i, rfl, hd0, hsd, fun _ => hall, by simp⟩
  | closing i _ hsd hall =>
    obtain ⟨hd0, rfl⟩ := hzero hsd
    exact ⟨i, rfl, hd0, hsd, by simp, fun _ => hall⟩
  | failed i _ hsd =>
    obtain ⟨-, rfl⟩ := hzero hsd
    exact absurd rfl (hphase false)

theorem Down.shutdown (h : Down config s) (hstep : s.shutdown config d ok = some s') : Down config s' := by
  unfold State.shutdown at hstep
  split at hstep
  · next i hd =>
    split at hstep
    · next hcreated =>
      cases hstep
      have hmem : State.releasing config i ∈ s.shutdowns.set d (State.releasing config i) :=
        List.mem_of_getElem? ((getElem?_set_iff hd).2 (.inl ⟨rfl, rfl⟩))
      cases hcloses : config.closes with
      | true =>
        obtain ⟨j, hj, rfl, hsd, hall, -⟩ := (h.owned hcloses).unsettled hd (by simp)
        cases hj
        have hstopping : s.lifecycleState = .stopping := by
          cases h.owned hcloses with
          | stopped _ _ hsettled => cases hsettled _ (List.mem_of_getElem? hd)
          | awaiting _ hl | closing _ hl => exact hl
          | failed _ _ hfailed => rw [hfailed] at hsd; cases hsd
        simp only [State.release, State.releasing, hcloses, if_true, hsd, List.set_cons_zero]
        refine ⟨by simp, h.lifecycle, by simp [State.close, hstopping], h.sends, by simp [hcloses], fun _ => .closing i hstopping rfl fun t ht => ?_⟩
        obtain ⟨j, hj⟩ := List.mem_iff_getElem?.1 ht
        obtain ⟨before, hbefore, hstatus, hcount⟩ := getElem?_close hj
        have hwas := hall rfl j before hbefore
        by_cases hij : i = j
        · subst hij
          rw [if_pos rfl] at hwas
          rw [State.status, hbefore] at hcreated
          rw [hstatus, hcount, if_pos rfl, hwas]
          exact ⟨Option.some.inj hcreated, rfl⟩
        · rw [if_neg (Ne.symm hij)] at hwas
          rw [hstatus, hcount, if_neg hij]
          exact hwas
      | false =>
        simp only [State.release, hcloses, Bool.false_eq_true, if_false]
        exact ⟨List.ne_nil_of_mem hmem, rfl, by simp, h.sends, fun _ => h.unowned hcloses, by simp [hcloses]⟩
    · cases hstep
      refine h.settleShutdown hd _ _ fun howned => ?_
      obtain ⟨-, -, rfl, hsd, -⟩ := (h.owned howned).unsettled hd (by simp)
      exact .failed i rfl (by simp [State.settleShutdown, hsd])
    · cases hstep
  · next transport hd =>
    cases hstep
    refine h.settleShutdown hd _ _ fun howned => ?_
    obtain ⟨i, hi, rfl, hsd, -, hall⟩ := (h.owned howned).unsettled hd (by simp)
    cases hi
    cases ok with
    | true => exact .stopped rfl (hall rfl) (by simp [State.settleShutdown, hsd]) fun hnone => by simp [State.settleShutdown, hsd] at hnone
    | false => exact .failed i rfl (by simp [State.settleShutdown, hsd])
  · cases hstep

/-! ## Runs -/

def Ok (config : Config) (s : State) : Prop := Open config s ∨ Down config s

theorem step_ok {l : Label} (h : Ok config s) (hs : Sound config s l = true) (hstep : step config s l = some s') : Ok config s' := by
  rcases h with h | h
  · cases l with
    | onModuleInit => cases hstep; exact .inl h.onModuleInit
    | send => cases hstep; exact .inl h.send
    | onApplicationShutdown => cases hstep; exact .inr (h.onApplicationShutdown hs)
    | create i ok => exact .inl (h.create hstep)
    | start k ok => exact .inl (h.start hstep)
    | finally_ k => exact .inl (h.finally_ hstep)
    | continue_ m ok => exact .inl (h.continueSend hstep)
    | shutdown d ok => simp [step, State.shutdown, h.shutdowns] at hstep
  · refine .inr ?_
    cases l with
    | onModuleInit => cases hstep; exact h.of_quiet (h.onModuleInit hs)
    | send => cases hstep; exact h.of_quiet h.send
    | onApplicationShutdown => cases hstep; exact h.onApplicationShutdown hs
    | create i ok => exact h.create hstep
    | start k ok => exact h.of_quiet (h.start hstep)
    | finally_ k => exact h.of_quiet (quiet_finally hstep)
    | continue_ m ok => exact h.of_quiet (h.continueSend hstep)
    | shutdown d ok => exact h.shutdown hstep

theorem Ok.closed (h : Ok config s) : s.Closed config := by
  rcases h with h | h
  · exact ⟨h.unowned, by simp [h.shutdowns]⟩
  · refine ⟨h.unowned, fun howned d hd hphase t ht _ => ?_⟩
    cases h.owned howned with
    | stopped _ hall => exact (hall t ht).2
    | awaiting i _ hsd | closing i _ hsd | failed i _ hsd =>
      rw [hsd] at hd
      rw [List.mem_singleton.1 hd] at hphase
      cases hphase

theorem readySend_ne_sending (transport : Option Nat) (i : Nat) : s.readySend config transport ≠ .sending i := by
  unfold State.readySend
  split
  · simp
  · split <;> simp

theorem sends_onModuleInit : (s.onModuleInit config).sends = s.sends := by
  unfold State.onModuleInit State.startTransport State.ensureTransport
  split
  · split
    · rfl
    · dsimp only
      split <;> rfl
  · rfl

theorem sends_failStart (k : Nat) : (s.failStart config k).sends = s.sends := by
  unfold State.failStart
  split
  · rfl
  · dsimp only
    split
    · split <;> rfl
    · rfl

theorem sends_release (i : Nat) : (s.release config i).sends = s.sends := by
  unfold State.release
  split <;> rfl

theorem sends_start (hstep : s.start config k ok = some s') : s'.sends = s.sends := by
  unfold State.start at hstep
  split at hstep
  · split at hstep
    · split at hstep
      · cases hstep; rfl
      · split at hstep <;> cases hstep <;> rfl
    · cases hstep; exact sends_failStart k
    · cases hstep
  · split at hstep
    · split at hstep <;> cases hstep <;> rfl
    · cases hstep; exact sends_failStart k
  · cases hstep; rfl
  · cases hstep

theorem sends_onApplicationShutdown : (s.onApplicationShutdown config).sends = s.sends := by
  unfold State.onApplicationShutdown
  dsimp only
  split
  · exact sends_release _
  · rfl
  · rfl

theorem sends_shutdown (hstep : s.shutdown config d ok = some s') : s'.sends = s.sends := by
  unfold State.shutdown at hstep
  split at hstep
  · split at hstep
    · cases hstep; exact sends_release _
    · cases hstep; rfl
    · cases hstep
  · cases hstep; rfl
  · cases hstep

theorem sending_of_continue {m n : Nat} (hstep : s.continueSend config m ok = some s') (hn : s'.sends[n]? = some (.sending i))
    (hnew : s.sends[n]? ≠ some (.sending i)) :
    s.sends[n]? = some (.checked (some i)) ∨ s.sends[n]? = some (.ensuring i) ∧ s.canDeliver = true := by
  have hset {before send : Send} (hm : s.sends[m]? = some before) (h : (s.sends.set m send)[n]? = some (.sending i)) :
      n = m ∧ send = .sending i := by
    rcases (getElem?_set_iff hm).1 h with ⟨hnm, hsend⟩ | ⟨-, h⟩
    · exact ⟨hnm, hsend.symm⟩
    · exact absurd h hnew
  unfold State.continueSend at hstep
  split at hstep
  · next hm =>
    split at hstep
    · cases hstep
      obtain ⟨-, hsend⟩ := hset hm hn
      split at hsend <;> cases hsend
    · cases hstep
      obtain ⟨-, hsend⟩ := hset hm hn
      split at hsend <;> cases hsend
    · cases hstep
  · next hm =>
    split at hstep
    · cases hstep
      simp only [State.setSend, sends_ensureTransport] at hn
      cases (hset hm hn).2
    · cases hstep
      cases (hset hm hn).2
  · next j hm =>
    cases hstep
    obtain ⟨rfl, hsend⟩ := hset hm hn
    cases hsend
    exact .inl hm
  · next j hm =>
    split at hstep
    · split at hstep
      · cases hstep
        cases (hset hm hn).2
      · split at hstep
        · cases hstep
          simp only [State.setSend, sends_ensureReady] at hn
          exact absurd (hset hm hn).2 (readySend_ne_sending _ _)
        · cases hstep
          obtain ⟨rfl, hsend⟩ := hset hm hn
          split at hsend
          · next hcan =>
            cases hsend
            exact .inr ⟨hm, hcan⟩
          · cases hsend
    · cases hstep
      cases (hset hm hn).2
    · cases hstep
  · next j hm =>
    cases hstep
    cases (hset hm hn).2
  · cases hstep

theorem sending_of_step {l : Label} (hstep : step config s l = some s') {n : Nat} (hn : s'.sends[n]? = some (.sending i))
    (hnew : s.sends[n]? ≠ some (.sending i)) :
    s.sends[n]? = some (.checked (some i)) ∨ s.sends[n]? = some (.ensuring i) ∧ s.canDeliver = true := by
  have hsame (h : s'.sends = s.sends) : False := hnew (h ▸ hn)
  cases l with
  | onModuleInit => cases hstep; exact (hsame sends_onModuleInit).elim
  | onApplicationShutdown => cases hstep; exact (hsame sends_onApplicationShutdown).elim
  | create i ok =>
    simp only [step, State.create] at hstep
    split at hstep <;> cases hstep
    exact (hsame rfl).elim
  | start k ok => exact (hsame (sends_start hstep)).elim
  | finally_ k =>
    simp only [step, State.finally_] at hstep
    split at hstep <;> cases hstep
    exact (hsame rfl).elim
  | shutdown d ok => exact (hsame (sends_shutdown hstep)).elim
  | continue_ m ok => exact sending_of_continue hstep hn hnew
  | send =>
    cases hstep
    simp only [State.send] at hn
    split at hn
    · rcases getElem?_concat_iff.1 hn with ⟨-, hsend⟩ | hn
      · exact absurd hsend.symm (readySend_ne_sending _ _)
      · exact absurd hn hnew
    · split at hn <;> rcases getElem?_concat_iff.1 hn with ⟨-, hsend⟩ | hn
      · cases hsend
      · exact absurd hn hnew
      · cases hsend
      · exact absurd hn hnew

theorem Ok.fine {l : Label} (h : Ok config s) (hs : Sound config s l = true) : Fine config s l where
  closed s' hstep := (step_ok h hs hstep).closed
  sends s' hstep m i hm hnew := by
    rcases h with h | h
    · have hfresh {send : Send} (hsend : s.sends[m]? = some send) (hi : send.transport = some i) :=
        (h.sends send (List.mem_of_getElem? hsend)).fresh i hi
      rcases sending_of_step hstep hm hnew with hsend | ⟨hsend, -⟩
      · exact ⟨h.shutdowns, hfresh hsend rfl⟩
      · exact ⟨h.shutdowns, hfresh hsend rfl⟩
    · rcases sending_of_step hstep hm hnew with hsend | ⟨-, hcan⟩
      · cases h.sends _ (List.mem_of_getElem? hsend)
      · rw [h.lifecycle] at hcan
        cases hcan
  usable hl hbegins i t hi ht := by
    subst hl
    simp only [Sound, hbegins, Bool.not_true, Bool.false_or, Bool.and_eq_true, List.all_eq_true, decide_eq_true_eq] at hs
    refine ⟨hs.1 t (List.mem_of_getElem? ht), ?_⟩
    simp only [State.begins, Bool.and_eq_true, Bool.not_eq_true'] at hbegins
    rcases h with h | h
    · refine h.current (fun start hstart => ?_) i t hi ht
      obtain ⟨k, hk⟩ := List.mem_iff_getElem?.1 hstart
      cases start with
      | closing j =>
        obtain ⟨hemail, -, -, hboot, -⟩ := h.starts k _ hk
        simp [State.initializes, hemail, hboot] at hbegins
      | awaiting | verifying | settled | finished => rfl
    · obtain ⟨d, hd, hphase⟩ := h.failed (h.lifecycle_cases.resolve_left (by simp [hbegins.2]))
      exact absurd hphase (hs.2 d hd)
  retries hfailed hnone hover := by
    rcases h with h | h
    · have hinit : s.initializes config = true := by
        cases hservice : config.service with
        | slack => simp [State.initializes, hservice]
        | email =>
          cases hboot : s.bootstrapPromise with
          | none => simp [State.initializes, hboot]
          | some k =>
            have hlt := h.boot k hboot
            have hk : s.starts[k]? = some s.starts[k] := List.getElem?_eq_getElem hlt
            have hstart := h.starts k _ hk
            have hends := hover _ (List.mem_of_getElem? hk)
            generalize s.starts[k] = start at hstart hends
            cases start with
            | finished ok =>
              have hready := hstart hservice hboot
              rw [hfailed] at hready
              cases hready
            | settled ok => simp [Start.isOver, hservice] at hends
            | awaiting | verifying | closing => cases hends
      simp [State.begins, hinit, h.lifecycle]
    · exact absurd hnone h.shutdowns

/-- Where no initialisation follows a rejected transport or a failed shutdown, and no shutdown comes into a last check, into the cleanup of a failed start
or after another one, every owned transport is closed once, none is used after that, and initialisation can be tried again. -/
theorem transport_ownership {config : Config} {ls : List Label} {s : State} (h : Run (step config) (fun s l => Sound config s l) {} ls s) :
    Run (step config) (Fine config) {} ls s :=
  h.mono_of_inv (Ok config) (fun _ _ _ hs hok hstep => step_ok hok hs hstep) (fun _ _ _ hs hok _ => hok.fine hs) (.inl .empty)

private def nodemailer : Config := { service := .email, ownsResources := true, verifyOnModuleInit := true, hasClose := true, hasVerify := true }

private def verifiedAgain : List Label :=
  [.onModuleInit, .create 0 true, .start 0 true, .start 0 false, .start 0 true, .finally_ 0, .onModuleInit, .create 1 true, .start 1 true, .start 1 true,
    .finally_ 1, .send, .continue_ 0 true, .continue_ 0 true, .continue_ 0 true, .continue_ 0 true, .onApplicationShutdown, .shutdown 0 true]

theorem transport_ownership_verifiedAgain : ∃ s, Run (step nodemailer) (Fine nodemailer) {} verifiedAgain s :=
  ⟨_, transport_ownership (Run.of_passes (p := Sound nodemailer) (fun _ _ h => h)
    (show Lib.passes (step nodemailer) (Sound nodemailer) {} verifiedAgain = true by decide))⟩

private def createdAgain : List Label := [.onModuleInit, .create 0 false, .start 0 true, .finally_ 0, .onModuleInit]

private def shutdownInCleanup : List Label :=
  [.onModuleInit, .create 0 true, .start 0 true, .start 0 false, .onApplicationShutdown, .shutdown 0 true]

/-- The promise of a transport that was rejected is kept, and a transport that is being closed after a failed start is closed again. -/
theorem transport_not_owned : (∃ config s, Run (step config) (fun _ _ => True) {} createdAgain s ∧ ¬Run (step config) (Fine config) {} createdAgain s) ∧
    ∃ config s, Run (step config) (fun _ _ => True) {} shutdownInCleanup s ∧ ¬Run (step config) (Fine config) {} shutdownInCleanup s := by
  refine ⟨⟨nodemailer, _, Run.of_passes (p := fun _ _ => true) (fun _ _ _ => trivial) (by decide), fun h => ?_⟩,
    nodemailer, _, Run.of_passes (p := fun _ _ => true) (fun _ _ _ => trivial) (by decide), fun h => ?_⟩
  · have hp := h.passes (p := fun s l => !(l = .onModuleInit && s.begins nodemailer && s.transportPromise = some 0) ||
        s.transports[0]?.all (·.status ≠ .rejected)) fun s l hfine => by
      by_cases hl : l = .onModuleInit ∧ s.begins nodemailer = true ∧ s.transportPromise = some 0
      · cases ht : s.transports[0]? with
        | none => simp
        | some t => simp [(hfine.usable hl.1 hl.2.1 0 t hl.2.2 ht).1]
      · have hno : (l = .onModuleInit && s.begins nodemailer && s.transportPromise = some 0) = false := by
          rw [Bool.eq_false_iff]
          simpa [and_assoc] using hl
        simp [hno]
    revert hp
    decide
  · have hp := h.passes (p := fun s l => (step nodemailer s l).all fun s' => !s'.shutdowns.any (·.phase = .settled true) ||
        s'.transports.all fun t => t.status ≠ .created || t.closes = 1) fun s l hfine => by
      cases hstep : step nodemailer s l with
      | none => rfl
      | some s' =>
        have hclosed := (hfine.closed s' hstep).owned rfl
        simp only [Option.all_some, Bool.or_eq_true, Bool.not_eq_true', List.any_eq_false, decide_eq_true_eq, List.all_eq_true]
        by_cases hall : ∀ d ∈ s'.shutdowns, d.phase ≠ .settled true
        · exact .inl hall
        · obtain ⟨d, hd, hphase⟩ : ∃ d ∈ s'.shutdowns, d.phase = .settled true := by
            by_contra hno
            exact hall fun d hd hphase => hno ⟨d, hd, hphase⟩
          refine .inr fun t ht => ?_
          by_cases hcreated : t.status = .created
          · exact .inr (hclosed d hd hphase t ht hcreated)
          · exact .inl hcreated
    revert hp
    decide

end Fluo.Email
