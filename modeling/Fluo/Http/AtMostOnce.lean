import Fluo.Http.Dispatcher
/-!
# The controller method runs at most once

The monitor counts the calls of the controller method over a dispatch. A call
may end in the outcomes `S`; probing the request and writing the response may
fail with the errors `T`.
-/

namespace Fluo.Http
open Lib Lib.Prog

def Question.isCall : Question → Bool
  | call .. => true
  | _ => false

/-- The calls of the controller method. -/
def calls (options : CreateDispatcherOptions) (S : Except JsValue JsValue → Prop) (T : JsValue → Prop) :
    Monitor JsValue Question.Answer Nat where
  allows _ q r :=
    match q, r with
    | .call .., r => S r
    | .isAborted, .error e | .committed, .error e | .writeSuccessResponse .., .error e => T e
    | .matchHandler, .ok handler => handler ∈ options.handlerMapping
    | _, _ => True
  after n q _ := if q.isCall then n + 1 else n

/-- On every path `next` is called at most once more, if `may`. -/
def Hook.AtMostOnce : Bool → Hook → Prop
  | _, .ret _ | _, .throw _ => True
  | may, .ask _ k => ∀ r, (k r).AtMostOnce may
  | may, .next k => may = true ∧ ∀ r, (k r).AtMostOnce false

def Hooks.AtMostOnce (hooks : Hooks) : Prop := (∀ n, (hooks.middleware n).AtMostOnce true) ∧ ∀ n, (hooks.interceptor n).AtMostOnce true

section
variable {options : CreateDispatcherOptions} {S : Except JsValue JsValue → Prop} {T : JsValue → Prop} {α β : Type}

def Calls (options : CreateDispatcherOptions) (S : Except JsValue JsValue → Prop) (T : JsValue → Prop) (k : Nat) (p : Js α) : Prop :=
  ∀ n, p.Ends (calls options S T) (fun n' _ => n' ≤ n + k) n

namespace Calls

variable {k : Nat} {f : α → Js β} {p : Js α}

theorem pure {a : α} : Calls options S T k (pure a) := fun n => Nat.le_add_right n k

theorem throw {e : JsValue} : Calls options S T k (Prog.throw e : Js α) := fun n => Nat.le_add_right n k

theorem ofExcept {r : Except JsValue α} : Calls options S T k (Prog.ofExcept r) := by
  cases r with
  | ok => exact .pure
  | error => exact .throw

theorem bind {j : Nat} (hp : Calls options S T j p) (hf : ∀ a, Calls options S T k (f a)) :
    Calls options S T (j + k) (p >>= f) := by
  intro n
  rw [ends_bind]
  refine (hp n).mono fun n' r hn => ?_
  cases r with
  | ok a => exact (hf a n').mono fun _ _ h => by omega
  | error => change n' ≤ _; omega

theorem seq (hp : Calls options S T 0 p) (hf : ∀ a, Calls options S T k (f a)) :
    Calls options S T k (p >>= f) := k.zero_add ▸ hp.bind hf

theorem andThen (hp : Calls options S T k p) (hf : ∀ a, Calls options S T 0 (f a)) :
    Calls options S T k (p >>= f) := hp.bind hf

theorem attempt (h : Calls options S T k p) : Calls options S T k p.attempt := fun n => ends_attempt.2 (h n)

theorem tryCatch {handler : JsValue → Js α} (hp : Calls options S T k p)
    (hh : ∀ e, Calls options S T 0 (handler e)) : Calls options S T k (p.tryCatch handler) :=
  hp.attempt.andThen fun r => by
    cases r with
    | ok => exact .pure
    | error e => exact hh e

theorem tryFinally {finalizer : Js Unit} (hp : Calls options S T k p)
    (hf : Calls options S T 0 finalizer) : Calls options S T k (p.tryFinally finalizer) :=
  hp.attempt.andThen fun r => hf.seq fun _ => by
    cases r with
    | ok => exact .pure
    | error => exact .throw

theorem forM {γ : Type} {body : γ → Js Unit} (h : ∀ x, Calls options S T 0 (body x)) : ∀ l : List γ, Calls options S T 0 (l.forM body)
  | [] => .pure
  | x :: l => (h x).seq fun _ => forM h l

theorem await {q : Question} (h : q.isCall = false) : Calls options S T 0 (await q) := by
  intro n
  rw [ends_perform]
  intro r _
  simp [calls, h]

theorem call {controller input : JsValue} {method : Nat} : Calls options S T 1 (Http.await (.call controller method input)) := by
  intro n
  rw [ends_perform]
  intro r _
  simp [calls, Question.isCall]

end Calls

/-! ## The general path -/

theorem bindInput_calls (handler : HandlerDescriptor) : Calls options S T 0 (bindInput handler) := by
  unfold bindInput
  split
  · exact .pure
  · refine .seq (.await rfl) fun input => ?_
    dsimp only
    split
    · exact .seq (.await rfl) fun _ => .pure
    · exact .seq .pure fun _ => .pure

theorem invokeControllerHandler_calls (handler : HandlerDescriptor) : Calls options S T 1 (invokeControllerHandler handler) := by
  unfold invokeControllerHandler
  refine .seq (.await rfl) fun controller => .seq (.await rfl) fun method => ?_
  split
  · exact .throw
  · exact .seq (bindInput_calls handler) fun input => .call

theorem ensureRequestNotAborted_calls : Calls options S T 0 ensureRequestNotAborted := by
  unfold ensureRequestNotAborted
  refine .seq (.await rfl) fun aborted => ?_
  split
  · exact .throw
  · exact .pure

theorem notifyObserversSafely_calls (event : ObserverEvent) : Calls options S T 0 (notifyObserversSafely options event) := by
  unfold notifyObserversSafely
  split
  · exact .pure
  · exact .tryCatch (.forM (fun _ => .await rfl) _) fun _ => .await rfl

theorem runGuardChain_calls (definitions : List Nat) : Calls options S T 0 (runGuardChain definitions) := by
  refine .forM (fun definition => .seq (.await rfl) fun result => ?_) definitions
  split
  · exact .throw
  · exact .pure

theorem Hook.run_calls {k : Nat} {next : Js JsValue} (hnext : Calls options S T k next) :
    ∀ {hook : Hook} {may : Bool}, hook.AtMostOnce may → Calls options S T (if may then k else 0) (hook.run next)
  | .ret _, _, _ => .pure
  | .throw _, _, _ => .throw
  | .ask n _, _, h => fun i => by
    intro r _
    exact Hook.run_calls hnext (h r) i
  | .next k, may, h => by
    obtain ⟨rfl, h⟩ := h
    exact hnext.attempt.andThen fun r => Hook.run_calls hnext (h r)

variable {hooks : Hooks}

theorem composeInterceptors_calls (hh : hooks.AtMostOnce) :
    ∀ {definitions : List Nat} {next : Js JsValue}, Calls options S T 1 next → Calls options S T 1 (composeInterceptors hooks next definitions)
  | [], _, h => h
  | definition :: _, _, h => .seq (.await rfl) fun _ => composeInterceptors_calls hh (Hook.run_calls h (hh.2 definition))

theorem resolveActiveMiddlewareDefinitions_calls :
    ∀ definitions : List Nat, Calls options S T 0 (resolveActiveMiddlewareDefinitions definitions)
  | [] => .pure
  | _ :: rest => .seq (.await rfl) fun _ => .seq (resolveActiveMiddlewareDefinitions_calls rest) fun _ => .pure

theorem composeMiddleware_calls (hh : hooks.AtMostOnce) {terminal : Js JsValue} (ht : Calls options S T 1 terminal) :
    ∀ chain : List Nat, Calls options S T 1 (composeMiddleware hooks terminal chain)
  | [] => ht
  | middleware :: rest => Hook.run_calls (composeMiddleware_calls hh ht rest) (hh.1 middleware)

theorem runMiddlewareChain_calls (hh : hooks.AtMostOnce) {terminal : Js JsValue} (ht : Calls options S T 1 terminal)
    (definitions : List Nat) : Calls options S T 1 (runMiddlewareChain hooks definitions terminal) :=
  .seq (resolveActiveMiddlewareDefinitions_calls definitions) fun chain => composeMiddleware_calls hh ht chain

theorem writeResult_calls (handler : HandlerDescriptor) (result : JsValue) : Calls options S T 0 (writeResult handler result) := by
  unfold writeResult
  refine .seq (.await rfl) fun committed => ?_
  split
  · exact .await rfl
  · exact .pure

theorem runHandler_calls (hh : hooks.AtMostOnce) (handler : HandlerDescriptor) :
    Calls options S T 1 (runHandler options hooks handler) := by
  unfold runHandler
  split
  · exact invokeControllerHandler_calls handler
  · exact composeInterceptors_calls hh (invokeControllerHandler_calls handler)

theorem dispatchMatchedHandler_calls (hh : hooks.AtMostOnce) (handler : HandlerDescriptor) :
    Calls options S T 1 (dispatchMatchedHandler options hooks handler) := by
  have hnotify : Calls options S T 0 (notifyObserversSafely options .requestSuccess >>= fun _ => pure JsValue.undefined) :=
    .seq (notifyObserversSafely_calls _) fun _ => .pure
  unfold dispatchMatchedHandler
  refine .seq (runGuardChain_calls _) fun _ => .seq (.await rfl) fun committed => ?_
  split
  · exact .pure
  · refine (runHandler_calls hh handler).andThen fun result => .seq ensureRequestNotAborted_calls fun _ => ?_
    split
    · exact .seq (.await rfl) fun _ => hnotify
    · exact .seq (writeResult_calls handler result) fun _ => hnotify

theorem dispatchGeneralPath_calls (hh : hooks.AtMostOnce) (handler : HandlerDescriptor) :
    Calls options S T 1 (dispatchGeneralPath options hooks handler) := by
  have hrest : Calls options S T 1 (notifyObserversSafely options .handlerMatched >>= fun _ =>
      runMiddlewareChain hooks handler.moduleMiddleware (dispatchMatchedHandler options hooks handler)) :=
    .seq (notifyObserversSafely_calls _) fun _ => runMiddlewareChain_calls hh (dispatchMatchedHandler_calls hh handler) _
  unfold dispatchGeneralPath
  refine .seq (.await rfl) fun required => ?_
  split
  · exact .seq (.await rfl) fun _ => hrest
  · exact hrest

theorem handleDispatchError_calls (error : JsValue) : Calls options S T 0 (handleDispatchError options error) := by
  unfold handleDispatchError
  split
  · exact .pure
  · refine .seq (.await rfl) fun aborted => ?_
    split
    · exact .pure
    · refine .seq (notifyObserversSafely_calls _) fun _ => ?_
      have hwrite (handled : JsValue) : Calls options S T 0 (if handled.isTruthy then pure () else Http.await (.writeErrorResponse error)) := by
        split
        · exact .pure
        · exact .await rfl
      split
      · exact .seq (.await rfl) hwrite
      · exact .seq .pure hwrite

theorem dispatch_calls (hr : Calls options S T 1 (dispatchMatchedRoute options hooks)) (hh : hooks.AtMostOnce) :
    Calls options S T 1 (dispatch options hooks) := by
  have hbody : Calls options S T 1 (notifyObserversSafely options .requestStart >>= fun _ => runDispatchPipeline options hooks (dispatchMatchedRoute options hooks)) :=
    .seq (notifyObserversSafely_calls _) fun _ => .seq ensureRequestNotAborted_calls fun _ =>
      (runMiddlewareChain_calls hh hr _).andThen fun _ => .pure
  have hfinish : Calls options S T 0 (notifyObserversSafely options .requestFinish >>= fun _ => Http.await .disposeRequestScope) :=
    .seq (notifyObserversSafely_calls _) fun _ => .await rfl
  have hdispatch := (hbody.tryCatch handleDispatchError_calls).tryFinally hfinish
  unfold dispatch dispatchVia
  refine .seq (.await rfl) fun required => ?_
  split
  · exact .seq (.await rfl) fun _ => hdispatch
  · exact hdispatch

/-! ## The fast path -/

/-- No error that ends the fast path after the call is falsy. -/
def Truthful (S : Except JsValue JsValue → Prop) (T : JsValue → Prop) : Prop :=
  (∀ e, S (.error e) → e.isTruthy) ∧ ((∃ value, S (.ok value)) → ∀ e, T e → e.isTruthy)

variable {n : Nat} {post : Nat → Except JsValue β → Prop} {handler : HandlerDescriptor} {outcome : Except JsValue JsValue}

theorem Calls.then {p : Js α} {f : α → Js β} (hp : Calls options S T 0 p)
    (herror : ∀ n' e, n' ≤ n → post n' (.error e)) (hok : ∀ a n', n' ≤ n → (f a).Ends (calls options S T) post n') :
    (p >>= f).Ends (calls options S T) post n := by
  rw [ends_bind]
  refine (hp n).mono fun n' r hn => ?_
  cases r with
  | ok a => exact hok a n' hn
  | error e => exact herror n' e hn

def Truthfully (options : CreateDispatcherOptions) (S : Except JsValue JsValue → Prop) (T : JsValue → Prop) (p : Js α) : Prop :=
  ∀ n, p.Ends (calls options S T) (fun n' r => n' ≤ n ∧ ∀ e, r = .error e → e.isTruthy) n

theorem Truthfully.then {p : Js α} {f : α → Js β} (hp : Truthfully options S T p)
    (herror : ∀ n' e, n' ≤ n ∧ e.isTruthy → post n' (.error e)) (hok : ∀ a n', n' ≤ n → (f a).Ends (calls options S T) post n') :
    (p >>= f).Ends (calls options S T) post n := by
  rw [ends_bind]
  refine (hp n).mono fun n' r ⟨hn, he⟩ => ?_
  cases r with
  | ok a => exact hok a n' hn
  | error e => exact herror n' e ⟨hn, he e rfl⟩

theorem Truthfully.await (hT : ∀ e, T e → e.isTruthy) {q : Question} (hq : q.isCall = false)
    (hr : ∀ n e, (calls options S T).allows n q (.error e) → T e) : Truthfully options S T (Http.await q) := by
  intro n
  rw [ends_perform]
  intro r hallow
  refine ⟨by simp [calls, hq], fun e he => ?_⟩
  subst he
  exact hT e (hr n e hallow)

theorem ensureRequestNotAborted_truthful (hT : ∀ e, T e → e.isTruthy) : Truthfully options S T ensureRequestNotAborted := by
  intro n
  unfold ensureRequestNotAborted
  refine (Truthfully.await (q := .isAborted) hT rfl fun _ _ h => h).then (fun n' e ⟨hn, he⟩ => ⟨hn, fun _ h => by cases h; exact he⟩) fun aborted n' hn => ?_
  split
  · exact ⟨hn, fun _ h => by cases h; rfl⟩
  · exact ⟨hn, fun _ h => by cases h⟩

theorem writeResult_truthful (hT : ∀ e, T e → e.isTruthy) (handler : HandlerDescriptor) (result : JsValue) :
    Truthfully options S T (writeResult handler result) := by
  intro n
  unfold writeResult
  refine (Truthfully.await (q := .committed) hT rfl fun _ _ h => h).then (fun n' e ⟨hn, he⟩ => ⟨hn, fun _ h => by cases h; exact he⟩) fun committed n' hn => ?_
  split
  · exact (Truthfully.await (q := .writeSuccessResponse handler result) hT rfl (fun _ _ h => h) n').mono fun _ _ ⟨hm, he⟩ => ⟨by omega, he⟩
  · exact ⟨hn, fun _ h => by cases h⟩

/-- How the `try` block of the fast path ends: an error after the call is truthy. -/
def FastEnd (n n' : Nat) : Except JsValue FastPathExecutionResult → Prop
  | .ok result => n' ≤ n + 1 ∧ (result.executed = false → result.error.isTruthy)
  | .error e => n' ≤ n + 1 ∧ (n' ≤ n ∨ e.isTruthy)

theorem attemptFastPath_ends (ht : Truthful S T) (handler : HandlerDescriptor) (controller : JsValue) (method : Option Nat) (n : Nat) :
    (attemptFastPath handler controller method).Ends (calls options S T) (FastEnd n) n := by
  have hbefore : ∀ n' e, n' ≤ n → FastEnd n n' (.error e) := fun n' e hn => ⟨by omega, .inl hn⟩
  have hcontroller : Calls options S T 0 (fastPathController handler controller) := by
    unfold fastPathController
    split
    · exact .await rfl
    · exact .pure
  have hmethod (controller : JsValue) : Calls options S T 0 (fastPathMethod handler controller method) := by
    cases method with
    | some => exact .pure
    | none => exact .await rfl
  unfold attemptFastPath
  refine hcontroller.then hbefore fun controller n₁ h₁ => ?_
  refine (hmethod controller).then (fun n' e hn => hbefore n' e (Nat.le_trans hn h₁)) fun method n₂ h₂ => ?_
  cases method with
  | none => exact ⟨by omega, fun _ => rfl⟩
  | some method =>
    refine (bindInput_calls handler).then (fun n' e hn => hbefore n' e (by omega)) fun input n₃ h₃ => ?_
    rw [ends_bind, ends_perform]
    intro outcome ho
    change andThen _ _ _ (n₃ + 1) outcome
    cases outcome with
    | error e => exact ⟨by omega, .inr (ht.1 e ho)⟩
    | ok result =>
      refine (ensureRequestNotAborted_truthful (ht.2 ⟨result, ho⟩)).then (fun n' e ⟨hn, he⟩ => ⟨by omega, .inr he⟩) fun _ n₄ h₄ => ?_
      refine (writeResult_truthful (ht.2 ⟨result, ho⟩) handler result).then (fun n' e ⟨hn, he⟩ => ⟨by omega, .inr he⟩) fun _ n₅ h₅ => ?_
      exact ⟨by omega, fun hx => by cases hx⟩

theorem tryFastPathExecution_ends (ht : compileFastPathEligibility handler options = .fast → Truthful S T)
    (n : Nat) : (tryFastPathExecution options handler).Ends (calls options S T) (fun n' r => n' ≤ n + 1 ∧ (r = .ok false → n' ≤ n)) n := by
  have hcache : Calls options S T 0 (resolveFastPathHandlerRuntimeCache handler) := by
    unfold resolveFastPathHandlerRuntimeCache
    refine .seq (.await rfl) fun cached => ?_
    split
    · exact .pure
    · exact .seq (.await rfl) fun _ => .seq (.await rfl) fun _ => .pure
  have hcontroller (cache : FastPathHandlerRuntimeCache) : Calls options S T 0 (resolveFastPathController handler cache) := by
    unfold resolveFastPathController
    split
    · exact .pure
    · exact .ofExcept
    · exact .seq (.attempt (.await rfl)) fun _ => .seq (.await rfl) fun _ => .ofExcept
  have hbefore : ∀ n' (e : JsValue), n' ≤ n → n' ≤ n + 1 ∧ ((Except.error e : Except JsValue Bool) = .ok false → n' ≤ n) :=
    fun n' e hn => ⟨by omega, fun _ => hn⟩
  unfold tryFastPathExecution
  split
  · exact ⟨by omega, fun _ => Nat.le_refl n⟩
  next hfull =>
    have ht := ht (by cases h : compileFastPathEligibility handler options with | fast => rfl | full => exact absurd h hfull)
    refine hcache.then hbefore fun cache n₁ h₁ => (hcontroller cache).then (fun n' e hn => hbefore n' e (by omega)) fun controller n₂ h₂ => ?_
    unfold executeFastPath
    rw [ends_bind, ends_tryCatch]
    refine (attemptFastPath_ends ht handler controller cache.method n₂).mono fun n' r hr => ?_
    cases r with
    | ok result =>
      obtain ⟨hle, htruthy⟩ := hr
      change Ends _ _ (if result.executed = true then _ else _) n'
      split
      · exact ⟨by omega, fun h => by cases h⟩
      next hx =>
        rw [if_pos (htruthy (Bool.eq_false_iff.2 hx))]
        exact ⟨by omega, fun h => by cases h⟩
    | error e =>
      obtain ⟨hle, hquiet⟩ := hr
      change Ends _ _ (if e.isTruthy = true then _ else _) n'
      split
      · exact ⟨by omega, fun h => by cases h⟩
      next he => exact ⟨by omega, fun _ => by have := hquiet.resolve_right he; omega⟩

theorem dispatchMatchedRoute_calls (hh : hooks.AtMostOnce)
    (ht : ∀ handler ∈ options.handlerMapping, compileFastPathEligibility handler options = .fast → Truthful S T) :
    Calls options S T 1 (dispatchMatchedRoute options hooks) := by
  have huse (handler : HandlerDescriptor) : Calls options S T 0 (shouldUseFastPathForRequest options handler) := by
    unfold shouldUseFastPathForRequest
    split
    · exact .pure
    · exact .seq (.await rfl) fun _ => .pure
  unfold dispatchMatchedRoute
  refine .seq (.await rfl) fun committed => ?_
  split
  · exact .pure
  intro n
  rw [ends_bind, ends_perform]
  intro r hr
  cases r with
  | error e => exact Nat.le_add_right n 1
  | ok handler =>
    change Ends _ _ (shouldUseFastPathForRequest options handler >>= _) n
    refine (huse handler).then (fun n' e hn => by omega) fun use n₁ h₁ => ?_
    have hgeneral (n₂ : Nat) (h₂ : n₂ ≤ n) : (dispatchGeneralPath options hooks handler).Ends (calls options S T) (fun n' _ => n' ≤ n + 1) n₂ :=
      (dispatchGeneralPath_calls hh handler n₂).mono fun _ _ h => by omega
    split
    · rw [ends_bind]
      refine (tryFastPathExecution_ends (ht handler hr) n₁).mono fun n₂ success ⟨hle, hfalse⟩ => ?_
      cases success with
      | error e => change n₂ ≤ n + 1; omega
      | ok success =>
        cases success with
        | true => change n₂ ≤ n + 1; omega
        | false => exact hgeneral n₂ (by have := hfalse rfl; omega)
    · exact hgeneral n₁ h₁

/-! ## A second call -/

theorem Ends.answer {q : Question} {f : q.Answer → Js β}
    (h : (await q >>= f).Ends (calls options S T) post n) (a : q.Answer) (ha : (calls options S T).allows n q (.ok a)) :
    (f a).Ends (calls options S T) post ((calls options S T).after n q (.ok a)) := by
  rw [ends_bind, ends_perform] at h
  exact h (.ok a) ha

theorem Ends.input {f : JsValue → Js β}
    (h : (bindInput handler >>= f).Ends (calls options S T) post n) : ∃ input, (f input).Ends (calls options S T) post n := by
  unfold bindInput at h
  split at h
  · exact ⟨_, h⟩
  next dto _ =>
    refine ⟨.undefined, ?_⟩
    rw [ends_bind] at h
    have h := Ends.answer h .undefined trivial
    split at h
    · exact Ends.answer h () trivial
    · exact h

def Once (options : CreateDispatcherOptions) (S : Except JsValue JsValue → Prop) (T : JsValue → Prop) (p : Js α) (n : Nat) : Prop :=
  p.Ends (calls options S T) (fun n' _ => n' ≤ 1) n

theorem not_once (ho : S outcome) {p : Js α} (hn : 2 ≤ n) : ¬Once options S T p n := by
  intro h
  have hask : ∀ n q, 2 ≤ n → ∃ r, (calls options S T).allows n q r ∧ 2 ≤ (calls options S T).after n q r := by
    intro n q hn
    have hafter (r) : 2 ≤ (calls options S T).after n q r := by
      simp only [calls]
      split <;> omega
    cases q with
    | call => exact ⟨outcome, ho, hafter _⟩
    | isAborted => exact ⟨.ok false, trivial, hafter _⟩
    | committed => exact ⟨.ok false, trivial, hafter _⟩
    | writeSuccessResponse => exact ⟨.ok (), trivial, hafter _⟩
    | _ => exact ⟨.error .undefined, trivial, hafter _⟩
  obtain ⟨n', r, h2, h1⟩ := h.exists hask hn
  omega

namespace Once
variable {outcome : Except JsValue JsValue}

theorem of_bind (ho : S outcome) {p : Js α} {f : α → Js β} {n : Nat} (h : Once options S T (p >>= f) n) : Once options S T p n := by
  unfold Once at h
  rw [ends_bind] at h
  refine h.mono fun n' r hr => ?_
  cases r with
  | ok a =>
    by_contra hn
    exact not_once ho (by omega) hr
  | error e => exact hr

theorem of_tryCatch (ho : S outcome) {p : Js α} {handler : JsValue → Js α} {n : Nat} (h : Once options S T (p.tryCatch handler) n) :
    Once options S T p n := ends_attempt.1 (of_bind ho h)

theorem of_tryFinally (ho : S outcome) {p : Js α} {finalizer : Js Unit} {n : Nat} (h : Once options S T (p.tryFinally finalizer) n) :
    Once options S T p n := ends_attempt.1 (of_bind ho h)

end Once

theorem dispatchGeneralPath_again (hf : compileFastPathEligibility handler options = .fast)
    (ho : S outcome) : ¬Once options S T (dispatchGeneralPath options hooks handler) 1 := by
  obtain ⟨hguards, hinterceptors, hmiddleware, hglobal, happ, hobservers, -⟩ := eligible_spec hf
  intro h
  have hmerged : (mergedInterceptors handler options).isEmpty = true := by simp [mergedInterceptors, hinterceptors, hglobal]
  have hnotify : notifyObserversSafely options .handlerMatched = pure () := by simp [notifyObserversSafely, hobservers]
  have hmatched : Once options S T (notifyObserversSafely options .handlerMatched >>= fun _ =>
      runMiddlewareChain hooks handler.moduleMiddleware (dispatchMatchedHandler options hooks handler)) 1 := by
    unfold dispatchGeneralPath at h
    have h := Ends.answer h false trivial
    split at h
    · exact Ends.answer h () trivial
    · exact h
  rw [hnotify, hmiddleware] at hmatched
  change Once options S T (dispatchMatchedHandler options hooks handler) 1 at hmatched
  unfold dispatchMatchedHandler at hmatched
  rw [hguards] at hmatched
  have hcommitted := Ends.answer (q := .committed) hmatched false trivial
  rw [if_neg Bool.false_ne_true] at hcommitted
  have hrun := Once.of_bind ho hcommitted
  unfold runHandler at hrun
  rw [if_pos hmerged] at hrun
  unfold invokeControllerHandler at hrun
  have hmethod := Ends.answer (q := .methodOf (.object 0) handler) (Ends.answer (q := .resolveController handler) hrun (.object 0) trivial) (some 0) trivial
  obtain ⟨input, hcall⟩ := Ends.input hmethod
  have htwo : 2 ≤ 1 := ends_perform.1 hcall outcome ho
  omega

theorem attemptFastPath_falsy (ht : ¬Truthful S T) {post : Nat → Except JsValue FastPathExecutionResult → Prop}
    (h : (attemptFastPath handler (.object 0) (some 0)).Ends (calls options S T) post 0) :
    ∃ e outcome, e.isTruthy = false ∧ S outcome ∧ post 1 (.error e) := by
  obtain ⟨input, hcall⟩ := Ends.input h
  rw [ends_bind] at hcall
  have hcall (outcome) (ho : S outcome) := ends_perform.1 hcall outcome ho
  by_cases hS : ∀ e, S (.error e) → e.isTruthy
  · have hT : ¬((∃ value, S (.ok value)) → ∀ e, T e → e.isTruthy) := fun hT => ht ⟨hS, hT⟩
    push Not at hT
    obtain ⟨⟨value, hv⟩, e, he, hfalsy⟩ := hT
    have habort := hcall (.ok value) hv
    rw [andThen_ok, ends_bind] at habort
    unfold ensureRequestNotAborted at habort
    rw [ends_bind, ends_perform] at habort
    exact ⟨e, .ok value, Bool.eq_false_iff.2 hfalsy, hv, habort (.error e) he⟩
  · push Not at hS
    obtain ⟨e, he, hfalsy⟩ := hS
    exact ⟨e, .error e, Bool.eq_false_iff.2 hfalsy, he, hcall (.error e) he⟩

theorem dispatch_again (hm : handler ∈ options.handlerMapping)
    (hf : compileFastPathEligibility handler options = .fast) (ht : ¬Truthful S T) : ¬Once options S T (dispatch options hooks) 0 := by
  obtain ⟨-, -, -, -, happ, hobservers, -⟩ := eligible_spec hf
  intro h
  obtain ⟨outcome, ho⟩ : ∃ outcome, S outcome := by
    by_contra hnone
    push Not at hnone
    exact ht ⟨fun e he => absurd he (hnone _), fun ⟨v, hv⟩ => absurd hv (hnone _)⟩
  -- down to the matched route
  have hnotify : notifyObserversSafely options .requestStart = pure () := by simp [notifyObserversSafely, hobservers]
  unfold dispatch dispatchVia at h
  have h := Ends.answer (q := .middlewareMayRequireRequestScope options.appMiddleware) h false trivial
  rw [hobservers, if_neg (by decide)] at h
  have hpipeline := (Once.of_tryFinally ho h).of_tryCatch ho
  rw [hnotify] at hpipeline
  change Once options S T (runDispatchPipeline options hooks (dispatchMatchedRoute options hooks)) 0 at hpipeline
  unfold runDispatchPipeline ensureRequestNotAborted at hpipeline
  rw [happ] at hpipeline
  have hroute : Once options S T (dispatchMatchedRoute options hooks) 0 := by
    unfold Once at hpipeline
    rw [ends_bind] at hpipeline
    exact Once.of_bind ho (Ends.answer (q := .isAborted) hpipeline false trivial)
  -- along the fast path to a falsy error
  unfold dispatchMatchedRoute at hroute
  have hmatch := Ends.answer (q := .matchHandler) (Ends.answer (q := .committed) hroute false trivial) handler hm
  have hne : compileFastPathEligibility handler options ≠ .full := by rw [hf]; decide
  unfold shouldUseFastPathForRequest at hmatch
  rw [if_neg hne, ends_bind] at hmatch
  have htry := Ends.answer (q := .isAborted) hmatch false trivial
  change Ends _ _ (tryFastPathExecution options handler >>= _) 0 at htry
  unfold tryFastPathExecution resolveFastPathHandlerRuntimeCache at htry
  rw [if_neg hne, ends_bind, ends_bind] at htry
  have hcached := Ends.answer (q := .readRuntimeCache handler) htry (some ⟨some (.object 0), none, some 0⟩) trivial
  change Ends _ _ (executeFastPath handler (.object 0) (some 0) >>= _) 0 at hcached
  unfold executeFastPath at hcached
  rw [ends_bind, ends_tryCatch] at hcached
  obtain ⟨e, outcome, hfalsy, ho, hend⟩ := attemptFastPath_falsy ht hcached
  change andThen _ _ _ 1 (Except.ok (⟨false, e⟩ : FastPathExecutionResult)) at hend
  rw [andThen_ok] at hend
  change Ends _ _ (if e.isTruthy = true then _ else _) 1 at hend
  rw [hfalsy, if_neg Bool.false_ne_true] at hend
  exact dispatchGeneralPath_again hf ho hend

/-- At most once: the controller method runs at most once on every path of
every dispatch exactly where no fast handler can end in a falsy error. -/
theorem handler_runs_at_most_once (options : CreateDispatcherOptions) (hooks : Hooks) (hh : hooks.AtMostOnce)
    (S : Except JsValue JsValue → Prop) (T : JsValue → Prop) :
    (dispatch options hooks).Ends (calls options S T) (fun n _ => n ≤ 1) 0 ↔
      ∀ handler ∈ options.handlerMapping, compileFastPathEligibility handler options = .fast → Truthful S T := by
  constructor
  · intro h handler hm hf
    by_contra ht
    exact dispatch_again hm hf ht h
  · intro ht
    exact dispatch_calls (dispatchMatchedRoute_calls hh ht) hh 0

end

private def passThrough : Hook :=
  .next fun
    | .ok value => .ret value
    | .error error => .throw error

private theorem passThrough_atMostOnce : Hooks.AtMostOnce ⟨fun _ => passThrough, fun _ => passThrough⟩ :=
  have h : passThrough.AtMostOnce true := ⟨rfl, fun r => by cases r <;> trivial⟩
  ⟨fun _ => h, fun _ => h⟩

private def plainHandler : HandlerDescriptor := ⟨[], [], [], none, false, false, false⟩

private def oneRoute : CreateDispatcherOptions := ⟨[plainHandler], [], [], [], false, false, 0, 0⟩

/-- A handler that returns or throws an error runs at most once. -/
theorem handler_runs_at_most_once_error :
    (dispatch oneRoute ⟨fun _ => passThrough, fun _ => passThrough⟩).Ends
      (calls oneRoute (fun r => r = .ok .undefined ∨ r = .error (.error "failed")) fun _ => False) (fun n _ => n ≤ 1) 0 := by
  refine (handler_runs_at_most_once oneRoute _ passThrough_atMostOnce _ _).2 fun _ _ _ => ⟨fun e he => ?_, fun _ _ h => h.elim⟩
  rcases he with he | he
  · cases he
  · cases he; rfl

/-- A handler that throws `undefined` can run twice. -/
theorem handler_runs_at_most_once_undefined :
    ¬(dispatch oneRoute ⟨fun _ => passThrough, fun _ => passThrough⟩).Ends
      (calls oneRoute (· = .error .undefined) fun _ => False) (fun n _ => n ≤ 1) 0 :=
  @dispatch_again _ _ _ _ plainHandler List.mem_cons_self rfl fun ht => Bool.false_ne_true (ht.1 .undefined rfl)

end Fluo.Http
