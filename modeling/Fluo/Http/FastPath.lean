import Fluo.Http.Dispatcher
import Fluo.Lib.Runs
/-!
# The fast path and the general path

A handler that the eligibility check admits is dispatched through the fast
path and, beside it, through the general path, over the same sequence of
requests and application changes. The application is any state machine: what
its container resolves for the controller and which methods the objects have
depends on its state, which requests and other code change.
-/

namespace Fluo.Http
open Lib Lib.Prog

/-! ## The environment of a server -/

/-- The container, for the controller's token, and the controller objects. -/
structure Application (App : Type) where
  /-- `resolve` on the root container, or on a request scope of it. -/
  resolve : Bool → App → Except JsValue JsValue × App
  createRequestScope : App → Except JsValue Unit
  prototypeMethod : App → Option Nat
  methodOf : App → JsValue → Except JsValue (Option Nat)

/-- How a request is answered, given what was asked before, and what that does to the application. -/
structure RequestEnvironment (App : Type) where
  answer : (q : Question) → List Question → Except JsValue q.Answer
  effect : Question → List Question → App → App

/-- `trace` are the calls, inputs and writes so far, newest first. -/
structure World (App : Type) where
  app : App
  cache : Option FastPathHandlerRuntimeCache
  requestScoped : Bool
  trace : List Question

section
variable {App : Type} (application : Application App) (handler : HandlerDescriptor) (request : RequestEnvironment App)

def respond : (q : Question) → World App → Except JsValue q.Answer × World App
  | .matchHandler, w => (.ok handler, w)
  | .middlewareMayRequireRequestScope definitions, w =>
    (if definitions.isEmpty then .ok false else request.answer (.middlewareMayRequireRequestScope definitions) w.trace, w)
  | .ensureRequestScope, w =>
    if w.requestScoped then (.ok (), w)
    else match application.createRequestScope w.app with
      | .ok () => (.ok (), { w with requestScoped := true })
      | .error e => (.error e, w)
  | .disposeRequestScope, w => (.ok (), { w with requestScoped := false })
  | .readRuntimeCache _, w => (.ok w.cache, w)
  | .writeRuntimeCache _ cache, w => (.ok (), { w with cache := some cache })
  | .prototypeMethod _, w => (.ok (application.prototypeMethod w.app), w)
  | .resolveController _, w =>
    ((application.resolve w.requestScoped w.app).1, { w with app := (application.resolve w.requestScoped w.app).2 })
  | .methodOf controller _, w => (application.methodOf w.app controller, w)
  | .isAborted, w => (request.answer .isAborted w.trace, w)
  | .committed, w => (request.answer .committed w.trace, w)
  | q, w => (request.answer q w.trace, { w with app := request.effect q w.trace w.app, trace := q :: w.trace })

end

/-- The matched route of a handler kept off the fast path. -/
def dispatchMatchedRouteGenerally (options : CreateDispatcherOptions) (hooks : Hooks) : Js JsValue := do
  if ← await .committed then return .undefined
  let handler ← await .matchHandler
  dispatchGeneralPath options hooks handler

/-! ## Two servers side by side -/

inductive ServerEvent (App : Type)
  | request (request : RequestEnvironment App)
  /-- The application changes between requests: an override, a disposal, a replaced method. -/
  | change (f : App → App)

abbrev Response := Except JsValue Unit × List Question

/-- A server that uses the fast path, one that does not, and what they have answered. -/
structure Servers (App : Type) where
  fast : World App
  general : World App
  responses : List (Response × Response)

section
variable {App : Type} (options : CreateDispatcherOptions) (hooks : Hooks) (application : Application App) (handler : HandlerDescriptor)

def serve (route : Js JsValue) (request : RequestEnvironment App) (w : World App) : Except JsValue Unit × World App :=
  (dispatchVia options hooks route).exec (respond application handler request) w

def Servers.step (s : Servers App) : ServerEvent App → Option (Servers App)
  | .request request =>
    let fast := serve options hooks application handler (dispatchMatchedRoute options hooks) request s.fast
    let general := serve options hooks application handler (dispatchMatchedRouteGenerally options hooks) request s.general
    some ⟨fast.2, general.2, ((fast.1, fast.2.trace), (general.1, general.2.trace)) :: s.responses⟩
  | .change f => some { s with fast := { s.fast with app := f s.fast.app }, general := { s.general with app := f s.general.app } }

end

def Servers.start {App : Type} (app : App) : Servers App := ⟨⟨app, none, false, []⟩, ⟨app, none, false, []⟩, []⟩

/-- The method that the fast path calls. -/
def World.method {App : Type} (application : Application App) (w : World App) : Option Nat :=
  match w.cache with
  | some cache => cache.method
  | none => application.prototypeMethod w.app

/-- A request before which the container still answers for the controller
what it first answered, through a request scope as well; the method is still
the one of the first request and the controller's own; and nothing fails with
a falsy error. -/
structure Faithful {App : Type} (options : CreateDispatcherOptions) (application : Application App) (handler : HandlerDescriptor)
    (w : World App) (request : RequestEnvironment App) : Prop where
  steady : ∀ cache settled, w.cache = some cache → cache.controllerPromise = some settled →
    application.resolve false w.app = (settled, w.app)
  throughScope : planRequiresRequestScope handler options →
    application.createRequestScope w.app = .ok () ∧ application.resolve true w.app = application.resolve false w.app
  controller : ∀ controller, (application.resolve false w.app).1 = .ok controller → controller.isNullish = false ∧
    match w.method application with
    | some method => application.methodOf (application.resolve false w.app).2 controller = .ok (some method)
    | none => ∀ e, application.methodOf (application.resolve false w.app).2 controller = .error e → e.isTruthy
  truthful : ∀ q trace e, request.answer q trace = .error e → e.isTruthy

/-! ## What both servers have in common -/

def World.CacheOk {App : Type} (w : World App) : Prop :=
  ∀ cache, w.cache = some cache → cache.controller = cache.controllerPromise.bind Except.toOption

def Beside {App : Type} (w w' : World App) : Prop := w.app = w'.app ∧ w.trace = w'.trace ∧ w.CacheOk

def AtRest {App : Type} (w w' : World App) : Prop := Beside w w' ∧ w.requestScoped = false ∧ w'.requestScoped = false

/-- Questions whose answer depends on the application and the trace alone. -/
def Question.isPlain : Question → Bool
  | ensureRequestScope | readRuntimeCache _ | writeRuntimeCache .. | resolveController _ => false
  | _ => true

section
variable {App : Type} {application : Application App} {handler : HandlerDescriptor} {request : RequestEnvironment App} {w w' : World App}

attribute [local simp] respond in
theorem Beside.await {q : Question} (hq : q.isPlain = true) (h : Beside w w') :
    Alike (respond application handler request) (respond application handler request) Beside (Http.await q) (Http.await q) w w' := by
  obtain ⟨app, cache, _, trace⟩ := w
  obtain ⟨app', cache', _, trace'⟩ := w'
  obtain ⟨rfl, rfl, hcache⟩ : app = app' ∧ trace = trace' ∧ World.CacheOk ⟨app, cache, _, trace⟩ := h
  unfold Alike
  rw [exec_perform, exec_perform]
  cases q <;> first | exact absurd hq Bool.false_ne_true | exact ⟨rfl, rfl, rfl, hcache⟩

def Plain (application : Application App) (handler : HandlerDescriptor) (request : RequestEnvironment App) {α : Type} (p : Js α) : Prop :=
  ∀ w w' : World App, Beside w w' → Alike (respond application handler request) (respond application handler request) Beside p p w w'

namespace Plain
variable {α β : Type}

theorem pure {a : α} : Plain application handler request (pure a) := fun _ _ h => .pure h

theorem throw {e : JsValue} : Plain application handler request (Prog.throw e : Js α) := fun _ _ h => .throw h

theorem await {q : Question} (hq : q.isPlain = true) : Plain application handler request (Http.await q) := fun _ _ h => h.await hq

theorem bind {p : Js α} {f : α → Js β} (hp : Plain application handler request p) (hf : ∀ a, Plain application handler request (f a)) :
    Plain application handler request (p >>= f) :=
  fun _ _ h => (hp _ _ h).bind (fun _ _ h => h) fun a _ _ h => hf a _ _ h

end Plain

theorem bindInput_plain : Plain application handler request (bindInput handler) := by
  unfold bindInput
  split
  · exact .pure
  · refine .bind (.await rfl) fun input => ?_
    dsimp only
    split
    · exact .bind (.await rfl) fun _ => .pure
    · exact .pure

theorem ensureRequestNotAborted_plain : Plain application handler request ensureRequestNotAborted := by
  unfold ensureRequestNotAborted
  refine .bind (.await rfl) fun aborted => ?_
  split
  · exact .throw
  · exact .pure

theorem writeResult_plain (result : JsValue) : Plain application handler request (writeResult handler result) := by
  unfold writeResult
  refine .bind (.await rfl) fun committed => ?_
  split
  · exact .await rfl
  · exact .pure

def respondWith (handler : HandlerDescriptor) (controller : JsValue) (method : Nat) : Js Unit := do
  let input ← bindInput handler
  let result ← await (.call controller method input)
  ensureRequestNotAborted
  writeResult handler result

theorem respondWith_plain (controller : JsValue) (method : Nat) : Plain application handler request (respondWith handler controller method) :=
  .bind bindInput_plain fun _ => .bind (.await rfl) fun result => .bind ensureRequestNotAborted_plain fun _ => writeResult_plain result

variable {options : CreateDispatcherOptions} {hooks : Hooks}

theorem notify_pure (ho : options.observers = []) (event : ObserverEvent) : notifyObserversSafely options event = pure () := by
  simp [notifyObserversSafely, ho]

theorem handleDispatchError_plain (ho : options.observers = []) (error : JsValue) :
    Plain application handler request (handleDispatchError options error) := by
  have hwrite (handled : JsValue) : Plain application handler request (if handled.isTruthy then Pure.pure () else Http.await (.writeErrorResponse error)) := by
    split
    · exact .pure
    · exact .await rfl
  unfold handleDispatchError
  rw [notify_pure ho]
  split
  · exact .pure
  · refine .bind (.await rfl) fun aborted => ?_
    split
    · exact .pure
    · refine .bind .pure fun _ => ?_
      split
      · exact .bind (.await rfl) hwrite
      · exact .bind .pure hwrite

/-! ### The dispatch around a route -/

def aborts (request : RequestEnvironment App) (trace : List Question) : Except JsValue Unit :=
  match request.answer .isAborted trace with
  | .ok false => .ok ()
  | .ok true => .error .requestAbortedError
  | .error e => .error e

theorem ensureRequestNotAborted_exec (w : World App) :
    ensureRequestNotAborted.exec (respond application handler request) w = (aborts request w.trace, w) := by
  unfold ensureRequestNotAborted aborts
  rw [exec_bind, exec_perform]
  change continueWith _ _ (request.answer .isAborted w.trace, w) = _
  cases request.answer .isAborted w.trace with
  | error e => rfl
  | ok aborted => cases aborted <;> rfl

theorem dispatchVia_alike (ho : options.observers = []) (hm : options.appMiddleware = []) {route route' : Js JsValue} (hb : Beside w w')
    (hroute : aborts request w.trace = .ok () →
      Alike (respond application handler request) (respond application handler request) Beside route route' w w') :
    Alike (respond application handler request) (respond application handler request) AtRest
      (dispatchVia options hooks route) (dispatchVia options hooks route') w w' := by
  have hstart (route : Js JsValue) (w : World App) : (dispatchVia options hooks route).exec (respond application handler request) w =
      ((((ensureRequestNotAborted >>= fun _ => route >>= fun _ => pure ()).tryCatch (handleDispatchError options)).tryFinally
        (await .disposeRequestScope)).exec (respond application handler request) w) := by
    unfold dispatchVia runDispatchPipeline
    rw [ho, hm, exec_bind, exec_perform, notify_pure ho, notify_pure ho]
    rfl
  suffices h : Alike (respond application handler request) (respond application handler request) AtRest
      (((ensureRequestNotAborted >>= fun _ => route >>= fun _ => pure ()).tryCatch (handleDispatchError options)).tryFinally
        (await .disposeRequestScope))
      (((ensureRequestNotAborted >>= fun _ => route' >>= fun _ => pure ()).tryCatch (handleDispatchError options)).tryFinally
        (await .disposeRequestScope)) w w' by
    unfold Alike
    rw [hstart, hstart]
    exact h
  refine Alike.attempt_bind (R := Beside) ?_ fun r t t' ht => ?_
  · refine Alike.attempt_bind (R := Beside) ?_ fun r t t' ht => ?_
    · unfold Alike
      rw [exec_bind, exec_bind, ensureRequestNotAborted_exec, ensureRequestNotAborted_exec, ← hb.2.1]
      cases ha : aborts request w.trace with
      | error e => exact ⟨rfl, hb⟩
      | ok =>
        exact (hroute ha).bind (fun _ _ h => h) fun _ _ _ h => .pure h
    · cases r with
      | ok => exact .pure ht
      | error e => exact handleDispatchError_plain ho e t t' ht
  · unfold Alike
    rw [exec_bind, exec_bind, exec_perform, exec_perform]
    change ((Prog.ofExcept r).exec _ _).1 = ((Prog.ofExcept r).exec _ _).1 ∧ AtRest ((Prog.ofExcept r).exec _ _).2 ((Prog.ofExcept r).exec _ _).2
    rw [exec_ofExcept, exec_ofExcept]
    exact ⟨rfl, ht, rfl, rfl⟩

/-! ### The two routes -/

theorem dispatchMatchedHandler_eq (he : compileFastPathEligibility handler options = .fast) :
    dispatchMatchedHandler options hooks handler = (await .committed >>= fun committed =>
      if committed then pure .undefined
      else await (.resolveController handler) >>= fun controller => await (.methodOf controller handler) >>= fun method =>
        match method with
        | none => Prog.throw missingMethod
        | some method => respondWith handler controller method >>= fun _ => pure .undefined) := by
  obtain ⟨hguards, hinterceptors, -, hglobal, -, hobservers, hsse⟩ := eligible_spec he
  have hmerged : (mergedInterceptors handler options).isEmpty = true := by simp [mergedInterceptors, hinterceptors, hglobal]
  unfold dispatchMatchedHandler runGuardChain runHandler
  rw [hguards, if_pos hmerged, notify_pure hobservers]
  simp only [invokeControllerHandler, hsse, Bool.and_false, Bool.false_eq_true, if_false, bind_assoc, pure_bind, respondWith]
  change (await .committed >>= _) = _
  refine bind_congr fun committed => ?_
  split
  · rfl
  · refine bind_congr fun controller => bind_congr fun method => ?_
    cases method with
    | none => rfl
    | some method => simp only [bind_assoc]

theorem dispatchMatchedHandler_exec (he : compileFastPathEligibility handler options = .fast)
    (hc : request.answer .committed w.trace = .ok false) :
    (dispatchMatchedHandler options hooks handler).exec (respond application handler request) w =
      continueWith (respond application handler request) (fun controller => await (.methodOf controller handler) >>= fun method =>
        match method with
        | none => Prog.throw missingMethod
        | some method => respondWith handler controller method >>= fun _ => pure .undefined)
      ((application.resolve w.requestScoped w.app).1, { w with app := (application.resolve w.requestScoped w.app).2 }) := by
  rw [dispatchMatchedHandler_eq he, exec_bind, exec_perform]
  simp only [respond, hc]
  change Prog.exec _ (await (.resolveController handler) >>= _) w = _
  rw [exec_bind, exec_perform]
  rfl

theorem dispatchGeneralPath_exec (he : compileFastPathEligibility handler options = .fast) (hs : w.requestScoped = false)
    (hc : planRequiresRequestScope handler options = true → application.createRequestScope w.app = .ok ()) :
    (dispatchGeneralPath options hooks handler).exec (respond application handler request) w =
      (dispatchMatchedHandler options hooks handler).exec (respond application handler request)
        { w with requestScoped := planRequiresRequestScope handler options } := by
  obtain ⟨-, -, hmiddleware, -, -, hobservers, -⟩ := eligible_spec he
  unfold dispatchGeneralPath
  rw [hmiddleware, notify_pure hobservers, exec_bind, exec_perform]
  change ((if (planRequiresRequestScope handler options || false) = true then await .ensureRequestScope >>= fun _ =>
      (pure () >>= fun _ => runMiddlewareChain hooks [] (dispatchMatchedHandler options hooks handler))
    else pure () >>= fun _ => runMiddlewareChain hooks [] (dispatchMatchedHandler options hooks handler)) : Js JsValue).exec _ w = _
  rw [Bool.or_false]
  cases hplan : planRequiresRequestScope handler options with
  | true =>
    rw [if_pos rfl, exec_bind, exec_perform]
    simp only [respond, hs, Bool.false_eq_true, if_false, hc hplan]
    rfl
  | false =>
    rw [if_neg Bool.false_ne_true, ← hs]
    rfl

theorem resolveFastPathHandlerRuntimeCache_exec (hc : w.CacheOk) :
    ∃ cache, (resolveFastPathHandlerRuntimeCache handler).exec (respond application handler request) w =
        (.ok cache, { w with cache := some cache }) ∧
      cache.method = w.method application ∧ cache.controller = cache.controllerPromise.bind Except.toOption ∧
      ∀ settled, cache.controllerPromise = some settled → w.cache = some cache := by
  obtain ⟨app, cache, inScope, trace⟩ := w
  cases cache with
  | none => exact ⟨⟨none, none, application.prototypeMethod app⟩, rfl, rfl, rfl, fun _ h => by cases h⟩
  | some cache => exact ⟨cache, rfl, rfl, hc cache rfl, fun _ _ => rfl⟩

theorem resolveFastPathController_exec {cache : FastPathHandlerRuntimeCache} (hs : w.requestScoped = false)
    (hc : cache.controller = cache.controllerPromise.bind Except.toOption)
    (hsteady : ∀ settled, cache.controllerPromise = some settled → application.resolve false w.app = (settled, w.app)) :
    ∃ cache', (resolveFastPathController handler cache).exec (respond application handler request) { w with cache := some cache } =
        ((application.resolve false w.app).1, { w with app := (application.resolve false w.app).2, cache := some cache' }) ∧
      cache'.controller = cache'.controllerPromise.bind Except.toOption := by
  obtain ⟨app, _, inScope, trace⟩ := w
  obtain ⟨controller, promise, method⟩ := cache
  obtain rfl : inScope = false := hs
  obtain rfl : controller = promise.bind Except.toOption := hc
  cases promise with
  | none =>
    refine ⟨⟨(application.resolve false app).1.toOption, some (application.resolve false app).1, method⟩, ?_, rfl⟩
    change ((perform (.resolveController handler)).attempt >>= _ : Js JsValue).exec _ _ = _
    rw [exec_bind, exec_attempt, exec_perform]
    exact exec_ofExcept
  | some settled =>
    have hsettled : application.resolve false app = (settled, app) := hsteady settled rfl
    refine ⟨⟨settled.toOption, some settled, method⟩, ?_, rfl⟩
    rw [hsettled]
    cases settled with
    | error e => rfl
    | ok controller =>
      unfold resolveFastPathController
      cases ht : controller.isTruthy with
      | true => simp [Except.toOption, Option.filter, ht]
      | false => simp [Except.toOption, Option.filter, ht]

def FailsTruthfully (application : Application App) (handler : HandlerDescriptor) (request : RequestEnvironment App) {α : Type} (p : Js α) : Prop :=
  ∀ w e, (p.exec (respond application handler request) w).1 = .error e → e.isTruthy

theorem FailsTruthfully.bind {α β : Type} {p : Js α} {f : α → Js β} (hp : FailsTruthfully application handler request p)
    (hf : ∀ a, FailsTruthfully application handler request (f a)) : FailsTruthfully application handler request (p >>= f) := by
  intro w e h
  rw [exec_bind] at h
  have hpw := hp w
  revert h hpw
  obtain ⟨r, t⟩ := p.exec (respond application handler request) w
  intro h hpw
  cases r with
  | ok a => exact hf a t e h
  | error e' => cases h; exact hpw e rfl

theorem FailsTruthfully.await (ht : ∀ q trace e, request.answer q trace = .error e → e.isTruthy) {q : Question}
    (hq : ∀ w, (respond application handler request q w).1 = request.answer q w.trace) :
    FailsTruthfully application handler request (Http.await q) := by
  intro w e h
  rw [exec_perform, hq] at h
  exact ht q _ e h

theorem respondWith_truthful (ht : ∀ q trace e, request.answer q trace = .error e → e.isTruthy) (controller : JsValue) (method : Nat) :
    FailsTruthfully application handler request (respondWith handler controller method) := by
  have hpure {α : Type} (a : α) : FailsTruthfully application handler request (pure a) := fun _ _ h => by cases h
  refine .bind ?_ fun input => .bind (.await ht fun _ => rfl) fun result => .bind ?_ fun _ => ?_
  · unfold bindInput
    split
    · exact hpure _
    · refine .bind (.await ht fun _ => rfl) fun input => ?_
      dsimp only
      split
      · exact .bind (.await ht fun _ => rfl) fun _ => hpure _
      · exact hpure _
  · refine .bind (.await ht fun _ => rfl) fun aborted => ?_
    split
    · intro w e h
      cases h
      rfl
    · exact hpure _
  · refine .bind (.await ht fun _ => rfl) fun committed => ?_
    split
    · exact .await ht fun _ => rfl
    · exact hpure _

theorem executeFastPath_alike (ht : ∀ q trace e, request.answer q trace = .error e → e.isTruthy) {controller : JsValue} {method : Nat}
    (hn : controller.isNullish = false) (hb : Beside w w') (rest : Js JsValue) :
    Alike (respond application handler request) (respond application handler request) Beside
      (executeFastPath handler controller (some method) >>= fun result =>
        (if result.executed then pure true else if result.error.isTruthy then Prog.throw result.error else pure false) >>= fun success =>
          if success then pure .undefined else rest)
      (respondWith handler controller method >>= fun _ => pure .undefined) w w' := by
  have hfast : executeFastPath handler controller (some method) =
      (respondWith handler controller method >>= fun _ => pure ⟨true, .undefined⟩).tryCatch fun error => pure ⟨false, error⟩ := by
    unfold executeFastPath attemptFastPath fastPathController fastPathMethod
    rw [hn, if_neg Bool.false_ne_true]
    simp only [pure_bind, respondWith, bind_assoc]
  obtain ⟨hresult, hbeside⟩ := @respondWith_plain _ application _ request controller method w w' hb
  have htruthy := @respondWith_truthful _ application handler _ ht controller method w
  unfold Alike
  rw [hfast, exec_bind, exec_bind, Prog.tryCatch, exec_bind, exec_attempt, exec_bind]
  revert hresult hbeside htruthy
  obtain ⟨r, t⟩ := (respondWith handler controller method).exec (respond application handler request) w
  obtain ⟨r', t'⟩ := (respondWith handler controller method).exec (respond application handler request) w'
  rintro rfl hbeside htruthy
  cases r with
  | ok => exact ⟨rfl, hbeside⟩
  | error e =>
    have he : e.isTruthy = true := htruthy e rfl
    simp [continueWith, he, hbeside]

theorem executeFastPath_none {controller : JsValue} (hn : controller.isNullish = false) :
    (executeFastPath handler controller none).exec (respond application handler request) w =
      match application.methodOf w.app controller with
      | .error e => (.ok ⟨false, e⟩, w)
      | .ok none => (.ok ⟨false, missingMethod⟩, w)
      | .ok (some method) => (executeFastPath handler controller (some method)).exec (respond application handler request) w := by
  unfold executeFastPath attemptFastPath fastPathController fastPathMethod
  rw [hn, if_neg Bool.false_ne_true]
  simp only [pure_bind, Prog.tryCatch, exec_bind, exec_attempt, exec_perform, respond]
  cases application.methodOf w.app controller with
  | error e => rfl
  | ok method =>
    cases method with
    | none => rfl
    | some method => simp only [continueWith, exec_bind]

theorem route_alike (he : compileFastPathEligibility handler options = .fast) (hb : AtRest w w')
    (hf : Faithful options application handler w request) (ha : aborts request w.trace = .ok ()) :
    Alike (respond application handler request) (respond application handler request) Beside
      (dispatchMatchedRoute options hooks) (dispatchMatchedRouteGenerally options hooks) w w' := by
  obtain ⟨hbeside, hs, hs'⟩ := hb
  obtain ⟨happ, htrace, hcache⟩ := hbeside
  have hne : compileFastPathEligibility handler options ≠ .full := by rw [he]; decide
  have hnotAborted : request.answer .isAborted w.trace = .ok false := by
    unfold aborts at ha
    split at ha
    next h => exact h
    next => cases ha
    next => cases ha
  unfold dispatchMatchedRoute dispatchMatchedRouteGenerally
  unfold Alike
  rw [exec_bind, exec_bind, exec_perform, exec_perform]
  simp only [respond]
  rw [← htrace]
  cases hcommitted : request.answer .committed w.trace with
  | error e => exact ⟨rfl, happ, htrace, hcache⟩
  | ok committed =>
    cases committed with
    | true => exact ⟨rfl, happ, htrace, hcache⟩
    | false =>
      change Alike _ _ Beside (shouldUseFastPathForRequest options handler >>= _) (dispatchGeneralPath options hooks handler) w w'
      have huse : (shouldUseFastPathForRequest options handler).exec (respond application handler request) w = (.ok true, w) := by
        unfold shouldUseFastPathForRequest
        rw [if_neg hne, exec_bind, exec_perform]
        simp [respond, hnotAborted, continueWith]
      obtain ⟨cache, hcacheExec, hmethod, hcacheOk, hsettled⟩ :=
        @resolveFastPathHandlerRuntimeCache_exec _ application handler request _ hcache
      obtain ⟨cache', hcontroller, hcacheOk'⟩ := @resolveFastPathController_exec _ _ handler request _ _ hs hcacheOk
        fun settled h => hf.steady cache settled (hsettled settled h) h
      have hresolve : application.resolve (planRequiresRequestScope handler options) w.app = application.resolve false w.app := by
        cases hplan : planRequiresRequestScope handler options with
        | true => exact (hf.throughScope hplan).2
        | false => rfl
      unfold Alike
      rw [exec_bind, huse, dispatchGeneralPath_exec he hs' (fun h => happ ▸ (hf.throughScope h).1),
        dispatchMatchedHandler_exec he (by rw [← htrace]; exact hcommitted)]
      change (((tryFastPathExecution options handler >>= fun success => if success then pure .undefined else dispatchGeneralPath options hooks handler :
        Js JsValue).exec _ w).1 = _) ∧ Beside ((tryFastPathExecution options handler >>= fun success =>
          if success then pure .undefined else dispatchGeneralPath options hooks handler : Js JsValue).exec _ w).2 _
      unfold tryFastPathExecution
      rw [if_neg hne]
      simp only [bind_assoc]
      rw [exec_bind, hcacheExec, ← happ, hresolve]
      change (Prog.exec _ (resolveFastPathController handler cache >>= _) { w with cache := some cache }).1 = _ ∧
        Beside (Prog.exec _ (resolveFastPathController handler cache >>= _) { w with cache := some cache }).2 _
      rw [exec_bind, hcontroller]
      have hcontroller := hf.controller
      generalize application.resolve false w.app = resolved at hcontroller
      obtain ⟨r, app⟩ := resolved
      have hbeside : Beside ({ w with app := app, cache := some cache' } : World App)
          { w' with requestScoped := planRequiresRequestScope handler options, app := app } :=
        ⟨rfl, htrace, fun c h => by cases h; exact hcacheOk'⟩
      cases r with
      | error e => exact ⟨rfl, hbeside⟩
      | ok controller =>
        obtain ⟨hn, hm⟩ := hcontroller controller rfl
        simp only [continueWith, hmethod]
        rw [exec_bind, exec_bind, exec_perform]
        simp only [respond]
        cases hwm : w.method application with
        | some method =>
          rw [hwm] at hm
          rw [show application.methodOf app controller = .ok (some method) from hm, ← exec_bind]
          exact executeFastPath_alike hf.truthful hn hbeside _
        | none =>
          rw [hwm] at hm
          rw [executeFastPath_none hn]
          cases hmo : application.methodOf app controller with
          | error e =>
            have he : e.isTruthy = true := hm e hmo
            simp [continueWith, he, hbeside]
          | ok method =>
            cases method with
            | none => simp [continueWith, missingMethod, JsValue.isTruthy, hbeside]
            | some method =>
              rw [← exec_bind]
              exact executeFastPath_alike hf.truthful hn hbeside _

end

/-! ## Sequences of requests -/

section
variable {App : Type} {options : CreateDispatcherOptions} {hooks : Hooks} {application : Application App} {handler : HandlerDescriptor}

/-- Every request is faithful; between requests anything may change. -/
def Faithfully (options : CreateDispatcherOptions) (application : Application App) (handler : HandlerDescriptor) (s : Servers App) :
    ServerEvent App → Prop
  | .request request => Faithful options application handler s.fast request
  | .change _ => True

structure Servers.Level (s : Servers App) : Prop where
  atRest : AtRest s.fast s.general
  responses : ∀ response ∈ s.responses, response.1 = response.2

theorem Servers.Level.start (app : App) : (Servers.start app).Level where
  atRest := ⟨⟨rfl, rfl, fun _ h => by cases h⟩, rfl, rfl⟩
  responses := fun _ h => by cases h

theorem Servers.Level.step (he : compileFastPathEligibility handler options = .fast) {s s' : Servers App} {e : ServerEvent App}
    (h : s.Level) (hf : Faithfully options application handler s e) (hs : s.step options hooks application handler e = some s') :
    s'.Level := by
  cases e with
  | change f =>
    cases hs
    obtain ⟨⟨happ, htrace, hcache⟩, hscoped, hscoped'⟩ := h.atRest
    exact ⟨⟨⟨congrArg f happ, htrace, hcache⟩, hscoped, hscoped'⟩, h.responses⟩
  | request request =>
    cases hs
    obtain ⟨-, -, -, -, happ, hobservers, -⟩ := eligible_spec he
    obtain ⟨hresponse, hrest⟩ := @dispatchVia_alike _ _ _ request _ _ _ hooks hobservers happ _ _ h.atRest.1
      (route_alike he h.atRest hf)
    exact ⟨hrest, List.forall_mem_cons.2 ⟨Prod.ext hresponse hrest.1.2.1, h.responses⟩⟩

end

private def admitted : HandlerDescriptor := ⟨[], [], [], none, false, false, false⟩

private def admitting : CreateDispatcherOptions := ⟨[admitted], [], [], [], false, false, 0, 0⟩

private def noHooks : Hooks := ⟨fun _ => .ret .undefined, fun _ => .ret .undefined⟩

private def plainRequest {App : Type} : RequestEnvironment App where
  answer
    | .isAborted, _ | .committed, _ => .ok false
    | .call .., _ => .ok .undefined
    | .writeSuccessResponse .., _ => .ok ()
    | _, _ => .error (.error "not asked")
  effect _ _ app := app

private def singletonController : Application Unit where
  resolve _ app := (.ok (.object 0), app)
  createRequestScope _ := .ok ()
  prototypeMethod _ := some 0
  methodOf _ _ := .ok (some 0)

private theorem plainRequest_truthful {App : Type} (q : Question) (trace : List Question) (e : JsValue)
    (h : (@plainRequest App).answer q trace = .error e) : e.isTruthy := by
  cases q <;> cases h <;> rfl

private def afterOne : Servers Unit :=
  (Servers.step admitting noHooks singletonController admitted (Servers.start ()) (.request plainRequest)).getD (Servers.start ())

private def afterTwo : Servers Unit :=
  (Servers.step admitting noHooks singletonController admitted afterOne (.request plainRequest)).getD (Servers.start ())

private def transientController : Application Nat where
  resolve _ n := (.ok (.object n), n + 1)
  createRequestScope _ := .ok ()
  prototypeMethod _ := some 0
  methodOf _ _ := .ok (some 0)

private def called (trace : List Question) : List JsValue :=
  trace.filterMap fun
    | .call controller .. => some controller
    | _ => none

private def transientStep (s : Servers Nat) : Servers Nat :=
  (Servers.step admitting noHooks transientController admitted s (.request plainRequest)).getD s

end Fluo.Http
