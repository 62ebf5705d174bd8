import Fluo.Lib.Interaction
/-!
# The dispatcher

`dispatch` of `dispatcher.ts` with the fast path of `fast-path-executor.ts`
and the general path through guards, interceptors and
`invokeControllerHandler`. Everything outside the dispatcher answers a
question: the container, the binder, the controller method, the response, the
observers. Middleware and interceptors are programs of their own that may call
`next`.
-/

namespace Fluo.Http
open Lib Lib.Prog

/-- A JavaScript value, as far as the dispatcher looks at it. -/
inductive JsValue
  | undefined | null
  | boolean (b : Bool)
  | number (n : Int)
  | nan
  | bigint (n : Int)
  | string (s : String)
  /-- An object, symbol or function. -/
  | object (id : Nat)
  | asyncIterable (id : Nat)
  | sseResponse (id : Nat)
  | requestAbortedError
  | error (message : String)
  deriving DecidableEq

namespace JsValue

def isTruthy : JsValue → Bool
  | undefined | null | nan => false
  | boolean b => b
  | number n | bigint n => n != 0
  | string s => s != ""
  | object _ | asyncIterable _ | sseResponse _ | requestAbortedError | error _ => true

def isNullish : JsValue → Bool
  | undefined | null => true
  | _ => false

def isAsyncIterable : JsValue → Bool
  | asyncIterable _ => true
  | _ => false

def isSseResponse : JsValue → Bool
  | sseResponse _ => true
  | _ => false

end JsValue

/-! ## Routes and options -/

/-- The DTO of a route: whether its binding plan has converters and whether it is validated. -/
structure RequestDto where
  converters : Bool
  needsValidation : Bool

structure HandlerDescriptor where
  guards : List Nat
  interceptors : List Nat
  moduleMiddleware : List Nat
  request : Option RequestDto
  /-- Some media type of `route.produces` begins with `text/event-stream`. -/
  isSseRoute : Bool
  /-- The prototype's method takes two parameters. -/
  methodMayUseRequestContext : Bool
  /-- What `hasRequestScopedDependency` said of the controller when the dispatcher was created. -/
  hasRequestScopedDependency : Bool

structure CreateDispatcherOptions where
  handlerMapping : List HandlerDescriptor
  appMiddleware : List Nat
  interceptors : List Nat
  observers : List Nat
  binder : Bool
  onError : Bool
  formatters : Nat
  converterDefinitions : Nat

inductive ExecutionPath
  | fast | full
  deriving DecidableEq

def requestDtoMayRequireRequestScope (handler : HandlerDescriptor) (options : CreateDispatcherOptions) : Bool :=
  match handler.request with
  | none => false
  | some dto => options.converterDefinitions != 0 || options.binder || dto.converters

/-- `determineRequestScopeRequirement` of the eligibility checker. -/
def determineRequestScopeRequirement (handler : HandlerDescriptor) (options : CreateDispatcherOptions) : Bool :=
  !handler.guards.isEmpty || !handler.interceptors.isEmpty || !handler.moduleMiddleware.isEmpty ||
    requestDtoMayRequireRequestScope handler options || handler.hasRequestScopedDependency

/-- The path that `compileFastPathEligibility` decides on. -/
def compileFastPathEligibility (handler : HandlerDescriptor) (options : CreateDispatcherOptions) : ExecutionPath :=
  let hasGuard := !handler.guards.isEmpty
  let hasInterceptor := !handler.interceptors.isEmpty || !options.interceptors.isEmpty
  let hasRequestScopedDI := determineRequestScopeRequirement handler options
  let hasMiddleware := !options.appMiddleware.isEmpty || !handler.moduleMiddleware.isEmpty
  let hasGlobalHook := !options.observers.isEmpty
  let hasContentNegotiation := options.formatters != 0
  if hasGuard || hasInterceptor || hasRequestScopedDI || hasMiddleware || hasGlobalHook || options.onError || options.binder ||
    hasContentNegotiation || handler.isSseRoute then .full
  else .fast

theorem eligible_spec {handler : HandlerDescriptor} {options : CreateDispatcherOptions} (h : compileFastPathEligibility handler options = .fast) :
    handler.guards = [] ∧ handler.interceptors = [] ∧ handler.moduleMiddleware = [] ∧
      options.interceptors = [] ∧ options.appMiddleware = [] ∧ options.observers = [] ∧ handler.isSseRoute = false := by
  unfold compileFastPathEligibility at h
  simp_all

/-- `mergeInterceptors`. -/
def mergedInterceptors (handler : HandlerDescriptor) (options : CreateDispatcherOptions) : List Nat :=
  options.interceptors ++ handler.interceptors

/-- `requiresRequestScope` of the execution plan, but for the middleware. -/
def planRequiresRequestScope (handler : HandlerDescriptor) (options : CreateDispatcherOptions) : Bool :=
  !handler.guards.isEmpty || !(mergedInterceptors handler options).isEmpty || requestDtoMayRequireRequestScope handler options ||
    handler.methodMayUseRequestContext || handler.hasRequestScopedDependency

/-! ## What the dispatcher asks -/

/-- `controllerPromise` once settled, and `controller`. -/
structure FastPathHandlerRuntimeCache where
  controller : Option JsValue
  controllerPromise : Option (Except JsValue JsValue)
  method : Option Nat

inductive ObserverEvent
  | requestStart | handlerMatched | requestSuccess | requestError | requestFinish

inductive Question
  | isAborted
  | committed
  /-- The native handoff of the request, or the match of the handler mapping. -/
  | matchHandler
  /-- Some middleware of the list applies to the request's path, or applies to every path. -/
  | middlewareMayRequireRequestScope (definitions : List Nat)
  | ensureRequestScope
  /-- The middleware if it is active for the request. -/
  | resolveMiddleware (definition : Nat)
  | canActivate (guard : Nat)
  | resolveInterceptor (definition : Nat)
  | readRuntimeCache (handler : HandlerDescriptor)
  | writeRuntimeCache (handler : HandlerDescriptor) (cache : FastPathHandlerRuntimeCache)
  /-- The method on the controller class's prototype. -/
  | prototypeMethod (handler : HandlerDescriptor)
  | resolveController (handler : HandlerDescriptor)
  | methodOf (controller : JsValue) (handler : HandlerDescriptor)
  | bind (handler : HandlerDescriptor)
  | validate (handler : HandlerDescriptor) (input : JsValue)
  | call (controller : JsValue) (method : Nat) (input : JsValue)
  | writeManagedSseIterable (source : JsValue)
  | writeSuccessResponse (handler : HandlerDescriptor) (value : JsValue)
  | writeErrorResponse (error : JsValue)
  | notify (event : ObserverEvent) (observer : Nat)
  | logDispatchFailure
  | onError (error : JsValue)
  | disposeRequestScope
  /-- Whatever else a middleware or interceptor does. -/
  | other (n : Nat)

abbrev Question.Answer : Question → Type
  | isAborted | committed | middlewareMayRequireRequestScope _ => Bool
  | matchHandler => HandlerDescriptor
  | resolveMiddleware _ => Option Nat
  | canActivate _ | bind _ | resolveController _ | call .. | onError _ | other _ => JsValue
  | readRuntimeCache _ => Option FastPathHandlerRuntimeCache
  | prototypeMethod _ | methodOf .. => Option Nat
  | ensureRequestScope | resolveInterceptor _ | writeRuntimeCache .. | validate .. | writeManagedSseIterable _ |
    writeSuccessResponse .. | writeErrorResponse _ | notify .. | logDispatchFailure | disposeRequestScope => Unit

abbrev Js := Prog JsValue Question.Answer

/-- Await the answer of the environment. -/
abbrev await (q : Question) : Js q.Answer := perform q

/-- The body of a middleware or an interceptor. -/
inductive Hook
  | ret (value : JsValue)
  | throw (error : JsValue)
  | ask (n : Nat) (k : Except JsValue JsValue → Hook)
  | next (k : Except JsValue JsValue → Hook)

def Hook.run (next : Js JsValue) : Hook → Js JsValue
  | .ret value => Prog.ret value
  | .throw error => Prog.throw error
  | .ask n k => Prog.ask (.other n) fun r => (k r).run next
  | .next k => next.attempt >>= fun r => (k r).run next

structure Hooks where
  middleware : Nat → Hook
  interceptor : Nat → Hook

/-! ## Calling the controller -/

def missingMethod : JsValue := .error "Controller does not expose handler method."

/-- The argument of a controller method. -/
def bindInput (handler : HandlerDescriptor) : Js JsValue :=
  match handler.request with
  | none => pure .undefined
  | some dto => do
    let input ← await (.bind handler)
    if dto.needsValidation then await (.validate handler input)
    return input

def invokeControllerHandler (handler : HandlerDescriptor) : Js JsValue := do
  let controller ← await (.resolveController handler)
  match ← await (.methodOf controller handler) with
  | none => Prog.throw missingMethod
  | some method =>
    let input ← bindInput handler
    await (.call controller method input)

def ensureRequestNotAborted : Js Unit := do
  if ← await .isAborted then Prog.throw .requestAbortedError

/-- The success response, unless the handler has answered by itself. -/
def writeResult (handler : HandlerDescriptor) (result : JsValue) : Js Unit := do
  if !result.isSseResponse && !(← await .committed) then await (.writeSuccessResponse handler result)

/-! ## The fast path -/

structure FastPathExecutionResult where
  executed : Bool
  error : JsValue

/-- `options.controller ?? await controllerContainer.resolve(...)`. -/
def fastPathController (handler : HandlerDescriptor) (controller : JsValue) : Js JsValue :=
  if controller.isNullish then await (.resolveController handler) else pure controller

/-- `options.method ?? controller[handler.methodName]`. -/
def fastPathMethod (handler : HandlerDescriptor) (controller : JsValue) : Option Nat → Js (Option Nat)
  | some method => pure (some method)
  | none => await (.methodOf controller handler)

/-- The `try` block of `executeFastPath`. -/
def attemptFastPath (handler : HandlerDescriptor) (controller : JsValue) (method : Option Nat) : Js FastPathExecutionResult := do
  let controller ← fastPathController handler controller
  match ← fastPathMethod handler controller method with
  | none => return ⟨false, missingMethod⟩
  | some method =>
    let input ← bindInput handler
    let result ← await (.call controller method input)
    ensureRequestNotAborted
    writeResult handler result
    return ⟨true, .undefined⟩

def executeFastPath (handler : HandlerDescriptor) (controller : JsValue) (method : Option Nat) : Js FastPathExecutionResult :=
  (attemptFastPath handler controller method).tryCatch fun error => pure ⟨false, error⟩

def resolveFastPathHandlerRuntimeCache (handler : HandlerDescriptor) : Js FastPathHandlerRuntimeCache := do
  match ← await (.readRuntimeCache handler) with
  | some cached => return cached
  | none =>
    let method ← await (.prototypeMethod handler)
    await (.writeRuntimeCache handler ⟨none, none, method⟩)
    return ⟨none, none, method⟩

/-- A rejected `controllerPromise` stays. -/
def resolveFastPathController (handler : HandlerDescriptor) (runtimeCache : FastPathHandlerRuntimeCache) : Js JsValue :=
  match runtimeCache.controller.filter JsValue.isTruthy, runtimeCache.controllerPromise with
  | some controller, _ => pure controller
  | none, some settled => Prog.ofExcept settled
  | none, none => do
    let settled ← (await (.resolveController handler)).attempt
    await (.writeRuntimeCache handler ⟨settled.toOption, some settled, runtimeCache.method⟩)
    Prog.ofExcept settled

section
variable (options : CreateDispatcherOptions) (hooks : Hooks)

def tryFastPathExecution (handler : HandlerDescriptor) : Js Bool := do
  if compileFastPathEligibility handler options = .full then return false
  let runtimeCache ← resolveFastPathHandlerRuntimeCache handler
  let controller ← resolveFastPathController handler runtimeCache
  let fastPathResult ← executeFastPath handler controller runtimeCache.method
  if fastPathResult.executed then return true
  if fastPathResult.error.isTruthy then Prog.throw fastPathResult.error
  else return false

def shouldUseFastPathForRequest (handler : HandlerDescriptor) : Js Bool := do
  if compileFastPathEligibility handler options = .full then return false
  return !(← await .isAborted)

/-! ## The general path -/

def notifyObserversSafely (event : ObserverEvent) : Js Unit :=
  if options.observers.isEmpty then pure ()
  else (options.observers.forM fun observer => await (.notify event observer)).tryCatch fun _ => await .logDispatchFailure

def forbidden : JsValue := .error "Access denied."

def runGuardChain (definitions : List Nat) : Js Unit :=
  definitions.forM fun definition => do
    if (← await (.canActivate definition)) = .boolean false then Prog.throw forbidden

/-- Interceptors are resolved from the last to the first, each around the next. -/
def composeInterceptors (next : Js JsValue) : List Nat → Js JsValue
  | [] => next
  | definition :: rest => do
    await (.resolveInterceptor definition)
    composeInterceptors ((hooks.interceptor definition).run next) rest

def runInterceptorChain (definitions : List Nat) (terminal : Js JsValue) : Js JsValue :=
  composeInterceptors hooks terminal definitions.reverse

def resolveActiveMiddlewareDefinitions : List Nat → Js (List Nat)
  | [] => pure []
  | definition :: rest => do
    let middleware ← await (.resolveMiddleware definition)
    let chain ← resolveActiveMiddlewareDefinitions rest
    return middleware.toList ++ chain

def composeMiddleware (terminal : Js JsValue) (chain : List Nat) : Js JsValue :=
  chain.foldr (fun middleware next => (hooks.middleware middleware).run next) terminal

def runMiddlewareChain (definitions : List Nat) (terminal : Js JsValue) : Js JsValue := do
  let chain ← resolveActiveMiddlewareDefinitions definitions
  composeMiddleware hooks terminal chain

/-- The controller behind the merged interceptors. -/
def runHandler (handler : HandlerDescriptor) : Js JsValue :=
  if (mergedInterceptors handler options).isEmpty then invokeControllerHandler handler
  else runInterceptorChain hooks (mergedInterceptors handler options) (invokeControllerHandler handler)

def dispatchMatchedHandler (handler : HandlerDescriptor) : Js JsValue := do
  runGuardChain handler.guards
  if ← await .committed then return .undefined
  let result ← runHandler options hooks handler
  ensureRequestNotAborted
  if result.isAsyncIterable && handler.isSseRoute then await (.writeManagedSseIterable result)
  else writeResult handler result
  notifyObserversSafely options .requestSuccess
  return .undefined

/-- The handler through its execution plan and its module's middleware. -/
def dispatchGeneralPath (handler : HandlerDescriptor) : Js JsValue := do
  if planRequiresRequestScope handler options || (← await (.middlewareMayRequireRequestScope handler.moduleMiddleware)) then
    await .ensureRequestScope
  notifyObserversSafely options .handlerMatched
  runMiddlewareChain hooks handler.moduleMiddleware (dispatchMatchedHandler options hooks handler)

def dispatchMatchedRoute : Js JsValue := do
  if ← await .committed then return .undefined
  let handler ← await .matchHandler
  if ← shouldUseFastPathForRequest options handler then
    if ← tryFastPathExecution options handler then return .undefined
  dispatchGeneralPath options hooks handler

def runDispatchPipeline (route : Js JsValue) : Js Unit := do
  ensureRequestNotAborted
  let _ ← runMiddlewareChain hooks options.appMiddleware route

def handleDispatchError (error : JsValue) : Js Unit := do
  if error = .requestAbortedError then return ()
  if ← await .isAborted then return ()
  notifyObserversSafely options .requestError
  let handled ← if options.onError then await (.onError error) else pure .undefined
  if handled.isTruthy then return ()
  await (.writeErrorResponse error)

/-- `dispatch` with the route that its pipeline ends in. -/
def dispatchVia (route : Js JsValue) : Js Unit := do
  if !options.observers.isEmpty || (← await (.middlewareMayRequireRequestScope options.appMiddleware)) then
    await .ensureRequestScope
  let body : Js Unit := do
    notifyObserversSafely options .requestStart
    runDispatchPipeline options hooks route
  (body.tryCatch (handleDispatchError options)).tryFinally do
    notifyObserversSafely options .requestFinish
    await .disposeRequestScope

def dispatch : Js Unit := dispatchVia options hooks (dispatchMatchedRoute options hooks)

end

end Fluo.Http
