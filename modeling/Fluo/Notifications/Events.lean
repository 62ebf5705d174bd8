import Fluo.Lib.Fallible
import Fluo.Lib.Interaction
import Fluo.Notifications.JobIdentity
/-!
# Lifecycle events of notifications

`dispatch` and `dispatchMany` of `NotificationsService`. The channels, the queue and the publisher answer
questions, with a value or with something thrown, and a ledger keeps for which notifications an event was
handed to the publisher.
-/

namespace Fluo.Notifications
open Fluo.Lib Lib.Prog

inductive Thrown
  | error (name message : Utf16)
  /-- Something that is no `Error`. -/
  | value (value : Value)
  | aggregate (errors : List Thrown) (message : Utf16)

namespace Thrown

/-- The name and the message of an `Error`. -/
def described : Thrown → Option (Utf16 × Utf16)
  | error name message => some (name, message)
  | value _ => none
  | aggregate _ message => some (units "AggregateError", message)

def orError (thrown : Thrown) (message : Utf16) : Thrown :=
  if thrown.described.isSome then thrown else .error (units "Error") message

def channelNotFound (channel : Utf16) : Thrown :=
  .error (units "NotificationChannelNotFoundError") (units "No notification channel is registered for \"" ++ channel ++ units "\".")

def queueNotConfigured : Thrown :=
  .error (units "NotificationQueueNotConfiguredError") (units "Queue-backed notification delivery requires a configured queue adapter.")

/-- What `stableStringify` throws, on a bigint with this message. -/
def unprintable : Thrown := .error (units "TypeError") (units "Do not know how to serialize a BigInt")

def lifecyclePublicationFailure (dispatchError : Thrown) (publicationErrors : List Thrown) : Thrown :=
  .aggregate (dispatchError :: publicationErrors) (units "Notification dispatch failed, and failed lifecycle event publication also failed: " ++
    (dispatchError.described.elim (units "Notification dispatch failed.") Prod.snd))

end Thrown

inductive NotificationLifecycleEventName
  | requested
  | queued
  | delivered
  | failed
deriving DecidableEq

structure NotificationLifecycleEvent where
  name : NotificationLifecycleEventName
  notification : NotificationDispatchRequest
  deliveryId : Option Utf16
  error : Option (Utf16 × Utf16)

structure NotificationsQueueJob where
  channel : Utf16
  id : Utf16
  notification : NotificationDispatchRequest

inductive NotificationDispatchStatus
  | delivered
  | queued
deriving DecidableEq

structure NotificationChannelDelivery where
  externalId : Option Utf16
  metadata : Option Value
  status : Option NotificationDispatchStatus

/-- What the service asks the channels, the queue and the publisher. -/
inductive Question
  | publish (event : NotificationLifecycleEvent)
  | send (notification : NotificationDispatchRequest)
  | enqueue (job : NotificationsQueueJob)
  | enqueueMany (jobs : List NotificationsQueueJob)

@[reducible] def Question.Answer : Question → Type
  | publish _ => Unit
  | send _ => NotificationChannelDelivery
  | enqueue _ => Utf16
  | enqueueMany _ => List Utf16

abbrev Js (α : Type) : Type := Prog Thrown Question.Answer α

def await (question : Question) : Js question.Answer := perform question

/-- The reason of a rejection. -/
def rejection : Except Thrown Unit → Option Thrown
  | .ok _ => none
  | .error reason => some reason

structure NotificationsQueue where
  bulkThreshold : Nat
  hasEnqueueMany : Bool

structure NotificationsService where
  printing : Printing
  /-- The names of the registered channels. -/
  channels : List Utf16
  queue : Option NotificationsQueue
  /-- `publishLifecycleEvents`, where there is a publisher. -/
  events : Option Bool

structure NotificationDispatchOptions where
  publishLifecycleEvents : Option Bool := none
  queue : Option Bool := none
  continueOnError : Option Bool := none

structure NotificationDispatchResult where
  channel : Utf16
  deliveryId : Utf16
  metadata : Option Value
  queued : Bool
  status : NotificationDispatchStatus

structure NotificationDispatchFailure where
  error : Thrown
  notification : NotificationDispatchRequest

structure NotificationDispatchBatchResult where
  failed : Nat
  failures : List NotificationDispatchFailure
  queued : Nat
  results : List NotificationDispatchResult
  succeeded : Nat

def NotificationDispatchOptions.continues (options : NotificationDispatchOptions) : Bool := options.continueOnError.getD false

namespace NotificationsService
variable (service : NotificationsService) (options : NotificationDispatchOptions)

/-! ## Steps of a dispatch -/

def createQueueJob (notification : NotificationDispatchRequest) : Except Thrown NotificationsQueueJob :=
  match createQueueJobId service.printing notification with
  | some id => .ok ⟨notification.channel, id, notification⟩
  | none => .error .unprintable

def requireChannel (channelName : Utf16) : Except Thrown Unit :=
  if channelName ∈ service.channels then .ok () else .error (.channelNotFound channelName)

def normalizeDeliveryId (value : Option Utf16) (fallback : NotificationDispatchRequest) : Except Thrown Utf16 :=
  match value, fallback.id with
  | some (unit :: value), _ => .ok (unit :: value)
  | _, some (unit :: id) => .ok (unit :: id)
  | _, _ =>
    match stableNotificationHash service.printing fallback with
    | some hash => .ok (units "fallback:" ++ fallback.channel ++ units ":" ++ hash)
    | none => .error .unprintable

def requireQueueAdapter : Except Thrown NotificationsQueue :=
  match service.queue with
  | some queue => .ok queue
  | none => .error .queueNotConfigured

def shouldPublishLifecycleEvents : Bool := options.publishLifecycleEvents.getD (service.events.getD false)

/-- Events are published on this dispatch. -/
def Publishes : Prop := service.events.isSome = true ∧ service.shouldPublishLifecycleEvents options = true

instance : Decidable (service.Publishes options) := inferInstanceAs (Decidable (_ ∧ _))

def shouldQueue (notificationCount : Nat) : Bool :=
  match options.queue, service.queue with
  | some true, _ => true
  | some false, _ | none, none => false
  | none, some queue => queue.bulkThreshold ≤ notificationCount

def publishLifecycleEvent (name : NotificationLifecycleEventName) (notification : NotificationDispatchRequest)
    (deliveryId : Option Utf16 := none) (error : Option Thrown := none) : Js Unit :=
  if service.Publishes options then
    await (.publish ⟨name, notification, deliveryId, error.bind Thrown.described⟩)
  else pure ()

def publishLifecycleEventSafely (name : NotificationLifecycleEventName) (notification : NotificationDispatchRequest)
    (deliveryId : Option Utf16 := none) : Js Unit :=
  (service.publishLifecycleEvent options name notification deliveryId).tryCatch fun _ => pure ()

def publishFailureLifecycleEvent (notification : NotificationDispatchRequest) (error : Thrown) : Js Unit :=
  (service.publishLifecycleEvent options .failed notification none (some error)).tryCatch fun publicationError =>
    throw (.lifecyclePublicationFailure error [publicationError])

/-- Every event is handed over, and then the failures are looked at. -/
def publishFailureLifecycleEvents (notifications : List NotificationDispatchRequest) (error : Thrown) : Js Unit := do
  let outcomes ← notifications.mapM fun notification =>
    (service.publishLifecycleEvent options .failed notification none (some error)).attempt
  let publicationFailures := outcomes.filterMap rejection
  if publicationFailures.isEmpty then pure () else throw (.lifecyclePublicationFailure error publicationFailures)

/-- `failed` is published, and then the error is thrown on. -/
def failDispatch {α : Type} (notification : NotificationDispatchRequest) (error : Thrown) : Js α := do
  service.publishFailureLifecycleEvent options notification error
  throw error

/-! ## `dispatch` -/

def queuedResult (notification : NotificationDispatchRequest) (deliveryId : Utf16) : NotificationDispatchResult where
  channel := notification.channel
  deliveryId
  metadata := none
  queued := true
  status := .queued

/-- The enqueueing of a job, from `enqueue` on. -/
def enqueueJob (notification : NotificationDispatchRequest) (job : NotificationsQueueJob) : Js NotificationDispatchResult := do
  let value ← await (.enqueue job)
  let deliveryId ← ofExcept (service.normalizeDeliveryId (some value) notification)
  service.publishLifecycleEventSafely options .queued notification deliveryId
  return queuedResult notification deliveryId

def sendDirectly (notification : NotificationDispatchRequest) : Js NotificationDispatchResult := do
  let delivery ← await (.send notification)
  let deliveryId ← ofExcept (service.normalizeDeliveryId delivery.externalId notification)
  let result : NotificationDispatchResult :=
    { channel := notification.channel
      deliveryId
      metadata := delivery.metadata
      queued := delivery.status = some .queued
      status := delivery.status.getD .delivered }
  service.publishLifecycleEventSafely options (if result.queued then .queued else .delivered) notification deliveryId
  return result

def dispatch (notification : NotificationDispatchRequest) : Js NotificationDispatchResult := do
  service.publishLifecycleEventSafely options .requested notification
  if options.queue = some true then
    (ofExcept (service.requireChannel notification.channel)).tryCatch (service.failDispatch options notification)
    -- This step is within no `try`.
    let job ← ofExcept (service.createQueueJob notification)
    (do let _ ← ofExcept service.requireQueueAdapter
        service.enqueueJob options notification job).tryCatch (service.failDispatch options notification)
  else
    (ofExcept (service.requireChannel notification.channel)).tryCatch (service.failDispatch options notification)
    (service.sendDirectly options notification).tryCatch (service.failDispatch options notification)

/-! ## `dispatchMany` -/

/-- What a loop over the notifications has collected. -/
abbrev Collected : Type := List NotificationDispatchResult × List NotificationDispatchFailure

def batchResult (collected : Collected) : NotificationDispatchBatchResult where
  failed := collected.2.length
  failures := collected.2
  queued := (collected.1.filter NotificationDispatchResult.queued).length
  results := collected.1
  succeeded := collected.1.length

/-- The loop without a queue. -/
def dispatchEach : List NotificationDispatchRequest → Js Collected
  | [] => pure ([], [])
  | notification :: notifications => do
    match ← (service.dispatch options notification).attempt with
    | .ok result =>
      let collected ← dispatchEach notifications
      return (result :: collected.1, collected.2)
    | .error error =>
      let error := error.orError (units "Notification dispatch failed.")
      if options.continues then
        let collected ← dispatchEach notifications
        return (collected.1, ⟨error, notification⟩ :: collected.2)
      else throw error

/-- The loop of `dispatchManyThroughSequentialQueueFallback`, over the notifications with their jobs. -/
def enqueueEach : List (NotificationDispatchRequest × NotificationsQueueJob) → Js Collected
  | [] => pure ([], [])
  | (notification, job) :: jobs => do
    match ← (service.enqueueJob options notification job).attempt with
    | .ok result =>
      let collected ← enqueueEach jobs
      return (result :: collected.1, collected.2)
    | .error error =>
      if options.continues then
        let failure ← (do
          service.publishFailureLifecycleEvent options notification error
          return error.orError (units "Notification queue enqueue failed.")).tryCatch fun publicationError =>
            pure (if publicationError.described.isSome then publicationError else .lifecyclePublicationFailure error [publicationError])
        let collected ← enqueueEach jobs
        return (collected.1, ⟨failure, notification⟩ :: collected.2)
      else
        service.publishFailureLifecycleEvents options (notification :: jobs.map Prod.fst) error
        throw error

/-- The bulk path from `enqueueMany` on. -/
def enqueueMany (notifications : List NotificationDispatchRequest) (jobs : List NotificationsQueueJob) : Js Collected := do
  let ids ← (await (.enqueueMany jobs)).tryCatch fun error => do
    service.publishFailureLifecycleEvents options notifications error
    throw error
  let results ← ofExcept (notifications.zipIdx.mapM fun (notification, index) => do
    return queuedResult notification (← service.normalizeDeliveryId ids[index]? notification))
  (notifications.zip results).forM fun (notification, result) =>
    service.publishLifecycleEventSafely options .queued notification result.deliveryId
  return (results, [])

/-- `dispatchMany` where the notifications are to be queued. -/
def dispatchQueued (notifications : List NotificationDispatchRequest) : Js Collected := do
  notifications.forM fun notification => service.publishLifecycleEventSafely options .requested notification
  let queue ← (ofExcept service.requireQueueAdapter).tryCatch fun error => do
    service.publishFailureLifecycleEvents options notifications error
    throw error
  (ofExcept (notifications.forM fun notification => service.requireChannel notification.channel)).tryCatch fun error => do
    service.publishFailureLifecycleEvents options notifications error
    throw error
  -- This step is within no `try`.
  let jobs ← ofExcept (notifications.mapM service.createQueueJob)
  if queue.hasEnqueueMany then service.enqueueMany options notifications jobs else service.enqueueEach options (notifications.zip jobs)

def dispatchMany (notifications : List NotificationDispatchRequest) : Js NotificationDispatchBatchResult :=
  if notifications.isEmpty then pure (batchResult ([], []))
  else if service.shouldQueue options notifications.length then do
    let collected ← service.dispatchQueued options notifications
    return batchResult collected
  else do
    let collected ← service.dispatchEach options notifications
    return batchResult collected

end NotificationsService

/-! ## The ledger -/

/-- The notifications of the events handed to the publisher, in their order: of `requested` events, and of the events that end a dispatch. -/
structure Ledger where
  requested : List NotificationDispatchRequest := []
  terminal : List NotificationDispatchRequest := []

namespace Ledger

def record (ledger : Ledger) (event : NotificationLifecycleEvent) : Ledger :=
  if event.name = .requested then { ledger with requested := ledger.requested ++ [event.notification] }
  else { ledger with terminal := ledger.terminal ++ [event.notification] }

/-- Every notification that was requested has got one terminal event for each of its `requested` events. -/
def Balanced (ledger : Ledger) : Prop := ledger.terminal = ledger.requested

def after (ledger : Ledger) : Question → Ledger
  | .publish event => ledger.record event
  | .send _ | .enqueue _ | .enqueueMany _ => ledger

end Ledger

/-- Whatever the channels, the queue and the publisher do, the ledger keeps the events. -/
def ledger : Monitor Thrown Question.Answer Ledger where
  allows _ _ _ := True
  after ledger question _ := ledger.after question

@[simp] theorem ends_await {question : Question} {post : Ledger → Except Thrown question.Answer → Prop} {s : Ledger} :
    (await question).Ends ledger post s ↔ ∀ answer, post (s.after question) answer := by
  simp [await, ledger]

namespace NotificationsService
variable {service : NotificationsService} {options : NotificationDispatchOptions} {s : Ledger}

section
variable (service options)

def opened (notifications : List NotificationDispatchRequest) (s : Ledger) : Ledger :=
  if service.Publishes options then { s with requested := s.requested ++ notifications } else s

def closed (notifications : List NotificationDispatchRequest) (s : Ledger) : Ledger :=
  if service.Publishes options then { s with terminal := s.terminal ++ notifications } else s

end

theorem opened_nil : service.opened options [] s = s := by
  unfold opened
  split <;> simp

theorem closed_nil : service.closed options [] s = s := by
  unfold closed
  split <;> simp

theorem opened_append (first second : List NotificationDispatchRequest) :
    service.opened options second (service.opened options first s) = service.opened options (first ++ second) s := by
  unfold opened
  split <;> simp

theorem closed_append (first second : List NotificationDispatchRequest) :
    service.closed options second (service.closed options first s) = service.closed options (first ++ second) s := by
  unfold closed
  split <;> simp

theorem closed_opened_comm (first second : List NotificationDispatchRequest) :
    service.closed options second (service.opened options first s) = service.opened options first (service.closed options second s) := by
  unfold opened closed
  split <;> rfl

theorem balanced_closed_opened (notifications : List NotificationDispatchRequest) (h : s.Balanced) :
    (service.closed options notifications (service.opened options notifications s)).Balanced := by
  unfold opened closed
  split
  · exact congrArg (· ++ notifications) h
  · exact h

theorem balanced_opened_iff {notifications : List NotificationDispatchRequest} (h : s.Balanced) :
    (service.opened options notifications s).Balanced ↔ service.Publishes options → notifications = [] := by
  unfold opened
  split
  next hpublishes =>
    unfold Ledger.Balanced at h ⊢
    simp [h, hpublishes]
  next hsilent => exact iff_of_true h fun hpublishes => absurd hpublishes hsilent

/-! ## Publication -/

variable {notification : NotificationDispatchRequest} {notifications : List NotificationDispatchRequest}

variable {post : Ledger → Except Thrown Unit → Prop} {deliveryId : Option Utf16} {name : NotificationLifecycleEventName} {e : Thrown}
    {collected : Collected} {jobs : List NotificationsQueueJob}

theorem publishLifecycleEvent_opens (h : ∀ r, post (service.opened options [notification] s) r) :
    (service.publishLifecycleEvent options .requested notification).Ends ledger post s := by
  unfold publishLifecycleEvent
  split
  next hpublishes =>
    refine ends_await.2 fun answer => ?_
    have := h answer
    rwa [opened, if_pos hpublishes] at this
  next hsilent =>
    have := h (.ok ())
    rwa [opened, if_neg hsilent] at this

theorem publishLifecycleEvent_closes (hname : name ≠ .requested)
    {error : Option Thrown} (h : ∀ r, post (service.closed options [notification] s) r) :
    (service.publishLifecycleEvent options name notification deliveryId error).Ends ledger post s := by
  unfold publishLifecycleEvent
  split
  next hpublishes =>
    refine ends_await.2 fun answer => ?_
    have := h answer
    rw [closed, if_pos hpublishes] at this
    rwa [Ledger.after, Ledger.record, if_neg hname]
  next hsilent =>
    have := h (.ok ())
    rwa [closed, if_neg hsilent] at this

theorem requestSafely_ends :
    (service.publishLifecycleEventSafely options .requested notification).Ends ledger post s ↔ post (service.opened options [notification] s) (.ok ()) := by
  unfold publishLifecycleEventSafely
  rw [ends_tryCatch]
  constructor
  · intro h
    unfold publishLifecycleEvent at h
    unfold opened
    split at h
    next hpublishes =>
      rw [if_pos hpublishes]
      exact ends_await.1 h (.ok ())
    next hsilent =>
      rw [if_neg hsilent]
      exact h
  · intro h
    refine publishLifecycleEvent_opens fun r => ?_
    cases r <;> exact h

theorem requestAll_ends :
    ∀ {notifications : List NotificationDispatchRequest} {s : Ledger},
      (notifications.forM fun notification => service.publishLifecycleEventSafely options .requested notification).Ends ledger post s ↔
        post (service.opened options notifications s) (.ok ())
  | [], s => by
    rw [opened_nil]
    exact .rfl
  | notification :: notifications, s => by
    change (service.publishLifecycleEventSafely options .requested notification >>= fun _ => notifications.forM fun notification =>
      service.publishLifecycleEventSafely options .requested notification).Ends ledger post s ↔ _
    rw [ends_bind, requestSafely_ends, andThen_ok, requestAll_ends, opened_append, List.singleton_append]

theorem publishSafely_ends (hname : name ≠ .requested)
    (h : post (service.closed options [notification] s) (.ok ())) :
    (service.publishLifecycleEventSafely options name notification deliveryId).Ends ledger post s := by
  unfold publishLifecycleEventSafely
  rw [ends_tryCatch]
  refine publishLifecycleEvent_closes hname fun r => ?_
  cases r <;> exact h

theorem publishFailureLifecycleEvent_ends {error : Thrown}
    (h : ∀ r, post (service.closed options [notification] s) r) :
    (service.publishFailureLifecycleEvent options notification error).Ends ledger post s := by
  unfold publishFailureLifecycleEvent
  rw [ends_tryCatch]
  refine publishLifecycleEvent_closes (by decide) fun r => ?_
  cases r with
  | ok => exact h (.ok ())
  | error => exact h (.error _)

theorem failDispatch_ends {α : Type} {post : Ledger → Except Thrown α → Prop} {error : Thrown}
    (h : ∀ e, post (service.closed options [notification] s) (.error e)) :
    (service.failDispatch options notification error : Js α).Ends ledger post s := by
  unfold failDispatch
  rw [ends_bind]
  refine publishFailureLifecycleEvent_ends fun r => ?_
  cases r <;> exact h _

theorem attempts_ends {post : Ledger → Except Thrown (List (Except Thrown Unit)) → Prop} {error : Thrown} :
    ∀ {notifications : List NotificationDispatchRequest} {s : Ledger}, (∀ outcomes, post (service.closed options notifications s) (.ok outcomes)) →
      (notifications.mapM fun notification => (service.publishLifecycleEvent options .failed notification none (some error)).attempt).Ends ledger post s
  | [], s, h => by
    rw [closed_nil] at h
    exact h []
  | notification :: notifications, s, h => by
    rw [List.mapM_cons, ends_bind, ends_attempt]
    refine publishLifecycleEvent_closes (by decide) fun outcome => ?_
    rw [andThen_ok, ends_bind]
    refine attempts_ends fun outcomes => ?_
    rw [closed_append]
    exact h (outcome :: outcomes)

theorem publishFailureLifecycleEvents_ends {error : Thrown}
    (h : ∀ r, post (service.closed options notifications s) r) :
    (service.publishFailureLifecycleEvents options notifications error).Ends ledger post s := by
  unfold publishFailureLifecycleEvents
  rw [ends_bind]
  refine attempts_ends fun outcomes => ?_
  rw [andThen_ok]
  dsimp only
  split <;> exact h _

/-! ## `dispatch` -/

def Results (notification : NotificationDispatchRequest) (r : Except Thrown NotificationDispatchResult) : Prop :=
  ∀ result, r = .ok result → result.channel = notification.channel

theorem Results.error : Results notification (.error e) := nofun

theorem requireChannel_ends (hknown : notification.channel ∈ service.channels → post s (.ok ()))
    (hunknown : notification.channel ∉ service.channels → ∀ e, post (service.closed options [notification] s) (.error e)) :
    ((ofExcept (service.requireChannel notification.channel)).tryCatch (service.failDispatch options notification)).Ends ledger post s := by
  rw [ends_tryCatch, ends_ofExcept, requireChannel]
  split
  next h => exact hknown h
  next h => exact failDispatch_ends (hunknown h)

theorem enqueueJob_ends {job : NotificationsQueueJob} {post : Ledger → Except Thrown NotificationDispatchResult → Prop}
    (hok : ∀ result, Results notification (.ok result) → post (service.closed options [notification] s) (.ok result))
    (herror : ∀ e, post s (.error e)) : (service.enqueueJob options notification job).Ends ledger post s := by
  unfold enqueueJob
  refine ends_bind.2 (ends_await.2 fun value => ?_)
  cases value with
  | error e => exact herror e
  | ok value =>
    rw [andThen_ok, ends_bind, ends_ofExcept]
    cases service.normalizeDeliveryId (some value) notification with
    | error e => exact herror e
    | ok deliveryId =>
      rw [andThen_ok, ends_bind]
      refine publishSafely_ends (by decide) (hok _ ?_)
      rintro _ ⟨⟩
      rfl

theorem sendDirectly_ends {post : Ledger → Except Thrown NotificationDispatchResult → Prop}
    (hok : ∀ result, Results notification (.ok result) → post (service.closed options [notification] s) (.ok result))
    (herror : ∀ e, post s (.error e)) : (service.sendDirectly options notification).Ends ledger post s := by
  unfold sendDirectly
  refine ends_bind.2 (ends_await.2 fun delivery => ?_)
  cases delivery with
  | error e => exact herror e
  | ok delivery =>
    rw [andThen_ok, ends_bind, ends_ofExcept]
    cases service.normalizeDeliveryId delivery.externalId notification with
    | error e => exact herror e
    | ok deliveryId =>
      rw [andThen_ok]
      dsimp only
      rw [ends_bind]
      refine publishSafely_ends (by split <;> decide) (hok _ ?_)
      rintro _ ⟨⟩
      rfl

theorem dispatch_ends {post : Ledger → Except Thrown NotificationDispatchResult → Prop}
    (hpost : ∀ r, Results notification r → post (service.closed options [notification] (service.opened options [notification] s)) r)
    (hjob : options.queue = some true → notification.channel ∈ service.channels → ∀ e, service.createQueueJob notification = .error e →
      post (service.opened options [notification] s) (.error e)) :
    (service.dispatch options notification).Ends ledger post s := by
  unfold dispatch
  refine ends_bind.2 (requestSafely_ends.2 ?_)
  rw [andThen_ok]
  split
  next hqueue =>
    refine ends_bind.2 (requireChannel_ends (fun hknown => ?_) fun _ e => hpost _ .error)
    rw [andThen_ok, ends_bind, ends_ofExcept]
    cases hmade : service.createQueueJob notification with
    | error e => exact hjob hqueue hknown e hmade
    | ok job =>
      rw [andThen_ok, ends_tryCatch, ends_bind, ends_ofExcept]
      cases service.requireQueueAdapter with
      | error e => exact failDispatch_ends fun e => hpost _ .error
      | ok queue => exact enqueueJob_ends (fun result hresult => hpost _ hresult) fun e => failDispatch_ends fun e => hpost _ .error
  next hdirect =>
    refine ends_bind.2 (requireChannel_ends (fun _ => ?_) fun _ e => hpost _ .error)
    rw [andThen_ok, ends_tryCatch]
    exact sendDirectly_ends (fun result hresult => hpost _ hresult) fun e => failDispatch_ends fun e => hpost _ .error

theorem dispatch_unclosed {post : Ledger → Except Thrown NotificationDispatchResult → Prop} (hqueue : options.queue = some true)
    (hknown : notification.channel ∈ service.channels) (hmade : service.createQueueJob notification = .error e)
    (h : (service.dispatch options notification).Ends ledger post s) : post (service.opened options [notification] s) (.error e) := by
  unfold dispatch at h
  have hrequested := requestSafely_ends.1 (ends_bind.1 h)
  rw [andThen_ok, if_pos hqueue, ends_bind, ends_tryCatch, ends_ofExcept, requireChannel, if_pos hknown] at hrequested
  have hjob := ends_bind.1 (show ((ofExcept (service.createQueueJob notification) : Js NotificationsQueueJob) >>= _).Ends ledger post _ from hrequested)
  rw [ends_ofExcept, hmade] at hjob
  exact hjob

/-! ## Loops over the notifications -/

/-- The results and the failures hold each notification once. -/
def Covers (notifications : List NotificationDispatchRequest) (collected : Collected) : Prop :=
  ∃ successes : List NotificationDispatchRequest, (successes ++ collected.2.map NotificationDispatchFailure.notification).Perm notifications ∧
    List.Forall₂ (fun result notification => result.channel = notification.channel) collected.1 successes

theorem Covers.nil : Covers [] ([], []) := ⟨[], .refl _, .nil⟩

theorem Covers.result (h : Covers notifications collected) {result : NotificationDispatchResult}
    (hresult : Results notification (.ok result)) : Covers (notification :: notifications) (result :: collected.1, collected.2) := by
  obtain ⟨successes, hperm, hresults⟩ := h
  exact ⟨notification :: successes, hperm.cons notification, .cons (hresult result rfl) hresults⟩

theorem Covers.failure (h : Covers notifications collected) (error : Thrown) :
    Covers (notification :: notifications) (collected.1, ⟨error, notification⟩ :: collected.2) := by
  obtain ⟨successes, hperm, hresults⟩ := h
  exact ⟨successes, List.perm_middle.trans (hperm.cons notification), hresults⟩

/-- What a loop ends with: it throws only if it does not go on after errors. -/
structure Loops (options : NotificationDispatchOptions) (notifications : List NotificationDispatchRequest) (r : Except Thrown Collected) : Prop where
  covers : ∀ collected, r = .ok collected → Covers notifications collected
  continues : options.continues = true → ∃ collected, r = .ok collected

theorem Loops.ok (h : Covers notifications collected) : Loops options notifications (.ok collected) :=
  ⟨by rintro _ ⟨⟩; exact h, fun _ => ⟨collected, rfl⟩⟩

theorem Loops.error (h : ¬ options.continues = true) : Loops options notifications (.error e) := ⟨nofun, fun h' => absurd h' h⟩

theorem dispatchEach_ends (hqueue : options.queue ≠ some true) : ∀ {notifications : List NotificationDispatchRequest} {s : Ledger}
    {post : Ledger → Except Thrown Collected → Prop}, (∀ r done, Loops options notifications r → post (service.closed options done (service.opened options done s)) r) →
      (service.dispatchEach options notifications).Ends ledger post s
  | [], s, post, h => by
    have hpost := h (.ok ([], [])) [] (.ok .nil)
    rwa [opened_nil, closed_nil] at hpost
  | notification :: notifications, s, post, h => by
    -- What the loop closes from here on, it closes after the first notification.
    have hjoin : ∀ done, service.closed options done (service.opened options done
        (service.closed options [notification] (service.opened options [notification] s))) =
          service.closed options (notification :: done) (service.opened options (notification :: done) s) := by
      intro done
      rw [← closed_opened_comm, opened_append, closed_append]
      rfl
    unfold dispatchEach
    rw [ends_bind, ends_attempt]
    refine dispatch_ends (fun r hresult => ?_) fun hqueued => absurd hqueued hqueue
    rw [andThen_ok]
    cases r with
    | ok result =>
      refine ends_bind.2 (dispatchEach_ends hqueue fun r done hloops => ?_)
      rw [hjoin]
      cases r with
      | ok collected => exact h _ (notification :: done) (.ok ((hloops.covers collected rfl).result hresult))
      | error e =>
        refine h _ (notification :: done) (.error fun hcontinues => ?_)
        obtain ⟨_, hok⟩ := hloops.continues hcontinues
        cases hok
    | error error =>
      dsimp only
      split
      next hcontinues =>
        refine ends_bind.2 (dispatchEach_ends hqueue fun r done hloops => ?_)
        rw [hjoin]
        obtain ⟨collected, rfl⟩ := hloops.continues hcontinues
        exact h _ (notification :: done) (.ok ((hloops.covers collected rfl).failure _))
      next hstops => exact h _ [notification] (.error hstops)

theorem enqueueEach_ends : ∀ {jobs : List (NotificationDispatchRequest × NotificationsQueueJob)} {s : Ledger}
    {post : Ledger → Except Thrown Collected → Prop}, (∀ r, Loops options (jobs.map Prod.fst) r → post (service.closed options (jobs.map Prod.fst) s) r) →
      (service.enqueueEach options jobs).Ends ledger post s
  | [], s, post, h => by
    have hpost := h (.ok ([], [])) (.ok .nil)
    rwa [List.map_nil, closed_nil] at hpost
  | (notification, job) :: jobs, s, post, h => by
    have hjoin : service.closed options (jobs.map Prod.fst) (service.closed options [notification] s) =
        service.closed options (((notification, job) :: jobs).map Prod.fst) s := by
      rw [closed_append]
      rfl
    unfold enqueueEach
    rw [ends_bind, ends_attempt]
    refine enqueueJob_ends (fun result hresult => ?_) fun error => ?_
    · rw [andThen_ok]
      refine ends_bind.2 (enqueueEach_ends fun r hloops => ?_)
      rw [hjoin]
      cases r with
      | ok collected => exact h _ (.ok ((hloops.covers collected rfl).result hresult))
      | error e =>
        refine h _ (.error fun hcontinues => ?_)
        obtain ⟨_, hok⟩ := hloops.continues hcontinues
        cases hok
    · rw [andThen_ok]
      dsimp only
      split
      next hcontinues =>
        have hrest : ∀ failure : Thrown, (service.enqueueEach options jobs >>= fun collected =>
            (pure (collected.1, ⟨failure, notification⟩ :: collected.2) : Js Collected)).Ends ledger post (service.closed options [notification] s) := by
          intro failure
          refine ends_bind.2 (enqueueEach_ends fun r hloops => ?_)
          rw [hjoin]
          obtain ⟨collected, rfl⟩ := hloops.continues hcontinues
          exact h _ (.ok ((hloops.covers collected rfl).failure failure))
        rw [ends_bind, ends_tryCatch, ends_bind]
        refine publishFailureLifecycleEvent_ends fun r => ?_
        cases r with
        | ok => exact hrest _
        | error => exact hrest _
      next hstops =>
        refine ends_bind.2 (publishFailureLifecycleEvents_ends fun r => ?_)
        cases r with
        | ok => exact h _ (.error hstops)
        | error => exact h _ (.error hstops)

theorem createQueueJob_error_iff : (∃ e, service.createQueueJob notification = .error e) ↔ ¬ notification.Identifiable := by
  rw [← isSome_createQueueJobId service.printing, createQueueJob]
  cases createQueueJobId service.printing notification <;> simp

theorem normalizeDeliveryId_ok (service : NotificationsService) (h : notification.Identifiable) (value : Option Utf16) :
    ∃ deliveryId, service.normalizeDeliveryId value notification = .ok deliveryId := by
  have hhash : ∀ hid : ¬ ∃ unit id, notification.id = some (unit :: id), ∃ hash, stableNotificationHash service.printing notification = some hash := by
    intro hid
    have hreadable := (isSome_stableStringify service.printing _).2 (h.resolve_left hid)
    rw [← Option.isSome_iff_exists, stableNotificationHash, Option.isSome_map]
    exact hreadable
  unfold normalizeDeliveryId
  split
  · exact ⟨_, rfl⟩
  · exact ⟨_, rfl⟩
  next hid =>
    obtain ⟨hash, hhash⟩ := hhash (not_exists.2 fun unit => not_exists.2 (hid unit))
    rw [hhash]
    exact ⟨_, rfl⟩

theorem closeAll_ends :
    ∀ {pairs : List (NotificationDispatchRequest × NotificationDispatchResult)} {s : Ledger}, post (service.closed options (pairs.map Prod.fst) s) (.ok ()) →
      (pairs.forM fun (notification, result) =>
        service.publishLifecycleEventSafely options .queued notification result.deliveryId).Ends ledger post s
  | [], s, h => by
    rwa [List.map_nil, closed_nil] at h
  | (notification, result) :: pairs, s, h => by
    change (service.publishLifecycleEventSafely options .queued notification result.deliveryId >>= fun _ => pairs.forM fun (notification, result) =>
      service.publishLifecycleEventSafely options .queued notification result.deliveryId).Ends ledger post s
    refine ends_bind.2 (publishSafely_ends (by decide) ?_)
    rw [andThen_ok]
    refine closeAll_ends ?_
    rw [closed_append]
    exact h

theorem bulkResults (service : NotificationsService) (ids : List Utf16) : ∀ {notifications : List NotificationDispatchRequest} (first : Nat),
    (∀ notification ∈ notifications, notification.Identifiable) → ∃ results : List NotificationDispatchResult,
      ((notifications.zipIdx first).mapM fun (notification, index) => do
        return queuedResult notification (← service.normalizeDeliveryId ids[index]? notification)) = Except.ok results ∧
          List.Forall₂ (fun result notification => result.channel = notification.channel) results notifications
  | [], _, _ => ⟨[], rfl, .nil⟩
  | notification :: notifications, first, h => by
    obtain ⟨deliveryId, hdelivery⟩ := service.normalizeDeliveryId_ok (h notification List.mem_cons_self) ids[first]?
    obtain ⟨results, hresults, hchannels⟩ := bulkResults service ids (first + 1) fun other hmem => h other (List.mem_cons_of_mem _ hmem)
    refine ⟨queuedResult notification deliveryId :: results, ?_, .cons rfl hchannels⟩
    rw [List.zipIdx_cons, List.mapM_cons, hresults]
    dsimp only
    rw [hdelivery]
    rfl

theorem enqueueMany_ends {post : Ledger → Except Thrown Collected → Prop}
    (hids : ∀ notification ∈ notifications, notification.Identifiable)
    (h : ∀ r, (∀ collected, r = .ok collected → Covers notifications collected) → post (service.closed options notifications s) r) :
    (service.enqueueMany options notifications jobs).Ends ledger post s := by
  unfold enqueueMany
  rw [ends_bind, ends_tryCatch]
  refine ends_await.2 fun ids => ?_
  cases ids with
  | error e =>
    refine ends_bind.2 (publishFailureLifecycleEvents_ends fun r => ?_)
    cases r <;> exact h _ nofun
  | ok ids =>
    obtain ⟨results, hresults, hchannels⟩ := bulkResults service ids 0 hids
    unfold orElse
    dsimp only [Ledger.after]
    rw [andThen_ok, ends_bind, ends_ofExcept, hresults, andThen_ok, ends_bind]
    refine closeAll_ends ?_
    rw [List.map_fst_zip (by rw [hchannels.length_eq])]
    refine h _ ?_
    rintro _ ⟨⟩
    exact ⟨notifications, by simp, hchannels⟩

theorem createQueueJob_ok_iff : (∃ job, service.createQueueJob notification = .ok job) ↔ notification.Identifiable := by
  rw [← isSome_createQueueJobId service.printing, createQueueJob]
  cases createQueueJobId service.printing notification <;> simp

theorem identifiable_of_jobs (h : notifications.mapM service.createQueueJob = .ok jobs) :
    (∀ notification ∈ notifications, notification.Identifiable) ∧ jobs.length = notifications.length := by
  refine ⟨fun notification hmem => ?_, length_of_mapM_eq_ok h⟩
  obtain ⟨job, -, hjob⟩ := exists_of_mapM_eq_ok h hmem
  exact createQueueJob_ok_iff.1 ⟨job, hjob⟩

theorem not_identifiable_of_error (h : notifications.mapM service.createQueueJob = .error e) :
    ¬ ∀ notification ∈ notifications, notification.Identifiable := by
  intro hall
  have hmade : ∀ notification : NotificationDispatchRequest, ∃ job, notification ∈ notifications → service.createQueueJob notification = .ok job := by
    intro notification
    by_cases hmem : notification ∈ notifications
    · obtain ⟨job, hjob⟩ := createQueueJob_ok_iff.2 (hall notification hmem)
      exact ⟨job, fun _ => hjob⟩
    · exact ⟨⟨[], [], notification⟩, fun hmem' => absurd hmem' hmem⟩
  choose job hjob using hmade
  rw [mapM_eq_ok hjob] at h
  cases h

theorem dispatchQueued_ends {post : Ledger → Except Thrown Collected → Prop}
    (hpost : ∀ r, (∀ collected, r = .ok collected → Covers notifications collected) →
      post (service.closed options notifications (service.opened options notifications s)) r)
    (hjobs : service.queue.isSome = true → (∀ notification ∈ notifications, notification.channel ∈ service.channels) →
      ∀ e, notifications.mapM service.createQueueJob = .error e → post (service.opened options notifications s) (.error e)) :
    (service.dispatchQueued options notifications).Ends ledger post s := by
  have hfailed : ∀ (α : Type) (e : Thrown) (post' : Ledger → Except Thrown α → Prop),
      (∀ e, post' (service.closed options notifications (service.opened options notifications s)) (.error e)) →
      (do service.publishFailureLifecycleEvents options notifications e
          Prog.throw e : Js α).Ends ledger post' (service.opened options notifications s) := by
    intro α e post' h
    refine ends_bind.2 (publishFailureLifecycleEvents_ends fun r => ?_)
    cases r <;> exact h _
  unfold dispatchQueued
  refine ends_bind.2 (requestAll_ends.2 ?_)
  rw [andThen_ok, ends_bind, ends_tryCatch, ends_ofExcept]
  cases hqueue : service.queue with
  | none =>
    rw [requireQueueAdapter, hqueue]
    exact hfailed _ _ _ fun e => hpost _ nofun
  | some queue =>
    rw [requireQueueAdapter, hqueue]
    refine ends_bind.2 (ends_tryCatch.2 (ends_ofExcept.2 ?_))
    cases hchannels : notifications.forM fun notification => service.requireChannel notification.channel with
    | error e => exact hfailed _ _ _ fun e => hpost _ nofun
    | ok =>
      have hknown : ∀ notification ∈ notifications, notification.channel ∈ service.channels :=
        fun notification hmem => check_eq_ok.1 (forM_eq_ok.1 hchannels notification hmem)
      refine ends_bind.2 (ends_ofExcept.2 ?_)
      cases hmade : notifications.mapM service.createQueueJob with
      | error e => exact hjobs (by rw [hqueue]; rfl) hknown e hmade
      | ok jobs =>
        obtain ⟨hall, hlength⟩ := identifiable_of_jobs hmade
        have hzip : (notifications.zip jobs).map Prod.fst = notifications := List.map_fst_zip (by rw [hlength])
        rw [andThen_ok]
        split
        · exact enqueueMany_ends hall hpost
        · refine enqueueEach_ends fun r hloops => ?_
          rw [hzip] at hloops ⊢
          exact hpost r hloops.covers

theorem dispatchQueued_unclosed {post : Ledger → Except Thrown Collected → Prop} (hqueue : service.queue.isSome = true)
    (hknown : ∀ notification ∈ notifications, notification.channel ∈ service.channels)
    (hjobs : ¬ ∀ notification ∈ notifications, notification.Identifiable) (h : (service.dispatchQueued options notifications).Ends ledger post s) :
    ∃ e, post (service.opened options notifications s) (.error e) := by
  obtain ⟨queue, hqueue⟩ := Option.isSome_iff_exists.1 hqueue
  have hchannels : (notifications.forM fun notification => service.requireChannel notification.channel) = .ok () :=
    forM_eq_ok.2 fun notification hmem => check_eq_ok.2 (hknown notification hmem)
  unfold dispatchQueued at h
  have hrequested := requestAll_ends.1 (ends_bind.1 h)
  rw [andThen_ok, requireQueueAdapter, hqueue] at hrequested
  have hadapter := ends_ofExcept.1 (ends_tryCatch.1 (ends_bind.1 hrequested))
  have hchecked := ends_ofExcept.1 (ends_tryCatch.1 (ends_bind.1 hadapter))
  rw [hchannels] at hchecked
  have hmade := ends_ofExcept.1 (ends_bind.1 hchecked)
  cases hresult : notifications.mapM service.createQueueJob with
  | ok jobs => exact absurd (identifiable_of_jobs hresult).1 hjobs
  | error e =>
    rw [hresult] at hmade
    exact ⟨e, hmade⟩

/-! ## The accounts -/

/-- No job has to be made of a notification that has no id, on a queue path that goes so far with events published. -/
def Dispatchable (service : NotificationsService) (options : NotificationDispatchOptions) (notification : NotificationDispatchRequest) : Prop :=
  service.Publishes options → options.queue = some true → notification.channel ∈ service.channels → notification.Identifiable

def BatchDispatchable (service : NotificationsService) (options : NotificationDispatchOptions)
    (notifications : List NotificationDispatchRequest) : Prop :=
  service.Publishes options → service.shouldQueue options notifications.length = true → service.queue.isSome = true →
    (∀ notification ∈ notifications, notification.channel ∈ service.channels) → ∀ notification ∈ notifications, notification.Identifiable

theorem dispatch_balanced_iff : (service.dispatch options notification).Ends ledger (fun ledger _ => ledger.Balanced) {} ↔
    service.Dispatchable options notification := by
  have hempty : ({} : Ledger).Balanced := rfl
  constructor
  · intro h hpublishes hqueue hknown
    by_contra hunidentifiable
    obtain ⟨e, hmade⟩ := createQueueJob_error_iff.2 hunidentifiable
    have hopened := (balanced_opened_iff hempty).1 (dispatch_unclosed hqueue hknown hmade h) hpublishes
    cases hopened
  · intro h
    refine dispatch_ends (fun _ _ => balanced_closed_opened _ hempty) fun hqueue hknown e hmade => ?_
    refine (balanced_opened_iff hempty).2 fun hpublishes => ?_
    exact absurd (h hpublishes hqueue hknown) (createQueueJob_error_iff.1 ⟨e, hmade⟩)

theorem queue_ne_of_not_shouldQueue {notificationCount : Nat} (h : ¬ service.shouldQueue options notificationCount = true) :
    options.queue ≠ some true := by
  intro hqueue
  rw [shouldQueue, hqueue] at h
  exact h rfl

theorem dispatchMany_balanced_iff : (service.dispatchMany options notifications).Ends ledger (fun ledger _ => ledger.Balanced) {} ↔
    service.BatchDispatchable options notifications := by
  have hempty : ({} : Ledger).Balanced := rfl
  have hpost : ∀ (s : Ledger) (r : Except Thrown Collected),
      andThen ledger (fun ledger _ => ledger.Balanced) (fun collected => (pure (batchResult collected) : Js _)) s r ↔ s.Balanced := by
    intro s r
    cases r <;> exact .rfl
  unfold dispatchMany
  cases notifications with
  | nil => exact iff_of_true hempty fun _ _ _ _ => nofun
  | cons first rest =>
    rw [List.isEmpty_cons, if_neg Bool.false_ne_true]
    split
    next hshould =>
      rw [ends_bind]
      constructor
      · intro h hpublishes _ hqueue hknown
        by_contra hunidentifiable
        obtain ⟨e, hopened⟩ := dispatchQueued_unclosed hqueue hknown hunidentifiable h
        cases (balanced_opened_iff hempty).1 ((hpost _ _).1 hopened) hpublishes
      · intro h
        refine dispatchQueued_ends (fun r _ => (hpost _ r).2 (balanced_closed_opened _ hempty)) fun hqueue hknown e hmade => ?_
        refine (hpost _ _).2 ((balanced_opened_iff hempty).2 fun hpublishes => ?_)
        exact absurd (h hpublishes hshould hqueue hknown) (not_identifiable_of_error hmade)
    next hshould =>
      rw [ends_bind]
      refine iff_of_true ?_ fun _ hqueued => absurd hqueued hshould
      exact dispatchEach_ends (queue_ne_of_not_shouldQueue hshould) fun r done _ => (hpost _ r).2 (balanced_closed_opened _ hempty)

/-- What a batch returns holds each notification once, and a batch that goes on after errors throws only on a queued path. -/
def Accounts (service : NotificationsService) (options : NotificationDispatchOptions) (notifications : List NotificationDispatchRequest) :
    Except Thrown NotificationDispatchBatchResult → Prop
  | .ok batch => Covers notifications (batch.results, batch.failures)
  | .error _ => service.shouldQueue options notifications.length = true ∨ ¬ options.continues = true

theorem dispatchMany_accounts :
    (service.dispatchMany options notifications).Ends ledger (fun _ r => service.Accounts options notifications r) {} := by
  unfold dispatchMany
  cases notifications with
  | nil => exact .nil
  | cons first rest =>
    rw [List.isEmpty_cons, if_neg Bool.false_ne_true]
    split
    next hshould =>
      refine ends_bind.2 (dispatchQueued_ends (fun r hcovers => ?_) fun _ _ e _ => .inl hshould)
      cases r with
      | ok collected => exact hcovers collected rfl
      | error => exact .inl hshould
    next hshould =>
      refine ends_bind.2 (dispatchEach_ends (queue_ne_of_not_shouldQueue hshould) fun r done hloops => ?_)
      cases r with
      | ok collected => exact hloops.covers collected rfl
      | error =>
        refine .inr fun hcontinues => ?_
        obtain ⟨_, hok⟩ := hloops.continues hcontinues
        cases hok

end NotificationsService

/-- A service with a queue that publishes events. -/
private def emails : NotificationsService where
  printing := ⟨fun value => units (toString value.num), fun left right => compare (left.map UInt16.toNat) (right.map UInt16.toNat)⟩
  channels := [units "email"]
  queue := some ⟨50, true⟩
  events := some true

/-- A notification with a bigint in its payload. -/
private def invoice : NotificationDispatchRequest := ⟨units "email", none, .object .plain [(units "amount", .bigint 100)], []⟩

end Fluo.Notifications
