import Mathlib.Data.Nat.Notation
import Mathlib.Data.Int.Notation
import Mathlib.Tactic.Common

/-!
# Errands

The domain types of the order service: errands, the transitions between their
states, and the outbox rows a transition emits. Instants and durations are in
nanoseconds. An empty string stands for a `NULL` text column, as in the source.
-/

namespace FocServices.Orders

/-- `apperror.Code`, the codes that errand and fence logic and the errand routes return. -/
inductive ErrorCode where
  | unauthenticated
  | internal
  | supplierUnavailable
  | dependencyUnavailable
  | invalidArgument
  | forbidden
  | validationFailed
  | errandNotFound
  | errandChanged
  | errandUnavailable
  | invalidTransition
  | notEligible
  | courierRestricted
  | editPending
  | supplierDeletionInProgress
  deriving DecidableEq, Repr

/-- `apperror.Field`. -/
structure Field where
  field : String
  message : String
  deriving DecidableEq, Repr

/-- `apperror.Error`. -/
structure AppError where
  code : ErrorCode
  message : String
  fields : List Field := []
  deriving DecidableEq, Repr

/-- The states of Diagram 1. `none` is the start before an errand exists; it is never
stored. -/
inductive Status where
  | none
  | pendingReservation
  | open
  | assigned
  | pickedUp
  | delivered
  | reviewRequired
  | rejected
  | cancelled
  | expired
  | completed
  | refunded
  deriving DecidableEq, Repr

def Status.text : Status → String
  | .none => ""
  | .pendingReservation => "PENDING_RESERVATION"
  | .open => "OPEN"
  | .assigned => "ASSIGNED"
  | .pickedUp => "PICKED_UP"
  | .delivered => "DELIVERED"
  | .reviewRequired => "REVIEW_REQUIRED"
  | .rejected => "REJECTED"
  | .cancelled => "CANCELLED"
  | .expired => "EXPIRED"
  | .completed => "COMPLETED"
  | .refunded => "REFUNDED"

/-- Whether no transition leaves the state. -/
def Status.terminal : Status → Bool
  | .rejected | .cancelled | .expired | .completed | .refunded => true
  | _ => false

/-- Whether the state is stored and not terminal. -/
def Status.active (s : Status) : Bool := s ≠ .none && !s.terminal

/-- What may move an errand between states. -/
inductive Event where
  | submit
  | reservationConfirmed
  | reservationRefused
  | reservationFailed
  | edit
  | cancel
  | confirm
  | dispute
  | editConfirmed
  | editRefused
  | accept
  | withdraw
  | pickUp
  | deliver
  | reportIssue
  | acceptanceDeadlinePassed
  | pickupDeadlinePassed
  | deliveryDeadlinePassed
  | verificationLapsed
  | adminComplete
  | adminRefund
  deriving DecidableEq, Repr

def Event.text : Event → String
  | .submit => "submit"
  | .reservationConfirmed => "reservation_confirmed"
  | .reservationRefused => "reservation_refused"
  | .reservationFailed => "reservation_failed"
  | .edit => "edit"
  | .cancel => "cancel"
  | .confirm => "confirm"
  | .dispute => "dispute"
  | .editConfirmed => "edit_confirmed"
  | .editRefused => "edit_refused"
  | .accept => "accept"
  | .withdraw => "withdraw"
  | .pickUp => "pick_up"
  | .deliver => "deliver"
  | .reportIssue => "report_issue"
  | .acceptanceDeadlinePassed => "acceptance_deadline_passed"
  | .pickupDeadlinePassed => "pickup_deadline_passed"
  | .deliveryDeadlinePassed => "delivery_deadline_passed"
  | .verificationLapsed => "verification_lapsed"
  | .adminComplete => "admin_complete"
  | .adminRefund => "admin_refund"

inductive ActorType where
  | requester
  | courier
  | admin
  | system
  deriving DecidableEq, Repr

/-- The caller of `next`. The id is empty for the system. -/
structure Actor where
  type : ActorType
  id : String := ""
  deriving DecidableEq, Repr

def systemActor : Actor := { type := .system }

inductive ReviewReason where
  | courierIssue
  | requesterDispute
  | deliveryOverdue
  deriving DecidableEq, Repr

def reasonInsufficientCredits : String := "INSUFFICIENT_CREDITS"

def reasonReservationFailed : String := "RESERVATION_FAILED"

def reasonEditFailed : String := "EDIT_FAILED"

/-- A `json.RawMessage`, by what decoding it gives: nothing at all, text that is not
JSON, an array with the texts of its elements, or another JSON value. -/
inductive RawMessage where
  | absent
  | malformed (text : String)
  | array (elements : List String)
  | value (text : String)
  deriving DecidableEq, Repr

/-- The fields of an errand that its requester may edit. -/
structure Details where
  supplierID : String
  supplierVersionID : String
  deliveryBuildingID : String
  deliveryBuildingSnapshot : RawMessage
  deliveryDetail : String
  items : RawMessage
  notes : String
  contactName : String
  contactMobile : String
  reward : ℤ
  acceptanceDeadline : ℤ
  deriving DecidableEq, Repr

/-- The details without the contact person, for payloads that leave the service. -/
def Details.withoutContact (d : Details) : Details :=
  { d with contactName := "", contactMobile := "" }

/-- A reward edit that waits for the credit service; `key` is the idempotency key of
the adjustment it sent. -/
structure PendingEdit where
  details : Details
  key : String
  atTime : ℤ
  deriving DecidableEq, Repr

/-- A row of `errands`. -/
structure Errand where
  id : String
  status : Status := .none
  version : ℕ := 0
  requesterID : String
  courierID : String := ""
  details : Details
  pickupDeadline : Option ℤ := Option.none
  deliveryDeadline : Option ℤ := Option.none
  deliveredAt : Option ℤ := Option.none
  verificationDeadline : Option ℤ := Option.none
  reviewReason : Option ReviewReason := Option.none
  createIdempotencyKey : String
  pendingEdit : Option PendingEdit := Option.none
  createdAt : ℤ := 0
  updatedAt : ℤ := 0
  deriving DecidableEq, Repr

/-- The key of the pending edit, empty when there is none. -/
def Errand.pendingKey (e : Errand) : String :=
  match e.pendingEdit with
  | some p => p.key
  | .none => ""

/-- A change to one nullable column. The zero value leaves the column unchanged. -/
structure Update (α : Type) where
  set : Bool := false
  value : Option α := none
  deriving DecidableEq, Repr

def setTo {α : Type} (v : α) : Update α := ⟨true, some v⟩

def setNull {α : Type} : Update α := ⟨true, none⟩

def Update.applyTo {α : Type} (u : Update α) (current : Option α) : Option α :=
  if u.set then u.value else current

/-- `applyTo` for a column whose zero value stands for `NULL`. -/
def Update.applyValue {α : Type} (u : Update α) (zero current : α) : α :=
  if u.set then u.value.getD zero else current

@[simp] theorem applyTo_unchanged {α : Type} (current : Option α) :
    Update.applyTo {} current = current := rfl

@[simp] theorem applyTo_setTo {α : Type} (v : α) (current : Option α) :
    (setTo v).applyTo current = some v := rfl

@[simp] theorem applyTo_setNull {α : Type} (current : Option α) :
    (setNull : Update α).applyTo current = none := rfl

@[simp] theorem applyValue_unchanged {α : Type} (zero current : α) :
    Update.applyValue {} zero current = current := rfl

@[simp] theorem applyValue_setTo {α : Type} (v zero current : α) :
    (setTo v).applyValue zero current = v := rfl

@[simp] theorem applyValue_setNull {α : Type} (zero current : α) :
    (setNull : Update α).applyValue zero current = zero := rfl

/-- The column updates of a transition, besides status and version. -/
structure Changes where
  courierID : Update String := {}
  details : Option Details := none
  pickupDeadline : Update ℤ := {}
  deliveryDeadline : Update ℤ := {}
  deliveredAt : Update ℤ := {}
  verificationDeadline : Update ℤ := {}
  reviewReason : Update ReviewReason := {}
  pendingEdit : Update PendingEdit := {}
  deriving DecidableEq, Repr

/-! ## Outbox rows -/

/-- Names of lifecycle events. The rejection and reminder events are not transitions. -/
inductive EventName where
  | placed
  | opened
  | rejected
  | edited
  | editRequested
  | editRejected
  | accepted
  | cancelled
  | withdrawn
  | expired
  | pickedUp
  | delivered
  | reviewRequired
  | completed
  | refunded
  | acceptRejected
  | cancelRejected
  | pickupRejected
  | verificationReminder
  | pickupDeadlineApproaching
  deriving DecidableEq, Repr

/-- The last segment of an event name, used in idempotency keys. -/
def EventName.operation : EventName → String
  | .placed => "placed"
  | .opened => "opened"
  | .rejected => "rejected"
  | .edited => "edited"
  | .editRequested => "edit_requested"
  | .editRejected => "edit_rejected"
  | .accepted => "accepted"
  | .cancelled => "cancelled"
  | .withdrawn => "withdrawn"
  | .expired => "expired"
  | .pickedUp => "picked_up"
  | .delivered => "delivered"
  | .reviewRequired => "review_required"
  | .completed => "completed"
  | .refunded => "refunded"
  | .acceptRejected => "accept_rejected"
  | .cancelRejected => "cancel_rejected"
  | .pickupRejected => "pickup_rejected"
  | .verificationReminder => "verification_reminder"
  | .pickupDeadlineApproaching => "pickup_deadline_approaching"

/-- The routing key of an event. -/
def EventName.text (n : EventName) : String := "errand." ++ n.operation

/-- What an outbox row is: a credit command or an event. -/
inductive Kind where
  | creditReserve
  | creditAdjust
  | creditRelease
  | creditTransfer
  | event (name : EventName)
  deriving DecidableEq, Repr

/-- The stored kind of a row; for a credit command it is also its routing key. -/
def Kind.text : Kind → String
  | .creditReserve => "credit.reserve"
  | .creditAdjust => "credit.adjust"
  | .creditRelease => "credit.release"
  | .creditTransfer => "credit.transfer"
  | .event name => "event." ++ name.text

/-- The payload of a credit row. Fields a command does not use are zero. -/
structure CreditCommand where
  errandID : String := ""
  errandVersion : ℕ := 0
  requesterID : String := ""
  courierID : String := ""
  amount : ℤ := 0
  newAmount : ℤ := 0
  seq : ℤ := 0
  deriving DecidableEq, Repr

/-- The payload of an event row that a transition emits. -/
structure EventData where
  errandID : String
  errandVersion : ℕ
  event : Event
  source : Status
  target : Status
  actorType : ActorType
  actorID : String
  reason : String
  reviewReason : Option ReviewReason
  requesterID : String
  courierID : String
  reward : ℤ
  atTime : ℤ
  pendingEdit : Option Details
  editDropped : Bool
  deriving DecidableEq, Repr

/-- A request whose refusal is announced as an event. -/
inductive RejectedAction where
  | accept
  | cancel
  | pickup
  deriving DecidableEq, Repr

def RejectedAction.text : RejectedAction → String
  | .accept => "accept"
  | .cancel => "cancel"
  | .pickup => "pickup"

/-- The event that announces the refusal. -/
def RejectedAction.eventName : RejectedAction → EventName
  | .accept => .acceptRejected
  | .cancel => .cancelRejected
  | .pickup => .pickupRejected

/-- The payload of a rejection event. -/
structure RejectionData where
  errandID : String
  errandVersion : ℕ
  status : Status
  action : RejectedAction
  code : ErrorCode
  actorType : ActorType
  actorID : String
  atTime : ℤ
  deriving DecidableEq, Repr

/-- The payload of a reminder event. -/
structure ReminderData where
  errandID : String
  errandVersion : ℕ
  status : Status
  requesterID : String
  courierID : String
  deadline : ℤ
  atTime : ℤ
  deriving DecidableEq, Repr

inductive Payload where
  | credit (cmd : CreditCommand)
  | event (data : EventData)
  | rejection (data : RejectionData)
  | reminder (data : ReminderData)
  deriving DecidableEq, Repr

/-- A row for the outbox. -/
structure OutboxRow where
  kind : Kind
  idempotencyKey : String
  errandID : String
  payload : Payload
  deriving DecidableEq, Repr

/-- `outbox.status`: how far the delivery of a row has come. -/
inductive DispatchStatus where
  | pending
  | sent
  | confirmed
  | failed
  deriving DecidableEq, Repr

/-! ## Transitions -/

/-- The result of `next`: everything that is written in one transaction.
`expectedVersion` and `expectedPendingEditKey` are the compare-and-swap condition. -/
structure Transition where
  errandID : String
  source : Status
  target : Status
  event : Event
  actor : Actor
  reason : String
  expectedVersion : ℕ
  expectedPendingEditKey : String := ""
  newVersion : ℕ
  changes : Changes := {}
  outbox : List OutboxRow := []
  atTime : ℤ
  deriving DecidableEq, Repr

/-- The errand after the transition. -/
def Transition.applyTo (t : Transition) (e : Errand) : Errand :=
  { e with
    status := t.target
    version := t.newVersion
    updatedAt := t.atTime
    createdAt := if t.source = .none then t.atTime else e.createdAt
    details := t.changes.details.getD e.details
    courierID := t.changes.courierID.applyValue "" e.courierID
    pickupDeadline := t.changes.pickupDeadline.applyTo e.pickupDeadline
    deliveryDeadline := t.changes.deliveryDeadline.applyTo e.deliveryDeadline
    deliveredAt := t.changes.deliveredAt.applyTo e.deliveredAt
    verificationDeadline := t.changes.verificationDeadline.applyTo e.verificationDeadline
    reviewReason := t.changes.reviewReason.applyTo e.reviewReason
    pendingEdit := t.changes.pendingEdit.applyTo e.pendingEdit }

/-- The system-configured deadlines, as durations. -/
structure DeadlineSettings where
  pickupAfter : ℤ := 0
  deliveryAfter : ℤ := 0
  verificationAfter : ℤ := 0
  verificationReminderAfter : ℤ := 0
  deriving DecidableEq, Repr

/-- `DefaultDeadlineSettings`. -/
def defaultDeadlineSettings : DeadlineSettings where
  pickupAfter := 7200000000000
  deliveryAfter := 7200000000000
  verificationAfter := 1800000000000
  verificationReminderAfter := 300000000000

/-- What `next` needs beyond the errand, the actor and the time. -/
structure EventInput where
  edit : Option Details := none
  reason : String := ""
  previouslyWithdrew : Bool := false
  restricted : Bool := false
  deadlines : DeadlineSettings := {}
  editKey : String := ""
  editTimedOut : Bool := false
  deriving DecidableEq, Repr

end FocServices.Orders
