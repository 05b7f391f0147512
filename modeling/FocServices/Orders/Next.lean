import FocServices.Orders.Types
import FocServices.Text

/-!
# The errand state machine

The transition table of Diagram 1, the deadline rules, the outbox rows of a
transition, and `next`, which decides the transition for an event.
-/

namespace FocServices.Orders

def newError (code : ErrorCode) (message : String) : AppError :=
  { code := code, message := message }

def validationError (fields : List Field) : AppError :=
  { code := .validationFailed, message := "errand is invalid", fields := fields }

/-- `%q`, for text whose characters outside ASCII are printable. -/
def quote (s : String) : String :=
  let escape : Char → String := fun c =>
    if c.toNat = 34 then "\\\"" else if c.toNat = 92 then "\\\\"
    else if c.toNat = 10 then "\\n" else if c.toNat = 13 then "\\r"
    else if c.toNat = 9 then "\\t" else if c.toNat = 7 then "\\a"
    else if c.toNat = 8 then "\\b" else if c.toNat = 11 then "\\v"
    else if c.toNat = 12 then "\\f"
    else if c.toNat < 32 ∨ c.toNat = 127 then
      "\\x" ++ (Nat.digitChar (c.toNat / 16)).toString ++ (Nat.digitChar (c.toNat % 16)).toString
    else c.toString
  "\"" ++ String.join (s.toList.map escape) ++ "\""

/-! ## Deadlines -/

def minute : ℤ := 60 * 10 ^ 9

def minAcceptanceWindow : ℤ := 10 * minute

def maxAcceptanceWindow : ℤ := 24 * 60 * minute

/-- A deadline has passed at the exact instant it falls. -/
def passed (deadline now : ℤ) : Bool := deadline ≤ now

def acceptanceDeadlineProblem (deadline now : ℤ) : Option Field :=
  if deadline ≤ now then some ⟨"acceptanceDeadline", "must be in the future"⟩
  else if deadline < now + minAcceptanceWindow then
    some ⟨"acceptanceDeadline", "must be at least 10 minutes from now"⟩
  else if now + maxAcceptanceWindow < deadline then
    some ⟨"acceptanceDeadline", "must be at most 24 hours from now"⟩
  else none

namespace DeadlineSettings

/-- Settings that would put a deadline at or before the event that sets it are rejected. -/
def validate (s : DeadlineSettings) : Except AppError Unit :=
  let positive := fun (name : String) (d : ℤ) =>
    if d ≤ 0 then [Field.mk name "must be positive"] else []
  let fields := positive "pickupAfter" s.pickupAfter ++ positive "deliveryAfter" s.deliveryAfter ++
    positive "verificationAfter" s.verificationAfter ++
    positive "verificationReminderAfter" s.verificationReminderAfter
  let fields :=
    if s.verificationAfter ≤ s.verificationReminderAfter ∧ fields = [] then
      [Field.mk "verificationReminderAfter" "must be before verificationAfter"]
    else fields
  if fields = [] then .ok ()
  else .error { code := .validationFailed, message := "deadline settings are invalid",
                fields := fields }

def pickupDeadline (s : DeadlineSettings) (acceptedAt : ℤ) : ℤ := acceptedAt + s.pickupAfter

def deliveryDeadline (s : DeadlineSettings) (acceptedAt : ℤ) : ℤ := acceptedAt + s.deliveryAfter

def verificationDeadline (s : DeadlineSettings) (deliveredAt : ℤ) : ℤ :=
  deliveredAt + s.verificationAfter

end DeadlineSettings

/-! ## Rules -/

/-- Who may cause a transition, relative to the errand. -/
inductive Relationship where
  | requester
  | assignedCourier
  | eligibleCourier
  | admin
  | system
  deriving DecidableEq, Repr

def Relationship.text : Relationship → String
  | .requester => "requester"
  | .assignedCourier => "assigned courier"
  | .eligibleCourier => "eligible courier"
  | .admin => "admin"
  | .system => "system"

/-- A deadline condition a rule needs at the time of the event. -/
inductive Guard where
  | beforeAcceptanceDeadline
  | afterAcceptanceDeadline
  | afterPickupDeadline
  | afterDeliveryDeadline
  | afterVerificationDeadline
  deriving DecidableEq, Repr

def Guard.text : Guard → String
  | .beforeAcceptanceDeadline => "before acceptance deadline"
  | .afterAcceptanceDeadline => "after acceptance deadline"
  | .afterPickupDeadline => "after pickup deadline"
  | .afterDeliveryDeadline => "after delivery deadline"
  | .afterVerificationDeadline => "after verification deadline"

/-- The credit operation a rule requests. Adjustments are not among them: they depend
on the edit and on whether one is pending. -/
inductive CreditEffect where
  | none
  | reserve
  | release
  | transfer
  deriving DecidableEq, Repr

/-- A row of the transition table. Rules with the same source and event are
alternatives chosen by their guards. -/
structure Rule where
  source : Status
  event : Event
  target : Status
  actor : Relationship
  guards : List Guard := []
  credit : CreditEffect := .none
  emits : List EventName
  review : Option ReviewReason := none
  needsReason : Bool := false
  deriving DecidableEq, Repr

def transitionTable : List Rule := [
  { source := .none, event := .submit, target := .pendingReservation, actor := .requester,
    credit := .reserve, emits := [.placed] },
  { source := .pendingReservation, event := .reservationConfirmed, target := .open,
    actor := .system, emits := [.opened] },
  { source := .pendingReservation, event := .reservationRefused, target := .rejected,
    actor := .system, emits := [.rejected] },
  { source := .pendingReservation, event := .reservationFailed, target := .rejected,
    actor := .system, credit := .release, emits := [.rejected] },
  { source := .open, event := .edit, target := .open, actor := .requester, emits := [.edited] },
  { source := .open, event := .editConfirmed, target := .open, actor := .system,
    emits := [.edited] },
  { source := .open, event := .editRefused, target := .open, actor := .system,
    emits := [.editRejected] },
  { source := .open, event := .accept, target := .assigned, actor := .eligibleCourier,
    guards := [.beforeAcceptanceDeadline], emits := [.accepted] },
  { source := .open, event := .cancel, target := .cancelled, actor := .requester,
    credit := .release, emits := [.cancelled] },
  { source := .open, event := .acceptanceDeadlinePassed, target := .expired, actor := .system,
    guards := [.afterAcceptanceDeadline], credit := .release, emits := [.expired] },
  { source := .assigned, event := .withdraw, target := .open, actor := .assignedCourier,
    guards := [.beforeAcceptanceDeadline], emits := [.withdrawn] },
  { source := .assigned, event := .withdraw, target := .expired, actor := .assignedCourier,
    guards := [.afterAcceptanceDeadline], credit := .release, emits := [.withdrawn, .expired] },
  { source := .assigned, event := .pickupDeadlinePassed, target := .open, actor := .system,
    guards := [.afterPickupDeadline, .beforeAcceptanceDeadline], emits := [.withdrawn] },
  { source := .assigned, event := .pickupDeadlinePassed, target := .expired, actor := .system,
    guards := [.afterPickupDeadline, .afterAcceptanceDeadline], credit := .release,
    emits := [.withdrawn, .expired] },
  { source := .assigned, event := .pickUp, target := .pickedUp, actor := .assignedCourier,
    emits := [.pickedUp] },
  { source := .pickedUp, event := .deliver, target := .delivered, actor := .assignedCourier,
    emits := [.delivered] },
  { source := .pickedUp, event := .reportIssue, target := .reviewRequired,
    actor := .assignedCourier, review := some .courierIssue, needsReason := true,
    emits := [.reviewRequired] },
  { source := .pickedUp, event := .deliveryDeadlinePassed, target := .reviewRequired,
    actor := .system, guards := [.afterDeliveryDeadline], review := some .deliveryOverdue,
    emits := [.reviewRequired] },
  { source := .delivered, event := .confirm, target := .completed, actor := .requester,
    credit := .transfer, emits := [.completed] },
  { source := .delivered, event := .verificationLapsed, target := .completed, actor := .system,
    guards := [.afterVerificationDeadline], credit := .transfer, emits := [.completed] },
  { source := .delivered, event := .dispute, target := .reviewRequired, actor := .requester,
    review := some .requesterDispute, needsReason := true, emits := [.reviewRequired] },
  { source := .reviewRequired, event := .adminComplete, target := .completed, actor := .admin,
    needsReason := true, credit := .transfer, emits := [.completed] },
  { source := .reviewRequired, event := .adminRefund, target := .refunded, actor := .admin,
    needsReason := true, credit := .release, emits := [.refunded] }]

def rulesFor (source : Status) (ev : Event) : List Rule :=
  transitionTable.filter fun r => r.source = source ∧ r.event = ev

def guardHolds (g : Guard) (e : Errand) (now : ℤ) : Bool :=
  let passedAt := fun (deadline : Option ℤ) => deadline.any (passed · now)
  match g with
  | .beforeAcceptanceDeadline => !passed e.details.acceptanceDeadline now
  | .afterAcceptanceDeadline => passed e.details.acceptanceDeadline now
  | .afterPickupDeadline => passedAt e.pickupDeadline
  | .afterDeliveryDeadline => passedAt e.deliveryDeadline
  | .afterVerificationDeadline => passedAt e.verificationDeadline

/-- The first candidate whose guards all hold; `failed` is the guard that ruled out
the candidate before. -/
def chooseRule (e : Errand) (now : ℤ) : List Rule → Option Guard → Except AppError Rule
  | [], failed =>
    if failed = some .beforeAcceptanceDeadline then
      .error (newError .errandUnavailable "the errand's acceptance deadline has passed")
    else
      .error (newError .invalidTransition
        ("the guard " ++ quote ((failed.map Guard.text).getD "") ++ " does not hold yet"))
  | r :: rs, _ =>
    match r.guards.find? fun g => !guardHolds g e now with
    | none => .ok r
    | some g => chooseRule e now rs (some g)

/-- The order of the active states along the main path. -/
def lifecycleRank : Status → ℤ
  | .none => 0
  | .pendingReservation => 1
  | .open => 2
  | .assigned => 3
  | .pickedUp => 4
  | .delivered => 5
  | .reviewRequired => 6
  | _ => 7

/-- Whether every state the event can leave comes before the current one. -/
def movedPast (current : Status) (ev : Event) : Bool :=
  let latest := (transitionTable.filter fun r => r.event = ev).foldl
    (fun latest r => max latest (lifecycleRank r.source)) (-1)
  0 ≤ latest && latest < lifecycleRank current

def displayStatus : Status → String
  | .none => "not yet created"
  | s => s.text

def checkActor (rel : Relationship) (e : Errand) (actor : Actor) (input : EventInput) :
    Except AppError Unit :=
  let forbidden := newError .forbidden ("only the errand's " ++ rel.text ++ " may do this")
  match rel with
  | .system => if actor.type ≠ .system ∨ actor.id ≠ "" then .error forbidden else .ok ()
  | .admin => if actor.type ≠ .admin ∨ actor.id = "" then .error forbidden else .ok ()
  | .requester =>
    if actor.type ≠ .requester ∨ actor.id = "" ∨ actor.id ≠ e.requesterID then .error forbidden
    else .ok ()
  | .assignedCourier =>
    if actor.type ≠ .courier ∨ actor.id = "" ∨ actor.id ≠ e.courierID then .error forbidden
    else .ok ()
  | .eligibleCourier =>
    if actor.type ≠ .courier ∨ actor.id = "" then
      .error (newError .forbidden "only a courier may accept an errand")
    else if actor.id = e.requesterID then
      .error (newError .notEligible "you cannot accept your own errand")
    else if input.previouslyWithdrew then
      .error (newError .notEligible "you cannot accept an errand you withdrew from")
    else if input.restricted then
      .error (newError .courierRestricted
        "you are temporarily restricted from accepting errands")
    else .ok ()

/-! ## Details -/

def maxContactName : ℕ := 100

def maxContactMobile : ℕ := 32

def isBlank (s : String) : Bool := trimSpace s = ""

/-- Why a contact field is invalid, or empty. -/
def contactProblem (s : String) (max : ℕ) : String :=
  if isBlank s then "is required"
  else if max < s.toList.length then "must be at most " ++ toString max ++ " characters"
  else if s.toList.any isControl then "must not contain control characters"
  else ""

/-- The window of the acceptance deadline applies only to a new deadline; another one
must not have passed. -/
def validateDetails (d : Details) (now : ℤ) (newDeadline : Bool) : Except AppError Unit :=
  let reward := if d.reward ≤ 0 then [Field.mk "reward" "must be a positive integer"] else []
  let items := match d.items with
    | .array (_ :: _) => []
    | _ => [Field.mk "items" "must list at least one item"]
  let contact := fun (name s : String) (max : ℕ) =>
    if contactProblem s max = "" then [] else [Field.mk name (contactProblem s max)]
  let deadline :=
    if newDeadline then (acceptanceDeadlineProblem d.acceptanceDeadline now).toList
    else if passed d.acceptanceDeadline now then
      [Field.mk "acceptanceDeadline" "has already passed"]
    else []
  let fields := reward ++ items ++ contact "contactName" d.contactName maxContactName ++
    contact "contactMobile" d.contactMobile maxContactMobile ++ deadline
  if fields = [] then .ok () else .error (validationError fields)

def orDefault (s fallback : String) : String := if s = "" then fallback else s

/-! ## Outbox rows of a transition -/

/-- `{errandId}:{operation}[:{version}]`. A version of 0 is omitted, for operations that
happen at most once per errand. -/
def idempotencyKey (errandID operation : String) (version : ℕ) : String :=
  let key := errandID ++ ":" ++ operation
  if 0 < version then key ++ ":" ++ toString version else key

/-- The sequence number of an edit requested at a version. -/
def adjustSeq (version : ℕ) : ℤ := 2 * version

/-- The sequence number of a revert by the transition to a version. -/
def revertSeq (newVersion : ℕ) : ℤ := 2 * newVersion - 1

/-- Whether the transition clears a pending edit whose adjustment may have landed while
the reservation stays held. -/
def revertsAdjust (before : Errand) (t : Transition) (input : EventInput) : Bool :=
  before.pendingEdit.isSome &&
    match t.event with
    | .accept => true
    | .editRefused => input.editTimedOut
    | _ => false

/-- One credit row of a transition. -/
def creditRow (before : Errand) (t : Transition) (kind : Kind) (operation : String)
    (version : ℕ) (cmd : CreditCommand) : OutboxRow where
  kind := kind
  idempotencyKey := idempotencyKey before.id operation version
  errandID := before.id
  payload := .credit { cmd with
    errandID := before.id
    errandVersion := t.newVersion
    requesterID := before.requesterID }

/-- The pending edit a reward edit stores. -/
def Transition.requestedEdit (t : Transition) : Option PendingEdit :=
  if t.event = .edit ∧ t.changes.pendingEdit.set then t.changes.pendingEdit.value else none

/-- One event row of a transition. -/
def eventRow (before after : Errand) (t : Transition) (name : EventName) : OutboxRow where
  kind := .event name
  idempotencyKey := idempotencyKey before.id name.operation t.newVersion
  errandID := before.id
  payload := .event {
    errandID := before.id
    errandVersion := t.newVersion
    event := t.event
    source := t.source
    target := t.target
    actorType := t.actor.type
    actorID := t.actor.id
    reason := t.reason
    reviewReason := after.reviewReason
    requesterID := before.requesterID
    courierID := if before.courierID = "" then after.courierID else before.courierID
    reward := after.details.reward
    atTime := t.atTime
    pendingEdit := t.requestedEdit.map fun p => p.details.withoutContact
    editDropped := t.event = .accept ∧ before.pendingEdit.isSome }

/-- The row of the credit operation that rule `r` requests. -/
def effectRows (r : Rule) (before : Errand) (t : Transition) : List OutboxRow :=
  let after := t.applyTo before
  match r.credit with
  | .none => []
  | .reserve => [creditRow before t .creditReserve "reserve" 0 { amount := after.details.reward }]
  | .release => [creditRow before t .creditRelease "release" 0 {}]
  | .transfer =>
    [creditRow before t .creditTransfer "transfer" 0
      { courierID := before.courierID, amount := after.details.reward }]

/-- The adjustment of a requested edit, and the revert of a dropped one. -/
def adjustRows (before : Errand) (t : Transition) (input : EventInput) : List OutboxRow :=
  let adjust := match t.requestedEdit with
    | some pending =>
      [creditRow before t .creditAdjust "adjust" t.expectedVersion
        { newAmount := pending.details.reward, seq := adjustSeq t.expectedVersion }]
    | none => []
  let revert :=
    if revertsAdjust before t input then
      [creditRow before t .creditAdjust "adjust-revert" t.newVersion
        { newAmount := before.details.reward, seq := revertSeq t.newVersion }]
    else []
  adjust ++ revert

/-- The rows of a transition that rule `r` allowed; `t` is complete apart from them. -/
def outboxRows (r : Rule) (before : Errand) (t : Transition) (input : EventInput) :
    List OutboxRow :=
  let names := if t.requestedEdit.isSome then [.editRequested] else r.emits
  effectRows r before t ++ adjustRows before t input ++
    names.map (eventRow before (t.applyTo before) t)

/-! ## The decision -/

/-- The event-specific parts of a transition. -/
def applyEvent (t : Transition) (e : Errand) (input : EventInput) (now : ℤ) :
    Except AppError Transition :=
  match t.event with
  | .submit =>
    if e.id = "" then .error (newError .invalidArgument "errand ID is required")
    else if e.version ≠ 0 then
      .error (newError .invalidArgument "a new errand has no version")
    else do
      validateDetails e.details now true
      return { t with expectedVersion := 0, newVersion := 1 }
  | .reservationRefused => .ok { t with reason := orDefault t.reason reasonInsufficientCredits }
  | .reservationFailed => .ok { t with reason := orDefault t.reason reasonReservationFailed }
  | .edit =>
    if e.pendingEdit.isSome then
      .error (newError .editPending "a reward change is still waiting for credit-service")
    else match input.edit with
      | none => .error (newError .invalidArgument "edit details are required")
      | some edit => do
        validateDetails edit now (edit.acceptanceDeadline ≠ e.details.acceptanceDeadline)
        if edit.reward = e.details.reward then
          return { t with changes := { t.changes with details := some edit } }
        else
          -- a reward change keeps the version, so couriers can still accept the current details
          return { t with
            newVersion := e.version
            changes := { t.changes with
              pendingEdit := setTo
                { details := edit, key := idempotencyKey e.id "adjust" e.version,
                  atTime := now } } }
  | .editConfirmed | .editRefused =>
    match e.pendingEdit.filter (fun p => p.key = input.editKey) with
    | none =>
      .error (newError .errandChanged ("no pending edit matches " ++ quote input.editKey))
    | some p =>
      let changes := { t.changes with pendingEdit := setNull }
      if t.event = .editConfirmed then
        .ok { t with changes := { changes with details := some p.details } }
      else
        let reason := if input.editTimedOut then reasonEditFailed else reasonInsufficientCredits
        .ok { t with changes := changes, reason := orDefault t.reason reason }
  | .accept => do
    input.deadlines.validate
    return { t with
      changes := { t.changes with
        courierID := setTo t.actor.id
        pickupDeadline := setTo (input.deadlines.pickupDeadline now)
        deliveryDeadline := setTo (input.deadlines.deliveryDeadline now) } }
  | .withdraw | .pickupDeadlinePassed =>
    .ok { t with
      changes := { t.changes with
        courierID := setNull, pickupDeadline := setNull, deliveryDeadline := setNull } }
  | .deliver => do
    input.deadlines.validate
    return { t with
      changes := { t.changes with
        deliveredAt := setTo now
        verificationDeadline := setTo (input.deadlines.verificationDeadline now) } }
  | _ => .ok t

/-- The transition a rule starts with, before the event-specific parts. -/
def Rule.transition (r : Rule) (e : Errand) (ev : Event) (actor : Actor) (input : EventInput)
    (now : ℤ) : Transition where
  errandID := e.id
  source := e.status
  target := r.target
  event := ev
  actor := actor
  reason := input.reason
  expectedVersion := e.version
  expectedPendingEditKey := e.pendingKey
  newVersion := e.version + 1
  changes := { reviewReason := match r.review with
    | some reason => setTo reason
    | none => {} }
  atTime := now

/-- Leaving `OPEN` drops a pending edit. -/
def Transition.dropPendingEdit (t : Transition) (e : Errand) : Transition :=
  { t with
    changes := { t.changes with
      pendingEdit := if e.pendingEdit.isSome ∧ t.target ≠ .open then setNull
        else t.changes.pendingEdit } }

/-- The transition for event `ev` on errand `e` at `now`. A status outside the twelve
of `Status` cannot occur, so the check for it has no counterpart. -/
def next (e : Errand) (ev : Event) (actor : Actor) (input : EventInput) (now : ℤ) :
    Except AppError Transition := do
  if e.status.terminal then
    throw (newError .errandUnavailable ("errand is " ++ e.status.text))
  match rulesFor e.status ev with
  | [] =>
    if movedPast e.status ev then
      throw (newError .errandUnavailable
        ("errand is " ++ e.status.text ++ " and can no longer " ++ ev.text))
    else
      throw (newError .invalidTransition
        ("cannot " ++ ev.text ++ " an errand that is " ++ displayStatus e.status))
  | candidate :: candidates =>
    checkActor candidate.actor e actor input
    let rule ← chooseRule e now (candidate :: candidates) none
    if rule.needsReason && isBlank input.reason then
      throw (validationError [⟨"reason", "is required"⟩])
    let t ← applyEvent (rule.transition e ev actor input now) e input now
    let t := t.dropPendingEdit e
    return { t with outbox := outboxRows rule e t input }

end FocServices.Orders
