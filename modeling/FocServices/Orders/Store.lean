import FocServices.Orders.Tables

/-!
# The transactions of the order service

The write methods of the errand store, the reminder insert and the fence service, as
transaction bodies over the statements of the order tables.
-/

namespace FocServices.Orders

open Txn

/-! ## Errors -/

/-- The sentinels of `opsrepo`; `other` is a database error it passes on. -/
inductive OpsError where
  | notFound
  | conflict
  | invalidArgument
  | fenceSupplierMismatch
  | fenceStateConflict
  | other (e : DBError)
  deriving DecidableEq, Repr

/-- `opsrepo.mapError`. -/
def OpsError.ofDB : DBError → OpsError
  | .noRows | .foreignKey _ => .notFound
  | .unique _ => .conflict
  | .check _ | .invalidText => .invalidArgument
  | .notNull column => .other (.notNull column)

/-- How a transaction fails. `wrapped` adds a text to another error. -/
inductive StoreError where
  | app (e : AppError)
  | db (e : DBError)
  | ops (e : OpsError)
  | internal (message : String)
  | wrapped (message : String) (e : StoreError)
  deriving DecidableEq, Repr

def appErr (code : ErrorCode) (message : String) : StoreError := .app (newError code message)

def notFound (id : String) : StoreError :=
  appErr .errandNotFound ("errand " ++ quote id ++ " not found")

/-- A transaction body of the order service. -/
abbrev Tx := Program Stmt Stmt.Reply StoreError

def query (q : Stmt) : Tx q.Reply := Program.call q

/-- `if err != nil { return err }`. -/
def orFail {α : Type} : Except DBError α → Tx α
  | .ok a => .pure a
  | .error e => .fail (.db e)

/-- A check that needs no statement. -/
def check {α : Type} : Except StoreError α → Tx α
  | .ok a => .pure a
  | .error e => .fail e

/-! ## Rows -/

def maxInt32 : ℕ := 2 ^ 31 - 1

/-- A `timestamptz` column keeps microseconds. -/
def micros (t : ℤ) : ℤ := t / 1000 * 1000

def parseUUID (name value : String) : Except StoreError String :=
  match scanUUID value with
  | some id => .ok id
  | none => .error (appErr .invalidArgument (name ++ " " ++ quote value ++ " is not a UUID"))

/-- A JSON value inside another one, as encoding and decoding leave it. -/
def RawMessage.encode : RawMessage → Option RawMessage
  | .absent => some (.value "null")
  | .malformed _ => none
  | m => some m

/-- The details of a pending edit as the column holds them: JSON with the identifiers in
the form they were given. -/
def Details.encode (d : Details) : Except StoreError Details :=
  match d.deliveryBuildingSnapshot.encode, d.items.encode with
  | some snapshot, some items => .ok { d with deliveryBuildingSnapshot := snapshot, items := items }
  | _, _ => .error (.internal "errandrepo: encode pending edit")

/-- The column of the pending edit. -/
def encodePendingEdit : Option PendingEdit → Except StoreError (Option PendingEdit)
  | none => .ok none
  | some p => do
    let details ← p.details.encode
    return some { p with details := details, atTime := micros p.atTime }

/-- The row of an errand as it is read back: identifiers in canonical form, times in
microseconds. -/
def insertParams (e : Errand) : Except StoreError Errand := do
  let id ← parseUUID "errandId" e.id
  let supplierID ← parseUUID "supplierId" e.details.supplierID
  let supplierVersionID ← parseUUID "supplierVersionId" e.details.supplierVersionID
  let deliveryBuildingID ← parseUUID "deliveryBuildingId" e.details.deliveryBuildingID
  if (maxInt32 : ℤ) < e.details.reward ∨ maxInt32 < e.version then
    throw (appErr .invalidArgument "reward or version is out of range")
  let pendingEdit ← encodePendingEdit e.pendingEdit
  return { e with
    id := id
    details := { e.details with
      supplierID := supplierID
      supplierVersionID := supplierVersionID
      deliveryBuildingID := deliveryBuildingID
      acceptanceDeadline := micros e.details.acceptanceDeadline }
    pickupDeadline := e.pickupDeadline.map micros
    deliveryDeadline := e.deliveryDeadline.map micros
    deliveredAt := e.deliveredAt.map micros
    verificationDeadline := e.verificationDeadline.map micros
    pendingEdit := pendingEdit
    createdAt := micros e.createdAt
    updatedAt := micros e.updatedAt }

/-! ## Applying transitions -/

/-- The condition of the update, checked first so that a mismatch gets the right code. -/
def compareAndSwap (cur : Errand) (t : Transition) : Except StoreError Unit :=
  if cur.status ≠ t.source then
    .error (appErr .errandUnavailable
      ("errand " ++ quote cur.id ++ " is " ++ cur.status.text ++ ", not " ++ t.source.text))
  else if cur.version ≠ t.expectedVersion ∨ cur.pendingKey ≠ t.expectedPendingEditKey then
    .error (appErr .errandChanged ("errand " ++ quote cur.id ++ " has changed"))
  else .ok ()

/-- The supplier an edit moves the errand to, at once or as a pending edit, unless the
edit keeps the supplier. -/
def editTargetSupplier (cur : Errand) (t : Transition) : Option String :=
  if t.event ≠ .edit then none
  else
    let target := match t.changes.details, t.changes.pendingEdit.value with
      | some d, _ => d.supplierID
      | none, some p => p.details.supplierID
      | none, none => ""
    if target ≠ "" ∧ target ≠ cur.details.supplierID then some target else none

/-- Take the shared supplier lock and refuse a fenced supplier. -/
def checkFence (id supplierID : String) : Tx Unit := do
  let _ ← orFail (← query (.lockSupplierShared id))
  let fenced ← orFail (← query (.supplierFenced id))
  if fenced then
    .fail (appErr .supplierDeletionInProgress ("supplier " ++ quote supplierID ++
      " is being deleted"))
  else return ()

def insertOutboxRows : List OutboxRow → Tx Unit
  | [] => return ()
  | row :: rows => do
    let errandID ← check (parseUUID "errandId" row.errandID)
    match ← query (.insertOutbox { row with errandID := errandID }) with
    | .error e =>
      .fail (.wrapped ("errandrepo: insert outbox row " ++ quote row.idempotencyKey) (.db e))
    | .ok () => insertOutboxRows rows

/-- Record the transition, open or resolve the errand's review, and insert the outbox
rows. -/
def writeTransitionRows (before after : Errand) (t : Transition) : Tx Unit := do
  let id ← check (parseUUID "errandId" after.id)
  let _ ← orFail (← query (.insertTransition
    { errandID := id, source := t.source, target := t.target, event := t.event,
      actorType := t.actor.type, actorID := t.actor.id,
      courierID := if before.courierID = "" then after.courierID else before.courierID,
      reason := t.reason, errandVersion := after.version, atTime := micros t.atTime }))
  if t.target = .reviewRequired then
    let _ ← orFail (← query (.openReview
      { errandID := id, reason := after.reviewReason,
        reporterID := if t.actor.type = .system then "" else t.actor.id,
        note := if isBlank t.reason then "" else t.reason, createdAt := micros t.atTime }))
    insertOutboxRows t.outbox
  else if t.source = .reviewRequired then
    let resolved ← orFail (← query (.resolveReview id
      { target := t.target, resolverID := t.actor.id, reason := t.reason,
        atTime := micros t.atTime }))
    if resolved = 0 then
      .fail (.internal ("errandrepo: errand " ++ quote after.id ++
        " has no open review to resolve"))
    else insertOutboxRows t.outbox
  else insertOutboxRows t.outbox

/-- The fence check of an edit that moves the errand to another supplier. -/
def checkEditFence (cur : Errand) (t : Transition) : Tx Unit :=
  match editTargetSupplier cur t with
  | some target => do
    let id ← check (parseUUID "supplierId" target)
    checkFence id target
  | none => return ()

/-- Write a transition for `cur`, whose row the transaction has locked. -/
def applyLocked (cur : Errand) (t : Transition) : Tx Errand := do
  check (compareAndSwap cur t)
  checkEditFence cur t
  let row ← check (insertParams (t.applyTo cur))
  match ← query (.updateErrand row t.source t.expectedVersion t.expectedPendingEditKey) with
  | .error .noRows =>
    .fail (.internal ("errandrepo: compare-and-swap on locked errand " ++ quote cur.id ++
      " matched no row"))
  | .error e => .fail (.db e)
  | .ok stored => do
    writeTransitionRows cur stored t
    return stored

/-- `Store.Apply`. -/
def apply (t : Transition) : Tx Errand :=
  if t.source = .none then .fail (appErr .invalidArgument "use Create for a Submit transition")
  else match scanUUID t.errandID with
    | none => .fail (notFound t.errandID)
    | some id => do
      match ← query (.getErrandForUpdate id) with
      | .error .noRows => .fail (notFound t.errandID)
      | .error e => .fail (.db e)
      | .ok cur => applyLocked cur t

/-- `Store.Create`. It returns the stored errand and whether it is new. -/
def create (e : Errand) (t : Transition) : Tx (Errand × Bool) :=
  if e.status ≠ .none ∨ t.event ≠ .submit ∨ t.source ≠ .none ∨ t.errandID ≠ e.id then
    .fail (appErr .invalidArgument ("not a Submit transition for errand " ++ quote e.id))
  else if e.createIdempotencyKey = "" then
    .fail (appErr .invalidArgument "create idempotency key is required")
  else do
    let row ← check (insertParams (t.applyTo e))
    match ← query (.getErrandByCreateKey e.requesterID e.createIdempotencyKey) with
    | .ok existing => return (existing, false)
    | .error .noRows => do
      checkFence row.details.supplierID e.details.supplierID
      match ← query (.insertErrand row) with
      | .error .noRows => do
        let existing ← orFail (← query (.getErrandByCreateKey e.requesterID e.createIdempotencyKey))
        return (existing, false)
      | .error err => .fail (.db err)
      | .ok stored => do
        writeTransitionRows e stored t
        return (stored, true)
    | .error err => .fail (.db err)

/-- The decisions for a batch, or the first error. -/
def decideAll (decide : Errand → Except StoreError (Option Transition)) :
    List Errand → Except StoreError (List Transition)
  | [] => .ok []
  | e :: es => do
    let decision ← decide e
    let rest ← decideAll decide es
    return decision.toList ++ rest

/-- Apply decided transitions in order; `locked` holds the errands of the batch as this
transaction has left them. -/
def applyDecided (locked : String → Option Errand) : List Transition → Tx Unit
  | [] => return ()
  | t :: ts =>
    match locked t.errandID with
    | none =>
      .fail (.internal ("errandrepo: decide returned a transition for errand " ++
        quote t.errandID ++ ", which is not in the batch"))
    | some cur =>
      if t.source = .none then
        .fail (appErr .invalidArgument "ClaimDue cannot apply a Submit transition")
      else do
        let stored ← applyLocked cur t
        applyDecided (fun id => if id = t.errandID then some stored else locked id) ts

/-- `Store.ClaimDue`. The text that an error of `applyLocked` is wrapped in is left out. -/
def claimDue (kind : DueKind) (now : ℤ) (limit : ℤ)
    (decide : Errand → Except StoreError (Option Transition)) : Tx ℕ :=
  if limit < 1 then .fail (appErr .invalidArgument "limit must be positive")
  else do
    let batch ← orFail (← query (.claim kind now (min limit.toNat maxInt32)))
    let decided ← check (decideAll decide batch)
    applyDecided (fun id => batch.find? fun e => e.id = id) decided
    return decided.length

/-! ## Rejections and reminders -/

/-- A refused request to announce. -/
structure Rejection where
  errandID : String
  action : RejectedAction
  actor : Actor
  code : ErrorCode
  requestID : String
  atTime : ℤ
  deriving DecidableEq, Repr

/-- `{errandId}:{action}-rejected:{requestId}`. -/
def rejectionKey (errandID : String) (action : RejectedAction) (requestID : String) : String :=
  errandID ++ ":" ++ action.text ++ "-rejected:" ++ requestID

/-- `Store.RecordRejection`. -/
def recordRejection (r : Rejection) : Tx Unit :=
  if r.requestID = "" then .fail (appErr .invalidArgument "request ID is required")
  else match scanUUID r.errandID with
    | none => .fail (notFound r.errandID)
    | some id => do
      match ← query (.getErrand id) with
      | .error .noRows => .fail (notFound r.errandID)
      | .error e => .fail (.db e)
      | .ok row => do
        let _ ← orFail (← query (.insertOutboxIfAbsent
          { kind := .event r.action.eventName
            idempotencyKey := rejectionKey r.errandID r.action r.requestID
            errandID := id
            payload := .rejection
              { errandID := r.errandID, errandVersion := row.version, status := row.status,
                action := r.action, code := r.code, actorType := r.actor.type,
                actorID := r.actor.id, atTime := r.atTime } }))
        return ()

/-- The reminder jobs. -/
inductive ReminderKind where
  | verification
  | pickup
  deriving DecidableEq, Repr

def ReminderKind.event : ReminderKind → EventName
  | .verification => .verificationReminder
  | .pickup => .pickupDeadlineApproaching

def ReminderKind.operation : ReminderKind → String
  | .verification => "verify-reminder"
  | .pickup => "pickup-reminder"

/-- An errand that is due a reminder, as it was when selected. -/
structure ReminderCandidate where
  errandID : String
  version : ℕ
  status : Status
  requesterID : String
  courierID : String
  deadline : ℤ
  deriving DecidableEq, Repr

/-- The row `runReminder` raises for a candidate. -/
def reminderRow (kind : ReminderKind) (c : ReminderCandidate) (now : ℤ) : OutboxRow where
  kind := .event kind.event
  idempotencyKey := idempotencyKey c.errandID kind.operation c.version
  errandID := c.errandID
  payload := .reminder
    { errandID := c.errandID, errandVersion := c.version, status := c.status,
      requesterID := c.requesterID, courierID := c.courierID, deadline := c.deadline,
      atTime := now }

/-- `InsertCurrentReminder` for a candidate: whether the row was inserted. -/
def insertCurrentReminder (kind : ReminderKind) (c : ReminderCandidate) (now : ℤ) : Tx Bool :=
  match scanUUID c.errandID with
  | none => .fail (.ops .invalidArgument)
  | some id => do
    match ← query (.insertCurrentReminder { reminderRow kind c now with errandID := id }
      c.status c.version) with
    | .error e => .fail (.ops (.ofDB e))
    | .ok affected => return affected == 1

/-! ## Fences -/

/-- What every fence route answers. -/
structure FenceAnswer where
  operationID : String
  supplierID : String
  state : FenceState
  hasActiveErrands : Bool
  deriving DecidableEq, Repr

/-- `if err != nil { return mapError(err) }`. -/
def orOpsFail {α : Type} : Except DBError α → Tx α
  | .ok a => .pure a
  | .error e => .fail (.ops (.ofDB e))

/-- A UUID argument of `opsrepo`. -/
def opsUUID (value : String) : Tx String :=
  match scanUUID value with
  | some id => .pure id
  | none => .fail (.ops .invalidArgument)

def withActiveErrands (stored : Fence) : Tx FenceAnswer := do
  let id ← opsUUID stored.supplierID
  let count ← orOpsFail (← query (.countActiveErrandsForSupplier id))
  return ⟨stored.operationID, stored.supplierID, stored.state, 0 < count⟩

/-- The audit row of a succeeded fence action. -/
def audit (actor action operationID : String) : Tx Unit :=
  if actor = "" ∨ operationID = "" then .fail (.ops .invalidArgument)
  else do
    orOpsFail (← query (.insertAudit
      { actorID := actor, action := action, targetType := "supplier_fence",
        targetID := operationID, reason := "", outcome := .succeeded }))

/-- `Service.Acquire`. -/
def acquire (actor operationID supplierID : String) : Tx FenceAnswer := do
  let supplier ← opsUUID supplierID
  let _ ← orOpsFail (← query (.lockSupplierForFence supplier))
  let operation ← opsUUID operationID
  let _ ← orOpsFail (← query (.insertFence operation supplier))
  let stored ← orOpsFail (← query (.getFence operation))
  if stored.supplierID ≠ supplier then .fail (.ops .fenceSupplierMismatch)
  else do
    let result ← withActiveErrands stored
    audit actor "supplier_fence.acquire" operationID
    return result

/-- `Service.Inspect`: two reads outside any transaction. -/
def inspect (operationID : String) : Tx FenceAnswer := do
  let operation ← opsUUID operationID
  let stored ← orOpsFail (← query (.getFence operation))
  withActiveErrands stored

/-- `CloseFence`. A fence that is already in the state is returned as it is. -/
def closeFence (operation : String) (state : FenceState) : Tx Fence := do
  match ← query (.closeFence operation state) with
  | .ok stored => return stored
  | .error .noRows => do
    let current ← orOpsFail (← query (.getFence operation))
    if current.state ≠ state then .fail (.ops .fenceStateConflict) else return current
  | .error e => .fail (.ops (.ofDB e))

/-- `Service.Commit` and `Service.Release`, by the state they close the fence with. -/
def close (actor action operationID : String) (state : FenceState) : Tx FenceAnswer := do
  let operation ← opsUUID operationID
  let stored ← closeFence operation state
  let result ← withActiveErrands stored
  audit actor action operationID
  return result

def commit (actor operationID : String) : Tx FenceAnswer :=
  close actor "supplier_fence.commit" operationID .committed

def release (actor operationID : String) : Tx FenceAnswer :=
  close actor "supplier_fence.release" operationID .released

end FocServices.Orders
