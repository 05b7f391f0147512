import FocServices.Orders.Next
import FocServices.Uuid
import FocServices.Txn.Program
import FocServices.Txn.Rows
import Mathlib.Data.List.Sort

/-!
# The order tables and their statements

The tables of the order-service migration, one statement for each query the errand
store and the fence service run, and the constraints a statement can fail on. A row of
`errands` is an `Errand` as `errandFromRow` reads it back. A `uuid` value is its
canonical text. The dispatch columns of the outbox, generated row identifiers and
timestamps that the database sets are left out: no modelled statement reads them.
-/

namespace FocServices.Orders

open Txn

/-! ## Rows -/

/-- A row of `errand_transitions`. -/
structure TransitionRow where
  errandID : String
  source : Status
  target : Status
  event : Event
  actorType : ActorType
  actorID : String
  courierID : String
  reason : String
  errandVersion : ℕ
  atTime : ℤ
  deriving DecidableEq, Repr

/-- How a review was resolved. -/
structure Resolution where
  target : Status
  resolverID : String
  reason : String
  atTime : ℤ
  deriving DecidableEq, Repr

/-- A row of `errand_reviews`. -/
structure Review where
  errandID : String
  reason : Option ReviewReason
  reporterID : String
  note : String
  createdAt : ℤ
  resolution : Option Resolution := none
  deriving DecidableEq, Repr

/-- `supplier_fences.state`. -/
inductive FenceState where
  | open
  | committed
  | released
  deriving DecidableEq, Repr

/-- A row of `supplier_fences`. -/
structure Fence where
  operationID : String
  supplierID : String
  state : FenceState
  deriving DecidableEq, Repr

inductive AuditOutcome where
  | succeeded
  | rejected
  | failed
  deriving DecidableEq, Repr

/-- A row of `admin_audit`. -/
structure AuditRecord where
  actorID : String
  action : String
  targetType : String
  targetID : String
  reason : String
  outcome : AuditOutcome
  deriving DecidableEq, Repr

/-- The database of the order service. -/
structure Tables where
  errands : List Errand := []
  transitions : List TransitionRow := []
  reviews : List Review := []
  outbox : List OutboxRow := []
  fences : List Fence := []
  audit : List AuditRecord := []
  deriving DecidableEq, Repr

/-- The jobs that claim due errands. -/
inductive DueKind where
  | acceptanceExpiry
  | pickupDeadline
  | deliveryDeadline
  | verificationLapse
  | stuckReservation
  | stuckEdit
  deriving DecidableEq, Repr

/-- The column of the job's index for an errand that matches the index predicate. -/
def DueKind.dueAt (k : DueKind) (e : Errand) : Option ℤ :=
  let column := fun (status : Status) (t : Option ℤ) => if e.status = status then t else none
  match k with
  | .acceptanceExpiry => column .open (some e.details.acceptanceDeadline)
  | .pickupDeadline => column .assigned e.pickupDeadline
  | .deliveryDeadline => column .pickedUp e.deliveryDeadline
  | .verificationLapse => column .delivered e.verificationDeadline
  | .stuckReservation => column .pendingReservation (some e.createdAt)
  | .stuckEdit => e.pendingEdit.map PendingEdit.atTime

/-- Whether the job selects the errand. -/
def DueKind.due (k : DueKind) (e : Errand) (now : ℤ) : Bool := (k.dueAt e).any fun t => t ≤ now

/-! ## Statements -/

/-- The database errors: no row, and the violations of constraints. -/
inductive DBError where
  | noRows
  | unique (constraint : String)
  | check (constraint : String)
  | foreignKey (constraint : String)
  | notNull (column : String)
  | invalidText
  deriving DecidableEq, Repr

/-- The withdrawals of a courier: whether one was from the errand, and how many are
recent. -/
structure CourierHistory where
  withdrewFromErrand : Bool
  withdrawalsSince : ℕ
  deriving DecidableEq, Repr

/-- The statements of `errandgen` and `opsgen`. -/
inductive Stmt where
  | getErrand (id : String)
  | getErrandForUpdate (id : String)
  | getErrandByCreateKey (requesterID createIdempotencyKey : String)
  | insertErrand (row : Errand)
  | updateErrand (row : Errand) (expectedStatus : Status) (expectedVersion : ℕ)
      (expectedPendingEditKey : String)
  | insertTransition (row : TransitionRow)
  | insertOutbox (row : OutboxRow)
  | insertOutboxIfAbsent (row : OutboxRow)
  | openReview (review : Review)
  | resolveReview (errandID : String) (resolution : Resolution)
  | claim (kind : DueKind) (now : ℤ) (rowLimit : ℕ)
  | insertCurrentReminder (row : OutboxRow) (status : Status) (version : ℕ)
  | lockSupplierShared (supplierID : String)
  | supplierFenced (supplierID : String)
  | lockSupplierForFence (supplierID : String)
  | insertFence (operationID supplierID : String)
  | getFence (operationID : String)
  | closeFence (operationID : String) (state : FenceState)
  | countActiveErrandsForSupplier (supplierID : String)
  | insertAudit (record : AuditRecord)
  | courierHistory (errandID : Option String) (courierID : String) (since : ℤ)
  deriving DecidableEq

/-- What each statement returns; inserts that may be skipped return the number of rows. -/
@[reducible] def Stmt.Reply : Stmt → Type
  | .getErrand _ | .getErrandForUpdate _ | .getErrandByCreateKey _ _ | .insertErrand _
  | .updateErrand _ _ _ _ => Except DBError Errand
  | .insertTransition _ | .insertOutbox _ | .openReview _ | .lockSupplierShared _
  | .lockSupplierForFence _ | .insertAudit _ => Except DBError Unit
  | .insertOutboxIfAbsent _ | .resolveReview _ _ | .insertCurrentReminder _ _ _
  | .insertFence _ _ | .countActiveErrandsForSupplier _ => Except DBError ℕ
  | .claim _ _ _ => Except DBError (List Errand)
  | .supplierFenced _ => Except DBError Bool
  | .getFence _ | .closeFence _ _ => Except DBError Fence
  | .courierHistory _ _ _ => Except DBError CourierHistory

/-- The row changes statements make. -/
inductive Write where
  | insertErrand (row : Errand)
  | updateErrand (row : Errand)
  | insertTransition (row : TransitionRow)
  | insertOutbox (row : OutboxRow)
  | insertReview (review : Review)
  | resolveReview (errandID : String) (resolution : Resolution)
  | insertFence (fence : Fence)
  | closeFence (operationID : String) (state : FenceState)
  | insertAudit (record : AuditRecord)
  deriving DecidableEq

/-- What transactions wait for: advisory locks on suppliers, row locks, and the unique
keys of rows inserted by a transaction that has not ended. -/
inductive Lock where
  | supplier (hash : ℤ)
  | errand (id : String)
  | createKey (requesterID createIdempotencyKey : String)
  | outboxKey (idempotencyKey : String)
  | openReview (errandID : String)
  | fence (operationID : String)
  deriving DecidableEq

/-- The columns an update writes; the others keep their values. -/
def Errand.overwrite (old row : Errand) : Errand :=
  { row with
    requesterID := old.requesterID
    createIdempotencyKey := old.createIdempotencyKey
    createdAt := old.createdAt }

def Write.apply : Write → Tables → Tables
  | .insertErrand row, s => { s with errands := s.errands ++ [row] }
  | .updateErrand row, s =>
    { s with errands := updateRow Errand.id row.id (fun old => old.overwrite row) s.errands }
  | .insertTransition row, s => { s with transitions := s.transitions ++ [row] }
  | .insertOutbox row, s => { s with outbox := s.outbox ++ [row] }
  | .insertReview review, s => { s with reviews := s.reviews ++ [review] }
  | .resolveReview errandID resolution, s =>
    { s with
      reviews := s.reviews.map fun r =>
        if r.errandID = errandID ∧ r.resolution.isNone then { r with resolution := some resolution }
        else r }
  | .insertFence fence, s => { s with fences := s.fences ++ [fence] }
  | .closeFence operationID state, s =>
    { s with
      fences := updateRow Fence.operationID operationID (fun f => { f with state := state })
        s.fences }
  | .insertAudit record, s => { s with audit := s.audit ++ [record] }

/-! ## Constraints -/

/-- The problem with a `jsonb NOT NULL` column. -/
def RawMessage.problem (column : String) : RawMessage → Option DBError
  | .absent => some (.notNull column)
  | .malformed _ => some .invalidText
  | .array _ | .value _ => none

/-- A JSON array with at least one element. -/
def RawMessage.isNonemptyArray : RawMessage → Bool
  | .array (_ :: _) => true
  | _ => false

/-- Whether nothing is left of the text after `btrim`. -/
def onlySpaces (s : String) : Bool := s.toList.all (· = ' ')

/-- The first constraint of `errands` that a row violates on its own. -/
def Errand.rowProblem (e : Errand) : Option DBError :=
  match e.details.deliveryBuildingSnapshot.problem "delivery_building_snapshot" with
  | some err => some err
  | none =>
  match e.details.items.problem "items" with
  | some err => some err
  | none =>
    if onlySpaces e.details.contactName ∨ onlySpaces e.details.contactMobile then
      some (.check "errands_contact_present")
    else if e.status ∈ [.assigned, .pickedUp, .delivered, .reviewRequired] ∧ e.courierID = "" then
      some (.check "errands_courier_when_assigned")
    else if ¬ e.details.items.isNonemptyArray then
      some (.check "errands_items_not_empty")
    else if e.details.reward ≤ 0 then some (.check "errands_reward_positive")
    else if e.status = .none then some (.check "errands_status_known")
    else if e.version = 0 then some (.check "errands_version_positive")
    else none

def Tables.errandOf (s : Tables) (id : String) : Option Errand := findRow Errand.id id s.errands

def Tables.hasErrand (s : Tables) (id : String) : Bool := s.errands.any fun e => e.id = id

def Tables.hasKey (s : Tables) (key : String) : Bool :=
  s.outbox.any fun row => row.idempotencyKey = key

def Tables.fenceOf (s : Tables) (operationID : String) : Option Fence :=
  findRow Fence.operationID operationID s.fences

/-- Whether the supplier has an `OPEN` or `COMMITTED` fence. -/
def Tables.fenced (s : Tables) (supplierID : String) : Bool :=
  s.fences.any fun f => f.supplierID = supplierID ∧ f.state ≠ .released

/-- The rows a job may lock: due ones that no other transaction has locked, in the order
of the job's index. -/
def Tables.claimable (s : Tables) (grantable : Lock → Mode → Bool) (kind : DueKind) (now : ℤ) :
    List Errand :=
  (s.errands.filter fun e => kind.due e now && grantable (.errand e.id) .exclusive).insertionSort
    fun a b => (kind.dueAt a).getD 0 < (kind.dueAt b).getD 0 ∨
      (kind.dueAt a).getD 0 = (kind.dueAt b).getD 0 ∧ a.id ≤ b.id

/-- The supplier of the pending edit as the count reads it; `none` for text that is
no UUID. -/
def Errand.pendingSupplier (e : Errand) : Option (Option String) :=
  e.pendingEdit.map fun p => castUUID p.details.supplierID

/-- Whether an active errand keeps a supplier in use, by its details or its pending edit. -/
def Errand.uses (e : Errand) (supplierID : String) : Bool :=
  e.status.active && (e.details.supplierID = supplierID || e.pendingSupplier = some (some supplierID))

/-- The count of active errands of a supplier. It fails on a pending edit whose supplier
is no UUID, unless the errand counts anyway. -/
def Tables.countActive (s : Tables) (supplierID : String) : Except DBError ℕ :=
  if s.errands.any (fun e => e.status.active && e.details.supplierID ≠ supplierID &&
      e.pendingSupplier = some none) then .error .invalidText
  else .ok (s.errands.countP fun e => e.uses supplierID)

/-- Whether the row is a withdrawal of the courier, voluntary or forced. A row without a
courier is nobody's. -/
def TransitionRow.withdrawalOf (row : TransitionRow) (courierID : String) : Bool :=
  courierID ≠ "" && row.courierID = courierID &&
    row.event ∈ [Event.withdraw, Event.pickupDeadlinePassed]

/-- What the log says about a courier. A missing errand matches no row. -/
def Tables.courierHistory (s : Tables) (errandID : Option String) (courierID : String)
    (since : ℤ) : CourierHistory where
  withdrewFromErrand := s.transitions.any fun row =>
    row.withdrawalOf courierID && errandID = some row.errandID
  withdrawalsSince := s.transitions.countP fun row => row.withdrawalOf courierID && since ≤ row.atTime

/-! ## Execution -/

/-- The answer of the database to each statement. `hash` is PostgreSQL's
`hashtextextended` of a supplier's lock key, of which nothing is assumed. -/
def exec (hash : String → ℤ) (grantable : Lock → Mode → Bool) :
    (q : Stmt) → Tables → Answer Stmt.Reply Write Lock q
  | .getErrand id, s =>
    match s.errandOf id with
    | some e => ⟨.ok e, [], []⟩
    | none => ⟨.error .noRows, [], []⟩
  | .getErrandForUpdate id, s =>
    match s.errandOf id with
    | some e => ⟨.ok e, [], [(.errand id, .exclusive)]⟩
    | none => ⟨.error .noRows, [], []⟩
  | .getErrandByCreateKey requesterID key, s =>
    match s.errands.find? fun e => e.requesterID = requesterID ∧ e.createIdempotencyKey = key with
    | some e => ⟨.ok e, [], []⟩
    | none => ⟨.error .noRows, [], []⟩
  | .insertErrand row, s =>
    let locks := [(Lock.createKey row.requesterID row.createIdempotencyKey, Mode.exclusive),
      (Lock.errand row.id, Mode.exclusive)]
    match row.rowProblem with
    | some err => ⟨.error err, [], []⟩
    | none =>
      if s.errands.any fun e => e.requesterID = row.requesterID ∧
          e.createIdempotencyKey = row.createIdempotencyKey then ⟨.error .noRows, [], []⟩
      else if s.hasErrand row.id then ⟨.error (.unique "errands_pkey"), [], []⟩
      else ⟨.ok row, [.insertErrand row], locks⟩
  | .updateErrand row expectedStatus expectedVersion expectedPendingEditKey, s =>
    match s.errandOf row.id with
    | none => ⟨.error .noRows, [], []⟩
    | some old =>
      if old.status ≠ expectedStatus ∨ old.version ≠ expectedVersion ∨
          old.pendingKey ≠ expectedPendingEditKey then ⟨.error .noRows, [], []⟩
      else match row.rowProblem with
        | some err => ⟨.error err, [], [(.errand row.id, .exclusive)]⟩
        | none =>
          ⟨.ok (old.overwrite row), [.updateErrand row], [(.errand row.id, .exclusive)]⟩
  | .insertTransition row, s =>
    if row.target = .none then
      ⟨.error (.check "errand_transitions_to_status_known"), [], []⟩
    else if row.errandVersion = 0 then
      ⟨.error (.check "errand_transitions_version_positive"), [], []⟩
    else if ¬ s.hasErrand row.errandID then
      ⟨.error (.foreignKey "errand_transitions_errand_fkey"), [], []⟩
    else ⟨.ok (), [.insertTransition row], [(.errand row.errandID, .shared)]⟩
  | .insertOutbox row, s =>
    let locks := [(Lock.outboxKey row.idempotencyKey, Mode.exclusive)]
    if s.hasKey row.idempotencyKey then ⟨.error (.unique "outbox_idempotency_key"), [], []⟩
    else if ¬ s.hasErrand row.errandID then
      ⟨.error (.foreignKey "outbox_errand_fkey"), [], locks⟩
    else ⟨.ok (), [.insertOutbox row], locks ++ [(.errand row.errandID, .shared)]⟩
  | .insertOutboxIfAbsent row, s =>
    let locks := [(Lock.outboxKey row.idempotencyKey, Mode.exclusive)]
    if s.hasKey row.idempotencyKey then ⟨.ok 0, [], []⟩
    else if ¬ s.hasErrand row.errandID then
      ⟨.error (.foreignKey "outbox_errand_fkey"), [], locks⟩
    else ⟨.ok 1, [.insertOutbox row], locks ++ [(.errand row.errandID, .shared)]⟩
  | .openReview review, s =>
    let locks := [(Lock.openReview review.errandID, Mode.exclusive)]
    if review.reason = none then ⟨.error (.check "errand_reviews_reason_known"), [], []⟩
    else if s.reviews.any fun r => r.errandID = review.errandID ∧ r.resolution.isNone then
      ⟨.error (.unique "errand_reviews_open_idx"), [], []⟩
    else if ¬ s.hasErrand review.errandID then
      ⟨.error (.foreignKey "errand_reviews_errand_fkey"), [], locks⟩
    else ⟨.ok (), [.insertReview review], locks ++ [(.errand review.errandID, .shared)]⟩
  | .resolveReview errandID resolution, s =>
    let locks := [(Lock.openReview errandID, Mode.exclusive)]
    match s.reviews.countP fun r => r.errandID = errandID ∧ r.resolution.isNone with
    | 0 => ⟨.ok 0, [], []⟩
    | n + 1 =>
      if resolution.target ≠ .completed ∧ resolution.target ≠ .refunded then
        ⟨.error (.check "errand_reviews_resolution_known"), [], locks⟩
      else if resolution.resolverID = "" ∨ resolution.reason = "" then
        ⟨.error (.check "errand_reviews_resolution_complete"), [], locks⟩
      else ⟨.ok (n + 1), [.resolveReview errandID resolution], locks⟩
  | .claim kind now rowLimit, s =>
    let rows := (s.claimable grantable kind now).take rowLimit
    ⟨.ok rows, [], rows.map fun e => (.errand e.id, .exclusive)⟩
  | .insertCurrentReminder row status version, s =>
    if s.errands.any fun e => e.id = row.errandID ∧ e.status = status ∧ e.version = version then
      let locks := [(Lock.errand row.errandID, Mode.shared)]
      if s.hasKey row.idempotencyKey then ⟨.ok 0, [], locks⟩
      else
        ⟨.ok 1, [.insertOutbox row], locks ++ [(.outboxKey row.idempotencyKey, .exclusive)]⟩
    else ⟨.ok 0, [], []⟩
  | .lockSupplierShared supplierID, _ => ⟨.ok (), [], [(.supplier (hash supplierID), .shared)]⟩
  | .supplierFenced supplierID, s => ⟨.ok (s.fenced supplierID), [], []⟩
  | .lockSupplierForFence supplierID, _ =>
    ⟨.ok (), [], [(.supplier (hash supplierID), .exclusive)]⟩
  | .insertFence operationID supplierID, s =>
    if (s.fenceOf operationID).isSome then ⟨.ok 0, [], []⟩
    else
      ⟨.ok 1, [.insertFence ⟨operationID, supplierID, .open⟩], [(.fence operationID, .exclusive)]⟩
  | .getFence operationID, s =>
    match s.fenceOf operationID with
    | some f => ⟨.ok f, [], []⟩
    | none => ⟨.error .noRows, [], []⟩
  | .closeFence operationID state, s =>
    match s.fenceOf operationID with
    | some f =>
      if f.state = .open then
        ⟨.ok { f with state := state }, [.closeFence operationID state],
          [(.fence operationID, .exclusive)]⟩
      else ⟨.error .noRows, [], []⟩
    | none => ⟨.error .noRows, [], []⟩
  | .countActiveErrandsForSupplier supplierID, s => ⟨s.countActive supplierID, [], []⟩
  | .insertAudit record, _ => ⟨.ok (), [.insertAudit record], []⟩
  | .courierHistory errandID courierID since, s =>
    ⟨.ok (s.courierHistory errandID courierID since), [], []⟩

/-- The order database as a transaction engine. -/
def engine (hash : String → ℤ) : Engine Stmt Stmt.Reply Tables Write Lock where
  apply := Write.apply
  exec _ grantable q s := exec hash grantable q s

end FocServices.Orders
