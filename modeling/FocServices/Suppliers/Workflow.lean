import FocServices.Uuid
import FocServices.Txn.Calls
import FocServices.Txn.Rows

/-!
# Supplier deletion

Deleting a supplier involves two services. Order-service holds a fence that keeps errands away
from the supplier. Supplier-service records in an operation how far the deletion has come, and
request handlers and reconcilers advance the operation under a lease. Any store call and any
call of order-service may fail, before or after it has taken effect.

Store calls are atomic. Times are microseconds. UUIDs are their canonical text, except for claim
ids, which are numbers, and the ids of a request, which the database casts.
-/

namespace FocServices.Suppliers

open Txn

/-! ## Operations -/

inductive DeletionState where
  | requested
  | releasePending
  | commitPending
  | rejectedActiveErrands
  | completed
  deriving DecidableEq

/-- The states in which an operation can be claimed. -/
def DeletionState.pending : DeletionState → Bool
  | .requested | .releasePending | .commitPending => true
  | .rejectedActiveErrands | .completed => false

/-- The states after the supplier was deleted. -/
def DeletionState.deleted : DeletionState → Bool
  | .commitPending | .completed => true
  | .requested | .releasePending | .rejectedActiveErrands => false

/-- A row of `supplier_deletion_operations`. -/
structure Operation where
  id : String
  supplierID : String
  state : DeletionState
  attemptCount : ℕ
  maxAttempts : ℕ
  nextAttemptAt : Option ℤ
  claimID : Option ℕ
  leaseExpiresAt : Option ℤ
  requestedAt : ℤ
  updatedAt : ℤ
  deletedAt : Option ℤ
  completedAt : Option ℤ

/-- The `CHECK` constraints that the types of the columns do not express. -/
structure Operation.Valid (o : Operation) : Prop where
  attempts : 0 < o.maxAttempts ∧ o.attemptCount ≤ o.maxAttempts
  leasePair : o.claimID.isNone = o.leaseExpiresAt.isNone
  leaseAfterUpdate : ∀ lease ∈ o.leaseExpiresAt, o.updatedAt < lease
  deletedState : o.state.deleted = o.deletedAt.isSome
  completedState : o.state = .completed ↔ o.completedAt.isSome = true
  terminalUnclaimed : o.state.pending = false → o.claimID = none ∧ o.nextAttemptAt = none
  updatedAfterRequest : o.requestedAt ≤ o.updatedAt
  deletedAfterRequest : ∀ deleted ∈ o.deletedAt, o.requestedAt ≤ deleted
  completedAfterDelete : ∀ completed ∈ o.completedAt, ∀ deleted ∈ o.deletedAt, deleted ≤ completed

/-- The row that `CreateOrGetDeletionOperation` inserts. -/
def Operation.new (id supplierID : String) (maxAttempts : ℕ) (now : ℤ) : Operation :=
  ⟨id, supplierID, .requested, 0, maxAttempts, some now, none, none, now, now, none, none⟩

/-- `UPDATE ... WHERE operation_id = id AND guard`. -/
structure Update where
  guard : Operation → Bool
  change : Operation → Operation

/-- The condition of `ListClaimableDeletionOperations` and `ClaimDeletionOperation`. -/
def Operation.claimable (now : ℤ) (o : Operation) : Bool :=
  o.state.pending && decide (o.attemptCount < o.maxAttempts) &&
  o.nextAttemptAt.any (fun next => decide (next ≤ now)) &&
  (o.claimID.isNone || o.leaseExpiresAt.any fun lease => decide (lease ≤ now))

/-- The operation has the claim, whose lease has not run out. -/
def Operation.heldBy (claimID : ℕ) (now : ℤ) (o : Operation) : Bool :=
  o.claimID == some claimID && o.leaseExpiresAt.any fun lease => decide (now < lease)

def claimDeletion (claimID : ℕ) (now lease : ℤ) : Update where
  guard := Operation.claimable now
  change o := { o with
    claimID := some claimID, leaseExpiresAt := some lease, attemptCount := o.attemptCount + 1,
    updatedAt := now }

def markReleasePending (claimID : ℕ) (now : ℤ) : Update where
  guard o := o.state == .requested && o.heldBy claimID now
  change o := { o with state := .releasePending, nextAttemptAt := some now, updatedAt := now }

def markRejectedActiveErrands (claimID : ℕ) (now : ℤ) : Update where
  guard o := o.state == .releasePending && o.heldBy claimID now
  change o := { o with
    state := .rejectedActiveErrands, nextAttemptAt := none, claimID := none,
    leaseExpiresAt := none, updatedAt := now }

def markCommitPending (supplierID : String) (claimID : ℕ) (now : ℤ) : Update where
  guard o := o.supplierID == supplierID && (o.state == .requested && o.heldBy claimID now)
  change o := { o with
    state := .commitPending, nextAttemptAt := some now, deletedAt := some now, updatedAt := now }

def completeDeletion (claimID : ℕ) (now : ℤ) : Update where
  guard o := o.state == .commitPending && o.heldBy claimID now
  change o := { o with
    state := .completed, nextAttemptAt := none, claimID := none, leaseExpiresAt := none,
    completedAt := some now, updatedAt := now }

def scheduleDeletionRetry (claimID : ℕ) (next : Option ℤ) (now : ℤ) : Update where
  guard o := o.state.pending && o.heldBy claimID now
  change o := { o with
    nextAttemptAt := next, claimID := none, leaseExpiresAt := none, updatedAt := now }

/-! ## The two services -/

/-- What a deletion reads and writes of a row of `suppliers`. -/
structure SupplierRow where
  id : String
  createdAt : ℤ
  deletedAt : Option ℤ

inductive FenceState where
  | open
  | committed
  | released
  deriving DecidableEq

/-- A row of `supplier_fences` in order-service. -/
structure FenceRow where
  supplierID : String
  state : FenceState

/-- `Acquire`, or `Commit` and `Release`. -/
inductive Order where
  | acquire (supplierID : String)
  | close (state : FenceState)

/-- What order-service does with the fence of an operation. -/
def Order.apply : Order → Option FenceRow → Option FenceRow
  | .acquire supplierID, none => some ⟨supplierID, .open⟩
  | .close state, some ⟨supplierID, .open⟩ => some ⟨supplierID, state⟩
  | _, fence => fence

/-- The databases, and which call each claim id was made for. -/
structure Site where
  suppliers : List SupplierRow
  operations : List Operation := []
  fences : String → Option FenceRow := fun _ => none
  claims : List ℕ := []

inductive Failure where
  | supplierNotFound
  | operationMismatch
  | other
  deriving DecidableEq

namespace Site

def setOperations (s : Site) (operations : List Operation) : Site :=
  { s with operations := operations }

/-- Run an update: the changed row, if there is one. -/
def update (id : String) (u : Update) (s : Site) : Option Operation × Site :=
  match (findRow Operation.id id s.operations).filter u.guard with
  | some o => (some (u.change o), s.setOperations (updateRow Operation.id id u.change s.operations))
  | none => (none, s)

/-- `CreateOrGetDeletionOperation`. -/
def createOrGet (operationID supplierID : String) (maxAttempts : ℕ) (now : ℤ) (s : Site) :
    Except Failure Operation × Site :=
  match castUUID operationID, castUUID supplierID with
  | some id, some supplier =>
    match findRow Operation.id id s.operations with
    | some row => (.ok row, s)
    | none =>
      if (findRow SupplierRow.id supplier s.suppliers).isSome then
        let row := Operation.new id supplier maxAttempts now
        (.ok row, s.setOperations (s.operations ++ [row]))
      else (.error .supplierNotFound, s)
  | _, _ => (.error .other, s)

/-- `DeleteCurrentAndMarkCommitPending`. -/
def deleteCurrent (supplierID operationID : String) (claimID : ℕ) (now : ℤ) (s : Site) :
    Except Failure Unit × Site :=
  match (findRow SupplierRow.id supplierID s.suppliers).filter (·.deletedAt.isNone) with
  | none => (.error .supplierNotFound, s)
  | some x =>
    if now < x.createdAt then (.error .other, s)
    else match s.update operationID (markCommitPending supplierID claimID now) with
      | (some _, s') =>
        let delete (x : SupplierRow) : SupplierRow := { x with deletedAt := some now }
        (.ok (), { s' with suppliers := updateRow SupplierRow.id supplierID delete s.suppliers })
      | (none, _) => (.error .other, s)

def order (operationID : String) (m : Order) (s : Site) : Site :=
  { s with fences := Function.update s.fences operationID (m.apply (s.fences operationID)) }

end Site

/-! ## Calls -/

/-- A call that fails has taken effect or not. -/
inductive Fate where
  | answered
  | lost
  | unanswered

/-- The decisions of the environment. -/
structure Choice where
  fate : Fate := .answered
  time : ℤ := 0
  active : Bool := false

/-- The answer of order-service. -/
structure Fence where
  supplierID : String
  state : FenceState
  hasActiveErrands : Bool

inductive Ask where
  | now
  | newClaimID
  | createOrGet (operationID supplierID : String) (maxAttempts : ℕ) (now : ℤ)
  | getDeletion (operationID : String)
  | listClaimable (now : ℤ) (limit : ℕ)
  | claim (operationID : String) (claimID : ℕ) (now lease : ℤ)
  | transition (operationID : String) (u : Update)
  | deleteCurrent (supplierID operationID : String) (claimID : ℕ) (now : ℤ)
  | acquire (operationID supplierID : String)
  | inspect (operationID : String)
  | close (operationID : String) (state : FenceState)
  | deliver (operationID : String) (m : Order)

abbrev Ask.Reply : Ask → Type
  | .now => ℤ
  | .newClaimID => ℕ
  | .createOrGet _ _ _ _ => Except Failure Operation
  | .getDeletion _ => Option Operation
  | .listClaimable _ _ => Option (List Operation)
  | .claim _ _ _ _ => Option (Option Operation)
  | .deleteCurrent _ _ _ _ => Except Failure Unit
  | .acquire _ _ | .inspect _ => Option Fence
  | .transition _ _ | .close _ _ => Bool
  | .deliver _ _ => Unit

/-- A call with its result, as its caller sees it, who is told `failed` if it fails. -/
def Fate.of {α : Type} (fate : Fate) (failed : α) (s : Site) (r : α × Site) : α × Site :=
  match fate with
  | .answered => r
  | .lost => (failed, s)
  | .unanswered => (failed, r.2)

def Site.view (s : Site) (operationID : String) (active : Bool) : Option Fence :=
  (s.fences operationID).map fun f => ⟨f.supplierID, f.state, active⟩

/-- A message that arrives late is one that was lost and is delivered by another call. -/
def exec (c : Choice) (t : ℕ) : (q : Ask) → Site → q.Reply × Site
  | .now, s => (c.time, s)
  | .newClaimID, s => (s.claims.length, { s with claims := s.claims ++ [t] })
  | .createOrGet operationID supplierID maxAttempts now, s =>
    c.fate.of (.error .other) s (s.createOrGet operationID supplierID maxAttempts now)
  | .getDeletion operationID, s =>
    c.fate.of none s (findRow Operation.id operationID s.operations, s)
  | .listClaimable now limit, s => c.fate.of none s
      (some (((s.operations.filter (·.claimable now)).mergeSort (·.id ≤ ·.id)).take limit), s)
  | .claim operationID claimID now lease, s =>
    match castUUID operationID with
    | some id =>
      let r := s.update id (claimDeletion claimID now lease)
      c.fate.of none s (some r.1, r.2)
    | none => (none, s)
  | .transition operationID u, s =>
    c.fate.of false s ((s.update operationID u).1.isSome, (s.update operationID u).2)
  | .deleteCurrent supplierID operationID claimID now, s =>
    c.fate.of (.error .other) s (s.deleteCurrent supplierID operationID claimID now)
  | .acquire operationID supplierID, s =>
    let s' := s.order operationID (.acquire supplierID)
    c.fate.of none s ((s'.view operationID c.active).filter (·.supplierID == supplierID), s')
  | .inspect operationID, s => c.fate.of none s (s.view operationID c.active, s)
  | .close operationID state, s =>
    let s' := s.order operationID (.close state)
    c.fate.of false s ((s'.view operationID c.active).any (·.state == state), s')
  | .deliver operationID m, s => ((), s.order operationID m)

def service : Service Ask Ask.Reply Site Choice where
  exec c t q s := some (exec c t q s)
  release _ s := s

/-! ## The workflow -/

abbrev Work (α : Type) := Program Ask Ask.Reply Empty α

def ask (q : Ask) : Work q.Reply := Program.call q

inductive Outcome where
  | completed
  | rejectedActiveErrands
  | commitPending
  | fenceUnavailable
  | releaseUnavailable
  | fenceReleased
  | supplierNotFound
  | internal

def defaultMaxAttempts : ℕ := 5
def defaultLeaseDuration : ℤ := 60000000
def defaultRetryBackoff : ℤ := 30000000
def reconcileBatchSize : ℕ := 100

def scheduleRetry (record : Operation) (claimID : ℕ) (now : ℤ) (outcome : Outcome) :
    Work Outcome := do
  let next := if record.attemptCount < record.maxAttempts then some (now + defaultRetryBackoff)
    else none
  let _ ← ask (.transition record.id (scheduleDeletionRetry claimID next now))
  return outcome

/-- A transition after which the workflow ends. -/
def finish (record : Operation) (u : Update) (outcome : Outcome) : Work Outcome := do
  if ← ask (.transition record.id u) then return outcome else return .internal

def release (record : Operation) (claimID : ℕ) (now : ℤ) : Work Outcome := do
  if ← ask (.close record.id .released) then
    finish record (markRejectedActiveErrands claimID now) .rejectedActiveErrands
  else scheduleRetry record claimID now .releaseUnavailable

def commit (record : Operation) (claimID : ℕ) (now : ℤ) : Work Outcome := do
  if ← ask (.close record.id .committed) then
    finish record (completeDeletion claimID now) .completed
  else if (← ask (.inspect record.id)).any (·.state == .committed) then
    finish record (completeDeletion claimID now) .completed
  else scheduleRetry record claimID now .commitPending

/-- The supplier is deleted, or the fence is lifted again if the claim still owns the operation. -/
def deleteFenced (record : Operation) (claimID : ℕ) (now : ℤ) : Work Outcome := do
  match ← ask (.deleteCurrent record.supplierID record.id claimID now) with
  | .ok _ => commit record claimID now
  | .error e =>
    let outcome := if e = .supplierNotFound then Outcome.supplierNotFound else .internal
    if (← ask (.getDeletion record.id)).any fun row =>
        row.state == .requested && row.claimID == some claimID then
      let _ ← ask (.close record.id .released)
      return outcome
    else return outcome

/-- `acquire`, from the fence on. -/
def acquired (record : Operation) (claimID : ℕ) (now : ℤ) (fence : Fence) : Work Outcome :=
  if fence.supplierID ≠ record.supplierID then scheduleRetry record claimID now .fenceUnavailable
  else match fence.state with
    | .open =>
      if fence.hasActiveErrands then do
        if ← ask (.transition record.id (markReleasePending claimID now)) then
          release record claimID now
        else return .internal
      else deleteFenced record claimID now
    | .committed => deleteFenced record claimID now
    | .released => do
      let _ ← ask (.transition record.id (scheduleDeletionRetry claimID none now))
      return .fenceReleased

def acquire (record : Operation) (claimID : ℕ) (now : ℤ) : Work Outcome := do
  match ← ask (.acquire record.id record.supplierID) with
  | some fence => acquired record claimID now fence
  | none =>
    match ← ask (.inspect record.id) with
    | some fence => acquired record claimID now fence
    | none => scheduleRetry record claimID now .fenceUnavailable

def advance (record : Operation) (claimID : ℕ) (now : ℤ) : Work Outcome :=
  match record.state with
  | .requested => acquire record claimID now
  | .releasePending => release record claimID now
  | .commitPending => commit record claimID now
  | .rejectedActiveErrands | .completed => return .internal

/-! ## The request and the reconciler -/

/-- `CreateOrGetDeletion`. The stored id is compared with the text of the request. -/
def createOrGetDeletion (operationID supplierID : String) (now : ℤ) :
    Work (Except Failure Operation) := do
  match ← ask (.createOrGet operationID supplierID defaultMaxAttempts now) with
  | .ok row => return if row.supplierID = supplierID then .ok row else .error .operationMismatch
  | .error e => return .error e

/-- `Handler.delete`, for an administrator's request with two UUIDs. The outcome decides the answer;
without one the key belongs to another supplier. -/
def delete (operationID supplierID : String) : Work (Option Outcome) := do
  let now ← ask .now
  match ← createOrGetDeletion operationID supplierID now with
  | .error .operationMismatch => return none
  | .error .supplierNotFound => return some .supplierNotFound
  | .error .other => return some .internal
  | .ok record =>
    if record.state = .completed then return some .completed
    else if record.state = .rejectedActiveErrands then return some .rejectedActiveErrands
    else
      let claimID ← ask .newClaimID
      match ← ask (.claim operationID claimID now (now + defaultLeaseDuration)) with
      | none => return some .internal
      | some none =>
        return some (if record.state = .commitPending then .commitPending else .fenceUnavailable)
      | some (some claimed) => return some (← advance claimed claimID now)

/-- The loop of `ReconcileOnce`: how many operations were claimed. -/
def reconcile : List Operation → Work ℕ
  | [] => return 0
  | record :: records => do
    let now ← ask .now
    let claimID ← ask .newClaimID
    match ← ask (.claim record.id claimID now (now + defaultLeaseDuration)) with
    | some (some current) =>
      let _ ← advance current claimID now
      return (← reconcile records) + 1
    | _ => reconcile records

def reconcileOnce : Work ℕ := do
  let now ← ask .now
  reconcile ((← ask (.listClaimable now reconcileBatchSize)).getD [])

/-- Requests, passes of the reconciler, and messages that reach order-service late. -/
inductive Job where
  | delete (operationID supplierID : String)
  | reconcile
  | deliver (operationID : String) (m : Order)

def body : Job → Work (Option Outcome)
  | .delete operationID supplierID => delete operationID supplierID
  | .reconcile => do
    let _ ← reconcileOnce
    return none
  | .deliver operationID m => do
    ask (.deliver operationID m)
    return none

end FocServices.Suppliers
