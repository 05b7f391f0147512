import FocServices.Txn.Program
import FocServices.Txn.Rows
import Mathlib.Data.List.Sort
import Mathlib.Data.List.Dedup

/-!
# The credit tables and their statements

The tables of the credit-service migrations, one statement for each function of
`walletrepo` and for `outboxrepo.Enqueue`, and the constraints a statement can
fail on. Amounts are integers; the `bigint` columns are bounded where a statement
computes a new balance. Generated row identifiers are the serial numbers of the
inserting statements. The timestamp columns that no modelled statement reads are
left out.
-/

namespace FocServices.Credit

open Txn

/-- `reservations.status`. -/
inductive ReservationStatus where
  | active
  | released
  | transferred
  deriving DecidableEq, Repr

/-- `ledger_entries.entry_type`. -/
inductive EntryType where
  | allocate
  | reserve
  | reservationAdjust
  | release
  | transferOut
  | transferIn
  deriving DecidableEq, Repr

/-- The type of a command's result, which is also the routing key it is sent with. -/
inductive ResultType where
  | reserved
  | reservationRefused
  | adjusted
  | adjustRefused
  | released
  | transferred
  | operationFailed
  deriving DecidableEq, Repr

/-- The routing key of a result. -/
def ResultType.key : ResultType → String
  | .reserved => "credit.reserved"
  | .reservationRefused => "credit.reservation_refused"
  | .adjusted => "credit.adjusted"
  | .adjustRefused => "credit.adjust_refused"
  | .released => "credit.released"
  | .transferred => "credit.transferred"
  | .operationFailed => "credit.operation_failed"

/-- The code of a refusal or a failure. -/
inductive Code where
  | insufficientCredits
  | accountNotFound
  | reservationReleased
  | reservationNotActive
  | reservationAlreadyTransferred
  | reservationAlreadyReleased
  | reservationNotFound
  deriving DecidableEq, Repr

def Code.text : Code → String
  | .insufficientCredits => "INSUFFICIENT_CREDITS"
  | .accountNotFound => "ACCOUNT_NOT_FOUND"
  | .reservationReleased => "RESERVATION_RELEASED"
  | .reservationNotActive => "RESERVATION_NOT_ACTIVE"
  | .reservationAlreadyTransferred => "RESERVATION_ALREADY_TRANSFERRED"
  | .reservationAlreadyReleased => "RESERVATION_ALREADY_RELEASED"
  | .reservationNotFound => "RESERVATION_NOT_FOUND"

/-- The outcome of a command. A field a result does not use has its zero value. -/
structure Result where
  type : ResultType
  amount : ℤ := 0
  seq : ℤ := 0
  code : Option Code := none
  deriving DecidableEq, Repr

/-- A row of `wallets`. -/
structure Wallet where
  id : ℕ := 0
  ownerID : String := ""
  auth0Subject : String := ""
  available : ℤ := 0
  reserved : ℤ := 0
  version : ℕ := 1
  deriving DecidableEq, Repr, Inhabited

/-- A row of `reservations`. -/
structure Reservation where
  id : ℕ
  walletID : ℕ
  orderID : String
  amount : ℤ
  status : ReservationStatus
  lastAdjustSeq : ℤ
  deriving DecidableEq, Repr

/-- A row of `ledger_entries`; the list order of the table is its identity column. -/
structure LedgerEntry where
  walletID : ℕ
  type : EntryType
  availableDelta : ℤ
  reservedDelta : ℤ := 0
  orderID : Option String := none
  counterpartyWalletID : Option ℕ := none
  idempotencyKey : String
  deriving DecidableEq, Repr

/-- The envelope of a result message, with the data of the result. -/
structure Envelope where
  messageID : String
  correlationID : String
  type : ResultType
  occurredAt : ℤ
  errandID : String
  errandVersion : ℤ
  amount : ℤ
  seq : ℤ
  code : Option Code
  deriving DecidableEq, Repr

inductive OutboxStatus where
  | pending
  | sent
  | failed
  deriving DecidableEq, Repr

/-- A row of the result outbox. -/
structure OutboxRow where
  idempotencyKey : String
  routingKey : ResultType
  payload : Envelope
  status : OutboxStatus := .pending
  attempts : ℕ := 0
  nextAttemptAt : ℤ
  leaseOwner : Option String := none
  leaseExpiresAt : Option ℤ := none
  lastFailureCode : Option String := none
  deriving DecidableEq, Repr

/-- The database of the credit service. -/
structure Tables where
  wallets : List Wallet := []
  reservations : List Reservation := []
  ledger : List LedgerEntry := []
  processed : List (String × Result) := []
  releasedOrders : List String := []
  outbox : List OutboxRow := []
  deriving DecidableEq, Repr

/-- The errors of `walletrepo`, after `mapError`. Everything from `alreadyExists` to
`check` is the failure of a `UNIQUE` or `CHECK` constraint; `check` names one
that `mapError` passes on unchanged. -/
inductive RepoError where
  | notFound
  | alreadyExists
  | subjectTaken
  | duplicateOperation
  | negativeBalance
  | check (constraint : String)
  | foreignKey (constraint : String)
  | numericOutOfRange
  deriving DecidableEq, Repr

/-- Whether an error is the failure of a `UNIQUE` or `CHECK` constraint. -/
def RepoError.isConstraint : RepoError → Bool
  | .alreadyExists | .subjectTaken | .duplicateOperation | .negativeBalance | .check _ => true
  | .notFound | .foreignKey _ | .numericOutOfRange => false

/-- The statements of `walletrepo`, and `outboxrepo.Enqueue`. -/
inductive Stmt where
  | lockCommand (messageID : String)
  | getProcessedCommand (messageID : String)
  | insertProcessedCommand (messageID : String) (result : Result)
  | insertReleasedOrder (orderID : String)
  | isOrderReleased (orderID : String)
  | insertWalletIfAbsent (ownerID auth0Subject : String)
  | getWalletByOwner (ownerID : String)
  | lockWalletsByAuth0Subject (subjects : List String)
  | applyDeltas (walletID : ℕ) (availableDelta reservedDelta : ℤ)
  | createReservation (walletID : ℕ) (orderID : String) (amount : ℤ)
  | getReservationByOrder (orderID : String) (forUpdate : Bool)
  | updateReservation (reservationID : ℕ) (amount : ℤ) (status : ReservationStatus)
  | adjustReservation (reservationID : ℕ) (amount seq : ℤ)
  | insertLedgerEntry (e : LedgerEntry)
  | enqueue (key : String) (routingKey : ResultType) (payload : Envelope) (now : ℤ)
  deriving DecidableEq

/-- What each statement returns. `insertWalletIfAbsent` returns no wallet when the
owner already has one. -/
@[reducible] def Stmt.Reply : Stmt → Type
  | .lockCommand _ => Except RepoError Unit
  | .getProcessedCommand _ => Except RepoError Result
  | .insertProcessedCommand _ _ => Except RepoError Unit
  | .insertReleasedOrder _ => Except RepoError Unit
  | .isOrderReleased _ => Except RepoError Bool
  | .insertWalletIfAbsent _ _ => Except RepoError (Option Wallet)
  | .getWalletByOwner _ => Except RepoError Wallet
  | .lockWalletsByAuth0Subject _ => Except RepoError (List Wallet)
  | .applyDeltas _ _ _ => Except RepoError Wallet
  | .createReservation _ _ _ => Except RepoError Reservation
  | .getReservationByOrder _ _ => Except RepoError Reservation
  | .updateReservation _ _ _ => Except RepoError Reservation
  | .adjustReservation _ _ _ => Except RepoError Reservation
  | .insertLedgerEntry _ => Except RepoError LedgerEntry
  | .enqueue _ _ _ _ => Except RepoError Unit

/-- The row changes statements make. -/
inductive Write where
  | insertProcessed (messageID : String) (result : Result)
  | insertReleasedOrder (orderID : String)
  | insertWallet (w : Wallet)
  | addDeltas (walletID : ℕ) (availableDelta reservedDelta : ℤ)
  | insertReservation (r : Reservation)
  | setReservation (reservationID : ℕ) (amount : ℤ) (status : ReservationStatus)
  | adjustReservation (reservationID : ℕ) (amount seq : ℤ)
  | insertEntry (e : LedgerEntry)
  | insertOutbox (row : OutboxRow)
  | resetOutbox (key : String) (now : ℤ)
  deriving DecidableEq

/-- What transactions wait for: advisory locks, row locks, and the unique keys of
rows inserted by a transaction that has not ended. -/
inductive Lock where
  | command (hash : ℤ)
  | wallet (id : ℕ)
  | reservation (id : ℕ)
  | processedKey (messageID : String)
  | releasedKey (orderID : String)
  | ownerKey (ownerID : String)
  | subjectKey (auth0Subject : String)
  | orderKey (orderID : String)
  | entryKey (walletID : ℕ) (idempotencyKey : String)
  | outboxKey (key : String)
  deriving DecidableEq

def Wallet.addDeltas (w : Wallet) (availableDelta reservedDelta : ℤ) : Wallet :=
  { w with
    available := w.available + availableDelta
    reserved := w.reserved + reservedDelta
    version := w.version + 1 }

/-- A row set back to be published again; its payload stays as it is. -/
def OutboxRow.reset (row : OutboxRow) (now : ℤ) : OutboxRow :=
  { row with
    status := .pending
    attempts := 0
    nextAttemptAt := now
    leaseOwner := none
    leaseExpiresAt := none
    lastFailureCode := none }

def Write.apply : Write → Tables → Tables
  | .insertProcessed messageID result, s =>
    { s with processed := s.processed ++ [(messageID, result)] }
  | .insertReleasedOrder orderID, s => { s with releasedOrders := s.releasedOrders ++ [orderID] }
  | .insertWallet w, s => { s with wallets := s.wallets ++ [w] }
  | .addDeltas walletID availableDelta reservedDelta, s =>
    { s with
      wallets := updateRow Wallet.id walletID (fun w => w.addDeltas availableDelta reservedDelta)
        s.wallets }
  | .insertReservation r, s => { s with reservations := s.reservations ++ [r] }
  | .setReservation reservationID amount status, s =>
    { s with
      reservations := updateRow Reservation.id reservationID
        (fun r => { r with amount := amount, status := status }) s.reservations }
  | .adjustReservation reservationID amount seq, s =>
    { s with
      reservations := updateRow Reservation.id reservationID
        (fun r => { r with amount := amount, lastAdjustSeq := seq }) s.reservations }
  | .insertEntry e, s => { s with ledger := s.ledger ++ [e] }
  | .insertOutbox row, s => { s with outbox := s.outbox ++ [row] }
  | .resetOutbox key now, s =>
    { s with
      outbox := updateRow OutboxRow.idempotencyKey key (fun row => row.reset now) s.outbox }

/-- The range of a `bigint` column. -/
def fitsBigint (x : ℤ) : Bool := -2 ^ 63 ≤ x && x < 2 ^ 63

/-- `btrim(s) = s AND s <> ''`: the stored subject has no space at either end. -/
def subjectStorable (s : String) : Bool :=
  s ≠ "" && s.toList.head? ≠ some ' ' && s.toList.getLast? ≠ some ' '

/-- The rows `LockWalletsByAuth0Subject` selects, in wallet order. -/
def Tables.walletsOf (s : Tables) (subjects : List String) : List Wallet :=
  (s.wallets.filter fun w => w.auth0Subject ∈ subjects).insertionSort fun a b => a.id ≤ b.id

def Tables.reservationOf (s : Tables) (orderID : String) : Option Reservation :=
  findRow Reservation.orderID orderID s.reservations

def Tables.resultOf (s : Tables) (messageID : String) : Option Result :=
  (findRow Prod.fst messageID s.processed).map Prod.snd

/-- The first constraint the new ledger entry violates, in the order PostgreSQL
checks them: `CHECK`, then the unique index, then the foreign keys. -/
def Tables.entryProblem (s : Tables) (e : LedgerEntry) : Option RepoError :=
  if e.idempotencyKey = "" then some (.check "ledger_entries_key_nonempty")
  else if e.availableDelta = 0 ∧ e.reservedDelta = 0 then
    some (.check "ledger_entries_delta_nonzero")
  else if s.ledger.any (fun f =>
      f.walletID = e.walletID ∧ f.idempotencyKey = e.idempotencyKey) then
    some .duplicateOperation
  else if ¬ s.wallets.any (fun w => w.id = e.walletID) then
    some (.foreignKey "ledger_entries_wallet_id_fkey")
  else match e.counterpartyWalletID with
    | some c =>
      if s.wallets.any (fun w => w.id = c) then none
      else some (.foreignKey "ledger_entries_counterparty_wallet_id_fkey")
    | none => none

/-- The problem with a wallet's balances after an update. A sum outside `bigint`
fails before the `CHECK` constraints are tested. -/
def Wallet.problem (w : Wallet) : Option RepoError :=
  if ¬ fitsBigint w.available ∨ ¬ fitsBigint w.reserved then some .numericOutOfRange
  else if w.available < 0 ∨ w.reserved < 0 then some .negativeBalance
  else none

/-- The new row of an update of one reservation, unless it fails the amount check. -/
def Tables.updateReservation (s : Tables) (reservationID : ℕ) (amount : ℤ)
    (f : Reservation → Reservation) : Except RepoError Reservation :=
  match findRow Reservation.id reservationID s.reservations with
  | none => .error .notFound
  | some r =>
    if 0 < amount then .ok (f r) else .error (.check "reservations_amount_positive")

/-- The answer of the database to each statement. `hash` is PostgreSQL's
`hashtextextended`, of which nothing is assumed. -/
def exec (hash : String → ℤ) (serial : ℕ) :
    (q : Stmt) → Tables → Answer Stmt.Reply Write Lock q
  | .lockCommand messageID, _ => ⟨.ok (), [], [(.command (hash messageID), .exclusive)]⟩
  | .getProcessedCommand messageID, s =>
    match s.resultOf messageID with
    | some result => ⟨.ok result, [], []⟩
    | none => ⟨.error .notFound, [], []⟩
  | .insertProcessedCommand messageID result, s =>
    let locks := [(Lock.processedKey messageID, Mode.exclusive)]
    if messageID = "" then ⟨.error (.check "processed_commands_message_id_nonempty"), [], []⟩
    else if (s.resultOf messageID).isSome then ⟨.error .alreadyExists, [], []⟩
    else ⟨.ok (), [.insertProcessed messageID result], locks⟩
  | .insertReleasedOrder orderID, s =>
    if orderID ∈ s.releasedOrders then ⟨.ok (), [], []⟩
    else ⟨.ok (), [.insertReleasedOrder orderID], [(.releasedKey orderID, .exclusive)]⟩
  | .isOrderReleased orderID, s => ⟨.ok (orderID ∈ s.releasedOrders), [], []⟩
  | .insertWalletIfAbsent ownerID auth0Subject, s =>
    let locks := [(Lock.ownerKey ownerID, Mode.exclusive),
      (Lock.subjectKey auth0Subject, Mode.exclusive)]
    if ¬ subjectStorable auth0Subject then
      ⟨.error (.check "wallets_auth0_subject_valid"), [], []⟩
    else if s.wallets.any (fun w => w.ownerID = ownerID) then ⟨.ok none, [], []⟩
    else if s.wallets.any (fun w => w.auth0Subject = auth0Subject) then
      ⟨.error .subjectTaken, [], []⟩
    else
      let w : Wallet := { id := serial, ownerID := ownerID, auth0Subject := auth0Subject }
      ⟨.ok (some w), [.insertWallet w], locks⟩
  | .getWalletByOwner ownerID, s =>
    match findRow Wallet.ownerID ownerID s.wallets with
    | some w => ⟨.ok w, [], []⟩
    | none => ⟨.error .notFound, [], []⟩
  | .lockWalletsByAuth0Subject subjects, s =>
    let rows := s.walletsOf subjects
    let locks := rows.map fun w => (Lock.wallet w.id, Mode.exclusive)
    if rows.length = subjects.dedup.length then ⟨.ok rows, [], locks⟩
    else ⟨.error .notFound, [], locks⟩
  | .applyDeltas walletID availableDelta reservedDelta, s =>
    match findRow Wallet.id walletID s.wallets with
    | none => ⟨.error .notFound, [], []⟩
    | some w =>
      let locks := [(Lock.wallet walletID, Mode.exclusive)]
      match (w.addDeltas availableDelta reservedDelta).problem with
      | some e => ⟨.error e, [], locks⟩
      | none =>
        ⟨.ok (w.addDeltas availableDelta reservedDelta),
          [.addDeltas walletID availableDelta reservedDelta], locks⟩
  | .createReservation walletID orderID amount, s =>
    let locks := [(Lock.orderKey orderID, Mode.exclusive)]
    if ¬ 0 < amount then ⟨.error (.check "reservations_amount_positive"), [], []⟩
    else if (s.reservationOf orderID).isSome then ⟨.error .alreadyExists, [], []⟩
    else if ¬ s.wallets.any (fun w => w.id = walletID) then
      ⟨.error (.foreignKey "reservations_wallet_id_fkey"), [], locks⟩
    else
      let r : Reservation := ⟨serial, walletID, orderID, amount, .active, 0⟩
      ⟨.ok r, [.insertReservation r], locks⟩
  | .getReservationByOrder orderID forUpdate, s =>
    match s.reservationOf orderID with
    | some r =>
      ⟨.ok r, [], if forUpdate then [(Lock.reservation r.id, Mode.exclusive)] else []⟩
    | none => ⟨.error .notFound, [], []⟩
  | .updateReservation reservationID amount status, s =>
    let locks := [(Lock.reservation reservationID, Mode.exclusive)]
    match s.updateReservation reservationID amount
        (fun r => { r with amount := amount, status := status }) with
    | .ok r => ⟨.ok r, [.setReservation reservationID amount status], locks⟩
    | .error e => ⟨.error e, [], locks⟩
  | .adjustReservation reservationID amount seq, s =>
    let locks := [(Lock.reservation reservationID, Mode.exclusive)]
    match s.updateReservation reservationID amount
        (fun r => { r with amount := amount, lastAdjustSeq := seq }) with
    | .ok r => ⟨.ok r, [.adjustReservation reservationID amount seq], locks⟩
    | .error e => ⟨.error e, [], locks⟩
  | .insertLedgerEntry e, s =>
    let locks := [(Lock.entryKey e.walletID e.idempotencyKey, Mode.exclusive)]
    match s.entryProblem e with
    | some err => ⟨.error err, [], locks⟩
    | none => ⟨.ok e, [.insertEntry e], locks⟩
  | .enqueue key routingKey payload now, s =>
    let locks := [(Lock.outboxKey key, Mode.exclusive)]
    match findRow OutboxRow.idempotencyKey key s.outbox with
    | none =>
      ⟨.ok (), [.insertOutbox
        { idempotencyKey := key, routingKey := routingKey, payload := payload,
          nextAttemptAt := now }], locks⟩
    | some row =>
      if row.status = .pending then ⟨.ok (), [], locks⟩
      else ⟨.ok (), [.resetOutbox key now], locks⟩

theorem exec_getReservation (hash : String → ℤ) (n : ℕ) (o : String) (forUpdate : Bool)
    (s : Tables) : exec hash n (.getReservationByOrder o forUpdate) s =
      (s.reservationOf o).elim ⟨.error .notFound, [], []⟩ fun r =>
        ⟨.ok r, [], if forUpdate then [(.reservation r.id, .exclusive)] else []⟩ := by
  simp only [exec]
  cases s.reservationOf o <;> rfl

/-- The credit database as a transaction engine. -/
def engine (hash : String → ℤ) : Engine Stmt Stmt.Reply Tables Write Lock where
  apply := Write.apply
  exec serial _ q s := exec hash serial q s

end FocServices.Credit
