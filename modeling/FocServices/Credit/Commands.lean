import FocServices.Credit.Tables
import FocServices.Text

/-!
# The credit commands

`CreateWallet` and the four order commands of the wallet service, as transaction
bodies over the statements of the credit tables, with the argument checks that run
before a transaction is opened.
-/

namespace FocServices.Credit

open Txn

/-- The errors of the wallet service. `invalid` and `conflict` carry the error text. -/
inductive ServiceError where
  | invalid (message : String)
  | conflict (message : String)
  | repo (e : RepoError)
  | recorder (message : String)
  deriving DecidableEq, Repr

/-- `fmt.Errorf("%w: %s", ErrInvalid, message)`. -/
def invalid (message : String) : ServiceError := .invalid ("invalid argument: " ++ message)

/-- `ErrConflict`, with an optional explanation. -/
def errConflict : ServiceError := .conflict "wallet conflicts with an existing wallet"

def conflict (message : String) : ServiceError :=
  .conflict ("wallet conflicts with an existing wallet: " ++ message)

/-- A transaction body of the credit service. -/
abbrev Tx := Program Stmt Stmt.Reply ServiceError

/-- Issue a statement of `walletrepo`. -/
def query (q : Stmt) : Tx q.Reply := Program.call q

/-- `if err != nil { return err }`. -/
def orFail {α : Type} : Except RepoError α → Tx α
  | .ok a => .pure a
  | .error e => .fail (.repo e)

structure ReserveCommand where
  orderID : String
  errandVersion : ℤ
  requesterSubject : String
  amount : ℤ
  deriving DecidableEq, Repr

structure AdjustCommand where
  orderID : String
  errandVersion : ℤ
  requesterSubject : String
  newAmount : ℤ
  seq : ℤ
  deriving DecidableEq, Repr

structure ReleaseCommand where
  orderID : String
  errandVersion : ℤ
  requesterSubject : String
  deriving DecidableEq, Repr

structure TransferCommand where
  orderID : String
  errandVersion : ℤ
  requesterSubject : String
  courierSubject : String
  amount : ℤ
  deriving DecidableEq, Repr

/-- Which command a result answers. -/
structure Reply where
  commandMessageID : String := ""
  orderID : String
  errandVersion : ℤ
  deriving DecidableEq, Repr

/-! ## Argument checks -/

def maxMessageIDLength : ℕ := 512

def maxSubjectLength : ℕ := 255

def validateOrderID (orderID : String) : Except ServiceError String :=
  if uuidPattern orderID then .ok (toLower orderID) else .error (invalid "order id must be a UUID")

def validateOwnerID (ownerID : String) : Except ServiceError String :=
  if uuidPattern ownerID then .ok (toLower ownerID) else .error (invalid "owner id must be a UUID")

def validateSubject (subject : String) : Except ServiceError Unit :=
  if subject = "" ∨ trimSpace subject ≠ subject then
    .error (invalid "auth0 subject must be non-empty without surrounding whitespace")
  else if maxSubjectLength < subject.utf8ByteSize then
    .error (invalid "auth0 subject is too long")
  else if subject.toList.any isControl then
    .error (invalid "auth0 subject contains control characters")
  else .ok ()

/-! ## Recording results -/

/-- `BuildResult`. -/
def buildResult (reply : Reply) (result : Result) (occurredAt : ℤ) : Envelope where
  messageID := reply.commandMessageID ++ ":" ++ result.type.key
  correlationID := reply.commandMessageID
  type := result.type
  occurredAt := occurredAt
  errandID := reply.orderID
  errandVersion := reply.errandVersion
  amount := result.amount
  seq := result.seq
  code := result.code

/-- `OutboxRecorder.RecordResult`, at a clock time in seconds. -/
def recordResult (now : ℤ) (reply : Reply) (result : Result) : Tx Unit := do
  if reply.errandVersion < 1 then
    .fail (.recorder "creditmsg: a result message needs the errand version of the command")
  else
    let env := buildResult reply result now
    orFail (← query (.enqueue env.messageID env.type env now))

/-- Record a result, for a service with a result recorder; `recorder` is its clock. -/
def record (recorder : Option ℤ) (reply : Reply) (result : Result) : Tx Unit :=
  match recorder with
  | none => pure ()
  | some now => recordResult now reply result

/-! ## The commands -/

/-- `execute`, from the opening of the transaction on: a message applied before
answers its stored result, another one runs `op` and stores the result unless it is
a failure. -/
def execute (recorder : Option ℤ) (messageID : String) (reply : Reply) (op : Tx Result) :
    Tx Result := do
  let _ ← orFail (← query (.lockCommand messageID))
  let result ← match ← query (.getProcessedCommand messageID) with
    | .ok stored => pure stored
    | .error .notFound => do
      let result ← op
      if result.type = .operationFailed then pure result
      else
        let _ ← orFail (← query (.insertProcessedCommand messageID result))
        pure result
    | .error e => .fail (.repo e)
  let _ ← record recorder { reply with commandMessageID := messageID } result
  return result

/-- The requester's wallet and the order's reservation, both locked. -/
def lockReservation (orderID requesterSubject : String) :
    Tx (Except RepoError (Reservation × Wallet)) := do
  match ← query (.getReservationByOrder orderID false) with
  | .error e => return .error e
  | .ok _ =>
    match ← query (.lockWalletsByAuth0Subject [requesterSubject]) with
    | .error .notFound => .fail (conflict "requester has no wallet")
    | .error e => return .error e
    | .ok wallets =>
      match ← query (.getReservationByOrder orderID true) with
      | .error e => return .error e
      | .ok res =>
        let w := wallets.headD default
        if res.walletID ≠ w.id then .fail (conflict "reservation belongs to another wallet")
        else return .ok (res, w)

def reserveOp (orderID : String) (c : ReserveCommand) : Tx Result := do
  let released ← orFail (← query (.isOrderReleased orderID))
  if released then
    return { type := .reservationRefused, code := some .reservationReleased }
  else
    match ← query (.getReservationByOrder orderID false) with
    | .ok existing => return { type := .reserved, amount := existing.amount }
    | .error .notFound =>
      match ← query (.lockWalletsByAuth0Subject [c.requesterSubject]) with
      | .error .notFound => return { type := .reservationRefused, code := some .accountNotFound }
      | .error e => .fail (.repo e)
      | .ok wallets =>
        let w := wallets.headD default
        if w.available < c.amount then
          return { type := .reservationRefused, code := some .insufficientCredits }
        else
          let _ ← orFail (← query (.insertLedgerEntry
            { walletID := w.id, type := .reserve, availableDelta := -c.amount,
              reservedDelta := c.amount, orderID := some orderID,
              idempotencyKey := "reserve:" ++ orderID }))
          let _ ← orFail (← query (.applyDeltas w.id (-c.amount) c.amount))
          let _ ← orFail (← query (.createReservation w.id orderID c.amount))
          return { type := .reserved, amount := c.amount }
    | .error e => .fail (.repo e)

def adjustOp (orderID : String) (c : AdjustCommand) : Tx Result := do
  let refused := fun code => ({ type := .adjustRefused, code := some code, seq := c.seq } : Result)
  match ← lockReservation orderID c.requesterSubject with
  | .error .notFound => return refused .reservationNotActive
  | .error e => .fail (.repo e)
  | .ok (res, w) =>
    if res.status ≠ .active then return refused .reservationNotActive
    else if c.seq ≤ res.lastAdjustSeq then
      return { type := .adjusted, amount := res.amount, seq := c.seq }
    else
      let delta := c.newAmount - res.amount
      if w.available < delta then return refused .insufficientCredits
      else
        if delta ≠ 0 then
          let _ ← orFail (← query (.insertLedgerEntry
            { walletID := w.id, type := .reservationAdjust, availableDelta := -delta,
              reservedDelta := delta, orderID := some orderID,
              idempotencyKey := "adjust:" ++ orderID ++ ":" ++ toString c.seq }))
          let _ ← orFail (← query (.applyDeltas w.id (-delta) delta))
        let _ ← orFail (← query (.adjustReservation res.id c.newAmount c.seq))
        return { type := .adjusted, amount := c.newAmount, seq := c.seq }

def releaseOp (orderID : String) (c : ReleaseCommand) : Tx Result := do
  match ← lockReservation orderID c.requesterSubject with
  | .error .notFound =>
    let _ ← orFail (← query (.insertReleasedOrder orderID))
    return { type := .released }
  | .error e => .fail (.repo e)
  | .ok (res, w) =>
    match res.status with
    | .released => return { type := .released }
    | .transferred =>
      return { type := .operationFailed, code := some .reservationAlreadyTransferred }
    | .active =>
      let _ ← orFail (← query (.insertLedgerEntry
        { walletID := w.id, type := .release, availableDelta := res.amount,
          reservedDelta := -res.amount, orderID := some orderID,
          idempotencyKey := "release:" ++ orderID }))
      let _ ← orFail (← query (.applyDeltas w.id res.amount (-res.amount)))
      let _ ← orFail (← query (.updateReservation res.id res.amount .released))
      return { type := .released }

/-- The wallets of the requester and of the other party, found by subject in the
rows the lock returned. -/
def pickWallets (requesterSubject : String) (wallets : List Wallet) : Wallet × Wallet :=
  wallets.foldl (fun (requester, courier) w =>
    if w.auth0Subject = requesterSubject then (w, courier) else (requester, w)) (default, default)

def transferOp (orderID : String) (c : TransferCommand) : Tx Result := do
  let failed := fun code => ({ type := .operationFailed, code := some code } : Result)
  match ← query (.getReservationByOrder orderID false) with
  | .error .notFound =>
    let released ← orFail (← query (.isOrderReleased orderID))
    if released then return failed .reservationAlreadyReleased
    else return failed .reservationNotFound
  | .error e => .fail (.repo e)
  | .ok found =>
    match ← query (.lockWalletsByAuth0Subject [c.requesterSubject, c.courierSubject]) with
    | .error .notFound => return failed .accountNotFound
    | .error e => .fail (.repo e)
    | .ok wallets =>
      let (requester, courier) := pickWallets c.requesterSubject wallets
      if requester.id ≠ found.walletID then
        .fail (conflict "reservation belongs to another wallet")
      else
        let res ← orFail (← query (.getReservationByOrder orderID true))
        match res.status with
        | .transferred => return { type := .transferred }
        | .released => return failed .reservationAlreadyReleased
        | .active =>
          let fromReservation := min res.amount c.amount
          let shortfall := c.amount - fromReservation
          let surplus := res.amount - fromReservation
          if requester.available < shortfall then return failed .insufficientCredits
          else
            let _ ← orFail (← query (.insertLedgerEntry
              { walletID := requester.id, type := .transferOut, availableDelta := -shortfall,
                reservedDelta := -fromReservation, orderID := some orderID,
                counterpartyWalletID := some courier.id,
                idempotencyKey := "transfer:" ++ orderID }))
            let _ ← orFail (← query (.insertLedgerEntry
              { walletID := courier.id, type := .transferIn, availableDelta := c.amount,
                orderID := some orderID, counterpartyWalletID := some requester.id,
                idempotencyKey := "transfer:" ++ orderID }))
            if 0 < surplus then
              let _ ← orFail (← query (.insertLedgerEntry
                { walletID := requester.id, type := .release, availableDelta := surplus,
                  reservedDelta := -surplus, orderID := some orderID,
                  idempotencyKey := "transfer-surplus:" ++ orderID }))
            let _ ← orFail (← query (.applyDeltas requester.id (surplus - shortfall) (-res.amount)))
            let _ ← orFail (← query (.applyDeltas courier.id c.amount 0))
            let _ ← orFail (← query (.updateReservation res.id res.amount .transferred))
            return { type := .transferred }

/-- An order command together with the message that carried it. -/
inductive Command where
  | reserve (messageID : String) (c : ReserveCommand)
  | adjust (messageID : String) (c : AdjustCommand)
  | release (messageID : String) (c : ReleaseCommand)
  | transfer (messageID : String) (c : TransferCommand)
  deriving DecidableEq, Repr

def Command.messageID : Command → String
  | .reserve m _ | .adjust m _ | .release m _ | .transfer m _ => m

/-- The order a command is about, as the caller wrote it. -/
def Command.rawOrderID : Command → String
  | .reserve _ c => c.orderID
  | .adjust _ c => c.orderID
  | .release _ c => c.orderID
  | .transfer _ c => c.orderID

def Command.errandVersion : Command → ℤ
  | .reserve _ c => c.errandVersion
  | .adjust _ c => c.errandVersion
  | .release _ c => c.errandVersion
  | .transfer _ c => c.errandVersion

/-- The checks of each command before its transaction, in the order of the source.
The message id is checked last, by `execute`. The result is the order id in the
form the database stores. -/
def Command.validate (cmd : Command) : Except ServiceError String := do
  let orderID ← validateOrderID cmd.rawOrderID
  match cmd with
  | .reserve _ c =>
    validateSubject c.requesterSubject
    if c.amount ≤ 0 then throw (invalid "amount must be positive")
  | .adjust _ c =>
    validateSubject c.requesterSubject
    if c.newAmount ≤ 0 then throw (invalid "new amount must be positive")
    if c.seq ≤ 0 then throw (invalid "seq must be positive")
  | .release _ c => validateSubject c.requesterSubject
  | .transfer _ c =>
    validateSubject c.requesterSubject
    validateSubject c.courierSubject
    if c.courierSubject = c.requesterSubject then
      throw (invalid "courier and requester must differ")
    if c.amount ≤ 0 then throw (invalid "amount must be positive")
  if cmd.messageID = "" ∨ maxMessageIDLength < cmd.messageID.utf8ByteSize then
    throw (invalid "message id must be 1 to 512 characters")
  return orderID

/-- What a command does when its message was not applied before. -/
def Command.op (orderID : String) : Command → Tx Result
  | .reserve _ c => reserveOp orderID c
  | .adjust _ c => adjustOp orderID c
  | .release _ c => releaseOp orderID c
  | .transfer _ c => transferOp orderID c

/-- `Reserve`, `Adjust`, `Release` and `Transfer`: the checks, then the transaction. -/
def Command.body (recorder : Option ℤ) (cmd : Command) : Tx Result :=
  match cmd.validate with
  | .error e => .fail e
  | .ok orderID =>
    execute recorder cmd.messageID { orderID := orderID, errandVersion := cmd.errandVersion }
      (cmd.op orderID)

/-- `CreateWallet` for a service configured with an initial allocation. It returns
the owner's wallet and whether it was created. -/
def createWallet (initialCredit : ℤ) (ownerID auth0Subject : String) : Tx (Wallet × Bool) :=
  match validateOwnerID ownerID with
  | .error e => .fail e
  | .ok owner =>
    match validateSubject auth0Subject with
    | .error e => .fail e
    | .ok () => do
      match ← query (.insertWalletIfAbsent owner auth0Subject) with
      | .error .subjectTaken => .fail errConflict
      | .error e => .fail (.repo e)
      | .ok inserted =>
        let row ← orFail (← query (.getWalletByOwner owner))
        if inserted.isNone then
          if row.auth0Subject ≠ auth0Subject then .fail errConflict else return (row, false)
        else if 0 < initialCredit then
          let _ ← orFail (← query (.insertLedgerEntry
            { walletID := row.id, type := .allocate, availableDelta := initialCredit,
              idempotencyKey := "initial-allocation" }))
          let row ← orFail (← query (.applyDeltas row.id initialCredit 0))
          return (row, true)
        else return (row, true)

end FocServices.Credit
