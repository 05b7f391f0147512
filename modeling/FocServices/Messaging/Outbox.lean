import FocServices.Orders.Types
import FocServices.Txn.Rows

/-!
# The outbox of the order service

The rows of the `outbox` table with every statement that changes their delivery state, and
the message a claimed row is turned into. Statements commit by themselves. Times are
microseconds since the zero time of the language. What depends on the encoding of payloads
is an argument.
-/

namespace FocServices.Messaging

open Txn

/-- `LIKE` with a pattern that is a text followed by `%`. -/
def startsWith (text s : String) : Bool := text.toList.isPrefixOf s.toList

def isCredit (kind : String) : Bool := startsWith "credit." kind

def isEvent (kind : String) : Bool := startsWith "event." kind

theorem not_isCredit_of_isEvent {kind : String} (h : isEvent kind = true) :
    isCredit kind = false := by
  unfold isEvent isCredit startsWith at *
  cases hkind : kind.toList with
  | nil =>
    rw [hkind] at h
    cases h
  | cons c rest =>
    rw [hkind] at h
    by_cases hc : c = 'e'
    · rw [hc]
      rfl
    · have hne : ('e' == c) = false := beq_eq_false_iff_ne.mpr (Ne.symm hc)
      have hfalse : "event.".toList.isPrefixOf (c :: rest) = false := by
        change (('e' == c) && _) = false
        rw [hne, Bool.false_and]
      rw [hfalse] at h
      cases h

/-! ## Messages -/

/-- `errors.Is` on an error of a publication. -/
inductive PublishError where
  | unpublishable (detail : String)
  | unroutable
  | brokerUnavailable
  | deadlineExceeded
  | other
  deriving DecidableEq, Repr

def PublishError.isUnpublishable : PublishError → Bool
  | .unpublishable _ => true
  | _ => false

def codeUnpublishable : String := "UNPUBLISHABLE"

def codeAttemptsExhausted : String := "ATTEMPTS_EXHAUSTED"

def codeWorkerStopped : String := "WORKER_STOPPED"

def failureCode : PublishError → String
  | .unpublishable _ => codeUnpublishable
  | .unroutable => "UNROUTABLE"
  | .brokerUnavailable => "BROKER_UNAVAILABLE"
  | .deadlineExceeded => "PUBLISH_TIMEOUT"
  | .other => "PUBLISH_FAILED"

theorem failureCode_eq_unpublishable {e : PublishError} :
    failureCode e = codeUnpublishable ↔ e.isUnpublishable = true := by
  cases e with
  | unpublishable detail => exact iff_of_true rfl rfl
  | unroutable => decide
  | brokerUnavailable => decide
  | deadlineExceeded => decide
  | other => decide

/-- The body of a message. `correlationID` is set on results only. -/
structure Envelope (P : Type) where
  messageID : String
  correlationID : String
  type : String
  occurredAt : ℤ
  errandID : String
  errandVersion : ℤ
  data : P
  deriving DecidableEq, Repr

structure Message (P : Type) where
  exchange : String
  routingKey : String
  envelope : Envelope P
  deriving DecidableEq, Repr

/-- The fields that every payload has. `at` is the zero time where it is missing. -/
structure Header where
  errandID : String
  errandVersion : ℤ
  occurred : ℤ
  deriving DecidableEq, Repr

/-- The fields of a credit command that are checked. -/
structure Command where
  errandID : String
  errandVersion : ℤ
  requesterID : String
  courierID : String
  amount : ℤ
  newAmount : ℤ
  seq : ℤ
  deriving DecidableEq, Repr

/-- What the JSON library reads of a payload and makes of an envelope. -/
structure Codec (P : Type) where
  header : P → Option Header
  /-- The trimmed payload is valid and starts with a brace. -/
  isObject : P → Bool
  command : P → Option Command
  marshals : Envelope P → Bool

def exchangeCommands : String := "foc.commands"

def exchangeEvents : String := "foc.events"

def creditCommands : List String := [Orders.Kind.text .creditReserve,
  Orders.Kind.text .creditAdjust, Orders.Kind.text .creditRelease, Orders.Kind.text .creditTransfer]

def transitionEventNames : List Orders.EventName :=
  [.placed, .opened, .rejected, .edited, .editRequested, .editRejected, .accepted, .cancelled,
    .withdrawn, .expired, .pickedUp, .delivered, .reviewRequired, .completed, .refunded]

def rejectedActions : List Orders.RejectedAction := [.accept, .cancel, .pickup]

def reminderEventNames : List Orders.EventName :=
  [.verificationReminder, .pickupDeadlineApproaching]

def eventNames : List String :=
  (transitionEventNames ++ rejectedActions.map Orders.RejectedAction.eventName ++
    reminderEventNames).map Orders.EventName.text

variable {P : Type}

def validRoute (m : Message P) : Bool :=
  m.exchange == exchangeCommands && creditCommands.contains m.routingKey ||
  m.exchange == exchangeEvents && eventNames.contains m.routingKey

/-- The check of a credit command that is about to be sent. -/
def checkCommand (codec : Codec P) (m : Message P) : Except PublishError Unit :=
  match codec.command m.envelope.data with
  | none => .error (.unpublishable "invalid credit command identity")
  | some command =>
    if command.errandID ≠ m.envelope.errandID ∨
        command.errandVersion ≠ m.envelope.errandVersion ∨ command.requesterID = "" then
      .error (.unpublishable "invalid credit command identity")
    else if m.routingKey = Orders.Kind.text .creditReserve ∨
        m.routingKey = Orders.Kind.text .creditTransfer then
      if command.amount ≤ 0 ∨
          m.routingKey = Orders.Kind.text .creditTransfer ∧ command.courierID = "" then
        .error (.unpublishable "invalid credit amount or payee")
      else .ok ()
    else if m.routingKey = Orders.Kind.text .creditAdjust then
      if command.newAmount ≤ 0 ∨ command.seq ≤ 0 then
        .error (.unpublishable "invalid adjustment amount or sequence")
      else .ok ()
    else .ok ()

/-- `encode`, without the bytes it returns. -/
def encode (codec : Codec P) (m : Message P) : Except PublishError Unit := do
  let e := m.envelope
  if !validRoute m || e.type != m.routingKey || e.messageID == "" ||
      decide (255 < e.messageID.utf8ByteSize) || decide (255 < e.correlationID.utf8ByteSize) ||
      e.errandID == "" || decide (e.errandVersion < 1) || e.occurredAt == 0 ||
      !codec.isObject e.data then
    throw (.unpublishable "invalid outbound envelope or route")
  if m.exchange = exchangeCommands then checkCommand codec m
  if codec.marshals e then return () else throw (.unpublishable "cannot encode envelope")

/-! ## Rows -/

inductive DeliveryStatus where
  | pending
  | sent
  | confirmed
  | failed
  deriving DecidableEq, Repr

/-- What the producer of a row fixes for good. -/
structure Content (P : Type) where
  kind : String
  idempotencyKey : String
  errandID : String
  payload : P
  createdAt : ℤ
  deriving DecidableEq, Repr

/-- A row of `outbox`. -/
structure Delivery (P : Type) where
  id : ℕ
  content : Content P
  status : DeliveryStatus
  attempts : ℕ
  nextAttemptAt : ℤ
  leaseOwner : Option String
  leaseExpiresAt : Option ℤ
  lastFailureCode : Option String
  sentAt : Option ℤ
  confirmedAt : Option ℤ
  deriving DecidableEq, Repr

/-- `Row`: what a claim returns. -/
structure Row (P : Type) where
  id : ℕ
  content : Content P
  leaseOwner : String
  attempts : ℕ
  deriving DecidableEq, Repr

def Delivery.row (d : Delivery P) : Row P := ⟨d.id, d.content, d.leaseOwner.getD "", d.attempts⟩

/-- The message of a row's content. The errand itself is not read. -/
def messageFromOutbox (codec : Codec P) (c : Content P) : Except PublishError (Message P) := do
  match codec.header c.payload with
  | none => throw (.unpublishable "invalid outbox payload")
  | some data =>
    if data.errandID ≠ c.errandID ∨ data.errandVersion < 1 then
      throw (.unpublishable "invalid outbox payload")
    let name : String := .ofList (c.kind.toList.drop "event.".toList.length)
    let envelope : Envelope P :=
      ⟨c.idempotencyKey, "", "", c.createdAt, c.errandID, data.errandVersion, c.payload⟩
    let m : Message P ←
      if creditCommands.contains c.kind then
        pure ⟨exchangeCommands, c.kind, { envelope with type := c.kind }⟩
      else if isEvent c.kind && eventNames.contains name then
        if data.occurred = 0 then throw (.unpublishable "event occurrence time is required")
        else pure ⟨exchangeEvents, name, { envelope with type := name, occurredAt := data.occurred }⟩
      else throw (.unpublishable "unknown outbox kind")
    encode codec m
    return m

theorem checkCommand_error {codec : Codec P} {m : Message P} {e : PublishError}
    (h : checkCommand codec m = .error e) : e.isUnpublishable = true := by
  unfold checkCommand at h
  repeat' split at h
  all_goals cases h
  all_goals rfl

theorem encode_error {codec : Codec P} {m : Message P} {e : PublishError} (h : encode codec m = .error e) :
    e.isUnpublishable = true := by
  unfold encode at h
  dsimp only at h
  split at h
  · cases h
    rfl
  · by_cases hex : m.exchange = exchangeCommands
    · rw [if_pos hex] at h
      cases hcheck : checkCommand codec m with
      | error e' =>
        rw [hcheck] at h
        cases h
        exact checkCommand_error hcheck
      | ok _ =>
        rw [hcheck] at h
        dsimp only [bind, Except.bind, pure, Except.pure] at h
        split at h
        · cases h
        · cases h
          rfl
    · rw [if_neg hex] at h
      dsimp only [bind, Except.bind, pure, Except.pure] at h
      split at h
      · cases h
      · cases h
        rfl

/-- A row that cannot be turned into a message is unpublishable. -/
theorem messageFromOutbox_error {codec : Codec P} {c : Content P} {e : PublishError}
    (h : messageFromOutbox codec c = .error e) : e.isUnpublishable = true := by
  unfold messageFromOutbox at h
  cases hheader : codec.header c.payload with
  | none =>
    rw [hheader] at h
    cases h
    rfl
  | some data =>
    rw [hheader] at h
    simp only [bind, Except.bind, pure, Except.pure, throw, throwThe, MonadExceptOf.throw] at h
    repeat' split at h
    all_goals cases h
    all_goals first
      | rfl
      | exact encode_error (by assumption)

/-! ## Statements -/

/-- The check constraint on kinds. -/
def kindKnown (kind : String) : Bool := creditCommands.contains kind || isEvent kind

/-- `INSERT INTO outbox`; `none` if a constraint refuses it. -/
def insertOutbox (c : Content P) (id : ℕ) (rows : List (Delivery P)) : Option (List (Delivery P)) :=
  if kindKnown c.kind && rows.all fun d =>
      d.id != id && d.content.idempotencyKey != c.idempotencyKey then
    some (rows ++ [⟨id, c, .pending, 0, c.createdAt, none, none, none, none, none⟩])
  else none

/-- The rows a claim may take: due, and not leased by anyone. -/
def due (credit : Bool) (now : ℤ) (d : Delivery P) : Bool :=
  d.status == .pending && decide (d.nextAttemptAt ≤ now) &&
  d.leaseExpiresAt.all (fun expires => decide (expires ≤ now)) &&
  (credit && isCredit d.content.kind || !credit && isEvent d.content.kind)

/-- The ids that a claim takes: those due first, without the rows that others have locked. -/
def claimIDs (credit : Bool) (limit : ℕ) (now : ℤ) (locked : List ℕ) (rows : List (Delivery P)) :
    List ℕ :=
  let free := rows.filter fun d => due credit now d && !(locked.contains d.id)
  ((free.mergeSort fun a b => decide (a.nextAttemptAt < b.nextAttemptAt ∨
    a.nextAttemptAt = b.nextAttemptAt ∧ a.id ≤ b.id)).take limit).map (·.id)

def Delivery.lease (worker : String) (expires : ℤ) (d : Delivery P) : Delivery P :=
  { d with leaseOwner := some worker, leaseExpiresAt := some expires, attempts := d.attempts + 1 }

/-- Change the rows with these ids. -/
def updateIDs (ids : List ℕ) (f : Delivery P → Delivery P) (rows : List (Delivery P)) :
    List (Delivery P) := rows.map fun d => if d.id ∈ ids then f d else d

/-- The rows a claim returns, in an order of its own. -/
def returned (order : List ℕ) (rows : List (Delivery P)) : List (Row P) :=
  order.filterMap fun id => (findRow (·.id) id rows).map Delivery.row

/-- The row is still leased by this claim. -/
def Row.holds (r : Row P) (now : ℤ) (d : Delivery P) : Bool :=
  d.id == r.id && d.status == .pending && d.leaseOwner == some r.leaseOwner &&
  d.attempts == r.attempts && d.leaseExpiresAt.any fun expires => decide (now < expires)

/-- A write guarded by the lease of a claim, and how many rows it changed. -/
def guarded (r : Row P) (now : ℤ) (f : Delivery P → Delivery P) (rows : List (Delivery P)) :
    ℕ × List (Delivery P) :=
  (rows.countP (r.holds now), rows.map fun d => if r.holds now d then f d else d)

def markSent (r : Row P) (now : ℤ) : List (Delivery P) → ℕ × List (Delivery P) :=
  guarded r now fun d => { d with
    status := .sent, sentAt := some now, leaseOwner := none, leaseExpiresAt := none,
    lastFailureCode := none }

def reschedule (r : Row P) (delay : ℤ) (code : String) (now : ℤ) :
    List (Delivery P) → ℕ × List (Delivery P) :=
  guarded r now fun d => { d with
    nextAttemptAt := now + delay, leaseOwner := none, leaseExpiresAt := none,
    lastFailureCode := some code }

def markFailed (r : Row P) (code : String) (now : ℤ) :
    List (Delivery P) → ℕ × List (Delivery P) :=
  guarded r now fun d => { d with
    status := .failed, leaseOwner := none, leaseExpiresAt := none, lastFailureCode := some code }

/-- The credit row that waits for a result. -/
def awaits (key : String) (d : Delivery P) : Bool :=
  d.content.idempotencyKey == key && isCredit d.content.kind &&
  (d.status == .pending || d.status == .sent)

def confirmByKey (key : String) (now : ℤ) (rows : List (Delivery P)) : List (Delivery P) :=
  rows.map fun d => if awaits key d then { d with
    status := .confirmed, confirmedAt := some now, leaseOwner := none, leaseExpiresAt := none,
    lastFailureCode := none } else d

def markFailedByKey (key code : String) (rows : List (Delivery P)) : List (Delivery P) :=
  rows.map fun d => if awaits key d then { d with
    status := .failed, leaseOwner := none, leaseExpiresAt := none, lastFailureCode := some code }
  else d

/-- A credit row whose result is overdue. -/
def stale (timeout now : ℤ) (d : Delivery P) : Bool :=
  d.status == .sent && isCredit d.content.kind &&
  d.sentAt.any fun sent => decide (sent ≤ now - timeout)

def staleIDs (timeout : ℤ) (limit : ℕ) (now : ℤ) (locked : List ℕ) (rows : List (Delivery P)) :
    List ℕ :=
  let free := rows.filter fun d => stale timeout now d && !(locked.contains d.id)
  ((free.mergeSort fun a b => decide (a.sentAt.getD 0 ≤ b.sentAt.getD 0)).take limit).map (·.id)

def resendUnconfirmed (timeout : ℤ) (limit : ℕ) (now : ℤ) (locked : List ℕ)
    (rows : List (Delivery P)) : List (Delivery P) :=
  updateIDs (staleIDs timeout limit now locked rows)
    (fun d => { d with
      status := .pending, nextAttemptAt := now, leaseOwner := none, leaseExpiresAt := none }) rows

def requeue (id : ℕ) (now : ℤ) (rows : List (Delivery P)) : List (Delivery P) :=
  rows.map fun d => if d.id == id && d.status == .failed then { d with
    status := .pending, attempts := 0, nextAttemptAt := now, leaseOwner := none,
    leaseExpiresAt := none } else d

end FocServices.Messaging
