import FocServices.Settlement.Cases

/-!
# Messages between the services

A credit row of the order service's outbox becomes a command of the credit service when
it is published, delivered and decoded. A row of the credit service's outbox becomes an
event of an errand when it is delivered to the handler of results.
-/

namespace FocServices.Settlement

open Txn Orders Credit

/-! ## Commands -/

/-- A message on the exchange of commands; its kind is the routing key and the type. -/
structure CommandMessage where
  messageID : String
  kind : Kind
  errandID : String
  errandVersion : ℕ
  data : CreditCommand
  deriving DecidableEq, Repr

/-- The checks `encode` makes on a message for the exchange of commands. -/
def CommandMessage.encodes (m : CommandMessage) : Bool :=
  m.messageID ≠ "" && m.messageID.utf8ByteSize ≤ 255 && m.errandID ≠ "" &&
    1 ≤ m.errandVersion && m.data.errandID = m.errandID &&
    m.data.errandVersion = m.errandVersion && m.data.requesterID ≠ "" &&
    match m.kind with
    | .creditReserve => 0 < m.data.amount
    | .creditTransfer => 0 < m.data.amount && m.data.courierID ≠ ""
    | .creditAdjust => 0 < m.data.newAmount && 0 < m.data.seq
    | .creditRelease => true
    | .event _ => false

/-- `MessageFromOutbox` for the exchange of commands. Events go to another one. -/
def messageFromOutbox (row : Orders.OutboxRow) : Option CommandMessage :=
  match row.payload with
  | .credit data =>
    let m : CommandMessage := ⟨row.idempotencyKey, row.kind, row.errandID, data.errandVersion, data⟩
    if data.errandID ≠ row.errandID ∨ data.errandVersion < 1 then none
    else if m.encodes then some m else none
  | _ => none

/-- `strings.EqualFold` on ASCII text. -/
def equalFold (a b : String) : Bool := toLower a = toLower b

/-- The command for the routing key of a message. -/
def CommandMessage.command (m : CommandMessage) : Option Command :=
  match m.kind with
  | .creditReserve => some (.reserve m.messageID
      ⟨m.errandID, m.errandVersion, m.data.requesterID, m.data.amount⟩)
  | .creditAdjust => some (.adjust m.messageID
      ⟨m.errandID, m.errandVersion, m.data.requesterID, m.data.newAmount, m.data.seq⟩)
  | .creditRelease => some (.release m.messageID
      ⟨m.errandID, m.errandVersion, m.data.requesterID⟩)
  | .creditTransfer => some (.transfer m.messageID
      ⟨m.errandID, m.errandVersion, m.data.requesterID, m.data.courierID, m.data.amount⟩)
  | .event _ => none

/-- The command `Handle` executes for a message, after the checks of `decodeEnvelope` and
`decodeData`. -/
def CommandMessage.decode (m : CommandMessage) : Option Command :=
  if m.messageID = "" ∨ m.errandID = "" ∨ m.errandVersion < 1 ∨
      equalFold m.data.errandID m.errandID = false ∨ m.data.errandVersion ≠ m.errandVersion then
    none
  else m.command

/-- The command that a row of the outbox causes, if it is delivered. -/
def commandOf (row : Orders.OutboxRow) : Option Command :=
  (messageFromOutbox row).bind CommandMessage.decode

/-- A delivered row becomes the command of its message. -/
theorem commandOf_eq {row : Orders.OutboxRow} {data : CreditCommand} {cmd : Command}
    (hpayload : row.payload = .credit data) (h : commandOf row = some cmd) :
    CommandMessage.command
      ⟨row.idempotencyKey, row.kind, row.errandID, data.errandVersion, data⟩ = some cmd := by
  obtain ⟨m, hm, hdecode⟩ := Option.bind_eq_some_iff.mp h
  simp only [messageFromOutbox, hpayload] at hm
  split_ifs at hm
  cases hm
  unfold CommandMessage.decode at hdecode
  split_ifs at hdecode
  exact hdecode

/-! ## Results -/

/-- The checks of `decode` on a result. -/
def acceptsResult (env : Envelope) : Bool :=
  env.errandID ≠ "" && env.correlationID ≠ "" &&
    ((env.errandID ++ ":").toList <+: env.correlationID.toList) &&
    (match env.type with
    | .reserved | .reservationRefused => env.correlationID = idempotencyKey env.errandID "reserve" 0
    | .adjusted | .adjustRefused =>
      ((env.errandID ++ ":adjust:").toList <+: env.correlationID.toList) ||
        ((env.errandID ++ ":adjust-revert:").toList <+: env.correlationID.toList)
    | .released => env.correlationID = idempotencyKey env.errandID "release" 0
    | .transferred => env.correlationID = idempotencyKey env.errandID "transfer" 0
    | .operationFailed => true) &&
    match env.type with
    | .reservationRefused | .adjustRefused | .operationFailed => env.code.isSome
    | _ => true

/-- The event `apply` raises for a result. The others only concern the state of the
command's row in the outbox. -/
def resultEvent (env : Envelope) : Option (Event × EventInput) :=
  match env.type with
  | .reserved => some (.reservationConfirmed, {})
  | .reservationRefused =>
    some (.reservationRefused, { reason := (env.code.map Code.text).getD "" })
  | .adjusted => some (.editConfirmed, { editKey := env.correlationID })
  | .adjustRefused => some (.editRefused,
      { editKey := env.correlationID, reason := (env.code.map Code.text).getD "" })
  | .released | .transferred | .operationFailed => none

/-- `Handle`: the transition a result makes the handler apply. A result for an edit that
is no longer pending is ignored. -/
def handleResult (s : Orders.Tables) (now : ℤ) (env : Envelope) : Option Transition :=
  if acceptsResult env = false then none
  else do
    let (ev, input) ← resultEvent env
    let id ← scanUUID env.errandID
    let e ← s.errandOf id
    if input.editKey ≠ "" ∧ (e.pendingEdit.map PendingEdit.key) ≠ some input.editKey then none
    else (next e ev systemActor input now).toOption

/-- What a transition of the handler was decided on. -/
theorem handleResult_eq_some {s : Orders.Tables} {now : ℤ} {env : Envelope} {t : Transition}
    (h : handleResult s now env = some t) : ∃ ev input id e, resultEvent env = some (ev, input) ∧
      acceptsResult env = true ∧ scanUUID env.errandID = some id ∧ s.errandOf id = some e ∧
      (input.editKey = "" ∨ e.pendingEdit.map PendingEdit.key = some input.editKey) ∧
      next e ev systemActor input now = .ok t := by
  unfold handleResult at h
  split_ifs at h with haccepts
  obtain ⟨⟨ev, input⟩, hevent, h⟩ := Option.bind_eq_some_iff.mp h
  obtain ⟨id, hid, h⟩ := Option.bind_eq_some_iff.mp h
  obtain ⟨e, he, h⟩ := Option.bind_eq_some_iff.mp h
  split_ifs at h with hkey
  refine ⟨ev, input, id, e, hevent, by simpa using haccepts, hid, he, ?_, ?_⟩
  · by_cases hempty : input.editKey = ""
    · exact Or.inl hempty
    · exact Or.inr (not_not.mp fun hne => hkey ⟨hempty, hne⟩)
  · cases hnext : next e ev systemActor input now with
    | ok t' =>
      rw [hnext] at h
      exact congrArg _ (Option.some.inj h)
    | error err =>
      rw [hnext] at h
      cases h

end FocServices.Settlement
