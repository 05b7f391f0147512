import FocServices.Credit.Holdings
import FocServices.Orders.Steps

/-!
# The case of one errand

A `Case` is what the order service and the credit service know about one errand: the
stored errand, the credit commands sent for it, the results stored for them, and what
the credit service holds. `Case.Step` is what can happen to it when commands and
results are delivered late, repeatedly and in any order. `Sound` is the invariant that
every step keeps.
-/

namespace FocServices.Settlement

open Txn Orders Credit

/-! ## Demands on the credit service -/

/-- The place of a command among those of one errand. -/
inductive Slot where
  | reserve
  | adjust (version : ℕ)
  | revert (version : ℕ)
  | release
  | transfer
  deriving DecidableEq, Repr

/-- The operation and the version in the key of the command. -/
def Slot.operation : Slot → String × ℕ
  | .reserve => ("reserve", 0)
  | .adjust version => ("adjust", version)
  | .revert version => ("adjust-revert", version)
  | .release => ("release", 0)
  | .transfer => ("transfer", 0)

/-- The message identifier of the command. -/
def Slot.key (errandID : String) (slot : Slot) : String :=
  idempotencyKey errandID slot.operation.1 slot.operation.2

/-- The sequence number of an adjustment. -/
def Slot.seq : Slot → Option ℤ
  | .adjust version => some (adjustSeq version)
  | .revert version => some (revertSeq version)
  | .reserve | .release | .transfer => none

/-- The results that are stored for a command. -/
def Slot.Allows : Slot → ResultType → Prop
  | .reserve, type => type = .reserved ∨ type = .reservationRefused
  | .adjust _, type | .revert _, type => type = .adjusted ∨ type = .adjustRefused
  | .release, type => type = .released
  | .transfer, type => type = .transferred

/-- A command sent for an errand. `adjust` is a requested edit and `revert` takes back a
dropped one. -/
inductive Demand where
  | reserve (amount : ℤ)
  | adjust (version : ℕ) (newAmount : ℤ)
  | revert (version : ℕ) (newAmount : ℤ)
  | release
  | transfer (courierID : String) (amount : ℤ)
  deriving DecidableEq, Repr

def Demand.slot : Demand → Slot
  | .reserve _ => .reserve
  | .adjust version _ => .adjust version
  | .revert version _ => .revert version
  | .release => .release
  | .transfer _ _ => .transfer

/-- The amount an adjustment asks for. -/
def Demand.newAmount : Demand → ℤ
  | .adjust _ newAmount | .revert _ newAmount => newAmount
  | .reserve _ | .release | .transfer _ _ => 0

/-- The command the credit service receives. -/
def Demand.command (messageID orderID requester : String) (version : ℤ) : Demand → Command
  | .reserve amount => .reserve messageID ⟨orderID, version, requester, amount⟩
  | .adjust v newAmount => .adjust messageID ⟨orderID, version, requester, newAmount, adjustSeq v⟩
  | .revert v newAmount => .adjust messageID ⟨orderID, version, requester, newAmount, revertSeq v⟩
  | .release => .release messageID ⟨orderID, version, requester⟩
  | .transfer courierID amount =>
    .transfer messageID ⟨orderID, version, requester, courierID, amount⟩

theorem Slot.operation_mem (slot : Slot) : slot.operation.1 ∈ transitionOperations := by
  cases slot <;> simp [Slot.operation, transitionOperations]

/-- Commands in different slots have different messages. -/
theorem Slot.key_injective {errandID : String} (hid : Canonical errandID) {slot slot' : Slot}
    (h : slot.key errandID = slot'.key errandID) : slot = slot' := by
  obtain ⟨-, hoperation, hversion⟩ :=
    idempotencyKey_inj hid hid slot.operation_mem slot'.operation_mem h
  cases slot <;> cases slot' <;> simp_all [Slot.operation]

/-- Commands of different errands have different messages. -/
theorem Slot.errandID_of_key {errandID errandID' : String} (hid : Canonical errandID)
    (hid' : Canonical errandID') {slot slot' : Slot}
    (h : slot.key errandID = slot'.key errandID') : errandID = errandID' :=
  (idempotencyKey_inj hid hid' slot.operation_mem slot'.operation_mem h).1

/-- The sequence number determines the slot. -/
theorem Slot.eq_of_seq {slot slot' : Slot} {seq : ℤ} (h : slot.seq = some seq)
    (h' : slot'.seq = some seq) : slot = slot' := by
  cases slot <;> cases slot' <;>
    simp only [Slot.seq, Option.some.injEq, reduceCtorEq, adjustSeq, revertSeq] at h h' <;>
    first
    | (congr 1; omega)
    | omega

/-! ## Cases -/

/-- One errand across the two services. -/
structure Case where
  errand : Option Errand
  sent : List Demand
  answer : Slot → Option Result
  holding : Holding
  subject : ℕ → Option String

/-- The command has been executed with a result of this type. -/
def Case.Answered (c : Case) (slot : Slot) (type : ResultType) : Prop :=
  ∃ result, c.answer slot = some result ∧ result.type = type

/-- The events that report a result are raised only for a stored one; an edit may also be
refused because it timed out. -/
structure Justified (answered : Slot → ResultType → Prop) (e : Errand) (ev : Event)
    (input : EventInput) : Prop where
  confirmed : ev = .reservationConfirmed → answered .reserve .reserved
  refused : ev = .reservationRefused → answered .reserve .reservationRefused
  editConfirmed : ev = .editConfirmed → answered (.adjust e.version) .adjusted
  editRefused : ev = .editRefused → input.editTimedOut = true ∨
    answered (.adjust e.version) .adjustRefused

/-- The demand a credit row makes. Edits have even sequence numbers, reverts odd ones. -/
def demandOf (row : Orders.OutboxRow) : Option Demand :=
  match row.kind, row.payload with
  | .creditReserve, .credit cmd => some (.reserve cmd.amount)
  | .creditAdjust, .credit cmd =>
    some (if cmd.seq % 2 = 0 then .adjust (cmd.seq / 2).toNat cmd.newAmount
      else .revert ((cmd.seq + 1) / 2).toNat cmd.newAmount)
  | .creditRelease, .credit _ => some .release
  | .creditTransfer, .credit cmd => some (.transfer cmd.courierID cmd.amount)
  | _, _ => none

/-- The case after a transition. -/
def Case.advance (c : Case) (stored : Errand) (demands : List Demand) : Case :=
  { c with errand := some stored, sent := c.sent ++ demands }

/-- The case after a command was executed. A failed operation stores no result. -/
def Case.record (c : Case) (slot : Slot) (result : Result) (h : Holding) : Case :=
  { c with
    answer := fun slot' => if slot' = slot ∧ result.type ≠ .operationFailed then some result
      else c.answer slot'
    holding := h }

/-- What can happen to a case: a transition of its errand, the execution of a command
that was sent, and the opening of wallets. -/
inductive Case.Step (c : Case) : Case → Prop where
  | move (e : Errand) (input : EventInput) (t : Transition) (stored : Errand)
      (hbefore : c.errand = some e ∨ (c.errand = none ∧ e.status = .none))
      (hm : Move e input t) (hjustified : Justified c.Answered e t.event input)
      (hst : StoredAs (t.applyTo e) stored) (hregular : Regular stored) :
      Case.Step c (c.advance stored (t.outbox.filterMap demandOf))
  | serve (d : Demand) (m o requester : String) (version : ℤ) (result : Result) (h : Holding)
      (hsent : d ∈ c.sent) (hrequester : ∀ e, c.errand = some e → requester = e.requesterID)
      (hnew : c.answer d.slot = none)
      (hserves : Serves c.subject c.holding (d.command m o requester version) result h) :
      Case.Step c (c.record d.slot result h)
  | wallets (subject : ℕ → Option String)
      (hext : ∀ id x, c.subject id = some x → subject id = some x) :
      Case.Step c { c with subject := subject }

/-! ## The invariant -/

/-- The errand has left its reservation request behind with the credits reserved. -/
def funded : Status → Bool
  | .open | .assigned | .pickedUp | .delivered | .reviewRequired | .completed => true
  | _ => false

/-- The credits are on hold for the errand. -/
def live (status : Status) : Bool := funded status && !status.terminal

/-- Each slot is used once, and the sequence numbers are positive and stay within the
errand's version. -/
structure Case.Ordered (c : Case) : Prop where
  slots : (c.sent.map Demand.slot).Nodup
  positive : ∀ d ∈ c.sent, ∀ seq, d.slot.seq = some seq → 0 < seq
  bounded : ∀ e, c.errand = some e → ∀ d ∈ c.sent, ∀ seq, d.slot.seq = some seq → seq ≤ e.seqBound

/-- An edit that is not installed: it was refused, or its result is still to be applied. -/
def Shelved (c : Case) (e : Errand) (d : Demand) : Prop :=
  ∃ version newAmount, d = .adjust version newAmount ∧
    (c.Answered (.adjust version) .adjustRefused ∨
      (version = e.version ∧ e.pendingEdit.isSome = true))

/-- Where the reward comes from: the reservation, an edit that was made, or a revert. Later
adjustments are edits that are not installed. -/
def Based (c : Case) (e : Errand) : Prop :=
  (.reserve e.details.reward ∈ c.sent ∧
      ∀ d ∈ c.sent, ∀ seq, d.slot.seq = some seq → Shelved c e d) ∨
    ∃ b ∈ c.sent, ∃ last, b.slot.seq = some last ∧ b.newAmount = e.details.reward ∧
      ((∃ version, b.slot = .revert version) ∨ c.Answered b.slot .adjusted) ∧
      ∀ d ∈ c.sent, ∀ seq, d.slot.seq = some seq → last < seq → Shelved c e d

/-- How the commands and the holding go with the stored errand. -/
structure Standing (c : Case) (e : Errand) : Prop where
  regular : Regular e
  transferSent : ∀ courierID amount, .transfer courierID amount ∈ c.sent →
    e.status = .completed ∧ courierID = e.courierID ∧ amount = e.details.reward
  releaseSent : .release ∈ c.sent → e.status.terminal = true ∧ e.status ≠ .completed
  waiting : e.status = .pendingReservation → c.sent = [.reserve e.details.reward]
  confirmed : funded e.status = true → c.Answered .reserve .reserved
  requester : ∀ id, c.holding.wallet = some id → c.subject id = some e.requesterID
  courier : ∀ w k amount, c.holding = .transferred w k amount →
    c.subject k = some e.courierID ∧ amount = e.details.reward
  pending : ∀ p, e.pendingEdit = some p → .adjust e.version p.details.reward ∈ c.sent
  based : live e.status = true → Based c e

/-- The invariant of a case. -/
structure Sound (c : Case) : Prop where
  unborn : c.errand = none → c.sent = [] ∧ c.holding = .absent
  answered : ∀ slot result, c.answer slot = some result →
    slot ∈ c.sent.map Demand.slot ∧ slot.Allows result.type
  held : c.holding.reserved = true ↔ c.Answered .reserve .reserved
  ended : c.holding.ended = true ↔ (c.answer .release).isSome = true
  paid : c.holding.paid = true ↔ (c.answer .transfer).isSome = true
  applied : ∀ w amount last, c.holding = .active w amount last →
    (last = 0 ∧ .reserve amount ∈ c.sent) ∨
      ∃ d ∈ c.sent, d.slot.seq = some last ∧ d.newAmount = amount ∧ c.Answered d.slot .adjusted
  newest : ∀ slot seq, slot.seq = some seq → c.Answered slot .adjusted →
    c.holding.reserved = true ∧ ∀ w amount last, c.holding = .active w amount last → seq ≤ last
  standing : ∀ e, c.errand = some e → Standing c e

/-! ## Executing a command -/

section

variable {c : Case} {slot slot' : Slot} {result : Result} {h : Holding} {type : ResultType}
  {e : Errand}

theorem answered_record : (c.record slot result h).Answered slot' type ↔
    if slot' = slot ∧ result.type ≠ .operationFailed then result.type = type
    else c.Answered slot' type := by
  unfold Case.Answered Case.record
  split_ifs with hcond <;> simp [hcond]

/-- A stored result stays. -/
theorem Case.Answered.record (hanswer : c.Answered slot' type) (hnew : c.answer slot = none) :
    (c.record slot result h).Answered slot' type := by
  have hne : slot' ≠ slot := by
    rintro rfl
    obtain ⟨_, hsome, -⟩ := hanswer
    rw [hnew] at hsome
    cases hsome
  rw [answered_record, if_neg fun hcond => hne hcond.1]
  exact hanswer

theorem Based.record (hb : Based c e) (hnew : c.answer slot = none) :
    Based (c.record slot result h) e := by
  have hshelved : ∀ d, Shelved c e d → Shelved (c.record slot result h) e d := by
    rintro d ⟨version, newAmount, hd, hrefused | hpending⟩
    · exact ⟨version, newAmount, hd, Or.inl (hrefused.record hnew)⟩
    · exact ⟨version, newAmount, hd, Or.inr hpending⟩
  rcases hb with ⟨hreserve, hrest⟩ | ⟨b, hb, last, hlast, hamount, hmade, hrest⟩
  · exact Or.inl ⟨hreserve, fun d hd seq hseq => hshelved d (hrest d hd seq hseq)⟩
  · exact Or.inr ⟨b, hb, last, hlast, hamount, hmade.imp_right fun hmade => hmade.record hnew,
      fun d hd seq hseq hlt => hshelved d (hrest d hd seq hseq hlt)⟩

theorem Standing.record (hst : Standing c e) (hnew : c.answer slot = none)
    (hrequester : ∀ id, h.wallet = some id → c.subject id = some e.requesterID)
    (hcourier : ∀ w k amount, h = .transferred w k amount →
      c.subject k = some e.courierID ∧ amount = e.details.reward) :
    Standing (c.record slot result h) e :=
  { hst with
    confirmed := fun hfunded => (hst.confirmed hfunded).record hnew
    requester := hrequester
    courier := hcourier
    based := fun hlive => (hst.based hlive).record hnew }

/-- What is left to show when a command was executed. -/
structure Recorded (c : Case) (slot : Slot) (result : Result) (h : Holding) : Prop where
  allows : result.type ≠ .operationFailed → slot.Allows result.type
  held : h.reserved = true ↔ (c.record slot result h).Answered .reserve .reserved
  ended : h.ended = true ↔ ((c.record slot result h).answer .release).isSome = true
  paid : h.paid = true ↔ ((c.record slot result h).answer .transfer).isSome = true
  applied : ∀ w amount last, h = .active w amount last →
    (last = 0 ∧ .reserve amount ∈ c.sent) ∨ ∃ d ∈ c.sent, d.slot.seq = some last ∧
      d.newAmount = amount ∧ (c.record slot result h).Answered d.slot .adjusted
  newest : ∀ slot' seq, slot'.seq = some seq →
    (c.record slot result h).Answered slot' .adjusted →
    h.reserved = true ∧ ∀ w amount last, h = .active w amount last → seq ≤ last
  requester : ∀ e, c.errand = some e → ∀ id, h.wallet = some id → c.subject id = some e.requesterID
  courier : ∀ e, c.errand = some e → ∀ w k amount, h = .transferred w k amount →
    c.subject k = some e.courierID ∧ amount = e.details.reward

theorem Sound.record (hs : Sound c) {d : Demand} (hsent : d ∈ c.sent)
    (hnew : c.answer d.slot = none) (hr : Recorded c d.slot result h) :
    Sound (c.record d.slot result h) := by
  refine ⟨?_, ?_, hr.held, hr.ended, hr.paid, hr.applied, hr.newest, ?_⟩
  · intro hnone
    rw [(hs.unborn hnone).1] at hsent
    cases hsent
  · intro slot' result' hanswer
    simp only [Case.record] at hanswer
    split_ifs at hanswer with hcond
    · cases hanswer
      obtain ⟨rfl, hstored⟩ := hcond
      exact ⟨List.mem_map_of_mem hsent, hr.allows hstored⟩
    · exact hs.answered slot' result' hanswer
  · intro e he
    exact (hs.standing e he).record hnew (hr.requester e he) (hr.courier e he)

/-- A command that leaves the holding as it is. -/
theorem Sound.recorded_same (hs : Sound c) (hnew : c.answer slot = none)
    (hallows : result.type ≠ .operationFailed → slot.Allows result.type)
    (hreserved : result.type ≠ .reserved) (hrelease : slot ≠ .release)
    (htransfer : slot ≠ .transfer ∨ result.type = .operationFailed)
    (hadjusted : ∀ seq, slot.seq = some seq → result.type = .adjusted →
      c.holding.reserved = true ∧ ∀ w amount last, c.holding = .active w amount last → seq ≤ last) :
    Recorded c slot result c.holding where
  allows := hallows
  held := by
    rw [hs.held]
    constructor
    · exact fun hanswer => hanswer.record hnew
    · rw [answered_record]
      split_ifs
      · exact fun h => absurd h hreserved
      · exact id
  ended := by
    rw [hs.ended]
    simp [Case.record, hrelease.symm]
  paid := by
    rw [hs.paid]
    rcases htransfer with hne | hfailed
    · simp [Case.record, hne.symm]
    · simp [Case.record, hfailed]
  applied := by
    intro w amount last hactive
    refine (hs.applied w amount last hactive).imp_right ?_
    rintro ⟨d, hd, hlast, hamount, hanswer⟩
    exact ⟨d, hd, hlast, hamount, hanswer.record hnew⟩
  newest := by
    intro slot' seq hseq
    rw [answered_record]
    split_ifs with hcond
    · exact hadjusted seq (hcond.1 ▸ hseq)
    · exact hs.newest slot' seq hseq
  requester := fun e he => (hs.standing e he).requester
  courier := fun e he => (hs.standing e he).courier

/-- Nothing was adjusted before the credits are reserved. -/
theorem Sound.not_adjusted (hs : Sound c) (hreserved : c.holding.reserved = false) {seq : ℤ}
    (hseq : slot.seq = some seq) : ¬ c.Answered slot .adjusted := by
  intro hanswer
  have h := (hs.newest slot seq hseq hanswer).1
  rw [hreserved] at h
  cases h

/-- A reserve that takes the credits. -/
theorem Sound.recorded_reserve (hs : Sound c) (hnew : c.answer .reserve = none)
    (habsent : c.holding = .absent) {amount : ℤ} {w : ℕ} (hsent : .reserve amount ∈ c.sent)
    (htype : result.type = .reserved)
    (hsubject : ∀ e, c.errand = some e → c.subject w = some e.requesterID) :
    Recorded c .reserve result (.active w amount 0) where
  allows := fun _ => Or.inl htype
  held := by simp [Holding.reserved, answered_record, htype]
  ended := by
    have h := hs.ended
    rw [habsent] at h
    simpa [Case.record, Holding.ended] using h
  paid := by
    have h := hs.paid
    rw [habsent] at h
    simpa [Case.record, Holding.paid] using h
  applied := by
    rintro w amount last ⟨⟩
    exact Or.inl ⟨rfl, hsent⟩
  newest := by
    intro slot' seq hseq hanswer
    rw [answered_record, if_neg (by rintro ⟨rfl, -⟩; cases hseq)] at hanswer
    exact absurd hanswer (hs.not_adjusted (by rw [habsent]; rfl) hseq)
  requester := by
    rintro e he id ⟨⟩
    exact hsubject e he
  courier := by
    rintro e he w k amount ⟨⟩

/-- An adjustment that is newer than the last one. -/
theorem Sound.recorded_adjust (hs : Sound c) {d : Demand} (hsent : d ∈ c.sent)
    (hnew : c.answer d.slot = none) {w : ℕ} {amount last seq : ℤ}
    (hactive : c.holding = .active w amount last) (hseq : d.slot.seq = some seq)
    (hnewer : last < seq) (htype : result.type = .adjusted) :
    Recorded c d.slot result (.active w d.newAmount seq) := by
  have hslot : d.slot ≠ .reserve ∧ d.slot ≠ .release ∧ d.slot ≠ .transfer := by
    refine ⟨?_, ?_, ?_⟩ <;> intro h <;> rw [h] at hseq <;> cases hseq
  constructor
  case allows =>
    intro _
    cases d <;> first | exact Or.inl htype | cases hseq
  case held =>
    have h := hs.held
    rw [hactive] at h
    rw [answered_record, if_neg fun hcond => hslot.1 hcond.1.symm]
    exact h
  case ended =>
    have h := hs.ended
    rw [hactive] at h
    simpa [Case.record, Holding.ended, hslot.2.1.symm] using h
  case paid =>
    have h := hs.paid
    rw [hactive] at h
    simpa [Case.record, Holding.paid, hslot.2.2.symm] using h
  case applied =>
    rintro w amount last ⟨⟩
    refine Or.inr ⟨d, hsent, hseq, rfl, ?_⟩
    rw [answered_record, if_pos ⟨rfl, by rw [htype]; decide⟩]
    exact htype
  case newest =>
    intro slot' seq' hseq'
    rw [answered_record]
    refine fun hanswer => ⟨rfl, ?_⟩
    rintro w' amount' last' ⟨⟩
    split_ifs at hanswer with hcond
    · rw [hcond.1, hseq] at hseq'
      cases hseq'
      exact le_rfl
    · have hle := (hs.newest slot' seq' hseq' hanswer).2 w amount last hactive
      omega
  case requester =>
    intro e he id hid
    exact (hs.standing e he).requester id (by rw [hactive]; exact hid)
  case courier =>
    rintro e he w k amount ⟨⟩

/-- A release of an order that is not paid. -/
theorem Sound.recorded_release (hs : Sound c) (hpaid : c.holding.paid = false)
    (hended : h.ended = true) (hwallet : h.wallet = c.holding.wallet)
    (hreserved : h.reserved = c.holding.reserved) (htype : result.type = .released) :
    Recorded c .release result h where
  allows := fun _ => htype
  held := by
    rw [hreserved, hs.held, answered_record, if_neg (by rintro ⟨⟨⟩, -⟩)]
  ended := by simp [Case.record, htype, hended]
  paid := by
    have h' := hs.paid
    rw [hpaid] at h'
    have hp : h.paid = false := by cases h <;> first | rfl | cases hended
    simpa [Case.record, hp] using h'
  applied := by
    rintro w amount last rfl
    cases hended
  newest := by
    intro slot' seq hseq hanswer
    rw [answered_record, if_neg (by rintro ⟨rfl, -⟩; cases hseq)] at hanswer
    refine ⟨hreserved.trans (hs.newest slot' seq hseq hanswer).1, ?_⟩
    rintro w amount last rfl
    cases hended
  requester := fun e he id hid => (hs.standing e he).requester id (hwallet ▸ hid)
  courier := by
    rintro e he w k amount rfl
    cases hended

/-- A transfer that pays the courier. -/
theorem Sound.recorded_transfer (hs : Sound c) {w k : ℕ} {amount last : ℤ} {courierID : String}
    {pay : ℤ} (hsent : .transfer courierID pay ∈ c.sent)
    (hactive : c.holding = .active w amount last) (hk : c.subject k = some courierID)
    (htype : result.type = .transferred) :
    Recorded c .transfer result (.transferred w k pay) where
  allows := fun _ => htype
  held := by
    have h := hs.held
    rw [hactive] at h
    rw [answered_record, if_neg (by rintro ⟨⟨⟩, -⟩)]
    exact h
  ended := by
    have h := hs.ended
    rw [hactive] at h
    simpa [Case.record, Holding.ended] using h
  paid := by simp [Case.record, htype, Holding.paid]
  applied := by
    rintro w amount last ⟨⟩
  newest := by
    intro slot' seq hseq hanswer
    refine ⟨rfl, ?_⟩
    rintro w amount last ⟨⟩
  requester := by
    intro e he id hid
    exact (hs.standing e he).requester id (by rw [hactive]; exact hid)
  courier := by
    rintro e he w k amount ⟨⟩
    obtain ⟨-, rfl, rfl⟩ := (hs.standing e he).transferSent _ _ hsent
    exact ⟨hk, rfl⟩

/-- No release is sent for an errand whose credits were paid. -/
theorem Sound.not_paid (hs : Sound c) (hsent : .release ∈ c.sent) : c.holding.paid = false := by
  rw [← Bool.not_eq_true]
  intro hpaid
  obtain ⟨result, hanswer⟩ := Option.isSome_iff_exists.mp (hs.paid.mp hpaid)
  obtain ⟨d, hd, hslot⟩ := List.mem_map.mp (hs.answered _ _ hanswer).1
  cases d <;> cases hslot
  cases herrand : c.errand with
  | none =>
    rw [(hs.unborn herrand).1] at hsent
    cases hsent
  | some e =>
    have hst := hs.standing e herrand
    exact (hst.releaseSent hsent).2 (hst.transferSent _ _ hd).1

/-- Executing a command that was sent keeps the invariant. -/
theorem Sound.serve (hs : Sound c) {d : Demand} {m o requester : String} {version : ℤ}
    (hsent : d ∈ c.sent) (hrequester : ∀ e, c.errand = some e → requester = e.requesterID)
    (hnew : c.answer d.slot = none)
    (hserves : Serves c.subject c.holding (d.command m o requester version) result h) :
    Sound (c.record d.slot result h) := by
  refine hs.record hsent hnew ?_
  have hunanswered : ∀ {slot}, c.answer slot = none → (c.answer slot).isSome = true → False := by
    intro slot hnone hsome
    rw [hnone] at hsome
    cases hsome
  generalize hh : c.holding = before at hserves
  cases d with
  | reserve amount =>
    cases hserves with
    | reserveBarred | reserveRefused =>
      rw [← hh]
      exact hs.recorded_same hnew (fun _ => Or.inr rfl) nofun nofun (Or.inl nofun) nofun
    | reserved w hw =>
      exact hs.recorded_reserve hnew hh hsent rfl fun e he => by rw [hw, ← hrequester e he]
    | reserveAgain _ amount hreserved =>
      obtain ⟨result, hanswer, -⟩ := hs.held.mp (hh ▸ hreserved)
      exact (hunanswered hnew (by rw [Demand.slot, hanswer]; rfl)).elim
  | adjust v newAmount | revert v newAmount =>
    cases hserves with
    | adjustRefused =>
      rw [← hh]
      exact hs.recorded_same hnew (fun _ => Or.inr rfl) nofun nofun (Or.inl nofun)
        fun _ _ htype => nomatch htype
    | adjustStale w amount last hstale =>
      rw [← hh]
      refine hs.recorded_same hnew (fun _ => Or.inl rfl) nofun nofun (Or.inl nofun) ?_
      rintro seq ⟨⟩ -
      rw [hh]
      refine ⟨rfl, ?_⟩
      rintro w amount last ⟨⟩
      exact hstale
    | adjusted w amount last hnewer => exact hs.recorded_adjust hsent hnew hh rfl hnewer rfl
  | release =>
    have hpaid := hs.not_paid hsent
    cases hserves with
    | releaseFirst => exact hs.recorded_release hpaid rfl (by rw [hh]; rfl) (by rw [hh]; rfl) rfl
    | released => exact hs.recorded_release hpaid rfl (by rw [hh]; rfl) (by rw [hh]; rfl) rfl
    | releaseAgain _ hended => exact (hunanswered hnew (hs.ended.mp (hh ▸ hended))).elim
    | releaseFailed =>
      rw [hh] at hpaid
      cases hpaid
  | transfer courierID amount =>
    cases hserves with
    | transferFailed =>
      rw [← hh]
      exact hs.recorded_same hnew (fun h => absurd rfl h) nofun nofun (Or.inr rfl) nofun
    | transferAgain =>
      exact (hunanswered hnew (hs.paid.mp (by rw [hh]; rfl))).elim
    | transferred w amount last k hk => exact hs.recorded_transfer hsent hh hk rfl

/-- Only a transfer fails, and never because of the state of the reservation. -/
theorem Sound.failed (hs : Sound c) {d : Demand} {m o requester : String} {version : ℤ}
    (hsent : d ∈ c.sent)
    (hserves : Serves c.subject c.holding (d.command m o requester version) result h)
    (htype : result.type = .operationFailed)
    (hpayable : d.slot = .transfer → c.holding.payable = true) :
    d.slot = .transfer ∧
      (result.code = some .insufficientCredits ∨ result.code = some .accountNotFound) := by
  generalize hh : c.holding = before at hserves
  cases d with
  | reserve | adjust | revert => cases hserves <;> cases htype
  | release =>
    have hpaid := hs.not_paid hsent
    cases hserves with
    | releaseFailed =>
      rw [hh] at hpaid
      cases hpaid
    | releaseFirst | released | releaseAgain => cases htype
  | transfer courierID amount =>
    cases hserves with
    | transferFailed _ code hcode =>
      refine ⟨rfl, (hcode ?_).imp (congrArg some) (congrArg some)⟩
      rw [← hh]
      exact hpayable rfl
    | transferAgain | transferred => cases htype

end

end FocServices.Settlement
