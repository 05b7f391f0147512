import FocServices.Credit.Dispatch
import FocServices.Orders.Lifecycle
import FocServices.Settlement.Messages

/-!
# The contract between the services

The services have separate types for the same messages. Every credit row of a decided
transition can be published, is accepted by the credit service and becomes the command it
was meant as, and every result of the command is accepted by the order service.
-/

namespace FocServices.Settlement

open Txn Orders Credit

/-! ## Credit rows -/

/-- The row in which a transition sends a demand. -/
def Demand.row (e : Errand) (t : Transition) : Demand → Orders.OutboxRow
  | .reserve amount => creditRow e t .creditReserve "reserve" 0 { amount := amount }
  | .adjust version newAmount =>
    creditRow e t .creditAdjust "adjust" version
      { newAmount := newAmount, seq := adjustSeq version }
  | .revert version newAmount =>
    creditRow e t .creditAdjust "adjust-revert" version
      { newAmount := newAmount, seq := revertSeq version }
  | .release => creditRow e t .creditRelease "release" 0 {}
  | .transfer courierID amount =>
    creditRow e t .creditTransfer "transfer" 0 { courierID := courierID, amount := amount }

/-- The arguments both services ask for. -/
def Demand.Proper (e : Errand) (newVersion : ℕ) : Demand → Prop
  | .reserve amount => 0 < amount
  | .adjust version newAmount | .revert version newAmount =>
    0 < version ∧ version ≤ newVersion ∧ 0 < newAmount
  | .release => True
  | .transfer courierID amount =>
    courierID = e.courierID ∧ courierID ≠ "" ∧ courierID ≠ e.requesterID ∧ 0 < amount

section

variable {e : Errand} {input : EventInput} {t : Transition}

theorem rows_of_yields {target : Status} {version : ℕ} {details : Details} {courierID : String}
    {pendingEdit : Option PendingEdit} {credit : List Orders.OutboxRow} {names : List EventName}
    (hy : Yields e t target version details courierID pendingEdit credit names)
    (hcredit : ∀ row ∈ credit, ∃ d : Demand, row = d.row e t ∧ d.Proper e t.newVersion) :
    ∀ row ∈ t.outbox, (∃ d : Demand, row = d.row e t ∧ d.Proper e t.newVersion) ∨
      ∃ name, row = eventRow e (t.applyTo e) t name := by
  rw [hy.outbox, List.forall_mem_append]
  refine ⟨fun row hrow => Or.inl (hcredit row hrow), fun row hrow => ?_⟩
  obtain ⟨name, -, rfl⟩ := List.mem_map.mp hrow
  exact Or.inr ⟨name, rfl⟩

/-- The credit rows of a transition are proper demands. -/
theorem rows_of_move (hm : Move e input t) (hw : WellFormed e) :
    ∀ row ∈ t.outbox, (∃ d : Demand, row = d.row e t ∧ d.Proper e t.newVersion) ∨
      ∃ name, row = eventRow e (t.applyTo e) t name := by
  have hrelease : ∀ row ∈ [releaseRow e t],
      ∃ d : Demand, row = d.row e t ∧ d.Proper e t.newVersion := by
    intro row hrow
    exact ⟨.release, List.mem_singleton.mp hrow, trivial⟩
  have hrevert : e.status = .open → t.newVersion = e.version + 1 → ∀ reverts : Bool,
      ∀ row ∈ (if reverts then [revertRow e t] else []),
        ∃ d : Demand, row = d.row e t ∧ d.Proper e t.newVersion := by
    intro hstatus hversion reverts row hrow
    have hreward := (hw.stored (by rw [hstatus]; decide)).2.reward
    cases reverts with
    | false => cases hrow
    | true =>
      refine ⟨.revert t.newVersion e.details.reward, List.mem_singleton.mp hrow, ?_, le_rfl, hreward⟩
      omega
  cases hm with
  | submit _ _ _ hreward hy =>
    refine rows_of_yields hy fun row hrow => ?_
    exact ⟨.reserve e.details.reward, List.mem_singleton.mp hrow, hreward⟩
  | requestEdit p hstatus _ _ _ hpositive _ hy =>
    refine rows_of_yields hy fun row hrow => ?_
    have hpos := (hw.stored (by rw [hstatus]; decide)).1
    exact ⟨.adjust e.version p.details.reward, List.mem_singleton.mp hrow, hpos,
      hy.version.ge, hpositive⟩
  | complete hstatus hy =>
    have hlive : e.status.hasCourier = true ∧ e.status ≠ .none := by
      rcases hstatus with ⟨hs, -⟩ | ⟨hs, -⟩ <;> rw [hs] <;> decide
    have hreward := (hw.stored hlive.2).2.reward
    have hcourier := hw.courier
    rw [if_pos hlive.1] at hcourier
    refine rows_of_yields hy fun row hrow => ?_
    exact ⟨.transfer e.courierID e.details.reward, List.mem_singleton.mp hrow, rfl, hcourier.1,
      hcourier.2.1, hreward⟩
  | refuseEdit _ hstatus _ _ _ hy => exact rows_of_yields hy (hrevert hstatus hy.version _)
  | accept hstatus _ _ _ hy => exact rows_of_yields hy (hrevert hstatus hy.version _)
  | fail _ _ hy | withdraw _ _ _ hy | expire _ _ hy | refund _ _ hy =>
    exact rows_of_yields hy hrelease
  | «open» _ _ hy | refuse _ _ hy | edit _ _ _ _ _ _ hy | confirmEdit _ _ _ _ _ hy
  | reopen _ _ hy | proceed _ _ hy => exact rows_of_yields hy (List.forall_mem_nil _)

/-! ## From a row to a command -/

/-- A key fits into the identifier of a message. -/
theorem size_key {errandID : String} (hid : uuidPattern errandID = true) {slot : Slot}
    (hversion : slot.operation.2 < 2 ^ 63) :
    slot.key errandID ≠ "" ∧ (slot.key errandID).utf8ByteSize ≤ 255 := by
  have hsize := utf8ByteSize_uuid hid
  have hdigits : (toString slot.operation.2).utf8ByteSize ≤ 19 :=
    utf8ByteSize_repr_le (by decide) (by omega)
  have hoperation : slot.operation.1.utf8ByteSize ≤ 13 := by
    cases slot <;> simp [Slot.operation] <;> decide
  have hcolon : ":".utf8ByteSize = 1 := rfl
  have hbounds : 36 ≤ (slot.key errandID).utf8ByteSize ∧
      (slot.key errandID).utf8ByteSize ≤ 255 := by
    unfold Slot.key idempotencyKey
    split <;> simp only [String.utf8ByteSize_append, hsize, hcolon] <;> omega
  refine ⟨fun hempty => ?_, hbounds.2⟩
  rw [hempty] at hbounds
  exact absurd hbounds.1 (by decide)

/-- The version in the key of a proper demand is the errand's or less. -/
theorem version_of_proper {d : Demand} (hproper : d.Proper e t.newVersion) :
    d.slot.operation.2 ≤ t.newVersion := by
  cases d with
  | reserve amount | release | transfer courierID amount => exact Nat.zero_le _
  | adjust version newAmount | revert version newAmount => exact hproper.2.1

/-- The part of the check of a command that depends on its kind. -/
def CreditCommand.Passes (data : CreditCommand) : Kind → Prop
  | .creditReserve => 0 < data.amount
  | .creditTransfer => 0 < data.amount ∧ data.courierID ≠ ""
  | .creditAdjust => 0 < data.newAmount ∧ 0 < data.seq
  | .creditRelease => True
  | .event _ => False

/-- The message a credit row is published as. -/
def commandMessage (e : Errand) (t : Transition) (kind : Kind) (operation : String) (version : ℕ)
    (data : CreditCommand) : CommandMessage where
  messageID := idempotencyKey e.id operation version
  kind := kind
  errandID := e.id
  errandVersion := t.newVersion
  data := { data with
    errandID := e.id
    errandVersion := t.newVersion
    requesterID := e.requesterID }

/-- A credit row that passes the checks is published, and what is published is decoded to
the command for its kind. -/
theorem decode_creditRow {kind : Kind} {operation : String} {version : ℕ} {data : CreditCommand}
    (hkey : idempotencyKey e.id operation version ≠ "")
    (hsize : (idempotencyKey e.id operation version).utf8ByteSize ≤ 255) (hid : e.id ≠ "")
    (hversion : 1 ≤ t.newVersion) (hrequester : e.requesterID ≠ "")
    (hpasses : CreditCommand.Passes data kind) :
    messageFromOutbox (creditRow e t kind operation version data) =
        some (commandMessage e t kind operation version data) ∧
      (commandMessage e t kind operation version data).decode =
        (commandMessage e t kind operation version data).command := by
  have hencodes : (commandMessage e t kind operation version data).encodes = true := by
    cases kind <;> simp_all [CommandMessage.encodes, CreditCommand.Passes, commandMessage]
  have hidentity : ¬ (e.id ≠ e.id ∨ t.newVersion < 1) := by
    rintro (hother | hzero)
    · exact hother rfl
    · omega
  constructor
  · exact (if_neg hidentity).trans (if_pos hencodes)
  · unfold CommandMessage.decode
    rw [if_neg]
    simp only [commandMessage, hkey, hid, equalFold]
    simp
    omega

/-- The message of a proper demand can be published and is accepted with the command. -/
theorem decode_row {d : Demand} (hproper : d.Proper e t.newVersion)
    (hid : uuidPattern e.id = true) (hversion : 1 ≤ t.newVersion)
    (hfits : t.newVersion < 2 ^ 63) (hrequester : e.requesterID ≠ "") :
    ∃ m, messageFromOutbox (d.row e t) = some m ∧ m.kind = (d.row e t).kind ∧
      m.decode = some (d.command (d.slot.key e.id) e.id e.requesterID t.newVersion) := by
  obtain ⟨hkey, hsize⟩ := size_key hid
    (lt_of_le_of_lt (version_of_proper hproper) hfits : d.slot.operation.2 < 2 ^ 63)
  have hnonempty : e.id ≠ "" := by
    rintro hempty
    rw [hempty] at hid
    exact absurd hid (by decide)
  have haccept : ∀ {kind : Kind} {data : CreditCommand}, CreditCommand.Passes data kind →
      ∃ m, messageFromOutbox (creditRow e t kind d.slot.operation.1 d.slot.operation.2 data) =
          some m ∧ m.kind = kind ∧ m.decode =
            (commandMessage e t kind d.slot.operation.1 d.slot.operation.2 data).command := by
    intro kind data hpasses
    obtain ⟨hpublished, hdecoded⟩ :=
      decode_creditRow hkey hsize hnonempty hversion hrequester hpasses
    exact ⟨_, hpublished, rfl, hdecoded⟩
  cases d with
  | reserve amount => exact haccept hproper
  | adjust version newAmount =>
    refine haccept ⟨hproper.2.2, ?_⟩
    have hpos := hproper.1
    change 0 < 2 * (version : ℤ)
    omega
  | revert version newAmount =>
    refine haccept ⟨hproper.2.2, ?_⟩
    have hpos := hproper.1
    change 0 < 2 * (version : ℤ) - 1
    omega
  | release => exact haccept trivial
  | transfer courierID amount => exact haccept ⟨hproper.2.2.2, hproper.2.1⟩

/-- The command of a proper demand passes its checks. -/
theorem validate_command {d : Demand} (hproper : d.Proper e t.newVersion)
    (hid : Canonical e.id) (hfits : t.newVersion < 2 ^ 63)
    (hrequester : validateSubject e.requesterID = .ok ())
    (hcourier : e.courierID ≠ "" → validateSubject e.courierID = .ok ()) :
    (d.command (d.slot.key e.id) e.id e.requesterID t.newVersion).validate = .ok e.id := by
  obtain ⟨hpattern, hlower⟩ := uuidPattern_of_canonical hid
  obtain ⟨hkey, hsize⟩ := size_key hpattern
    (lt_of_le_of_lt (version_of_proper hproper) hfits : d.slot.operation.2 < 2 ^ 63)
  have horder : validateOrderID e.id = .ok e.id := by
    rw [validateOrderID, if_pos hpattern, hlower]
  have hmessage : ¬ (d.slot.key e.id = "" ∨
      maxMessageIDLength < (d.slot.key e.id).utf8ByteSize) := by
    rintro (hempty | hlong)
    · exact hkey hempty
    · unfold maxMessageIDLength at hlong
      omega
  have hlast : ∀ orderID, (do
      if d.slot.key e.id = "" ∨ maxMessageIDLength < (d.slot.key e.id).utf8ByteSize then
        throw (invalid "message id must be 1 to 512 characters")
      return orderID : Except ServiceError String) = .ok orderID :=
    fun orderID => check_eq_ok.mpr ⟨hmessage, rfl⟩
  cases d with
  | reserve amount =>
    have hamount : ¬ amount ≤ 0 := not_le.mpr hproper
    refine bind_eq_ok.mpr ⟨_, horder, bind_eq_ok.mpr ⟨_, hrequester, ?_⟩⟩
    exact check_eq_ok.mpr ⟨hamount, hlast _⟩
  | adjust version newAmount =>
    have hamount : ¬ newAmount ≤ 0 := not_le.mpr hproper.2.2
    have hseq : ¬ adjustSeq version ≤ 0 := by
      have hpos := hproper.1
      unfold adjustSeq
      omega
    refine bind_eq_ok.mpr ⟨_, horder, bind_eq_ok.mpr ⟨_, hrequester, ?_⟩⟩
    exact check_eq_ok.mpr ⟨hamount, check_eq_ok.mpr ⟨hseq, hlast _⟩⟩
  | revert version newAmount =>
    have hamount : ¬ newAmount ≤ 0 := not_le.mpr hproper.2.2
    have hseq : ¬ revertSeq version ≤ 0 := by
      have hpos := hproper.1
      unfold revertSeq
      omega
    refine bind_eq_ok.mpr ⟨_, horder, bind_eq_ok.mpr ⟨_, hrequester, ?_⟩⟩
    exact check_eq_ok.mpr ⟨hamount, check_eq_ok.mpr ⟨hseq, hlast _⟩⟩
  | release => exact bind_eq_ok.mpr ⟨_, horder, bind_eq_ok.mpr ⟨_, hrequester, hlast _⟩⟩
  | transfer courierID amount =>
    obtain ⟨rfl, hnonempty, hother, hamount⟩ := hproper
    refine bind_eq_ok.mpr ⟨_, horder, bind_eq_ok.mpr ⟨_, hrequester,
      bind_eq_ok.mpr ⟨_, hcourier hnonempty, check_eq_ok.mpr ⟨hother, ?_⟩⟩⟩⟩
    exact check_eq_ok.mpr ⟨not_le.mpr hamount, hlast _⟩

/-! ## From a result to the order service -/

/-- The kind of the message a command comes in. -/
def commandKind : Command → Kind
  | .reserve _ _ => .creditReserve
  | .adjust _ _ => .creditAdjust
  | .release _ _ => .creditRelease
  | .transfer _ _ => .creditTransfer

/-- The results of a command of a kind. A refusal and a failure have a code. -/
def AnswersKind (result : Result) : Kind → Prop
  | .creditReserve =>
    result.type = .reserved ∨ result.type = .reservationRefused ∧ result.code.isSome = true
  | .creditAdjust =>
    result.type = .adjusted ∨ result.type = .adjustRefused ∧ result.code.isSome = true
  | .creditRelease =>
    result.type = .released ∨ result.type = .operationFailed ∧ result.code.isSome = true
  | .creditTransfer =>
    result.type = .transferred ∨ result.type = .operationFailed ∧ result.code.isSome = true
  | .event _ => False

theorem answers_of_outcome {s : Credit.Tables} {o : String} {cmd : Command} {result : Result}
    {effect : Effect} (h : Outcome s o cmd result effect) : AnswersKind result (commandKind cmd) := by
  cases h <;> first | exact Or.inl rfl | exact Or.inr ⟨rfl, rfl⟩

/-- A command answers as its kind does if what is stored for its message does. -/
theorem answers_of_execution {s s' : Credit.Tables} {n n' : ℕ} {recorder : Option ℤ} {o : String}
    {cmd : Command} {result : Result} (hx : Execution s n n' recorder o cmd result s')
    (hstored : ∀ r, s.resultOf cmd.messageID = some r → AnswersKind r (commandKind cmd)) :
    AnswersKind result (commandKind cmd) := by
  cases hx with
  | replay h => exact hstored result h
  | first effect hnew hout hfresh => exact answers_of_outcome hout

/-- The commands of a history that carry the message are of the kind. -/
def OfKind (m : String) (kind : Kind) (requests : List Request) : Prop :=
  ∀ recorder cmd, Request.order recorder cmd ∈ requests → cmd.messageID = m → commandKind cmd = kind

/-- One request keeps that the stored result of a message is one of its kind. -/
theorem stored_perform {hash : String → ℤ} {st : Credit.Tables × ℕ} (hbooks : Books st.1 st.2)
    {m : String} {kind : Kind} (hstored : ∀ r, st.1.resultOf m = some r → AnswersKind r kind)
    (request : Request)
    (hkind : ∀ recorder cmd, request = .order recorder cmd → cmd.messageID = m →
      commandKind cmd = kind) :
    ∀ r, (request.perform hash st).1.resultOf m = some r → AnswersKind r kind := by
  obtain ⟨s, n⟩ := st
  cases request with
  | createWallet initialCredit ownerID subject =>
    have hopens : OpensWallets s
        ((Request.createWallet initialCredit ownerID subject).perform hash (s, n)).1 :=
      createWallet_opensWallets _ _ _
    intro r hr
    rw [Tables.resultOf, hopens.processed] at hr
    exact hstored r hr
  | order recorder cmd =>
    intro r hr
    have hspec : (Credit.engine hash).wp Admissible _ (cmd.body recorder) s n :=
      Command.body_spec hbooks cmd
    rcases Engine.wp_atomically hspec with ⟨result, _, hpost⟩ | ⟨err, _, hsame⟩
    · obtain ⟨o, hv, hx⟩ := hpost result rfl
      simp only [Request.perform] at hr
      rw [hx.resultOf] at hr
      cases hold : s.resultOf m with
      | some r₀ =>
        rw [hold] at hr
        cases hr
        exact hstored r hold
      | none =>
        rw [hold] at hr
        simp only [Option.orElse_none] at hr
        split at hr
        · next hcond =>
          cases hr
          have hkind := hkind recorder cmd rfl hcond.1.symm
          rw [← hkind]
          refine answers_of_execution hx fun r₀ hr₀ => ?_
          rw [← hcond.1, hold] at hr₀
          cases hr₀
        · cases hr
    · simp only [Request.perform] at hr
      rw [hsame] at hr
      exact hstored r hr

theorem stored_serve (hash : String → ℤ) {m : String} {kind : Kind} {requests : List Request}
    (hkind : OfKind m kind requests) :
    ∀ r, (serve hash requests).1.resultOf m = some r → AnswersKind r kind := by
  have hrun : ∀ st : Credit.Tables × ℕ, Books st.1 st.2 →
      (∀ r, st.1.resultOf m = some r → AnswersKind r kind) →
      ∀ r, (serveFrom hash st requests).1.resultOf m = some r → AnswersKind r kind := by
    induction requests with
    | nil => exact fun _ _ hstored => hstored
    | cons request requests ih =>
      intro st hbooks hstored
      refine ih (fun recorder cmd hmem => hkind recorder cmd (List.mem_cons_of_mem _ hmem)) _
        (hbooks.perform request) (stored_perform hbooks hstored request ?_)
      rintro recorder cmd rfl
      exact hkind recorder cmd List.mem_cons_self
  exact hrun ({}, 0) (books_empty 0) nofun

/-- What a command answers after a history in which its message stands for commands of its
kind. -/
theorem answers_of_answer {hash : String → ℤ} {requests : List Request} {recorder : Option ℤ}
    {cmd : Command} {result : Result}
    (hkind : OfKind cmd.messageID (commandKind cmd) requests)
    (hanswer : cmd.answer hash recorder (serve hash requests) = .ok result) :
    AnswersKind result (commandKind cmd) := by
  have hbooks : Books (serve hash requests).1 (serve hash requests).2 := books_serve requests
  have hstored := stored_serve hash hkind
  generalize serve hash requests = st at hanswer hbooks hstored
  obtain ⟨s, n⟩ := st
  have hspec : (Credit.engine hash).wp Admissible _ (cmd.body recorder) s n :=
    Command.body_spec hbooks cmd
  simp only [Command.answer] at hanswer
  rcases Engine.wp_atomically hspec with ⟨result', hok, hpost⟩ | ⟨err, herr, _⟩
  · rw [hanswer] at hok
    cases hok
    obtain ⟨o, hv, hx⟩ := hpost result rfl
    exact answers_of_execution hx hstored
  · rw [hanswer] at herr
    cases herr

theorem commandKind_command (d : Demand) (m o requester : String) (version : ℤ) :
    commandKind (d.command m o requester version) = (d.row e t).kind := by
  cases d <;> rfl

/-- The key of an adjustment begins like one. -/
theorem adjust_startsWith {errandID operation : String} {version : ℕ} (hversion : 0 < version) :
    (errandID ++ ":" ++ operation ++ ":").toList <+:
      (idempotencyKey errandID operation version).toList := by
  simp only [idempotencyKey, if_pos hversion, String.toList_append]
  exact List.prefix_append _ _

theorem key_startsWith (errandID : String) (slot : Slot) :
    (errandID ++ ":").toList <+: (slot.key errandID).toList := by
  unfold Slot.key idempotencyKey
  split <;> simp only [String.toList_append, List.append_assoc] <;>
    exact List.prefix_append_right_inj _ |>.mpr (List.prefix_append _ _)

/-- The check of the command's identifier for a type of result. -/
def Correlates (errandID correlationID : String) : ResultType → Bool
  | .reserved | .reservationRefused => correlationID = idempotencyKey errandID "reserve" 0
  | .adjusted | .adjustRefused =>
    ((errandID ++ ":adjust:").toList <+: correlationID.toList) ||
      ((errandID ++ ":adjust-revert:").toList <+: correlationID.toList)
  | .released => correlationID = idempotencyKey errandID "release" 0
  | .transferred => correlationID = idempotencyKey errandID "transfer" 0
  | .operationFailed => true

/-- Whether a type of result needs a code. -/
def NeedsCode : ResultType → Bool
  | .reservationRefused | .adjustRefused | .operationFailed => true
  | _ => false

theorem acceptsResult_iff (env : Envelope) : acceptsResult env = true ↔
    env.errandID ≠ "" ∧ env.correlationID ≠ "" ∧
      (env.errandID ++ ":").toList <+: env.correlationID.toList ∧
      Correlates env.errandID env.correlationID env.type = true ∧
      (NeedsCode env.type = true → env.code.isSome = true) := by
  unfold acceptsResult Correlates NeedsCode
  cases env.type <;> simp [and_assoc]

/-- The order service accepts every result of a proper demand. -/
theorem acceptsResult_row {d : Demand} (hproper : d.Proper e t.newVersion) (hid : e.id ≠ "")
    {result : Result} (hanswers : AnswersKind result (d.row e t).kind) (version now : ℤ) :
    acceptsResult (buildResult
      ((d.command (d.slot.key e.id) e.id e.requesterID version).reply e.id) result now) = true := by
  have hmessage : (d.command (d.slot.key e.id) e.id e.requesterID version).messageID =
      d.slot.key e.id := by cases d <;> rfl
  have hprefix := key_startsWith e.id d.slot
  have hkey : d.slot.key e.id ≠ "" := by
    intro hempty
    rw [hempty] at hprefix
    simpa using List.eq_nil_of_prefix_nil hprefix
  rw [acceptsResult_iff]
  simp only [buildResult, Command.reply, hmessage]
  refine ⟨hid, hkey, hprefix, ?_⟩
  cases d with
  | reserve amount =>
    rcases hanswers with htype | ⟨htype, hcode⟩ <;> rw [htype]
    · exact ⟨decide_eq_true rfl, fun h => by cases h⟩
    · exact ⟨decide_eq_true rfl, fun _ => hcode⟩
  | adjust v newAmount =>
    have hadjust : (e.id ++ ":adjust:").toList <+: (Slot.key e.id (.adjust v)).toList := by
      have hbegins := @adjust_startsWith e.id "adjust" v hproper.1
      simpa [Slot.key, Slot.operation] using hbegins
    have hcorrelates : (decide ((e.id ++ ":adjust:").toList <+: (Slot.key e.id (.adjust v)).toList) ||
        decide ((e.id ++ ":adjust-revert:").toList <+: (Slot.key e.id (.adjust v)).toList)) =
          true := by
      rw [decide_eq_true hadjust]
      rfl
    rcases hanswers with htype | ⟨htype, hcode⟩ <;> rw [htype]
    · exact ⟨hcorrelates, fun h => by cases h⟩
    · exact ⟨hcorrelates, fun _ => hcode⟩
  | revert v newAmount =>
    have hrevert : (e.id ++ ":adjust-revert:").toList <+: (Slot.key e.id (.revert v)).toList := by
      have hbegins := @adjust_startsWith e.id "adjust-revert" v hproper.1
      simpa [Slot.key, Slot.operation] using hbegins
    have hcorrelates : (decide ((e.id ++ ":adjust:").toList <+: (Slot.key e.id (.revert v)).toList) ||
        decide ((e.id ++ ":adjust-revert:").toList <+: (Slot.key e.id (.revert v)).toList)) =
          true := by
      rw [decide_eq_true hrevert, Bool.or_true]
    rcases hanswers with htype | ⟨htype, hcode⟩ <;> rw [htype]
    · exact ⟨hcorrelates, fun h => by cases h⟩
    · exact ⟨hcorrelates, fun _ => hcode⟩
  | release | transfer courierID amount =>
    rcases hanswers with htype | ⟨htype, hcode⟩ <;> rw [htype]
    · exact ⟨decide_eq_true rfl, fun h => by cases h⟩
    · exact ⟨rfl, fun _ => hcode⟩

end

/-! ## The contract -/

/-- The command asks for what the row says. -/
def Carries (row : Orders.OutboxRow) (data : CreditCommand) (cmd : Command) : Prop :=
  match row.kind with
  | .creditReserve => cmd = .reserve row.idempotencyKey
      ⟨row.errandID, data.errandVersion, data.requesterID, data.amount⟩
  | .creditAdjust => cmd = .adjust row.idempotencyKey
      ⟨row.errandID, data.errandVersion, data.requesterID, data.newAmount, data.seq⟩
  | .creditRelease => cmd = .release row.idempotencyKey
      ⟨row.errandID, data.errandVersion, data.requesterID⟩
  | .creditTransfer => cmd = .transfer row.idempotencyKey
      ⟨row.errandID, data.errandVersion, data.requesterID, data.courierID, data.amount⟩
  | .event _ => False

/-- The services agree on a row: it is published and decoded under its kind to the command
it describes, the command is valid, and whatever the credit service answers to it is
accepted by the order service as the answer to the row. A message identifier stands for
commands of one kind. -/
def Agreed (row : Orders.OutboxRow) (data : CreditCommand) : Prop :=
  ∃ m cmd, messageFromOutbox row = some m ∧ m.kind = row.kind ∧ m.decode = some cmd ∧
    Carries row data cmd ∧ cmd.validate = .ok row.errandID ∧
    ∀ hash requests recorder result, OfKind cmd.messageID row.kind requests →
      cmd.answer hash recorder (serve hash requests) = .ok result → ∀ now,
        let env := buildResult (cmd.reply row.errandID) result now
        acceptsResult env = true ∧ env.correlationID = row.idempotencyKey ∧ env.result = result

theorem agreed_row {e : Errand} {t : Transition} {d : Demand} (hproper : d.Proper e t.newVersion)
    (hid : Canonical e.id) (hversion : 1 ≤ t.newVersion) (hfits : t.newVersion < 2 ^ 63)
    (hrequester : validateSubject e.requesterID = .ok ())
    (hcourier : e.courierID ≠ "" → validateSubject e.courierID = .ok ()) {data : CreditCommand}
    (hdata : (d.row e t).payload = .credit data) : Agreed (d.row e t) data := by
  have hpattern := (uuidPattern_of_canonical hid).1
  have hnonempty : e.id ≠ "" := by
    rintro hempty
    rw [hempty] at hpattern
    exact absurd hpattern (by decide)
  have hnamed : e.requesterID ≠ "" := by
    intro hempty
    rw [hempty] at hrequester
    exact absurd hrequester (by decide)
  obtain ⟨m, hpublished, hkind, hdecoded⟩ := decode_row hproper hpattern hversion hfits hnamed
  have hrow : (d.row e t).errandID = e.id := by cases d <;> rfl
  refine ⟨m, _, hpublished, hkind, hdecoded, ?_, ?_, ?_⟩
  · cases d <;> cases hdata <;> rfl
  · rw [hrow]
    exact validate_command hproper hid hfits hrequester hcourier
  · intro hash requests recorder result hofKind hanswer now
    have hcommandKind := commandKind_command (e := e) (t := t) d (d.slot.key e.id) e.id
      e.requesterID t.newVersion
    have hanswers : AnswersKind result (d.row e t).kind := by
      rw [← hcommandKind] at hofKind ⊢
      exact answers_of_answer hofKind hanswer
    rw [hrow]
    refine ⟨acceptsResult_row hproper hnonempty hanswers _ now, ?_, rfl⟩
    cases d <;> rfl

/-- The services agree on every credit row that a transition of an errand sends. -/
theorem credit_rows_agreed {e : Errand} {t : Transition} (h : Taken e t) (hid : Canonical e.id)
    (hfits : t.newVersion < 2 ^ 63) (hrequester : validateSubject e.requesterID = .ok ())
    (hcourier : e.courierID ≠ "" → validateSubject e.courierID = .ok ()) :
    ∀ row ∈ t.outbox, ∀ data, row.payload = .credit data → Agreed row data := by
  intro row hrow data hdata
  obtain ⟨hbefore, hafter, -⟩ := h.wellFormed
  have hdecided : ∃ ev actor input now, next e ev actor input now = .ok t := by
    cases h with
    | submit h => exact ⟨_, _, _, _, h⟩
    | step _ h => exact ⟨_, _, _, _, h⟩
  obtain ⟨ev, actor, input, now, hnext⟩ := hdecided
  have hm := next_move hnext
  have hversion : 1 ≤ t.newVersion := (hafter.stored hm.status.1).1
  rcases rows_of_move hm hbefore row hrow with ⟨d, rfl, hproper⟩ | ⟨name, rfl⟩
  · exact agreed_row hproper hid hversion hfits hrequester hcourier hdata
  · cases hdata

/-- The services agree on the request for a reservation. -/
theorem credit_rows_agreed_submit : ∃ t row data,
    next sampleErrand .submit ⟨.requester, "auth0|requester"⟩ {} 0 = .ok t ∧ row ∈ t.outbox ∧
      row.payload = .credit data ∧ Agreed row data := by
  have hsends : ((next sampleErrand .submit ⟨.requester, "auth0|requester"⟩ {} 0).toOption.bind
      fun t => t.outbox.head?).map Orders.OutboxRow.payload =
        some (.credit ⟨sampleErrand.id, 1, "auth0|requester", "", 5, 0, 0⟩) := by decide
  cases hnext : next sampleErrand .submit ⟨.requester, "auth0|requester"⟩ {} 0 with
  | ok t =>
    rw [hnext] at hsends
    obtain ⟨row, hhead, hpayload⟩ := Option.map_eq_some_iff.mp hsends
    have hrow : row ∈ t.outbox := List.mem_of_mem_head? hhead
    have htaken : Taken (newErrand sampleErrand.id sampleErrand.requesterID
      sampleErrand.createIdempotencyKey sampleErrand.details) t := .submit hnext
    have hversion : t.newVersion = 1 := by
      have hone : ((next sampleErrand .submit ⟨.requester, "auth0|requester"⟩ {} 0).toOption.map
          Transition.newVersion) = some 1 := by decide
      rw [hnext] at hone
      exact Option.some.inj hone
    exact ⟨t, row, _, rfl, hrow, hpayload, credit_rows_agreed htaken (by decide)
      (by rw [hversion]; decide) (by decide) (fun h => absurd rfl h) row hrow _ hpayload⟩
  | error err =>
    rw [hnext] at hsends
    cases hsends

end FocServices.Settlement
