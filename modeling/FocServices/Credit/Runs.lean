import FocServices.Credit.Outcomes

/-!
# Runs of the credit service

A committed command either answers a stored result or has an outcome of its branches,
stores the result and sends it. Any sequence of requests to a service that starts with
empty tables keeps the books in agreement.
-/

namespace FocServices.Credit

open Txn

/-! ## Committed commands -/

/-- Store the result of a message, unless the operation failed. -/
def Tables.storeResult (s : Tables) (messageID : String) (result : Result) : Tables :=
  if result.type = .operationFailed then s
  else { s with processed := s.processed ++ [(messageID, result)] }

/-- The tables after `Enqueue`: a new row, or a row to be published again. -/
def Tables.enqueue (s : Tables) (key : String) (routingKey : ResultType) (payload : Envelope)
    (now : ℤ) : Tables :=
  match findRow OutboxRow.idempotencyKey key s.outbox with
  | none =>
    let row : OutboxRow :=
      { idempotencyKey := key, routingKey := routingKey, payload := payload, nextAttemptAt := now }
    { s with outbox := s.outbox ++ [row] }
  | some row =>
    if row.status = .pending then s
    else
      { s with
        outbox := updateRow OutboxRow.idempotencyKey key (fun row => row.reset now) s.outbox }

/-- The tables after the result recorder, if there is one. -/
def Tables.recorded (s : Tables) (recorder : Option ℤ) (reply : Reply) (result : Result) :
    Tables :=
  match recorder with
  | none => s
  | some now =>
    let env := buildResult reply result now
    s.enqueue env.messageID env.type env now

/-- The command a result of `cmd` answers. -/
def Command.reply (cmd : Command) (orderID : String) : Reply :=
  { commandMessageID := cmd.messageID, orderID := orderID, errandVersion := cmd.errandVersion }

/-- A committed command, between two serial numbers: the stored result of its message
again, or an outcome with its effect. -/
inductive Execution (s : Tables) (n n' : ℕ) (recorder : Option ℤ) (o : String) (cmd : Command) :
    Result → Tables → Prop where
  | replay {result} (hstored : s.resultOf cmd.messageID = some result) :
      Execution s n n' recorder o cmd result (s.recorded recorder (cmd.reply o) result)
  | first {result} (e : Effect) (hnew : s.resultOf cmd.messageID = none)
      (hout : Outcome s o cmd result e) (hfresh : e.Fresh n n') :
      Execution s n n' recorder o cmd result
        (((e.apply s).storeResult cmd.messageID result).recorded recorder (cmd.reply o) result)

/-- The postcondition of a command. -/
def Committed (s : Tables) (n : ℕ) (recorder : Option ℤ) (o : String) (cmd : Command) :
    Except ServiceError Result → Tables → ℕ → Prop
  | .ok result, s', n' => Execution s n n' recorder o cmd result s'
  | .error _, _, _ => True

section Rules

variable {hash : String → ℤ} {α : Type} {post : Except ServiceError α → Tables → ℕ → Prop}
  {s : Tables} {n : ℕ}

theorem wp_enqueue {key : String} {routingKey : ResultType} {payload : Envelope} {now : ℤ}
    {next : Except RepoError Unit → Tx α}
    (h : (engine hash).wp Admissible post (next (.ok ())) (s.enqueue key routingKey payload now)
      (n + 1)) :
    (engine hash).wp Admissible post (.stmt (.enqueue key routingKey payload now) next) s n := by
  refine ⟨trivial, ?_⟩
  unfold Tables.enqueue at h
  simp only [Engine.storeAfter, Engine.execAlone, engine, exec]
  cases hrow : findRow OutboxRow.idempotencyKey key s.outbox with
  | none =>
    simp only [hrow] at h
    exact h
  | some row =>
    simp only [hrow] at h
    by_cases hpending : row.status = .pending
    · simp only [if_pos hpending] at h ⊢
      exact h
    · simp only [if_neg hpending] at h ⊢
      exact h

/-- Recording a result changes the outbox only. -/
theorem wp_record {recorder : Option ℤ} {reply : Reply} {result : Result} {next : Unit → Tx α}
    (hok : ∀ n', n ≤ n' →
      (engine hash).wp Admissible post (next ()) (s.recorded recorder reply result) n')
    (herr : ∀ e, post (.error e) s n) :
    (engine hash).wp Admissible post (record recorder reply result >>= next) s n := by
  cases recorder with
  | none => exact hok n le_rfl
  | some now =>
    simp only [record, recordResult]
    by_cases hversion : reply.errandVersion < 1
    · rw [if_pos hversion]
      exact herr _
    · rw [if_neg hversion]
      simp only [query, Program.call_bind, Program.stmt_bind]
      exact wp_enqueue (hok (n + 1) (Nat.le_succ n))

end Rules

section Commands

variable {hash : String → ℤ} {s : Tables} {n : ℕ} {o : String} {recorder : Option ℤ}

/-- `execute` commits what its operation did. -/
theorem execute_spec {cmd : Command} (hm : cmd.messageID ≠ "")
    (hop : (engine hash).wp Admissible (Did s (n + 2) o cmd) (cmd.op o) s (n + 2)) :
    (engine hash).wp Admissible (Committed s n recorder o cmd)
      (execute recorder cmd.messageID { orderID := o, errandVersion := cmd.errandVersion }
        (cmd.op o)) s n := by
  simp only [execute, query, Program.call_bind]
  refine wp_lockCommand ?_
  simp only [orFail_ok, Program.pure_bind]
  refine wp_getProcessed (fun result hstored => ?_) (fun hnew => ?_)
  · simp only [Program.pure_eq, Program.pure_bind]
    exact wp_record (fun _ _ => Execution.replay hstored) fun _ => trivial
  dsimp only
  rw [Engine.wp_bind]
  refine Engine.wp_mono hop ?_
  rintro (e | result) s' n' hdid
  · trivial
  obtain ⟨e, hout, rfl, hfresh⟩ := hdid
  have hfresh' : ∀ n'', n' ≤ n'' → e.Fresh n n'' := by
    intro n'' hn i w o' a he
    have := hfresh i w o' a he
    omega
  have hdone : ∀ n'', n' ≤ n'' → Execution s n n'' recorder o cmd result
      (((e.apply s).storeResult cmd.messageID result).recorded recorder (cmd.reply o) result) :=
    fun n'' hn => .first e hnew hout (hfresh' n'' hn)
  dsimp only
  by_cases hfailed : result.type = .operationFailed
  · rw [if_pos hfailed]
    simp only [Tables.storeResult, if_pos hfailed] at hdone
    exact wp_record hdone fun _ => trivial
  · rw [if_neg hfailed]
    simp only [Tables.storeResult, if_neg hfailed] at hdone
    refine wp_insertProcessed hm ?_ ?_
    · rw [Tables.resultOf, Effect.processed_apply]
      exact hnew
    · simp only [orFail_ok, Program.pure_bind]
      exact wp_record (fun n'' hn => hdone n'' (by omega)) fun _ => trivial

theorem validateOrderID_ok {raw : String} (h : validateOrderID raw = .ok o) :
    o = toLower raw ∧ uuidPattern raw = true := by
  unfold validateOrderID at h
  split at h
  · next huuid => exact ⟨(Except.ok.inj h).symm, huuid⟩
  · cases h

/-- What a command that passes the checks is. -/
theorem Command.validate_ok {cmd : Command} (h : cmd.validate = .ok o) :
    validateOrderID cmd.rawOrderID = .ok o ∧ cmd.Valid ∧ cmd.messageID ≠ "" := by
  simp only [Command.validate, bind_eq_ok] at h
  obtain ⟨o', horder, h⟩ := h
  cases cmd with
  | reserve m c =>
    simp only [bind_eq_ok, check_eq_ok] at h
    obtain ⟨_, _, hamount, hm, h⟩ := h
    obtain rfl := Except.ok.inj h
    exact ⟨horder, not_le.mp hamount, fun hempty => hm (Or.inl hempty)⟩
  | adjust m c =>
    simp only [bind_eq_ok, check_eq_ok] at h
    obtain ⟨_, _, hamount, hseq, hm, h⟩ := h
    obtain rfl := Except.ok.inj h
    exact ⟨horder, ⟨not_le.mp hamount, not_le.mp hseq⟩, fun hempty => hm (Or.inl hempty)⟩
  | release m c =>
    simp only [bind_eq_ok, check_eq_ok] at h
    obtain ⟨_, _, hm, h⟩ := h
    obtain rfl := Except.ok.inj h
    exact ⟨horder, trivial, fun hempty => hm (Or.inl hempty)⟩
  | transfer m c =>
    simp only [bind_eq_ok, check_eq_ok] at h
    obtain ⟨_, _, _, _, hne, hamount, hm, h⟩ := h
    obtain rfl := Except.ok.inj h
    exact ⟨horder, ⟨hne, not_le.mp hamount⟩, fun hempty => hm (Or.inl hempty)⟩

/-- The operation of a valid command has an outcome. -/
theorem Command.op_spec (h : Books s n) {cmd : Command} (hvalid : cmd.Valid)
    (hlength : o.toList.length = 36) :
    (engine hash).wp Admissible (Did s n o cmd) (cmd.op o) s n := by
  cases cmd with
  | reserve m c => exact reserveOp_spec h hvalid hlength
  | adjust m c => exact adjustOp_spec h hvalid.1 hvalid.2
  | release m c => exact releaseOp_spec h
  | transfer m c => exact transferOp_spec h hvalid.1 hvalid.2

/-- The order id of a valid command has the length of a UUID. -/
theorem Command.order_length {cmd : Command} (h : cmd.validate = .ok o) :
    o.toList.length = 36 := by
  obtain ⟨rfl, huuid⟩ := validateOrderID_ok (Command.validate_ok h).1
  rw [length_toLower]
  exact length_of_uuidPattern huuid

/-- A command ends with an execution of its branches, or with an error. -/
theorem Command.body_spec (h : Books s n) (cmd : Command) :
    (engine hash).wp Admissible
      (fun r s' n' => ∀ result, r = .ok result → ∃ o, cmd.validate = .ok o ∧
        Execution s n n' recorder o cmd result s')
      (cmd.body recorder) s n := by
  unfold Command.body
  cases hv : cmd.validate with
  | error e => exact fun _ hresult => by cases hresult
  | ok o =>
    obtain ⟨_, hvalid, hm⟩ := Command.validate_ok hv
    have hop : (engine hash).wp Admissible (Did s (n + 2) o cmd) (cmd.op o) s (n + 2) :=
      Command.op_spec (h.mono (Nat.le_add_right n 2)) hvalid (Command.order_length hv)
    refine Engine.wp_mono (execute_spec hm hop) ?_
    rintro r s' n' hcommitted result rfl
    exact ⟨o, rfl, hcommitted⟩

theorem Books.storeResult (h : Books s n) (m : String) (result : Result) :
    Books (s.storeResult m result) n := by
  unfold Tables.storeResult
  split
  · exact h
  · exact h.congr rfl rfl rfl

theorem Books.recorded (h : Books s n) (reply : Reply) (result : Result) :
    Books (s.recorded recorder reply result) n := by
  unfold Tables.recorded Tables.enqueue
  cases recorder with
  | none => exact h
  | some now =>
    dsimp only
    split
    · exact h.congr rfl rfl rfl
    · split
      · exact h
      · exact h.congr rfl rfl rfl

/-- A committed command keeps the books in agreement. -/
theorem Books.execution (h : Books s n) {n' : ℕ} (hn : n ≤ n') {cmd : Command} {result : Result}
    {s' : Tables} (hv : cmd.validate = .ok o)
    (hx : Execution s n n' recorder o cmd result s') : Books s' n' := by
  cases hx with
  | replay hstored => exact (h.mono hn).recorded _ _
  | first e hnew hout hfresh =>
    have hen := hout.enabled h (Command.order_length hv) (Command.validate_ok hv).2.1 hfresh
    have hbooks := h.effect hen hn fun i w o a he => (hfresh i w o a he).2
    exact (hbooks.storeResult _ _).recorded _ _

end Commands

/-! ## Creating wallets -/

section CreateWallet

variable {hash : String → ℤ} {s : Tables} {n : ℕ}

/-- A new wallet is empty. -/
theorem Books.openWallet (h : Books s n) {owner subject : String}
    (howner : ∀ w ∈ s.wallets, w.ownerID ≠ owner)
    (hsubject : ∀ w ∈ s.wallets, w.auth0Subject ≠ subject) :
    Books ((Write.insertWallet
      { id := n, ownerID := owner, auth0Subject := subject }).apply s) (n + 1) := by
  have hold : ∀ {id : ℕ}, (∃ w ∈ s.wallets, w.id = id) →
      ∃ w ∈ ((Write.insertWallet { id := n, ownerID := owner, auth0Subject := subject }).apply
        s).wallets, w.id = id := by
    rintro id ⟨w, hw, hid⟩
    exact ⟨w, List.mem_append_left _ hw, hid⟩
  refine {
    walletIDs := uniqueKey_append_singleton.mpr ⟨h.walletIDs, ?_⟩
    owners := uniqueKey_append_singleton.mpr ⟨h.owners, howner⟩
    subjects := uniqueKey_append_singleton.mpr ⟨h.subjects, hsubject⟩
    walletFresh := ?_
    walletRow := ?_
    reservationIDs := h.reservationIDs
    orders := h.orders
    reservationFresh := fun r hr => (h.reservationFresh r hr).trans (Nat.lt_succ_self n)
    reservationRow := fun r hr => ⟨(h.reservationRow r hr).amount, (h.reservationRow r hr).seq,
      (h.reservationRow r hr).order, hold (h.reservationRow r hr).wallet⟩
    booked := fun f hf => (h.booked f hf).imp fun _ hp => hp.mono fun r hr => ⟨r, hr, .refl r⟩
    entryWallet := fun f hf => hold (h.entryWallet f hf)
    entryKeys := h.entryKeys
    conserved := h.conserved }
  · exact fun w hw => (h.walletFresh w hw).ne
  · intro w hw
    rcases List.mem_append.mp hw with hw | hw
    · exact (h.walletFresh w hw).trans (Nat.lt_succ_self n)
    · rw [List.mem_singleton.mp hw]
      exact Nat.lt_succ_self n
  · intro w hw
    rcases List.mem_append.mp hw with hw | hw
    · have hrow := h.walletRow w hw
      exact ⟨hrow.available, hrow.nonneg, hrow.reserved, hrow.held⟩
    · -- No entry and no reservation can refer to the new wallet's identifier.
      have hentries : (s.ledger.filter fun f => f.walletID = n) = [] := by
        rw [List.filter_eq_nil_iff]
        intro f hf hid
        obtain ⟨v, hv, hvid⟩ := h.entryWallet f hf
        have := h.walletFresh v hv
        simp only [decide_eq_true_eq] at hid
        omega
      have hreservations : (s.reservations.filter fun r =>
          r.walletID = n ∧ r.status = .active) = [] := by
        rw [List.filter_eq_nil_iff]
        intro r hr hid
        obtain ⟨v, hv, hvid⟩ := (h.reservationRow r hr).wallet
        have := h.walletFresh v hv
        simp only [decide_eq_true_eq] at hid
        omega
      rw [List.mem_singleton.mp hw]
      refine ⟨?_, le_rfl, ?_, ?_⟩
      · rw [Tables.availableOf]
        exact (congrArg (fun l => (l.map LedgerEntry.availableDelta).sum) hentries).symm
      · rw [Tables.reservedOf]
        exact (congrArg (fun l => (l.map LedgerEntry.reservedDelta).sum) hentries).symm
      · rw [Tables.heldFor]
        exact (congrArg (fun l => (l.map Reservation.amount).sum) hreservations).symm

/-- The entry of an initial allocation. -/
def allocation (walletID : ℕ) (amount : ℤ) : LedgerEntry :=
  { walletID := walletID, type := .allocate, availableDelta := amount,
    idempotencyKey := "initial-allocation" }

/-- The initial allocation of a wallet without entries. -/
theorem Books.allocate (h : Books s n) {w : Wallet} (hw : w ∈ s.wallets) {amount : ℤ}
    (hpos : 0 < amount) (hempty : ∀ f ∈ s.ledger, f.walletID ≠ w.id) :
    Books ((Write.addDeltas w.id amount 0).apply
      ((Write.insertEntry (allocation w.id amount)).apply s)) n := by
  refine h.post le_rfl (f := fun v => if v.id = w.id then v.addDeltas amount 0 else v) rfl ?hf rfl
    ?hbalance h.reservationIDs h.orders h.reservationFresh h.reservationRow
    (fun r hr => ⟨r, hr, .refl r⟩) ?hbooked ?hexists (List.nodup_singleton _) ?hnew ?hnet
  case hf =>
    intro v
    split <;> exact ⟨rfl, rfl, rfl⟩
  case hbalance =>
    intro v hv
    have hnonneg := (h.walletRow v hv).nonneg
    by_cases hid : v.id = w.id
    · simp [allocation, Wallet.addDeltas, hid, Tables.heldFor, Write.apply]
      omega
    · have hid' : ¬ w.id = v.id := fun h => hid h.symm
      simp [allocation, hid, hid', Tables.heldFor, Write.apply, hnonneg]
  case hbooked =>
    rw [List.forall_mem_singleton]
    refine ⟨.allocate, trivial, rfl, rfl, fun _ => rfl, ?_⟩
    rintro o ⟨⟩
  case hexists =>
    rw [List.forall_mem_singleton]
    exact ⟨w, hw, rfl⟩
  case hnew =>
    rw [List.forall_mem_singleton]
    exact fun g hg hid => absurd hid (hempty g hg)
  case hnet => simp [allocation, LedgerEntry.net]

/-- `CreateWallet` that commits leaves books in agreement. -/
def Opened : Except ServiceError (Wallet × Bool) → Tables → ℕ → Prop
  | .ok _, s', n' => Books s' n'
  | .error _, _, _ => True

theorem createWallet_spec (h : Books s n) (initialCredit : ℤ) (ownerID subject : String) :
    (engine hash).wp Admissible Opened (createWallet initialCredit ownerID subject) s n := by
  unfold createWallet
  cases validateOwnerID ownerID with
  | error e => trivial
  | ok owner =>
  cases validateSubject subject with
  | error e => trivial
  | ok _ =>
  simp only [query, Program.call_bind]
  refine wp_insertWallet (fun e => ?_) ?_ (fun howner hsubject => ?_)
  · cases e <;> trivial
  · dsimp only
    refine wp_getWalletByOwner (fun w _ => ?_) fun _ => trivial
    simp only [orFail_ok, Program.pure_bind, Option.isNone_none, if_true]
    by_cases hother : w.auth0Subject ≠ subject
    · rw [if_pos hother]
      trivial
    · rw [if_neg hother]
      exact h.mono (Nat.le_add_right n 2)
  · have hopen := h.openWallet howner hsubject
    have hmem : ({ id := n, ownerID := owner, auth0Subject := subject } : Wallet) ∈
        ((Write.insertWallet { id := n, ownerID := owner, auth0Subject := subject }).apply
          s).wallets := List.mem_append_right _ (List.mem_singleton_self _)
    dsimp only
    refine wp_getWalletByOwner (fun w hw => ?_) fun _ => trivial
    rw [hopen.owners.findRow_eq hmem rfl] at hw
    obtain rfl := Option.some.inj hw
    simp only [orFail_ok, Program.pure_bind, Option.isNone_some, Bool.false_eq_true, if_false]
    by_cases hpos : 0 < initialCredit
    · rw [if_pos hpos]
      have hempty : ∀ f ∈ s.ledger, f.walletID ≠ n := by
        rintro f hf rfl
        obtain ⟨v, hv, hid⟩ := h.entryWallet f hf
        exact (h.walletFresh v hv).ne hid
      refine wp_insertLedgerEntry (entryProblem_eq_none ?_ ?_ ?_ ⟨_, hmem, rfl⟩ (by simp)) ?_
      · simp [← String.toList_inj]
      · simp only
        omega
      · exact fun f hf hid => absurd hid (hempty f hf)
      simp only [orFail_ok, Program.pure_bind]
      refine wp_applyDeltas (w := { id := n, ownerID := owner, auth0Subject := subject }) ?_ ?_ ?_
        ?_ trivial
      · exact hopen.walletIDs.findRow_eq hmem rfl
      · simp only
        omega
      · exact le_rfl
      · exact (hopen.allocate hmem hpos hempty).mono (Nat.le_add_right (n + 1) 3)
    · rw [if_neg hpos]
      exact hopen.mono (Nat.le_add_right (n + 1) 1)

/-- The statements that open a wallet; an allocation belongs to no order. -/
def Stmt.opensWallet : Stmt → Bool
  | .insertWalletIfAbsent _ _ | .getWalletByOwner _ | .applyDeltas _ _ _ => true
  | .insertLedgerEntry e => e.orderID = none
  | _ => false

theorem createWallet_conforms {initialCredit : ℤ} {ownerID subject : String}
    {before : Program.Log Stmt.Reply → Stmt → Prop}
    (hbefore : ∀ log q, q.opensWallet = true → before log q) :
    (createWallet initialCredit ownerID subject).Conforms before (fun _ _ => True) [] := by
  unfold createWallet
  cases validateOwnerID ownerID with
  | error e => trivial
  | ok owner =>
  cases validateSubject subject with
  | error e => trivial
  | ok _ =>
  refine ⟨hbefore _ _ rfl, ?_⟩
  rintro (e | inserted)
  · cases e <;> trivial
  refine ⟨hbefore _ _ rfl, fun _ => conforms_orFail fun row _ => ?_⟩
  split
  · split <;> trivial
  split
  · refine ⟨hbefore _ _ rfl, fun _ => conforms_orFail fun _ _ => ?_⟩
    refine ⟨hbefore _ _ rfl, fun _ => conforms_orFail fun _ _ => ?_⟩
    trivial
  · trivial

end CreateWallet

/-! ## Whole runs -/

/-- A request to the credit service. Each call may find another configured initial
allocation and another clock. -/
inductive Request where
  | createWallet (initialCredit : ℕ) (ownerID auth0Subject : String)
  | order (recorder : Option ℤ) (cmd : Command)

/-- One atomic request. -/
def Request.perform (hash : String → ℤ) : Request → Tables × ℕ → Tables × ℕ
  | .createWallet initialCredit ownerID auth0Subject, (s, n) =>
    ((engine hash).atomically (Credit.createWallet initialCredit ownerID auth0Subject) s n).2
  | .order recorder cmd, (s, n) => ((engine hash).atomically (cmd.body recorder) s n).2

/-- Every reply the request gets from the database is admissible. -/
def Request.AllAdmissible (hash : String → ℤ) : Request → Tables × ℕ → Prop
  | .createWallet initialCredit ownerID auth0Subject, (s, n) =>
    (engine hash).AllReplies Admissible (Credit.createWallet initialCredit ownerID auth0Subject)
      s n
  | .order recorder cmd, (s, n) => (engine hash).AllReplies Admissible (cmd.body recorder) s n

/-- The tables and the next serial number after a sequence of requests. -/
def serve (hash : String → ℤ) (requests : List Request) : Tables × ℕ :=
  requests.foldl (fun st request => request.perform hash st) ({}, 0)

section Runs

variable {hash : String → ℤ}

/-- On books in agreement a request gets admissible replies only. -/
theorem Books.allAdmissible {st : Tables × ℕ} (h : Books st.1 st.2) (request : Request) :
    request.AllAdmissible hash st := by
  cases request with
  | createWallet initialCredit ownerID subject =>
    exact Engine.wp_allReplies (createWallet_spec h initialCredit ownerID subject)
  | order recorder cmd => exact Engine.wp_allReplies (Command.body_spec h cmd)

/-- One request keeps the books in agreement. -/
theorem Books.perform {st : Tables × ℕ} (h : Books st.1 st.2) (request : Request) :
    Books (request.perform hash st).1 (request.perform hash st).2 := by
  obtain ⟨s, n⟩ := st
  cases request with
  | createWallet initialCredit ownerID subject =>
    have hn := Engine.serial_le_atomically (engine hash) (createWallet initialCredit ownerID subject)
      s n
    have hspec : (engine hash).wp Admissible Opened (createWallet initialCredit ownerID subject)
      s n := createWallet_spec h initialCredit ownerID subject
    rcases Engine.wp_atomically hspec with ⟨a, _, hpost⟩ | ⟨e, _, hsame⟩
    · exact hpost
    · simp only [Request.perform]
      rw [hsame]
      exact h.mono hn
  | order recorder cmd =>
    have hn := Engine.serial_le_atomically (engine hash) (cmd.body recorder) s n
    have hspec : (engine hash).wp Admissible _ (cmd.body recorder) s n := Command.body_spec h cmd
    rcases Engine.wp_atomically hspec with ⟨result, _, hpost⟩ | ⟨e, _, hsame⟩
    · obtain ⟨o, hv, hx⟩ := hpost result rfl
      exact h.execution hn hv hx
    · simp only [Request.perform]
      rw [hsame]
      exact h.mono hn

/-- The books agree after any sequence of requests. -/
theorem books_serve (requests : List Request) :
    Books (serve hash requests).1 (serve hash requests).2 := by
  have hrun : ∀ st : Tables × ℕ, Books st.1 st.2 →
      Books (requests.foldl (fun st request => request.perform hash st) st).1
        (requests.foldl (fun st request => request.perform hash st) st).2 := by
    induction requests with
    | nil => exact fun _ h => h
    | cons request requests ih => exact fun st h => ih _ (h.perform request)
  exact hrun ({}, 0) (books_empty 0)

/-- A wallet has at most one allocation. -/
theorem Books.length_allocations {s : Tables} {n : ℕ} (h : Books s n) (walletID : ℕ) :
    (s.ledger.filter fun f => f.walletID = walletID ∧ f.type = .allocate).length ≤ 1 := by
  have hsub := List.filter_sublist (l := s.ledger)
    (p := fun f => f.walletID = walletID ∧ f.type = .allocate)
  have hnodup := List.Nodup.of_map _ (h.entryKeys.sublist (hsub.map _))
  have hequal : ∀ f ∈ s.ledger.filter (fun f => f.walletID = walletID ∧ f.type = .allocate),
      ∀ g ∈ s.ledger.filter (fun f => f.walletID = walletID ∧ f.type = .allocate), f = g := by
    intro f hf g hg
    simp only [List.mem_filter, decide_eq_true_eq] at hf hg
    exact h.allocate_unique hf.1 hg.1 hf.2.2 hg.2.2 (hf.2.1.trans hg.2.1.symm)
  generalize (s.ledger.filter fun f => f.walletID = walletID ∧ f.type = .allocate) = entries
    at hnodup hequal ⊢
  match entries with
  | [] | [_] => simp
  | f :: g :: rest =>
    have hfg := hequal f List.mem_cons_self g (List.mem_cons_of_mem _ List.mem_cons_self)
    simp [hfg] at hnodup

/-- After any sequence of requests to a service that started with empty tables, the
balances, the ledger and the active reservations of every wallet agree and are not
negative; orders, owners, subjects and allocations are unique; all credits are
allocated ones; and no further request can make a writing statement fail on a
`CHECK` or `UNIQUE` constraint. -/
theorem books_agree (hash : String → ℤ) (requests : List Request) :
    let st := serve hash requests
    (∀ w ∈ st.1.wallets,
      w.available = st.1.availableOf w.id ∧ 0 ≤ w.available ∧
      w.reserved = st.1.reservedOf w.id ∧ w.reserved = st.1.heldFor w.id ∧ 0 ≤ w.reserved ∧
      (st.1.ledger.filter fun f => f.walletID = w.id ∧ f.type = .allocate).length ≤ 1) ∧
    UniqueKey Wallet.id st.1.wallets ∧ UniqueKey Wallet.ownerID st.1.wallets ∧
    UniqueKey Wallet.auth0Subject st.1.wallets ∧
    UniqueKey Reservation.orderID st.1.reservations ∧
    st.1.total = st.1.allocated ∧
    ∀ request : Request, request.AllAdmissible hash st := by
  have h : Books (serve hash requests).1 (serve hash requests).2 := books_serve requests
  refine ⟨fun w hw => ?_, h.walletIDs, h.owners, h.subjects, h.orders, h.total_eq,
    h.allAdmissible⟩
  have hrow := h.walletRow w hw
  exact ⟨hrow.available, hrow.nonneg, hrow.reserved, hrow.held, h.reserved_nonneg hw,
    h.length_allocations w.id⟩

end Runs

end FocServices.Credit
