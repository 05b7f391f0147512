import FocServices.Credit.Replays

/-!
# Publishing results

The dispatcher leases rows of the result outbox, publishes them and marks what became of
them. A row keeps the payload it was inserted with, also when its command is executed
again: the key of a row names the command's message and the type of the result, so a
failure that is judged again with another code is published with the first code.
-/

namespace FocServices.Credit

open Txn

/-! ## The statements of the dispatcher -/

/-- A row `Claim` may lease at a time. -/
def OutboxRow.due (row : OutboxRow) (now : ℤ) : Bool :=
  row.status = .pending && row.nextAttemptAt ≤ now &&
    match row.leaseExpiresAt with
    | none => true
    | some expiry => expiry < now

/-- `Claim`: the leased rows as they are returned, and all rows. The list order of the table
is its identity column; `locked` are the rows another claim has locked. -/
def claim (worker : String) (limit : ℕ) (lease now : ℤ) (locked : List String)
    (rows : List OutboxRow) : List OutboxRow × List OutboxRow :=
  let due := rows.filter fun row => row.due now && row.idempotencyKey ∉ locked
  let keys := ((due.insertionSort fun a b => a.nextAttemptAt ≤ b.nextAttemptAt).take limit).map
    OutboxRow.idempotencyKey
  let leased := fun row : OutboxRow =>
    { row with
      leaseOwner := some worker
      leaseExpiresAt := some (now + lease)
      attempts := row.attempts + 1 }
  ((rows.filter fun row => row.idempotencyKey ∈ keys).map leased,
    rows.map fun row => if row.idempotencyKey ∈ keys then leased row else row)

/-- The worker still holds the lease of the row with the key. -/
def OutboxRow.heldBy (row : OutboxRow) (key worker : String) : Bool :=
  row.idempotencyKey = key && row.leaseOwner = some worker && row.status = .pending

/-- An update of the row a worker holds: whether there was one, and the rows. -/
def updateHeld (key worker : String) (f : OutboxRow → OutboxRow) (rows : List OutboxRow) :
    Bool × List OutboxRow :=
  (rows.any fun row => row.heldBy key worker,
    rows.map fun row => if row.heldBy key worker then f row else row)

def markSent (key worker : String) : List OutboxRow → Bool × List OutboxRow :=
  updateHeld key worker fun row =>
    { row with
      status := .sent
      lastFailureCode := none
      leaseOwner := none
      leaseExpiresAt := none }

def reschedule (key worker : String) (delay now : ℤ) (code : String) :
    List OutboxRow → Bool × List OutboxRow :=
  updateHeld key worker fun row =>
    { row with
      nextAttemptAt := now + delay
      lastFailureCode := some code
      leaseOwner := none
      leaseExpiresAt := none }

def markFailed (key worker code : String) : List OutboxRow → Bool × List OutboxRow :=
  updateHeld key worker fun row =>
    { row with
      status := .failed
      lastFailureCode := some code
      leaseOwner := none
      leaseExpiresAt := none }

/-- A step of a dispatcher. -/
inductive Dispatch where
  | claim (worker : String) (limit : ℕ) (lease now : ℤ) (locked : List String)
  | markSent (key worker : String)
  | reschedule (key worker : String) (delay now : ℤ) (code : String)
  | markFailed (key worker code : String)

def Dispatch.perform : Dispatch → List OutboxRow → List OutboxRow
  | .claim worker limit lease now locked, rows =>
    (Credit.claim worker limit lease now locked rows).2
  | .markSent key worker, rows => (Credit.markSent key worker rows).2
  | .reschedule key worker delay now code, rows =>
    (Credit.reschedule key worker delay now code rows).2
  | .markFailed key worker code, rows => (Credit.markFailed key worker code rows).2

/-- What happens at the service: a request, or a step of a dispatcher. -/
inductive Activity where
  | request (r : Request)
  | dispatch (step : Dispatch)

def Activity.perform (hash : String → ℤ) : Activity → Tables × ℕ → Tables × ℕ
  | .request r, st => r.perform hash st
  | .dispatch step, (s, n) => ({ s with outbox := step.perform s.outbox }, n)

/-- The tables and the next serial number after any activity. -/
def operate (hash : String → ℤ) (history : List Activity) : Tables × ℕ :=
  history.foldl (fun st activity => activity.perform hash st) ({}, 0)

/-- The result a published message carries. -/
def Envelope.result (env : Envelope) : Result := ⟨env.type, env.amount, env.seq, env.code⟩

/-! ## Rows keep their key and their payload -/

/-- The columns that say what a row publishes. -/
def OutboxRow.message (row : OutboxRow) : String × Envelope := (row.idempotencyKey, row.payload)

section

variable {s s' : Tables} {n n' : ℕ} {o : String} {cmd : Command} {result : Result}

theorem message_map {f : OutboxRow → OutboxRow} {p : OutboxRow → Prop} [DecidablePred p]
    (hf : ∀ row, (f row).message = row.message) (rows : List OutboxRow) :
    (rows.map fun row => if p row then f row else row).map OutboxRow.message =
      rows.map OutboxRow.message := by
  rw [List.map_map]
  apply List.map_congr_left
  intro row _
  simp only [Function.comp_apply]
  split
  · exact hf row
  · rfl

/-- A dispatcher publishes what was enqueued. -/
theorem Dispatch.message_perform (step : Dispatch) (rows : List OutboxRow) :
    (step.perform rows).map OutboxRow.message = rows.map OutboxRow.message := by
  cases step with
  | claim worker limit lease now locked => exact message_map (fun _ => by rfl) rows
  | markSent key worker => exact message_map (fun _ => by rfl) rows
  | reschedule key worker delay now code => exact message_map (fun _ => by rfl) rows
  | markFailed key worker code => exact message_map (fun _ => by rfl) rows

/-- Enqueueing adds a message unless there is one under its key. -/
theorem message_enqueue (key : String) (routingKey : ResultType) (payload : Envelope) (now : ℤ) :
    (s.enqueue key routingKey payload now).outbox.map OutboxRow.message =
      s.outbox.map OutboxRow.message ++
        if (findRow OutboxRow.idempotencyKey key s.outbox).isSome then [] else [(key, payload)] := by
  unfold Tables.enqueue
  cases hrow : findRow OutboxRow.idempotencyKey key s.outbox with
  | none => simp [OutboxRow.message]
  | some row =>
    simp only [Option.isSome_some, if_true, List.append_nil]
    split
    · rfl
    · exact map_updateRow fun _ _ => rfl

/-- After `Enqueue` the row under the key is to be published. -/
theorem pending_enqueue (key : String) (routingKey : ResultType) (payload : Envelope) (now : ℤ) :
    ∃ row ∈ (s.enqueue key routingKey payload now).outbox,
      row.idempotencyKey = key ∧ row.status = .pending := by
  unfold Tables.enqueue
  cases hrow : findRow OutboxRow.idempotencyKey key s.outbox with
  | none => exact ⟨_, List.mem_append_right _ (List.mem_singleton_self _), rfl, rfl⟩
  | some row =>
    obtain ⟨hmem, rfl⟩ := mem_of_findRow hrow
    by_cases hpending : row.status = .pending
    · simp only [if_pos hpending]
      exact ⟨row, hmem, rfl, hpending⟩
    · simp only [if_neg hpending]
      exact ⟨row.reset now, mem_updateRow_self hmem, rfl, rfl⟩

/-! ## What the outbox says -/

/-- A published failure carries nothing but its code; another published result is stored. -/
def Tables.Judged (s : Tables) (env : Envelope) : Prop :=
  if env.type = .operationFailed then env.amount = 0 ∧ env.seq = 0
  else s.resultOf env.correlationID = some env.result

/-- The key of a row is made of the command's message and of the result's type. -/
structure Posted (s : Tables) : Prop where
  unique : UniqueKey OutboxRow.idempotencyKey s.outbox
  keys : ∀ row ∈ s.outbox,
    row.idempotencyKey = row.payload.correlationID ++ ":" ++ row.payload.type.key
  judged : ∀ row ∈ s.outbox, s.Judged row.payload
  stored : ∀ m r, s.resultOf m = some r → r.type ≠ .operationFailed

theorem posted_empty : Posted {} where
  unique := List.nodup_nil
  keys := List.forall_mem_nil _
  judged := List.forall_mem_nil _
  stored := nofun

theorem mem_message {rows rows' : List OutboxRow}
    (h : rows'.map OutboxRow.message = rows.map OutboxRow.message) {row : OutboxRow}
    (hrow : row ∈ rows') : ∃ row₀ ∈ rows, row₀.message = row.message :=
  List.mem_map.mp (h ▸ List.mem_map_of_mem hrow)

theorem Tables.Judged.mono {env : Envelope} (h : s.Judged env)
    (hstored : ∀ m r, s.resultOf m = some r → s'.resultOf m = some r) : s'.Judged env := by
  unfold Tables.Judged at h ⊢
  split
  · next htype => rwa [if_pos htype] at h
  · next htype =>
    rw [if_neg htype] at h
    exact hstored _ _ h

/-- The facts about the outbox depend on its messages and on the stored results. -/
theorem Posted.congr (h : Posted s)
    (houtbox : s'.outbox.map OutboxRow.message = s.outbox.map OutboxRow.message)
    (hprocessed : s'.processed = s.processed) : Posted s' := by
  have hresult : s'.resultOf = s.resultOf := by
    funext m
    rw [Tables.resultOf, hprocessed, ← Tables.resultOf]
  refine ⟨?_, ?_, ?_, fun m r hr => h.stored m r (hresult ▸ hr)⟩
  · have hkeys : s'.outbox.map OutboxRow.idempotencyKey =
        s.outbox.map OutboxRow.idempotencyKey := by
      have hfst := congrArg (List.map Prod.fst) houtbox
      rwa [List.map_map, List.map_map] at hfst
    rw [UniqueKey, hkeys]
    exact h.unique
  · intro row hrow
    obtain ⟨row₀, hrow₀, hmessage⟩ := mem_message houtbox hrow
    obtain ⟨hkey, hpayload⟩ := Prod.mk.inj hmessage
    rw [← hkey, ← hpayload]
    exact h.keys row₀ hrow₀
  · intro row hrow
    obtain ⟨row₀, hrow₀, hmessage⟩ := mem_message houtbox hrow
    rw [← (Prod.mk.inj hmessage).2]
    exact (h.judged row₀ hrow₀).mono fun m r hr => by rwa [hresult]

/-- Recording a result that is stored, or a bare failure, keeps the facts. -/
theorem Posted.recorded (h : Posted s) {recorder : Option ℤ} {reply : Reply}
    (hjudged : ∀ now, s.Judged (buildResult reply result now)) :
    Posted (s.recorded recorder reply result) := by
  cases recorder with
  | none => exact h
  | some now =>
    have hprocessed := processed_recorded s (some now) reply result
    set env := buildResult reply result now with henv
    change (s.enqueue env.messageID env.type env now).processed = s.processed at hprocessed
    change Posted (s.enqueue env.messageID env.type env now)
    cases hfind : findRow OutboxRow.idempotencyKey env.messageID s.outbox with
    | some row =>
      refine h.congr ?_ hprocessed
      rw [message_enqueue, hfind]
      exact List.append_nil _
    | none =>
      have hother := findRow_eq_none.mp hfind
      have hrows : (s.enqueue env.messageID env.type env now) =
          { s with outbox := s.outbox ++ [⟨env.messageID, env.type, env, .pending, 0, now, none,
            none, none⟩] } := by
        simp only [Tables.enqueue, hfind]
      rw [hrows]
      refine ⟨uniqueKey_append_singleton.mpr ⟨h.unique, hother⟩, ?_, ?_, h.stored⟩
      · simp only [List.forall_mem_append, List.forall_mem_singleton]
        exact ⟨h.keys, rfl⟩
      · simp only [List.forall_mem_append, List.forall_mem_singleton]
        exact ⟨h.judged, hjudged now⟩

/-- A failed operation has no amount and no sequence number. -/
theorem Outcome.bare_of_failed {e : Effect} (hout : Outcome s o cmd result e)
    (htype : result.type = .operationFailed) : result.amount = 0 ∧ result.seq = 0 := by
  cases hout <;> first | exact ⟨rfl, rfl⟩ | cases htype

theorem Execution.bare_of_failed {recorder : Option ℤ} (h : Posted s)
    (hx : Execution s n n' recorder o cmd result s') (htype : result.type = .operationFailed) :
    result.amount = 0 ∧ result.seq = 0 := by
  cases hx with
  | replay hstored => exact absurd htype (h.stored _ _ hstored)
  | first e hnew hout hfresh => exact hout.bare_of_failed htype

/-- A committed command is a change that leaves the outbox alone, then its result is
recorded. -/
theorem Execution.records {recorder : Option ℤ} (hx : Execution s n n' recorder o cmd result s') :
    ∃ s₁ : Tables, s₁.outbox = s.outbox ∧ s₁.processed = s'.processed ∧
      s' = s₁.recorded recorder (cmd.reply o) result := by
  cases hx with
  | replay hstored => exact ⟨s, rfl, (processed_recorded s recorder _ result).symm, rfl⟩
  | first e hnew hout hfresh =>
    refine ⟨(e.apply s).storeResult cmd.messageID result, ?_,
      (processed_recorded _ recorder _ result).symm, rfl⟩
    unfold Tables.storeResult
    split <;> exact Effect.outbox_apply e s

theorem Execution.resultOf_mono {recorder : Option ℤ}
    (hx : Execution s n n' recorder o cmd result s') {m : String} {r : Result}
    (hr : s.resultOf m = some r) : s'.resultOf m = some r := by
  rw [hx.resultOf, hr]
  rfl

theorem Execution.stored_type {recorder : Option ℤ} (h : Posted s)
    (hx : Execution s n n' recorder o cmd result s') {m : String} {r : Result}
    (hr : s'.resultOf m = some r) : r.type ≠ .operationFailed := by
  rw [hx.resultOf] at hr
  cases hold : s.resultOf m with
  | some r₀ =>
    rw [hold] at hr
    cases hr
    exact h.stored m r hold
  | none =>
    rw [hold] at hr
    simp only [Option.orElse_none] at hr
    split at hr
    · next hcond =>
      cases hr
      exact hcond.2
    · cases hr

/-- A committed command keeps the facts about the outbox. -/
theorem Posted.execution {recorder : Option ℤ} (h : Posted s)
    (hx : Execution s n n' recorder o cmd result s') : Posted s' := by
  obtain ⟨s₁, houtbox, hprocessed, hs'⟩ := hx.records
  have hresult : s₁.resultOf = s'.resultOf := by
    funext m
    rw [Tables.resultOf, hprocessed, ← Tables.resultOf]
  have hposted : Posted s₁ := by
    refine ⟨houtbox ▸ h.unique, houtbox ▸ h.keys, ?_, ?_⟩
    · rw [houtbox]
      intro row hrow
      refine (h.judged row hrow).mono fun m r hr => ?_
      rw [hresult]
      exact hx.resultOf_mono hr
    · intro m r hr
      rw [hresult] at hr
      exact hx.stored_type h hr
  rw [hs']
  refine hposted.recorded fun now => ?_
  unfold Tables.Judged
  split
  · next htype => exact hx.bare_of_failed h htype
  · next htype =>
    rw [hresult]
    exact hx.stores htype

/-- One activity keeps the books and the facts about the outbox. -/
theorem Posted.perform {hash : String → ℤ} {st : Tables × ℕ} (hbooks : Books st.1 st.2)
    (h : Posted st.1) (activity : Activity) :
    Books (activity.perform hash st).1 (activity.perform hash st).2 ∧
      Posted (activity.perform hash st).1 := by
  obtain ⟨s, n⟩ := st
  cases activity with
  | dispatch step =>
    exact ⟨hbooks.congr rfl rfl rfl, h.congr (step.message_perform s.outbox) rfl⟩
  | request request =>
    refine ⟨hbooks.perform request, ?_⟩
    simp only [Activity.perform]
    cases request with
    | createWallet initialCredit ownerID subject =>
      have hopens : OpensWallets s
          ((Request.createWallet initialCredit ownerID subject).perform hash (s, n)).1 :=
        createWallet_opensWallets _ _ _
      exact h.congr (by rw [hopens.outbox]) hopens.processed
    | order recorder cmd =>
      have hspec : (engine hash).wp Admissible _ (cmd.body recorder) s n :=
        Command.body_spec hbooks cmd
      rcases Engine.wp_atomically hspec with ⟨result, _, hpost⟩ | ⟨e, _, hsame⟩
      · obtain ⟨o, hv, hx⟩ := hpost result rfl
        exact h.execution hx
      · simp only [Request.perform]
        rw [hsame]
        exact h

theorem posted_operate (hash : String → ℤ) (history : List Activity) :
    Books (operate hash history).1 (operate hash history).2 ∧ Posted (operate hash history).1 := by
  have hrun : ∀ st : Tables × ℕ, Books st.1 st.2 → Posted st.1 →
      Books (history.foldl (fun st activity => activity.perform hash st) st).1
        (history.foldl (fun st activity => activity.perform hash st) st).2 ∧
      Posted (history.foldl (fun st activity => activity.perform hash st) st).1 := by
    induction history with
    | nil => exact fun _ hbooks hposted => ⟨hbooks, hposted⟩
    | cons activity history ih =>
      intro st hbooks hposted
      obtain ⟨hbooks', hposted'⟩ := hposted.perform hbooks activity
      exact ih _ hbooks' hposted'
  exact hrun ({}, 0) (books_empty 0) posted_empty

/-! ## The published result -/

theorem colon_notMem_key (type : ResultType) : ':' ∉ type.key.toList := by
  cases type <;> decide

theorem key_injective {t t' : ResultType} (h : t.key = t'.key) : t = t' := by
  cases t <;> cases t' <;> first | rfl | exact absurd h (by decide)

/-- What stands before and after the last colon is determined. -/
theorem split_last_colon {a b k l : List Char} (hk : ':' ∉ k) (hl : ':' ∉ l)
    (h : a ++ ':' :: k = b ++ ':' :: l) : a = b ∧ k = l := by
  -- one of the two parts before the colons extends the other, and it cannot do so by a
  -- colon that the other text has only in its last part
  rcases List.append_eq_append_iff.mp h with ⟨c, rfl, hc⟩ | ⟨c, rfl, hc⟩
  · cases c with
    | nil => exact ⟨(List.append_nil a).symm, (List.cons.inj hc).2⟩
    | cons x c =>
      have hk' : k = c ++ ':' :: l := (List.cons.inj hc).2
      exact absurd (hk' ▸ List.mem_append_right c List.mem_cons_self) hk
  · cases c with
    | nil => exact ⟨List.append_nil b, ((List.cons.inj hc).2).symm⟩
    | cons x c =>
      have hl' : l = c ++ ':' :: k := (List.cons.inj hc).2
      exact absurd (hl' ▸ List.mem_append_right c List.mem_cons_self) hl

theorem resultKey_injective {m m' : String} {t t' : ResultType}
    (h : m ++ ":" ++ t.key = m' ++ ":" ++ t'.key) : m = m' ∧ t = t' := by
  have hchars := congrArg String.toList h
  simp only [String.toList_append, List.append_assoc] at hchars
  obtain ⟨hm, hkey⟩ := split_last_colon (colon_notMem_key t) (colon_notMem_key t') hchars
  exact ⟨String.toList_inj.mp hm, key_injective (String.toList_inj.mp hkey)⟩

/-- The outbox holds a message to publish that answers `m` with the result. -/
def Publishes (s : Tables) (m : String) (result : Result) : Prop :=
  ∃ row ∈ s.outbox, row.status = .pending ∧ row.payload.correlationID = m ∧
    row.payload.result = result

/-- The codes of the failures already in the outbox for a message are the code of the
result, if that is a failure. -/
def SameVerdict (s : Tables) (m : String) (result : Result) : Prop :=
  result.type = .operationFailed → ∀ row ∈ s.outbox, row.payload.correlationID = m →
    row.payload.type = .operationFailed → row.payload.code = result.code

instance (s : Tables) (m : String) (result : Result) : Decidable (Publishes s m result) :=
  inferInstanceAs (Decidable (∃ row ∈ s.outbox, _))

instance (s : Tables) (m : String) (result : Result) : Decidable (SameVerdict s m result) :=
  inferInstanceAs (Decidable (_ → ∀ row ∈ s.outbox, _))

/-- A row that was there keeps what it publishes. -/
theorem Execution.message_kept {recorder : Option ℤ}
    (hx : Execution s n n' recorder o cmd result s') {row : OutboxRow} (hrow : row ∈ s.outbox) :
    ∃ row' ∈ s'.outbox, row'.message = row.message := by
  obtain ⟨s₁, houtbox, -, rfl⟩ := hx.records
  rw [← houtbox] at hrow
  cases recorder with
  | none => exact ⟨row, hrow, rfl⟩
  | some now =>
    apply List.mem_map.mp
    simp only [Tables.recorded, message_enqueue]
    exact List.mem_append_left _ (List.mem_map_of_mem hrow)

/-- The row under the key of the result: to be published, with the payload of the result or
the one it had. -/
theorem Execution.published {now : ℤ} (hx : Execution s n n' (some now) o cmd result s') :
    ∃ row ∈ s'.outbox, row.status = .pending ∧
      (row.payload = buildResult (cmd.reply o) result now ∨
        ∃ row₀ ∈ s.outbox, row₀.idempotencyKey = cmd.messageID ++ ":" ++ result.type.key ∧
          row₀.payload = row.payload) := by
  obtain ⟨s₁, houtbox, -, rfl⟩ := hx.records
  rw [← houtbox]
  set env := buildResult (cmd.reply o) result now with henv
  change ∃ row ∈ (s₁.enqueue env.messageID env.type env now).outbox, _
  obtain ⟨row, hrow, hkey, hpending⟩ := pending_enqueue (s := s₁) env.messageID env.type env now
  refine ⟨row, hrow, hpending, ?_⟩
  have hmessage : row.message ∈ (s₁.enqueue env.messageID env.type env now).outbox.map
      OutboxRow.message := List.mem_map_of_mem hrow
  rw [message_enqueue] at hmessage
  rcases List.mem_append.mp hmessage with hold | hnew
  · obtain ⟨row₀, hrow₀, hsame⟩ := List.mem_map.mp hold
    obtain ⟨hkey₀, hpayload⟩ := Prod.mk.inj hsame
    exact Or.inr ⟨row₀, hrow₀, hkey₀.trans hkey, hpayload⟩
  · split at hnew
    · exact absurd hnew (List.not_mem_nil)
    · exact Or.inl (Prod.mk.inj (List.mem_singleton.mp hnew)).2

/-- A committed command is answered by a message to publish exactly if no failure with
another code was enqueued for its message before. -/
theorem Execution.publishes_iff {now : ℤ} (h : Posted s)
    (hx : Execution s n n' (some now) o cmd result s') :
    Publishes s' cmd.messageID result ↔ SameVerdict s cmd.messageID result := by
  constructor
  · rintro ⟨row, hrow, -, hcorrelation, hresult⟩ htype row₀ hrow₀ hcorrelation₀ htype₀
    obtain ⟨row', hrow', hmessage⟩ := hx.message_kept hrow₀
    obtain ⟨hkey, hpayload⟩ := Prod.mk.inj hmessage
    have htyped : row.payload.type = result.type := congrArg Result.type hresult
    have hsame : row' = row := by
      refine (h.execution hx).unique.eq hrow' hrow ?_
      rw [hkey, h.keys row₀ hrow₀, (h.execution hx).keys row hrow, hcorrelation₀, hcorrelation,
        htype₀, htyped, htype]
    have hcode : row.payload.code = result.code := congrArg Result.code hresult
    rw [← hpayload, hsame, hcode]
  · intro hverdict
    obtain ⟨row, hrow, hpending, hnew | ⟨row₀, hrow₀, hkey, hpayload⟩⟩ := hx.published
    · exact ⟨row, hrow, hpending, by rw [hnew]; rfl, by rw [hnew]; rfl⟩
    · rw [h.keys row₀ hrow₀] at hkey
      obtain ⟨hcorrelation, htype⟩ := resultKey_injective hkey
      refine ⟨row, hrow, hpending, hpayload ▸ hcorrelation, ?_⟩
      rw [← hpayload]
      have hjudged := h.judged row₀ hrow₀
      unfold Tables.Judged at hjudged
      by_cases hfailed : result.type = .operationFailed
      · rw [if_pos (htype.trans hfailed)] at hjudged
        obtain ⟨hamount, hseq⟩ := hx.bare_of_failed h hfailed
        have hcode := hverdict hfailed row₀ hrow₀ hcorrelation (htype.trans hfailed)
        obtain ⟨type, amount, seq, code⟩ := result
        simp only [Envelope.result, Result.mk.injEq]
        exact ⟨htype, hjudged.1.trans hamount.symm, hjudged.2.trans hseq.symm, hcode⟩
      · rw [if_neg (htype ▸ hfailed), hcorrelation] at hjudged
        have hstored := hx.stores hfailed
        rw [hx.resultOf_mono hjudged] at hstored
        exact Option.some.inj hstored

end

/-- When a command commits with a result, the outbox holds a message to publish with
exactly this result if and only if no failure with another code was enqueued for the same
message before. -/
theorem result_published_iff (hash : String → ℤ) (history : List Activity) (now : ℤ)
    (cmd : Command) (result : Result)
    (hanswer : cmd.answer hash (some now) (operate hash history) = .ok result) :
    Publishes ((Request.order (some now) cmd).perform hash (operate hash history)).1 cmd.messageID
        result ↔
      SameVerdict (operate hash history).1 cmd.messageID result := by
  obtain ⟨hbooks, hposted⟩ := posted_operate hash history
  generalize operate hash history = st at hanswer hbooks hposted ⊢
  obtain ⟨s, n⟩ := st
  have hspec : (engine hash).wp Admissible _ (cmd.body (some now)) s n :=
    Command.body_spec hbooks cmd
  simp only [Command.answer] at hanswer
  rcases Engine.wp_atomically hspec with ⟨result', hok, hpost⟩ | ⟨e, herr, _⟩
  · rw [hanswer] at hok
    cases hok
    obtain ⟨o, hv, hx⟩ := hpost result rfl
    exact hx.publishes_iff hposted
  · rw [hanswer] at herr
    cases herr

/-- A transfer that failed because the courier had no wallet, was published as such, and is
judged again when the courier has one and the requester not enough credit. -/
def lateCourier : List Activity :=
  let order := "11111111-1111-4111-8111-111111111111"
  [.request (.createWallet 100 "22222222-2222-4222-8222-222222222222" "auth0|requester"),
    .request (.order (some 0) (.reserve "m1" ⟨order, 1, "auth0|requester", 60⟩)),
    .request (.order (some 1) (.transfer "m2" ⟨order, 2, "auth0|requester", "auth0|courier", 500⟩)),
    .dispatch (.claim "worker" 10 30 2 []),
    .dispatch (.markSent "m2:credit.operation_failed" "worker"),
    .request (.createWallet 100 "33333333-3333-4333-8333-333333333333" "auth0|courier")]

/-- The second verdict is that the credit does not suffice; what is published again is that
there is no account. -/
theorem stale_code_published :
    let cmd := Command.transfer "m2"
      ⟨"11111111-1111-4111-8111-111111111111", 2, "auth0|requester", "auth0|courier", 500⟩
    let st := operate (fun _ => 0) lateCourier
    let s' := ((Request.order (some 3) cmd).perform (fun _ => 0) st).1
    cmd.answer (fun _ => 0) (some 3) st =
        .ok { type := .operationFailed, code := some .insufficientCredits } ∧
      ¬ Publishes s' "m2" { type := .operationFailed, code := some .insufficientCredits } ∧
      Publishes s' "m2" { type := .operationFailed, code := some .accountNotFound } := by
  decide

/-- The first verdict is published. -/
theorem first_code_published :
    Publishes ((Request.order (some 1) (.transfer "m2"
        ⟨"11111111-1111-4111-8111-111111111111", 2, "auth0|requester", "auth0|courier", 500⟩)).perform
        (fun _ => 0) (operate (fun _ => 0) [])).1 "m2"
      { type := .operationFailed, code := some .reservationNotFound } :=
  (result_published_iff (fun _ => 0) [] 1 (.transfer "m2"
    ⟨"11111111-1111-4111-8111-111111111111", 2, "auth0|requester", "auth0|courier", 500⟩)
    { type := .operationFailed, code := some .reservationNotFound } (by decide)).mpr
    (by decide)

end FocServices.Credit
