import FocServices.Credit.Holdings

/-!
# Repeated messages

A message whose command was executed is answered from the stored results ever after,
whatever command it carries the next time. A command that fails leaves no trace outside
the outbox.
-/

namespace FocServices.Credit

open Txn

/-- What a service answers to a command. -/
def Command.answer (hash : String → ℤ) (recorder : Option ℤ) (cmd : Command) (st : Tables × ℕ) :
    Except ServiceError Result :=
  ((engine hash).atomically (cmd.body recorder) st.1 st.2).1

/-- The arguments pass the checks of the command, and the recorder's check of the errand
version if results are recorded. -/
def Command.Accepted (recorder : Option ℤ) (cmd : Command) : Prop :=
  (∃ o, cmd.validate = .ok o) ∧ (recorder.isSome = true → 1 ≤ cmd.errandVersion)

/-- Nothing has changed but the outbox. -/
structure Untouched (s s' : Tables) : Prop extends SameBooks s s' where
  processed : s'.processed = s.processed

section

variable {hash : String → ℤ} {s s' : Tables} {n n' : ℕ} {recorder : Option ℤ} {cmd : Command}
  {result : Result} {o : String}

theorem untouched_refl (s : Tables) : Untouched s s := ⟨⟨rfl, rfl, rfl, rfl⟩, rfl⟩

theorem untouched_recorded (s : Tables) (recorder : Option ℤ) (reply : Reply) (result : Result) :
    Untouched s (s.recorded recorder reply result) :=
  ⟨sameBooks_recorded s recorder reply result, processed_recorded s recorder reply result⟩

/-! ## Answers from the stored results -/

/-- The recorder accepts a result whose command has an errand version. -/
theorem wp_record_ok {α : Type} {post : Except ServiceError α → Tables → ℕ → Prop} {reply : Reply}
    {next : Unit → Tx α} (hversion : recorder.isSome = true → 1 ≤ reply.errandVersion)
    (hok : ∀ n', (engine hash).wp Admissible post (next ()) (s.recorded recorder reply result) n') :
    (engine hash).wp Admissible post (record recorder reply result >>= next) s n := by
  cases recorder with
  | none => exact hok n
  | some now =>
    have hversion := hversion rfl
    simp only [record, recordResult]
    rw [if_neg (by omega)]
    simp only [query, Program.call_bind, Program.stmt_bind]
    exact wp_enqueue (hok (n + 1))

/-- A command whose message is stored is answered with the stored result. -/
theorem replay_spec (hstored : s.resultOf cmd.messageID = some result)
    (haccepted : cmd.Accepted recorder) :
    (engine hash).wp Admissible (fun r s' _ => r = .ok result ∧ Untouched s s')
      (cmd.body recorder) s n := by
  obtain ⟨⟨o, hv⟩, hversion⟩ := haccepted
  simp only [Command.body, hv, execute, query, Program.call_bind]
  refine wp_lockCommand ?_
  simp only [orFail_ok, Program.pure_bind]
  refine wp_getProcessed (fun result' hstored' => ?_) (fun hnone => ?_)
  · rw [hstored] at hstored'
    cases hstored'
    simp only [Program.pure_eq, Program.pure_bind]
    exact wp_record_ok hversion fun _ => ⟨rfl, untouched_recorded s recorder _ result⟩
  · rw [hstored] at hnone
    cases hnone

theorem answer_of_stored {st : Tables × ℕ} (hstored : st.1.resultOf cmd.messageID = some result)
    (haccepted : cmd.Accepted recorder) : cmd.answer hash recorder st = .ok result ∧
      Untouched st.1 ((Request.order recorder cmd).perform hash st).1 := by
  obtain ⟨s, n⟩ := st
  have hspec : (engine hash).wp Admissible _ (cmd.body recorder) s n :=
    replay_spec hstored haccepted
  obtain ⟨hok, hsame⟩ := Engine.wp_run hspec
  simp only [Command.answer, Request.perform, Engine.atomically]
  rcases hrun : (engine hash).run (cmd.body recorder) s n with ⟨r, s', n'⟩
  rw [hrun] at hok hsame
  cases hok
  exact ⟨rfl, hsame⟩

/-! ## Stored results stay -/

theorem Execution.resultOf (hx : Execution s n n' recorder o cmd result s') (m : String) :
    s'.resultOf m = (s.resultOf m).orElse fun _ =>
      if m = cmd.messageID ∧ result.type ≠ .operationFailed then some result else none := by
  cases hx with
  | replay hstored =>
    rw [Tables.resultOf, processed_recorded, ← Tables.resultOf]
    cases hm : s.resultOf m with
    | some r => rfl
    | none =>
      have hne : m ≠ cmd.messageID := by
        rintro rfl
        rw [hstored] at hm
        cases hm
      simp [hne]
  | first e hnew hout hfresh =>
    have hnew' : (e.apply s).resultOf cmd.messageID = none := by
      rw [Tables.resultOf, Effect.processed_apply]
      exact hnew
    have hsame : (e.apply s).resultOf m = s.resultOf m := by
      rw [Tables.resultOf, Effect.processed_apply]
      rfl
    rw [Tables.resultOf, processed_recorded, ← Tables.resultOf, resultOf_storeResult hnew', hsame]
    by_cases hm : m = cmd.messageID
    · rw [hm, hnew]
      split_ifs <;> rfl
    · cases hs : s.resultOf m <;> simp [hm]

/-- The result of an executed command is stored under its message. -/
theorem Execution.stores (hx : Execution s n n' recorder o cmd result s')
    (htype : result.type ≠ .operationFailed) : s'.resultOf cmd.messageID = some result := by
  rw [hx.resultOf]
  cases hx with
  | replay hstored =>
    rw [hstored]
    rfl
  | first e hnew hout hfresh =>
    rw [hnew, if_pos ⟨rfl, htype⟩]
    rfl

/-- One request keeps the stored results. -/
theorem resultOf_perform {st : Tables × ℕ} (h : Books st.1 st.2) (request : Request) {m : String}
    (hstored : st.1.resultOf m = some result) :
    (request.perform hash st).1.resultOf m = some result := by
  obtain ⟨s, n⟩ := st
  cases request with
  | createWallet initialCredit ownerID subject =>
    have hopens : OpensWallets s
        ((Request.createWallet initialCredit ownerID subject).perform hash (s, n)).1 :=
      createWallet_opensWallets _ _ _
    rw [Tables.resultOf, hopens.processed]
    exact hstored
  | order recorder cmd =>
    have hspec : (engine hash).wp Admissible _ (cmd.body recorder) s n := Command.body_spec h cmd
    rcases Engine.wp_atomically hspec with ⟨result', _, hpost⟩ | ⟨e, _, hsame⟩
    · obtain ⟨o, hv, hx⟩ := hpost result' rfl
      have hresult := hx.resultOf m
      rw [show s.resultOf m = some result from hstored] at hresult
      exact hresult
    · simp only [Request.perform]
      rw [hsame]
      exact hstored

/-- The state after further requests. -/
def serveFrom (hash : String → ℤ) (st : Tables × ℕ) (requests : List Request) : Tables × ℕ :=
  requests.foldl (fun st request => request.perform hash st) st

theorem resultOf_serveFrom {st : Tables × ℕ} (h : Books st.1 st.2) (requests : List Request)
    {m : String} (hstored : st.1.resultOf m = some result) :
    (serveFrom hash st requests).1.resultOf m = some result := by
  induction requests generalizing st with
  | nil => exact hstored
  | cons request requests ih => exact ih (h.perform request) (resultOf_perform h request hstored)

/-- What a command answers is stored, unless it failed. -/
theorem stored_of_answer {st : Tables × ℕ} (h : Books st.1 st.2)
    (hanswer : cmd.answer hash recorder st = .ok result) (htype : result.type ≠ .operationFailed) :
    ((Request.order recorder cmd).perform hash st).1.resultOf cmd.messageID = some result := by
  obtain ⟨s, n⟩ := st
  have hspec : (engine hash).wp Admissible _ (cmd.body recorder) s n := Command.body_spec h cmd
  simp only [Command.answer] at hanswer
  rcases Engine.wp_atomically hspec with ⟨result', hok, hpost⟩ | ⟨e, herr, _⟩
  · rw [hanswer] at hok
    cases hok
    obtain ⟨o, hv, hx⟩ := hpost result rfl
    exact hx.stores htype
  · rw [hanswer] at herr
    cases herr

/-! ## Failures -/

/-- A failed operation has no effect. -/
theorem Outcome.effect_of_failed {e : Effect} (hout : Outcome s o cmd result e)
    (htype : result.type = .operationFailed) : e = .none := by
  cases hout <;> first | rfl | cases htype

theorem untouched_of_failure {st : Tables × ℕ} (h : Books st.1 st.2)
    (hfailed : ∀ result, cmd.answer hash recorder st = .ok result →
      result.type = .operationFailed) :
    Untouched st.1 ((Request.order recorder cmd).perform hash st).1 := by
  obtain ⟨s, n⟩ := st
  have hspec : (engine hash).wp Admissible _ (cmd.body recorder) s n := Command.body_spec h cmd
  simp only [Command.answer] at hfailed
  rcases Engine.wp_atomically hspec with ⟨result, hok, hpost⟩ | ⟨e, _, hsame⟩
  · have htype := hfailed result hok
    obtain ⟨o, hv, hx⟩ := hpost result rfl
    simp only [Request.perform]
    generalize ((engine hash).atomically (cmd.body recorder) s n).2.1 = s' at hx
    cases hx with
    | replay hstored => exact untouched_recorded s recorder _ result
    | first e hnew hout hfresh =>
      rw [hout.effect_of_failed htype, Tables.storeResult, if_pos htype]
      exact untouched_recorded s recorder _ result
  · simp only [Request.perform]
    rw [hsame]
    exact untouched_refl s

end

/-- A message that was answered is answered the same ever after, by any command that
carries it, and nothing but the outbox changes then. A command that fails, or that ends in
an error, changes nothing but the outbox. -/
theorem answered_again (hash : String → ℤ) (requests : List Request) :
    (∀ recorder cmd result, cmd.answer hash recorder (serve hash requests) = .ok result →
      result.type ≠ .operationFailed → ∀ later recorder' cmd',
        Command.messageID cmd' = Command.messageID cmd → Command.Accepted recorder' cmd' →
          let st := serve hash (requests ++ .order recorder cmd :: later)
          cmd'.answer hash recorder' st = .ok result ∧
            Untouched st.1 ((Request.order recorder' cmd').perform hash st).1) ∧
      ∀ recorder cmd, (∀ result, Command.answer hash recorder cmd (serve hash requests) = .ok result →
          result.type = .operationFailed) →
        Untouched (serve hash requests).1
          ((Request.order recorder cmd).perform hash (serve hash requests)).1 := by
  have hbooks : Books (serve hash requests).1 (serve hash requests).2 := books_serve requests
  constructor
  · intro recorder cmd result hanswer htype later recorder' cmd' hm haccepted st
    have hst : st = serveFrom hash
        ((Request.order recorder cmd).perform hash (serve hash requests)) later := by
      simp only [st, serve, serveFrom, List.foldl_append, List.foldl_cons]
    have hstored : st.1.resultOf cmd.messageID = some result := by
      rw [hst]
      exact resultOf_serveFrom (hbooks.perform _) later (stored_of_answer hbooks hanswer htype)
    rw [← hm] at hstored
    exact answer_of_stored hstored haccepted
  · exact fun recorder cmd hfailed => untouched_of_failure hbooks hfailed

/-- A reserve that carries the message of an executed release is answered `released`. -/
theorem answered_again_release :
    (Command.reserve "m1" ⟨"11111111-1111-4111-8111-111111111111", 1, "auth0|requester", 5⟩).answer
        (fun _ => 0) none (serve (fun _ => 0) ([] ++ Request.order none
          (.release "m1" ⟨"11111111-1111-4111-8111-111111111111", 1, "auth0|requester"⟩) :: [])) =
      .ok { type := .released } :=
  ((answered_again (fun _ => 0) []).1 none
    (.release "m1" ⟨"11111111-1111-4111-8111-111111111111", 1, "auth0|requester"⟩)
    { type := .released } (by decide) (by decide) [] none _ rfl
    ⟨⟨"11111111-1111-4111-8111-111111111111", by decide⟩, nofun⟩).1

end FocServices.Credit
