import FocServices.Orders.Writes

/-!
# One story in three tables

The errands, the log and the reviews agree after any sequence of jobs, whether a
transition was decided on the tables as they are or on earlier ones: the condition of its
update lets it through only when its errand has not moved on. `Told` is what the records
then tell about an errand.
-/

namespace FocServices.Orders

open Txn

/-! ## Jobs that write no transition -/

/-- The statements that write no errand, no row of the log and no review. -/
def Stmt.quiet : Stmt → Bool
  | .insertErrand _ | .updateErrand _ _ _ _ | .insertTransition _ | .insertOutbox _
  | .openReview _ | .resolveReview _ _ => false
  | _ => true

/-- Errands, log and reviews are the same, and no row has left the outbox. -/
structure Undisturbed (s s' : Tables) : Prop where
  errands : s'.errands = s.errands
  transitions : s'.transitions = s.transitions
  reviews : s'.reviews = s.reviews
  outbox : s.outbox <+: s'.outbox

section Quiet

variable {hash : String → ℤ} {s s' : Tables} {n : ℕ}

theorem Undisturbed.refl (s : Tables) : Undisturbed s s := ⟨rfl, rfl, rfl, List.prefix_rfl⟩

theorem Undisturbed.trans {s'' : Tables} (h : Undisturbed s s') (h' : Undisturbed s' s'') :
    Undisturbed s s'' :=
  ⟨h'.errands.trans h.errands, h'.transitions.trans h.transitions, h'.reviews.trans h.reviews,
    h.outbox.trans h'.outbox⟩

theorem Undisturbed.later (h : Undisturbed s s') (hs : Recorded s) (hkeyed : Keyed s') :
    Later s s' := by
  obtain ⟨herrands, htransitions, hreviews, houtbox⟩ := h
  have hlog : ∀ id, s'.logOf id = s.logOf id := fun id => by simp [Tables.logOf, htransitions]
  have hof : ∀ id, s'.reviewsOf id = s.reviewsOf id := fun id => by
    simp [Tables.reviewsOf, hreviews]
  have hknown : ∀ id, s'.hasErrand id = s.hasErrand id := fun id => by
    simp [Tables.hasErrand, herrands]
  have hkeys : ∀ key, s.hasKey key = true → s'.hasKey key = true := by
    intro key hkey
    obtain ⟨row, hrow, hsame⟩ := List.any_eq_true.mp hkey
    exact List.any_eq_true.mpr ⟨row, houtbox.subset hrow, hsame⟩
  refine ⟨⟨hkeyed, herrands ▸ hs.stored, ?_, ?_, ?_, ?_, ?_, ?_⟩, ?_⟩
  · rw [herrands]
    exact fun e he => hkeys _ (hs.reserved e he)
  · rw [herrands]
    exact fun e he => hlog e.id ▸ hs.lived e he
  · rw [herrands]
    intro e he
    rw [hlog]
    exact (hs.requested e he).imp fun _ _ himp hsame => hkeys _ (himp hsame)
  · rw [herrands]
    exact fun e he => hof e.id ▸ hs.reviewed e he
  · rw [htransitions]
    exact fun row hrow => (hknown _).trans (hs.logged row hrow)
  · rw [hreviews]
    exact fun r hr => (hknown _).trans (hs.opened r hr)
  · rw [herrands]
    exact fun e he => ⟨e, he, .refl e⟩

theorem quiet_frame {q : Stmt} (hq : q.quiet = true) (s : Tables) :
    RowsAccepted q ((engine hash).execAlone n q s).reply ∧
      Undisturbed s ((engine hash).storeAfter n q s) := by
  have hadds : ∀ row, Undisturbed s { s with outbox := s.outbox ++ [row] } := fun row =>
    ⟨rfl, rfl, rfl, List.prefix_append _ _⟩
  refine ⟨?_, ?_⟩
  · cases q with
    | insertOutbox | openReview | resolveReview => cases hq
    | _ => trivial
  · change Undisturbed s ((engine hash).applyAll (exec hash (fun _ _ => true) q s).writes s)
    cases q with
    | insertOutboxIfAbsent row =>
      rcases @insertOutboxIfAbsent_answer hash s (fun _ _ => true) row with
        ⟨_, _, h⟩ | h | ⟨_, -, h⟩ <;> rw [h]
      · exact .refl s
      · exact .refl s
      · exact hadds row
    | insertCurrentReminder row status version =>
      rcases @insertCurrentReminder_answer hash s (fun _ _ => true) row status version with
        ⟨_, h⟩ | ⟨_, -, h⟩ <;> rw [h]
      · exact .refl s
      · exact hadds row
    | getErrand | getErrandForUpdate | getErrandByCreateKey | insertFence | getFence =>
      simp only [exec]
      split <;> exact ⟨rfl, rfl, rfl, List.prefix_rfl⟩
    | closeFence operationID state =>
      simp only [exec]
      split
      · split <;> exact ⟨rfl, rfl, rfl, List.prefix_rfl⟩
      · exact .refl s
    | claim | lockSupplierShared | supplierFenced | lockSupplierForFence | insertAudit
    | countActiveErrandsForSupplier | courierHistory => exact ⟨rfl, rfl, rfl, List.prefix_rfl⟩
    | _ => cases hq

theorem quiet_spec {α : Type} {p : Tx α}
    (hp : p.Conforms (fun _ q => q.quiet = true) (fun _ _ => True) []) :
    (engine hash).wp RowsAccepted (fun _ s' _ => Undisturbed s s') p s n :=
  Engine.wp_invariant (fun _ n s' hq hs' =>
    ⟨(quiet_frame (n := n) hq s').1, hs'.trans (quiet_frame (n := n) hq s').2⟩) hp (.refl s)

theorem recordRejection_conforms (r : Rejection) :
    (recordRejection r).Conforms (fun _ q => q.quiet = true) (fun _ _ => True) [] := by
  unfold recordRejection
  split
  · trivial
  split
  · trivial
  refine ⟨rfl, fun reply => ?_⟩
  cases reply with
  | error err => cases err <;> trivial
  | ok row =>
    refine ⟨rfl, fun reply => ?_⟩
    cases reply <;> trivial

theorem insertCurrentReminder_conforms (kind : ReminderKind) (c : ReminderCandidate) (now : ℤ) :
    (insertCurrentReminder kind c now).Conforms (fun _ q => q.quiet = true) (fun _ _ => True)
      [] := by
  unfold insertCurrentReminder
  split
  · trivial
  refine ⟨rfl, fun reply => ?_⟩
  cases reply <;> trivial

/-- Every statement of the fence service is quiet. -/
theorem quiet_of_fences {α : Type} {p : Tx α}
    (hp : p.Conforms (fun _ q => q.ofFences = true) (fun _ _ => True) []) :
    p.Conforms (fun _ q => q.quiet = true) (fun _ _ => True) [] := by
  refine hp.mono fun _ q hq => ?_
  cases q <;> first | rfl | cases hq

end Quiet

/-! ## Runs -/

/-- The transitions of a job are decided by `next`: for a new errand with a generated
identifier, for an errand as it is or once was stored, or for the errands of a batch. -/
def Job.Founded (past : List Tables) : Job → Prop
  | .create e t => ∃ id requesterID key details, e = newErrand id requesterID key details ∧
      Canonical id ∧ ∃ actor input now, next e .submit actor input now = .ok t
  | .apply t => ∃ s ∈ past, ∃ e ∈ s.errands, Decides e t
  | .claimDue _ _ _ decide => ∀ e t, decide e = .ok (some t) → Decides e t
  | _ => True

/-- The tables that jobs pass through one after another, newest first. The transition that
a job applies may have been decided on any tables before. -/
inductive Passed (hash : String → ℤ) : List Tables → Prop where
  | start : Passed hash [{}]
  | perform {s : Tables} {past : List Tables} (job : Job) (h : Passed hash (s :: past))
      (hjob : job.Founded (s :: past)) : Passed hash (job.perform hash s :: s :: past)

section Runs

variable {hash : String → ℤ} {s : Tables} {past : List Tables}

/-- What a job does to tables in agreement, whose errands have all moved on from those it
may have seen. -/
theorem Job.agreed (hs : Recorded s) {job : Job} (hjob : job.Founded past)
    (hpast : ∀ s₀ ∈ past, ∀ e ∈ s₀.errands, Regular e ∧ ∃ e' ∈ s.errands, Succeeds e e') :
    (engine hash).AllReplies RowsAccepted job.body s 0 ∧ Later s (job.perform hash s) := by
  -- jobs that write no transition are steps, so that the outbox stays in order
  have hquiet : job.body.Conforms (fun _ q => q.quiet = true) (fun _ _ => True) [] →
      job.Follows (fun _ _ _ => True) s →
      (engine hash).AllReplies RowsAccepted job.body s 0 ∧ Later s (job.perform hash s) := by
    intro hconforms hfollows
    have hspec : (engine hash).wp RowsAccepted (fun _ s' _ => Undisturbed s s') job.body s 0 :=
      quiet_spec hconforms
    refine ⟨Engine.wp_allReplies hspec, ?_⟩
    have hkeyed : Keyed (job.perform hash s) :=
      hs.keyed.steps (Job.perform_steps hs.keyed hfollows)
    rcases Engine.wp_atomically hspec with ⟨_, -, hundisturbed⟩ | ⟨_, -, hsame⟩
    · exact hundisturbed.later hs hkeyed
    · rw [Job.perform, hsame]
      exact .refl hs
  have hwrites : (engine hash).wp RowsAccepted (Agreed s) job.body s 0 →
      (engine hash).AllReplies RowsAccepted job.body s 0 ∧ Later s (job.perform hash s) := by
    intro hspec
    refine ⟨Engine.wp_allReplies hspec, ?_⟩
    rcases Engine.wp_atomically hspec with ⟨_, -, hlater⟩ | ⟨_, -, hsame⟩
    · exact hlater
    · rw [Job.perform, hsame]
      exact .refl hs
  cases job with
  | create e t =>
    obtain ⟨id, requesterID, key, details, rfl, hid, actor, input, now, hnext⟩ := hjob
    exact hwrites (wp_agreed_return (hs.create_agreed hid hnext))
  | apply t =>
    obtain ⟨s₀, hs₀, e, he, hdecides⟩ := hjob
    obtain ⟨hregular, hcur⟩ := hpast s₀ hs₀ e he
    exact hwrites (wp_agreed_return (hs.apply_agreed hregular hdecides hcur))
  | claimDue kind now limit decide => exact hwrites (wp_agreed_return (hs.claimDue_agreed hjob))
  | recordRejection r =>
    exact hquiet (Program.conforms_bind (recordRejection_conforms r) fun _ _ _ => trivial) trivial
  | remind kind c now =>
    exact hquiet (Program.conforms_bind (insertCurrentReminder_conforms kind c now)
      fun _ _ _ => trivial) trivial
  | acquire actor operationID supplierID =>
    exact hquiet (Program.conforms_bind (quiet_of_fences (acquire_conforms actor operationID
      supplierID)) fun _ _ _ => trivial) trivial
  | inspect operationID =>
    exact hquiet (Program.conforms_bind (quiet_of_fences (inspect_conforms operationID))
      fun _ _ _ => trivial) trivial
  | commit actor operationID | release actor operationID =>
    exact hquiet (Program.conforms_bind (quiet_of_fences (close_conforms actor _ operationID _))
      fun _ _ _ => trivial) trivial

theorem Passed.recorded {tables : List Tables} (h : Passed hash tables) :
    ∃ s past, tables = s :: past ∧ Recorded s ∧
      ∀ s₀ ∈ tables, ∀ e ∈ s₀.errands, Regular e ∧ ∃ e' ∈ s.errands, Succeeds e e' := by
  induction h with
  | start => exact ⟨{}, [], rfl, recorded_empty, by simp⟩
  | @perform s past job h hjob ih =>
    obtain ⟨s₁, past₁, heq, hs, hpast⟩ := ih
    cases heq
    obtain ⟨hrecorded, hsucceeds⟩ : Later s (job.perform hash s) := (Job.agreed hs hjob hpast).2
    refine ⟨_, _, rfl, hrecorded, List.forall_mem_cons.mpr ⟨fun e he => ?_, ?_⟩⟩
    · exact ⟨hrecorded.keyed.regular e he, e, he, .refl e⟩
    · intro s₀ hs₀ e he
      obtain ⟨hregular, e', he', hlater⟩ := hpast s₀ hs₀ e he
      obtain ⟨e'', he'', hlater'⟩ := hsucceeds e' he'
      exact ⟨hregular, e'', he'', hlater.trans hlater'⟩

/-- What was true of the newest tables was true of the earlier ones in their time. -/
theorem Passed.earlier {tables : List Tables} (h : Passed hash tables) {s₀ : Tables}
    (hs₀ : s₀ ∈ tables) : ∃ past₀, Passed hash (s₀ :: past₀) := by
  induction h with
  | start =>
    obtain rfl := List.mem_singleton.mp hs₀
    exact ⟨[], .start⟩
  | perform job h hjob ih =>
    rcases List.mem_cons.mp hs₀ with rfl | hold
    · exact ⟨_, .perform job h hjob⟩
    · exact ih hold

/-- Nothing is taken out of the log. -/
theorem Passed.log_grows {tables : List Tables} (h : Passed hash tables) :
    ∃ s past, tables = s :: past ∧ ∀ s₀ ∈ tables, s₀.transitions <+: s.transitions := by
  induction h with
  | start => exact ⟨{}, [], rfl, by simp⟩
  | @perform s past job h hjob ih =>
    obtain ⟨s₁, past₁, heq, hgrows⟩ := ih
    cases heq
    have hstep : s.transitions <+: (job.perform hash s).transitions := by
      refine Engine.atomically_induction (I := fun s' : Tables => s.transitions <+: s'.transitions)
        (fun w s' hs' => ?_) job.body List.prefix_rfl
      cases w with
      | insertTransition row => exact hs'.trans (List.prefix_append _ _)
      | _ => exact hs'
    exact ⟨_, _, rfl, List.forall_mem_cons.mpr
      ⟨List.prefix_rfl, fun s₀ hs₀ => (hgrows s₀ hs₀).trans hstep⟩⟩

variable {s₁ : Tables} {e₁ e₂ : Errand}

/-- An errand that is still in a status at a version, and not open, has not changed. -/
theorem Passed.unmoved (h : Passed hash (s :: past)) (hs₁ : s₁ ∈ s :: past) (he₁ : e₁ ∈ s₁.errands)
    (he₂ : e₂ ∈ s.errands) (hid : e₂.id = e₁.id) (hstatus : e₂.status = e₁.status)
    (hversion : e₂.version = e₁.version) (hopen : e₁.status ≠ .open) : e₂ = e₁ := by
  obtain ⟨_, _, heq, hrecorded, hpast⟩ := h.recorded
  cases heq
  obtain ⟨hregular₁, e, he, hsucceeds⟩ := hpast s₁ hs₁ e₁ he₁
  obtain rfl : e = e₂ :=
    hrecorded.keyed.unique.eq he he₂ (hsucceeds.id.trans hid.symm)
  have hnone : ∀ e', Regular e' → e'.status ≠ .open → e'.rank = 2 * e'.version := by
    intro e' hregular hnot
    cases hpending : e'.pendingEdit with
    | none => simp [Errand.rank, hpending]
    | some p => exact absurd (hregular.pendingEdit p hpending).1 hnot
  rcases hsucceeds.rank with hsame | hlater
  · exact hsame
  · rw [hnone e₁ hregular₁ hopen, hnone e (hrecorded.keyed.regular e he) (hstatus ▸ hopen),
      hversion] at hlater
    exact absurd hlater (Nat.lt_irrefl _)

/-- An errand in a terminal status stays as it is. -/
theorem Passed.settled (h : Passed hash (s :: past)) (hs₁ : s₁ ∈ s :: past)
    (he₁ : e₁ ∈ s₁.errands) (hterminal : e₁.status.terminal = true) : e₁ ∈ s.errands := by
  obtain ⟨_, _, heq, hrecorded, hpast⟩ := h.recorded
  cases heq
  obtain ⟨_, _, heq, hgrows⟩ := h.log_grows
  cases heq
  obtain ⟨_, hearlier⟩ := h.earlier hs₁
  obtain ⟨_, _, heq, hrecorded₁, -⟩ := hearlier.recorded
  cases heq
  obtain ⟨-, e₂, he₂, hsucceeds⟩ := hpast s₁ hs₁ e₁ he₁
  obtain ⟨init₁, row₁, hlog₁, htarget₁, hversion₁⟩ := (hrecorded₁.lived e₁ he₁).log_ends
  have hlived := hrecorded.lived e₂ he₂
  rw [hsucceeds.id] at hlived
  obtain ⟨rest, hlog⟩ : s₁.logOf e₁.id <+: s.logOf e₁.id := (hgrows s₁ hs₁).filter _
  rw [hlog₁] at hlog
  cases rest with
  | nil =>
    rw [List.append_nil] at hlog
    obtain ⟨init₂, row₂, hlog₂, htarget₂, hversion₂⟩ := hlived.log_ends
    obtain ⟨-, hrows⟩ := List.append_inj' (hlog₂.symm.trans hlog.symm) rfl
    obtain rfl := List.singleton_inj.mp hrows
    have hopen : e₁.status ≠ .open := fun hopen => by simp [hopen, Status.terminal] at hterminal
    rw [← h.unmoved hs₁ he₁ he₂ hsucceeds.id (htarget₂.symm.trans htarget₁)
      (hversion₂.symm.trans hversion₁) hopen]
    exact he₂
  | cons next rest =>
    -- a further row would leave the terminal status
    have hjoined := hlived.joined
    rw [← hlog, List.append_assoc, List.singleton_append] at hjoined
    have hsource := (List.isChain_iff_forall_rel_of_append_cons_cons.mp hjoined rfl).1
    have hlive := hlived.sources next (by rw [← hlog]; simp)
    rw [hsource, htarget₁, hterminal] at hlive
    cases hlive

end Runs

/-! ## One story -/

/-- What the log and the reviews tell about an errand. -/
structure Told (s : Tables) (e : Errand) : Prop where
  starts : ∃ row rest, s.logOf e.id = row :: rest ∧ row.event = .submit ∧ row.source = .none ∧
    row.target = .pendingReservation ∧ row.errandVersion = 1
  joins : (s.logOf e.id).IsChain fun prev row => row.source = prev.target ∧
    (row.errandVersion = prev.errandVersion + 1 ∨ row.errandVersion = prev.errandVersion ∧
      row.event = .edit ∧ s.hasKey (idempotencyKey e.id "adjust" row.errandVersion) = true)
  ends : ∃ init row, s.logOf e.id = init ++ [row] ∧ row.target = e.status ∧
    row.errandVersion = e.version
  withdrawals : ∀ before row after, s.logOf e.id = before ++ row :: after →
    row.event = .withdraw ∨ row.event = .pickupDeadlinePassed →
      ∃ accept, lastAccept before = some accept ∧ accept.courierID = row.courierID
  single : (s.reviewsOf e.id).length ≤ 1
  opened : (∃ r ∈ s.reviewsOf e.id, r.resolution = none) ↔ e.status = .reviewRequired
  reason : ∀ r ∈ s.reviewsOf e.id, r.reason = e.reviewReason
  resolved : ∀ r ∈ s.reviewsOf e.id, ∀ resolution, r.resolution = some resolution →
    resolution.target = e.status ∧ e.status.terminal = true

theorem Recorded.told {s : Tables} (hs : Recorded s) {e : Errand} (he : e ∈ s.errands) :
    Told s e := by
  have hlived := hs.lived e he
  obtain ⟨hwell, -, -⟩ := hlived.regular
  have hjoins : (s.logOf e.id).IsChain fun prev row => row.source = prev.target ∧
      (row.errandVersion = prev.errandVersion + 1 ∨ row.errandVersion = prev.errandVersion ∧
        row.event = .edit ∧ s.hasKey (idempotencyKey e.id "adjust" row.errandVersion) = true) := by
    refine List.isChain_iff_forall_rel_of_append_cons_cons.mpr fun prev row l₁ l₂ hlog => ?_
    obtain ⟨hsource, hversion⟩ :=
      List.isChain_iff_forall_rel_of_append_cons_cons.mp hlived.joined hlog
    have hrequested :=
      List.isChain_iff_forall_rel_of_append_cons_cons.mp (hs.requested e he) hlog
    exact ⟨hsource, hversion.imp_right fun hsame => ⟨hsame.1, hsame.2, hrequested hsame.1⟩⟩
  rcases (hs.reviewed e he).cases hwell with ⟨hnone, hstatus⟩ | ⟨review, hone, hreason, hrest⟩
  · refine ⟨hlived.log_starts, hjoins, hlived.log_ends, fun _ _ _ => hlived.withdrawals,
      ?_, ?_, ?_, ?_⟩ <;> rw [hnone]
    · exact Nat.zero_le 1
    · simp [hstatus]
    · simp
    · simp
  · refine ⟨hlived.log_starts, hjoins, hlived.log_ends, fun _ _ _ => hlived.withdrawals,
      ?_, ?_, ?_, ?_⟩ <;> rw [hone]
    · exact Nat.le_refl 1
    · have hsingle : (∃ r ∈ [review], r.resolution = none) ↔ review.resolution = none := by simp
      rw [hsingle]
      rcases hrest with ⟨hopen, hstatus⟩ | ⟨resolution, hresolved, -, hends⟩
      · simp [hopen, hstatus]
      · rw [hresolved]
        refine ⟨fun h => absurd h (Option.some_ne_none _), fun hstatus => ?_⟩
        rw [hstatus] at hends
        cases hends
    · rw [List.forall_mem_singleton]
      exact hreason
    · rw [List.forall_mem_singleton]
      intro resolution hresolved
      rcases hrest with ⟨hopen, -⟩ | ⟨resolution', hresolved', htarget, hends⟩
      · rw [hopen] at hresolved
        cases hresolved
      · obtain rfl := Option.some.inj (hresolved.symm.trans hresolved')
        exact ⟨htarget, hends⟩

/-- After any sequence of jobs, each transition of which `next` decided for an errand as it
is or once was stored, the log and the reviews tell the story of every errand, and no
statement on reviews fails or changes nothing in the next job. -/
theorem records_tell {hash : String → ℤ} {s : Tables} {past : List Tables}
    (h : Passed hash (s :: past)) :
    (∀ e ∈ s.errands, Told s e) ∧ ∀ job : Job, job.Founded (s :: past) →
      (engine hash).AllReplies RowsAccepted job.body s 0 := by
  obtain ⟨s', past', heq, hs, hpast⟩ := h.recorded
  cases heq
  exact ⟨fun e he => hs.told he, fun job hjob => (Job.agreed hs hjob hpast).1⟩

/-- A submitted errand is on record. -/
theorem records_tell_submit : ∃ s past, Passed (fun _ => 0) (s :: past) ∧ s.errands.length = 1 ∧
    ∀ e ∈ s.errands, Told s e := by
  have hsubmits : ((next sampleErrand .submit ⟨.requester, "auth0|requester"⟩ {} 0).toOption.map
      fun t => ((Job.create sampleErrand t).perform (fun _ => 0) {}).errands.length) = some 1 := by
    decide
  cases hnext : next sampleErrand .submit ⟨.requester, "auth0|requester"⟩ {} 0 with
  | ok t =>
    rw [hnext] at hsubmits
    have hpassed : Passed (fun _ => 0) [(Job.create sampleErrand t).perform (fun _ => 0) {}, {}] :=
      .perform (.create sampleErrand t) .start ⟨sampleErrand.id, sampleErrand.requesterID,
        sampleErrand.createIdempotencyKey, sampleErrand.details, rfl, by decide, _, _, _,
        hnext⟩
    exact ⟨_, _, hpassed, Option.some.inj hsubmits, (records_tell hpassed).1⟩
  | error e =>
    rw [hnext] at hsubmits
    cases hsubmits

end FocServices.Orders
