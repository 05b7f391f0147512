import FocServices.Orders.Scheduler

/-!
# Reminders

A reminder job reads the settings, lists the errands whose deadline is near and inserts a
row for each that has not moved on. How near is near depends on the settings the job read,
while the deadline was set with those in force at the delivery. `Desk` puts the jobs
between other transactions, changes of the settings and the passing of time, and keeps a
list of the verification reminders that were inserted.
-/

namespace FocServices.Orders

open Txn

/-! ## The job -/

/-- The status of the errands that a reminder is about. -/
def ReminderKind.awaits : ReminderKind → Status
  | .verification => .delivered
  | .pickup => .assigned

/-- The deadline that a reminder is about. -/
def ReminderKind.deadline : ReminderKind → Errand → Option ℤ
  | .verification, e => e.verificationDeadline
  | .pickup, e => e.pickupDeadline

/-- How far ahead of the deadline to remind; `pickupLead` is configured. -/
def ReminderKind.lead (pickupLead : ℤ) (settings : DeadlineSettings) : ReminderKind → ℤ
  | .verification => settings.verificationAfter - settings.verificationReminderAfter
  | .pickup => pickupLead

/-- The condition of the candidate queries. -/
def Tables.remindable (s : Tables) (kind : ReminderKind) (now remindBefore : ℤ) (e : Errand) :
    Bool :=
  decide (e.status = kind.awaits) &&
    (kind.deadline e).any (fun deadline => now < deadline ∧ deadline ≤ remindBefore) &&
    !s.hasKey (idempotencyKey e.id kind.operation e.version)

def Errand.candidate (kind : ReminderKind) (e : Errand) : ReminderCandidate where
  errandID := e.id
  version := e.version
  status := e.status
  requesterID := e.requesterID
  courierID := e.courierID
  deadline := (kind.deadline e).getD 0

/-- `ListReminderCandidates`. -/
def Tables.reminderCandidates (s : Tables) (kind : ReminderKind) (now remindBefore : ℤ)
    (limit : ℕ) : List ReminderCandidate :=
  let rows := s.errands.filter (s.remindable kind (micros now) (micros remindBefore))
  let sorted := rows.insertionSort fun a b =>
    (kind.deadline a).getD 0 < (kind.deadline b).getD 0 ∨
      (kind.deadline a).getD 0 = (kind.deadline b).getD 0 ∧ a.id ≤ b.id
  (sorted.take limit).map (Errand.candidate kind)

/-- A run of a reminder job: it has read the settings, or it has also listed the candidates
and has some left to remind. A job for pickups does not use the settings. -/
inductive Round where
  | started (kind : ReminderKind) (settings : DeadlineSettings)
  | listed (kind : ReminderKind) (settings : DeadlineSettings) (now : ℤ)
      (remaining : List ReminderCandidate)
  deriving DecidableEq, Repr

/-! ## Jobs among other events -/

/-- A verification reminder that was inserted, with the errand as it was stored then and
the settings that the job had read. -/
structure Raised where
  row : OutboxRow
  errand : Errand
  settings : DeadlineSettings
  deriving DecidableEq, Repr

/-- The order service with its settings, its clock and the reminder jobs that run. `past`
holds the tables before, newest first. -/
structure Desk where
  tables : Tables := {}
  past : List Tables := []
  settings : DeadlineSettings := defaultDeadlineSettings
  clock : ℤ := 0
  rounds : List Round := []
  raised : List Raised := []

/-- The transition was decided no later than now, with the settings that are current if its
event needs any. -/
def Desk.Decides (d : Desk) (e : Errand) (t : Transition) : Prop :=
  ∃ ev actor input now, next e ev actor input now = .ok t ∧ now ≤ d.clock ∧
    (ev = .accept ∨ ev = .deliver → input.deadlines = d.settings)

/-- The transactions other than reminders, with transitions decided as the desk stands. -/
def Desk.Admits (d : Desk) : Job → Prop
  | .create e t => (∃ id requesterID key details, e = newErrand id requesterID key details ∧
      Canonical id ∧ ∃ actor input now, next e .submit actor input now = .ok t) ∧ d.Decides e t
  | .apply t => ∃ s ∈ d.tables :: d.past, ∃ e ∈ s.errands, d.Decides e t
  | .claimDue _ _ _ decide => ∀ e t, decide e = .ok (some t) → d.Decides e t
  | .remind _ _ _ => False
  | _ => True

/-- The desk after a transaction. -/
def Desk.transact (hash : String → ℤ) (d : Desk) (job : Job) : Desk :=
  { d with tables := job.perform hash d.tables, past := d.tables :: d.past }

/-- The verification reminder that inserting a row for the candidate raises, if it does. -/
def Desk.raises (hash : String → ℤ) (d : Desk) (kind : ReminderKind) (settings : DeadlineSettings)
    (now : ℤ) (c : ReminderCandidate) : List Raised :=
  if kind = .verification ∧ ((engine hash).atomically (Job.remind kind c now).body
      d.tables 0).1.toOption = some (.reminded true) then
    (d.tables.errandOf c.errandID).toList.map fun e => ⟨reminderRow kind c now, e, settings⟩
  else []

/-- One event. -/
inductive Turn (hash : String → ℤ) (pickupLead : ℤ) (d : Desk) : Desk → Prop where
  | wait (clock : ℤ) (h : d.clock ≤ clock) : Turn hash pickupLead d { d with clock := clock }
  | update (settings : DeadlineSettings) (h : settings.validate = .ok ()) :
      Turn hash pickupLead d { d with settings := settings }
  | transact (job : Job) (h : d.Admits job) : Turn hash pickupLead d (d.transact hash job)
  | start (kind : ReminderKind) :
      Turn hash pickupLead d { d with rounds := d.rounds ++ [.started kind d.settings] }
  | list {before after : List Round} {kind : ReminderKind} {settings : DeadlineSettings}
      (limit : ℕ) (h : d.rounds = before ++ .started kind settings :: after) :
      Turn hash pickupLead d { d with
        rounds := before ++ .listed kind settings d.clock (d.tables.reminderCandidates kind d.clock
          (d.clock + kind.lead pickupLead settings) limit) :: after }
  | insert {before after : List Round} {kind : ReminderKind} {settings : DeadlineSettings}
      {now : ℤ} {c : ReminderCandidate} {remaining : List ReminderCandidate}
      (h : d.rounds = before ++ .listed kind settings now (c :: remaining) :: after) :
      Turn hash pickupLead d { d.transact hash (.remind kind c now) with
        rounds := before ++ .listed kind settings now remaining :: after
        raised := d.raised ++ d.raises hash kind settings now c }

/-- The desks that events lead to. -/
inductive Attained (hash : String → ℤ) (pickupLead : ℤ) : Desk → Prop where
  | start : Attained hash pickupLead {}
  | turn {d d' : Desk} (h : Attained hash pickupLead d) (hturn : Turn hash pickupLead d d') :
      Attained hash pickupLead d'

/-! ## Other transactions raise no verification reminder -/

/-- The row is a verification reminder. -/
def OutboxRow.remindsVerification (row : OutboxRow) : Bool :=
  row.kind = .event .verificationReminder

/-- The statement inserts no verification reminder. -/
def Stmt.silent : Stmt → Bool
  | .insertOutbox row | .insertOutboxIfAbsent row | .insertCurrentReminder row _ _ =>
    !row.remindsVerification
  | _ => true

/-- The verification reminders in the outbox. -/
def Tables.verificationReminders (s : Tables) : List OutboxRow :=
  s.outbox.filter OutboxRow.remindsVerification

section Silent

variable {hash : String → ℤ} {s : Tables} {n : ℕ} {e : Errand} {t : Transition}
  {log : Program.Log Stmt.Reply}

theorem silent_frame {q : Stmt} (hq : q.silent = true) (s : Tables) :
    ((engine hash).storeAfter n q s).verificationReminders = s.verificationReminders := by
  have hadds : ∀ row : OutboxRow, row.remindsVerification = false →
      ({ s with outbox := s.outbox ++ [row] } : Tables).verificationReminders =
        s.verificationReminders := by
    intro row hrow
    simp [Tables.verificationReminders, List.filter_append, hrow]
  change ((engine hash).applyAll (exec hash (fun _ _ => true) q s).writes s).verificationReminders =
    s.verificationReminders
  cases q with
  | insertOutbox row =>
    have hrow : row.remindsVerification = false := by simpa [Stmt.silent] using hq
    simp only [exec]
    split
    · rfl
    · split
      · rfl
      · exact hadds row hrow
  | insertOutboxIfAbsent row =>
    have hrow : row.remindsVerification = false := by simpa [Stmt.silent] using hq
    rcases @insertOutboxIfAbsent_answer hash s (fun _ _ => true) row with
      ⟨_, _, h⟩ | h | ⟨_, -, h⟩ <;> rw [h]
    · rfl
    · rfl
    · exact hadds row hrow
  | insertCurrentReminder row status version =>
    have hrow : row.remindsVerification = false := by simpa [Stmt.silent] using hq
    rcases @insertCurrentReminder_answer hash s (fun _ _ => true) row status version with
      ⟨_, h⟩ | ⟨_, -, h⟩ <;> rw [h]
    · rfl
    · exact hadds row hrow
  | insertErrand row =>
    rcases @insertErrand_answer hash s (fun _ _ => true) row with ⟨_, h⟩ | ⟨-, -, -, h⟩ <;>
      rw [h] <;> rfl
  | insertTransition row =>
    rcases @insertTransition_answer hash s (fun _ _ => true) row with ⟨_, _, h⟩ | ⟨_, h⟩ <;>
      rw [h] <;> rfl
  | openReview review =>
    rcases @openReview_answer hash s (fun _ _ => true) review with ⟨_, _, h⟩ | ⟨_, h⟩ <;>
      rw [h] <;> rfl
  | resolveReview id resolution =>
    rcases @resolveReview_answer hash s (fun _ _ => true) id resolution with
      ⟨_, _, h⟩ | ⟨_, h⟩ | ⟨_, _, h⟩ <;> rw [h] <;> rfl
  | updateErrand | getErrand | getErrandForUpdate | getErrandByCreateKey | insertFence | getFence
  | closeFence =>
    simp only [exec]
    repeat' split
    all_goals rfl
  | claim | lockSupplierShared | supplierFenced | lockSupplierForFence | insertAudit
  | countActiveErrandsForSupplier | courierHistory => rfl

/-- No transition raises a verification reminder. -/
theorem Decides.silent (h : Decides e t) :
    ∀ row ∈ t.outbox, row.remindsVerification = false := by
  obtain ⟨ev, actor, input, now, hnext⟩ := h
  obtain ⟨r, t₀, hd⟩ := next_ok hnext
  have hemits : ∀ r ∈ transitionTable, .verificationReminder ∉ r.emits := by decide
  rw [hd.result]
  dsimp only [outboxRows]
  generalize t₀.dropPendingEdit e = t'
  simp only [List.forall_mem_append, List.forall_mem_map]
  refine ⟨⟨?_, ?_⟩, fun name hname => ?_⟩
  · unfold effectRows
    split <;> simp [creditRow, OutboxRow.remindsVerification]
  · unfold adjustRows
    rw [List.forall_mem_append]
    constructor <;> split <;> simp [creditRow, OutboxRow.remindsVerification]
  · have hother : name ≠ .verificationReminder := by
      rintro rfl
      split at hname
      · simp at hname
      · exact hemits r hd.mem hname
    simp [eventRow, OutboxRow.remindsVerification, hother]

theorem checkFence_silent (id supplierID : String) :
    (checkFence id supplierID).Conforms (fun _ q => q.silent = true) (fun _ _ => True) log := by
  refine ⟨rfl, fun reply => ?_⟩
  cases reply with
  | error err => trivial
  | ok u =>
    refine ⟨rfl, fun reply => ?_⟩
    cases reply with
    | error err => trivial
    | ok fenced => cases fenced <;> trivial

theorem writeTransitionRows_silent {before after : Errand}
    (ht : ∀ row ∈ t.outbox, row.remindsVerification = false) :
    (writeTransitionRows before after t).Conforms (fun _ q => q.silent = true) (fun _ _ => True)
      log :=
  writeTransitionRows_conforms (fun _ => rfl) (fun _ => rfl) (fun _ _ => rfl)
    (fun row hrow _ => congrArg not (ht row hrow)) log

theorem checkEditFence_silent (cur : Errand) :
    (checkEditFence cur t).Conforms (fun _ q => q.silent = true) (fun _ _ => True) log := by
  unfold checkEditFence
  split
  · exact conforms_check fun id _ => checkFence_silent id _
  · trivial

theorem applyLocked_silent {cur : Errand}
    (ht : ∀ row ∈ t.outbox, row.remindsVerification = false) :
    (applyLocked cur t).Conforms (fun _ q => q.silent = true) (fun _ _ => True) log := by
  unfold applyLocked
  refine conforms_check fun _ _ => ?_
  refine Program.conforms_bind (checkEditFence_silent cur) fun log _ _ => ?_
  refine conforms_check fun row _ => ?_
  refine ⟨rfl, fun reply => ?_⟩
  cases reply with
  | error err => cases err <;> trivial
  | ok stored =>
    change Program.Conforms _ _ _ (writeTransitionRows cur stored t >>= _)
    exact Program.conforms_bind (writeTransitionRows_silent ht) fun _ _ _ => trivial

theorem apply_silent (ht : ∀ row ∈ t.outbox, row.remindsVerification = false) :
    (apply t).Conforms (fun _ q => q.silent = true) (fun _ _ => True) log := by
  unfold apply
  split
  · trivial
  split
  · trivial
  refine ⟨rfl, fun reply => ?_⟩
  cases reply with
  | error err => cases err <;> trivial
  | ok cur => exact applyLocked_silent ht

theorem create_silent (ht : ∀ row ∈ t.outbox, row.remindsVerification = false) :
    (create e t).Conforms (fun _ q => q.silent = true) (fun _ _ => True) log := by
  unfold create
  split
  · trivial
  split
  · trivial
  refine conforms_check fun row _ => ?_
  refine ⟨rfl, fun reply => ?_⟩
  cases reply with
  | ok existing => trivial
  | error err =>
    cases err with
    | noRows =>
      change Program.Conforms _ _ _ (checkFence row.details.supplierID e.details.supplierID >>= _)
      refine Program.conforms_bind (checkFence_silent _ _) fun log _ _ => ?_
      refine ⟨rfl, fun reply => ?_⟩
      cases reply with
      | ok stored =>
        change Program.Conforms _ _ _ (writeTransitionRows e stored t >>= _)
        exact Program.conforms_bind (writeTransitionRows_silent ht) fun _ _ _ => trivial
      | error err =>
        cases err with
        | noRows =>
          refine ⟨rfl, fun reply => ?_⟩
          cases reply <;> trivial
        | _ => trivial
    | _ => trivial

theorem applyDecided_silent {locked : String → Option Errand} {ts : List Transition}
    (hts : ∀ t ∈ ts, ∀ row ∈ t.outbox, row.remindsVerification = false) :
    (applyDecided locked ts).Conforms (fun _ q => q.silent = true) (fun _ _ => True) log := by
  induction ts generalizing locked log with
  | nil => trivial
  | cons t ts ih =>
    obtain ⟨hfirst, hrest⟩ := List.forall_mem_cons.mp hts
    unfold applyDecided
    cases locked t.errandID with
    | none => trivial
    | some cur =>
      dsimp only
      split
      · trivial
      · exact Program.conforms_bind (applyLocked_silent hfirst) fun _ _ _ => ih hrest

theorem claimDue_silent {kind : DueKind} {now limit : ℤ}
    {decide : Errand → Except StoreError (Option Transition)}
    (hdecide : ∀ e t, decide e = .ok (some t) → Decides e t) :
    (claimDue kind now limit decide).Conforms (fun _ q => q.silent = true) (fun _ _ => True)
      log := by
  unfold claimDue
  split
  · trivial
  refine ⟨rfl, fun reply => ?_⟩
  cases reply with
  | error err => trivial
  | ok batch =>
    change Program.Conforms _ _ _ (check (decideAll decide batch) >>= fun decided => _)
    refine conforms_check fun decided hdecided => ?_
    have hid : ∀ e t, decide e = .ok (some t) → t.errandID = e.id := by
      intro e t ht
      obtain ⟨ev, actor, input, now, hnext⟩ := hdecide e t ht
      exact (next_for hnext).errandID
    refine Program.conforms_bind (applyDecided_silent fun t ht => ?_) fun _ _ _ => trivial
    obtain ⟨e, -, he⟩ := (decideAll_ok hid hdecided).1 t ht
    exact (hdecide e t he).silent

theorem recordRejection_silent (r : Rejection) :
    (recordRejection r).Conforms (fun _ q => q.silent = true) (fun _ _ => True) log := by
  unfold recordRejection
  split
  · trivial
  split
  · trivial
  refine ⟨rfl, fun reply => ?_⟩
  cases reply with
  | error err => cases err <;> trivial
  | ok row =>
    refine ⟨by cases hr : r.action <;> rfl, fun reply => ?_⟩
    cases reply <;> trivial

theorem Desk.Decides.decides {d : Desk} (h : d.Decides e t) : Orders.Decides e t := by
  obtain ⟨ev, actor, input, now, hnext, -⟩ := h
  exact ⟨ev, actor, input, now, hnext⟩

theorem Desk.Admits.founded {d : Desk} {job : Job} (h : d.Admits job) :
    job.Founded (d.tables :: d.past) := by
  cases job with
  | create e t => exact h.1
  | apply t =>
    obtain ⟨s, hs, e, he, ht⟩ := h
    exact ⟨s, hs, e, he, ht.decides⟩
  | claimDue kind now limit decide => exact fun e t ht => (h e t ht).decides
  | _ => trivial

/-- Every statement of the fence service is silent. -/
theorem silent_of_fences {α : Type} {p : Tx α}
    (hp : p.Conforms (fun _ q => q.ofFences = true) (fun _ _ => True) []) :
    p.Conforms (fun _ q => q.silent = true) (fun _ _ => True) [] := by
  refine hp.mono fun _ q hq => ?_
  cases q <;> first | rfl | cases hq

/-- Transactions other than reminders leave the verification reminders alone. -/
theorem Desk.Admits.silent {d : Desk} {job : Job} (h : d.Admits job) :
    (job.perform hash d.tables).verificationReminders = d.tables.verificationReminders := by
  have hconforms : job.body.Conforms (fun _ q => q.silent = true) (fun _ _ => True) [] := by
    cases job with
    | create e t =>
      exact Program.conforms_bind (create_silent h.2.decides.silent) fun _ _ _ => trivial
    | apply t =>
      obtain ⟨s, -, e, -, ht⟩ := h
      exact Program.conforms_bind (apply_silent ht.decides.silent) fun _ _ _ => trivial
    | claimDue kind now limit decide =>
      exact Program.conforms_bind (claimDue_silent fun e t ht => (h e t ht).decides)
        fun _ _ _ => trivial
    | recordRejection r =>
      exact Program.conforms_bind (recordRejection_silent r) fun _ _ _ => trivial
    | remind kind c now => exact False.elim h
    | acquire actor operationID supplierID =>
      exact Program.conforms_bind (silent_of_fences (acquire_conforms actor operationID
        supplierID)) fun _ _ _ => trivial
    | inspect operationID =>
      exact Program.conforms_bind (silent_of_fences (inspect_conforms operationID))
        fun _ _ _ => trivial
    | commit actor operationID | release actor operationID =>
      exact Program.conforms_bind (silent_of_fences (close_conforms actor _ operationID _))
        fun _ _ _ => trivial
  have hkeeps : (engine hash).wp (fun _ _ => True)
      (fun _ s' _ => s'.verificationReminders = d.tables.verificationReminders) job.body
      d.tables 0 :=
    Engine.wp_invariant (fun q n s' hq hs' => ⟨trivial, (silent_frame hq s').trans hs'⟩) hconforms
      rfl
  rcases Engine.wp_atomically hkeeps with ⟨_, -, hsame⟩ | ⟨_, -, hsame⟩
  · exact hsame
  · rw [Job.perform, hsame]

end Silent

/-! ## One delivery -/

section Past

variable {hash : String → ℤ} {s s₁ s₂ : Tables} {past : List Tables} {e₁ e₂ : Errand}

/-- An errand was delivered at the same version whenever it was found delivered. -/
theorem Passed.delivered_once (h : Passed hash (s :: past)) (hs₁ : s₁ ∈ s :: past)
    (hs₂ : s₂ ∈ s :: past) (he₁ : e₁ ∈ s₁.errands) (he₂ : e₂ ∈ s₂.errands) (hid : e₁.id = e₂.id)
    (hstatus₁ : e₁.status = .delivered) (hstatus₂ : e₂.status = .delivered) :
    e₁.version = e₂.version := by
  obtain ⟨_, _, heq, hrecorded, hpast⟩ := h.recorded
  cases heq
  obtain ⟨_, _, heq, hgrows⟩ := h.log_grows
  cases heq
  -- the log of the time has a row of the delivery, and is still there
  have hlogged : ∀ s₀ ∈ s :: past, ∀ e ∈ s₀.errands, e.status = .delivered →
      ∃ row ∈ s.logOf e.id, row.target = .delivered ∧ row.errandVersion = e.version := by
    intro s₀ hs₀ e he hstatus
    obtain ⟨_, hpassed⟩ := h.earlier hs₀
    obtain ⟨_, _, heq, hrecorded₀, -⟩ := hpassed.recorded
    cases heq
    obtain ⟨init, row, hlog, htarget, hversion⟩ := (hrecorded₀.lived e he).log_ends
    have hrow : row ∈ s₀.logOf e.id := by simp [hlog]
    exact ⟨row, ((hgrows s₀ hs₀).filter _).subset hrow, htarget.trans hstatus, hversion⟩
  obtain ⟨row₁, hrow₁, htarget₁, hversion₁⟩ := hlogged s₁ hs₁ e₁ he₁ hstatus₁
  obtain ⟨row₂, hrow₂, htarget₂, hversion₂⟩ := hlogged s₂ hs₂ e₂ he₂ hstatus₂
  obtain ⟨-, e, he, hsucceeds⟩ := hpast s₁ hs₁ e₁ he₁
  rw [← hsucceeds.id] at hrow₁
  rw [← hid, ← hsucceeds.id] at hrow₂
  rw [← hversion₁, ← hversion₂]
  exact (hrecorded.lived e he).delivered_once hrow₁ hrow₂ htarget₁ htarget₂

end Past

/-! ## What is raised -/

/-- When a reminder was raised. -/
def OutboxRow.raisedAt (row : OutboxRow) : Option ℤ :=
  match row.payload with
  | .reminder data => some data.atTime
  | _ => none

section Raising

variable {hash : String → ℤ} {pickupLead : ℤ} {d d' : Desk}

/-- What inserting a reminder does: nothing, or the errand is as it was selected and has no
reminder at its version. -/
theorem remind_cases (kind : ReminderKind) {c : ReminderCandidate} (now : ℤ) (s : Tables)
    (hid : Canonical c.errandID) :
    ((Job.remind kind c now).perform hash s = s ∧
      ((engine hash).atomically (Job.remind kind c now).body s 0).1 = .ok (.reminded false)) ∨
    (∃ e ∈ s.errands, e.id = c.errandID ∧ e.status = c.status ∧ e.version = c.version) ∧
      (Job.remind kind c now).perform hash s =
        { s with outbox := s.outbox ++ [reminderRow kind c now] } ∧
      ((engine hash).atomically (Job.remind kind c now).body s 0).1 = .ok (.reminded true) := by
  have hspec : (engine hash).wp (fun _ _ => True) (fun r s' _ =>
      (s' = s ∧ r = .ok (.reminded false)) ∨
      (∃ e ∈ s.errands, e.id = c.errandID ∧ e.status = c.status ∧ e.version = c.version) ∧
        s' = { s with outbox := s.outbox ++ [reminderRow kind c now] } ∧
        r = .ok (.reminded true)) (Job.remind kind c now).body s 0 := by
    rw [Job.body, insertCurrentReminder, hid]
    set answer := exec hash (fun _ _ => true)
      (.insertCurrentReminder (reminderRow kind c now) c.status c.version) s with hanswer
    simp only [exec] at hanswer
    split at hanswer
    · next hcurrent =>
      split at hanswer
      · exact wp_query hanswer trivial (Or.inl ⟨rfl, rfl⟩)
      · obtain ⟨e, he, hsame⟩ := List.any_eq_true.mp hcurrent
        exact wp_query hanswer trivial (Or.inr ⟨⟨e, he, of_decide_eq_true hsame⟩, rfl, rfl⟩)
    · exact wp_query hanswer trivial (Or.inl ⟨rfl, rfl⟩)
  obtain ⟨result, hresult, ⟨hsame, heq⟩ | ⟨hcurrent, hinserted, heq⟩⟩ :=
    Engine.wp_commits hspec fun err s' n => by simp
  · exact Or.inl ⟨hsame, hresult.trans heq⟩
  · exact Or.inr ⟨hcurrent, hinserted, hresult.trans heq⟩

/-- The candidate is an errand as a job at this time found it in one of the tables. -/
def Selected (pickupLead : ℤ) (tables : List Tables) (kind : ReminderKind)
    (settings : DeadlineSettings) (now : ℤ) (c : ReminderCandidate) : Prop :=
  ∃ s ∈ tables, ∃ e ∈ s.errands, c = e.candidate kind ∧
    s.remindable kind (micros now) (micros (now + kind.lead pickupLead settings)) e = true

/-- What is left to remind was selected. -/
def Round.Sound (pickupLead : ℤ) (tables : List Tables) : Round → Prop
  | .started _ _ => True
  | .listed kind settings now remaining =>
    ∀ c ∈ remaining, Selected pickupLead tables kind settings now c

/-- The reminder is about a delivered errand whose deadline was near. -/
def Raised.Sound (tables : List Tables) (r : Raised) : Prop :=
  (∃ s ∈ tables, r.errand ∈ s.errands) ∧ r.errand.status = .delivered ∧ ∃ now deadline,
    r.row = reminderRow .verification (r.errand.candidate .verification) now ∧
    r.errand.verificationDeadline = some deadline ∧ micros now < deadline ∧
    deadline ≤ micros (now + (r.settings.verificationAfter - r.settings.verificationReminderAfter))

theorem Round.Sound.mono {tables tables' : List Tables} (hsub : tables ⊆ tables') {r : Round}
    (h : r.Sound pickupLead tables) : r.Sound pickupLead tables' := by
  cases r with
  | started kind settings => trivial
  | listed kind settings now remaining =>
    intro c hc
    obtain ⟨s, hs, hselected⟩ := h c hc
    exact ⟨s, hsub hs, hselected⟩

theorem Raised.Sound.mono {tables tables' : List Tables} (hsub : tables ⊆ tables') {r : Raised}
    (h : r.Sound tables) : r.Sound tables' := by
  obtain ⟨⟨s, hs, he⟩, hrest⟩ := h
  exact ⟨⟨s, hsub hs, he⟩, hrest⟩

/-- What is known about the jobs that run and about what they raised. -/
structure Desk.Kept (hash : String → ℤ) (pickupLead : ℤ) (d : Desk) : Prop where
  passed : Passed hash (d.tables :: d.past)
  rounds : ∀ r ∈ d.rounds, r.Sound pickupLead (d.tables :: d.past)
  raised : ∀ r ∈ d.raised, r.Sound (d.tables :: d.past)
  rows : d.raised.map Raised.row = d.tables.verificationReminders

theorem selected_of_candidates {s : Tables} {past : List Tables} {kind : ReminderKind}
    {settings : DeadlineSettings} {now : ℤ} {limit : ℕ} :
    ∀ c ∈ s.reminderCandidates kind now (now + kind.lead pickupLead settings) limit,
      Selected pickupLead (s :: past) kind settings now c := by
  intro c hc
  obtain ⟨e, he, rfl⟩ := List.mem_map.mp hc
  have hmem := (List.perm_insertionSort _ _).mem_iff.mp (List.mem_of_mem_take he)
  obtain ⟨he, hremindable⟩ := List.mem_filter.mp hmem
  exact ⟨s, List.mem_cons_self, e, he, rfl, hremindable⟩

/-- A verification reminder that is inserted is about the errand as it was selected. -/
theorem Desk.Kept.raises (h : d.Kept hash pickupLead) {kind : ReminderKind}
    {settings : DeadlineSettings} {now : ℤ} {c : ReminderCandidate}
    (hc : Selected pickupLead (d.tables :: d.past) kind settings now c) :
    (∀ r ∈ d.raises hash kind settings now c, r.Sound (d.tables :: d.past)) ∧
    ((Job.remind kind c now).perform hash d.tables).verificationReminders =
      d.tables.verificationReminders ++ (d.raises hash kind settings now c).map Raised.row := by
  obtain ⟨s, hs, e₀, he₀, rfl, hremindable⟩ := hc
  obtain ⟨_, _, heq, hrecorded, hpast⟩ := h.passed.recorded
  cases heq
  simp only [Tables.remindable, Bool.and_eq_true, decide_eq_true_eq] at hremindable
  obtain ⟨⟨hstatus, hnear⟩, -⟩ := hremindable
  have hcanonical : Canonical (e₀.candidate kind).errandID := (hpast s hs e₀ he₀).1.canonical
  unfold Desk.raises
  rcases @remind_cases hash kind _ now d.tables hcanonical with
    ⟨hsame, hresult⟩ | ⟨⟨e, he, hid, hcurrent, hversion⟩, hinserted, hresult⟩
  · rw [hsame, hresult, if_neg (by simp [Except.toOption])]
    simp
  rw [hinserted, hresult]
  cases kind with
  | pickup => simp [Tables.verificationReminders, List.filter_append, reminderRow,
      OutboxRow.remindsVerification, ReminderKind.event]
  | verification =>
    have hopen : e₀.status ≠ .open := by
      rw [hstatus]
      decide
    obtain rfl := h.passed.unmoved hs he₀ he hid hcurrent hversion hopen
    change e.verificationDeadline.any _ = true at hnear
    obtain ⟨deadline, hdeadline⟩ : ∃ deadline, e.verificationDeadline = some deadline := by
      cases hsome : e.verificationDeadline with
      | none =>
        rw [hsome] at hnear
        cases hnear
      | some deadline => exact ⟨deadline, rfl⟩
    rw [hdeadline] at hnear
    obtain ⟨hafter, hbefore⟩ := of_decide_eq_true hnear
    have hfind : d.tables.errandOf (e.candidate .verification).errandID = some e :=
      hrecorded.keyed.unique.findRow_eq he rfl
    rw [if_pos ⟨rfl, rfl⟩, hfind]
    constructor
    · intro r hr
      obtain rfl := List.mem_singleton.mp hr
      exact ⟨⟨d.tables, List.mem_cons_self, he⟩, hstatus, now, deadline, rfl, hdeadline, hafter,
        hbefore⟩
    · simp [Tables.verificationReminders, List.filter_append, reminderRow,
        OutboxRow.remindsVerification, ReminderKind.event]

theorem Desk.Kept.turn (h : d.Kept hash pickupLead) (hturn : Turn hash pickupLead d d') :
    d'.Kept hash pickupLead := by
  have hsub : ∀ s, d.tables :: d.past ⊆ s :: d.tables :: d.past := fun s =>
    List.subset_cons_self _ _
  cases hturn with
  | wait clock hclock => exact ⟨h.passed, h.rounds, h.raised, h.rows⟩
  | update settings hvalid => exact ⟨h.passed, h.rounds, h.raised, h.rows⟩
  | transact job hjob =>
    exact ⟨.perform job h.passed hjob.founded, fun r hr => (h.rounds r hr).mono (hsub _),
      fun r hr => (h.raised r hr).mono (hsub _), h.rows.trans hjob.silent.symm⟩
  | start kind =>
    refine ⟨h.passed, List.forall_mem_append.mpr ⟨h.rounds, fun r hr => ?_⟩, h.raised, h.rows⟩
    obtain rfl := List.mem_singleton.mp hr
    trivial
  | @list before after kind settings limit hrounds =>
    have hold := h.rounds
    rw [hrounds, List.forall_mem_append, List.forall_mem_cons] at hold
    exact ⟨h.passed, List.forall_mem_append.mpr ⟨hold.1, List.forall_mem_cons.mpr
      ⟨selected_of_candidates, hold.2.2⟩⟩, h.raised, h.rows⟩
  | @insert before after kind settings now c remaining hrounds =>
    have hold := h.rounds
    rw [hrounds, List.forall_mem_append, List.forall_mem_cons] at hold
    obtain ⟨hbefore, hround, hafter⟩ := hold
    obtain ⟨hraises, hrows⟩ := h.raises (hround c List.mem_cons_self)
    have hremaining : (Round.listed kind settings now remaining).Sound pickupLead
        (d.tables :: d.past) := fun c hc => hround c (List.mem_cons_of_mem _ hc)
    refine ⟨.perform (.remind kind c now) h.passed trivial, List.forall_mem_append.mpr
      ⟨fun r hr => (hbefore r hr).mono (hsub _), List.forall_mem_cons.mpr
        ⟨hremaining.mono (hsub _), fun r hr => (hafter r hr).mono (hsub _)⟩⟩,
      List.forall_mem_append.mpr ⟨fun r hr => (h.raised r hr).mono (hsub _),
        fun r hr => (hraises r hr).mono (hsub _)⟩, ?_⟩
    rw [List.map_append, h.rows]
    exact hrows.symm

theorem Attained.kept (h : Attained hash pickupLead d) : d.Kept hash pickupLead := by
  induction h with
  | start => exact ⟨.start, by simp, by simp, rfl⟩
  | turn h hturn ih => exact ih.turn hturn

/-- The desk after events on its first errand, each decided at once. -/
def Desk.play (hash : String → ℤ) : Desk → List (Event × Actor × EventInput) → Option Desk
  | d, [] => some d
  | d, (ev, actor, input) :: events => do
    let e ← d.tables.errands.head?
    let t ← (next e ev actor input d.clock).toOption
    (d.transact hash (.apply t)).play hash events

theorem Attained.play {events : List (Event × Actor × EventInput)}
    (h : Attained hash pickupLead d) (hplay : d.play hash events = some d')
    (hevents : ∀ p ∈ events, p.1 = .accept ∨ p.1 = .deliver → p.2.2.deadlines = d.settings) :
    Attained hash pickupLead d' ∧ d'.clock = d.clock := by
  induction events generalizing d with
  | nil => exact Option.some.inj hplay ▸ ⟨h, rfl⟩
  | cons p events ih =>
    obtain ⟨ev, actor, input⟩ := p
    obtain ⟨hfirst, hrest⟩ := List.forall_mem_cons.mp hevents
    simp only [Desk.play, Option.bind_eq_bind, Option.bind_eq_some_iff, toOption_eq_some] at hplay
    obtain ⟨e, he, t, ht, hplay⟩ := hplay
    have hadmits : d.Admits (.apply t) := ⟨d.tables, List.mem_cons_self, e,
      List.mem_of_mem_head? he, ev, actor, input, d.clock, ht, le_refl _, hfirst⟩
    obtain ⟨hattained, hclock⟩ := ih (h.turn (.transact (.apply t) hadmits)) hplay hrest
    exact ⟨hattained, hclock⟩

/-- The desk after the settings were changed and, at a later time, a job for verifications
has reminded its first candidate. -/
def Desk.remindAt (hash : String → ℤ) (d : Desk) (settings : DeadlineSettings) (now : ℤ) :
    Option Desk :=
  match d.tables.reminderCandidates .verification now
    (now + (settings.verificationAfter - settings.verificationReminderAfter)) 200 with
  | [] => none
  | c :: remaining => some { d.transact hash (.remind .verification c now) with
      settings := settings
      clock := now
      rounds := d.rounds ++ [.listed .verification settings now remaining]
      raised := d.raised ++ d.raises hash .verification settings now c }

theorem Attained.remindAt (h : Attained hash pickupLead d) {settings : DeadlineSettings} {now : ℤ}
    (hremind : d.remindAt hash settings now = some d') (hvalid : settings.validate = .ok ())
    (hnow : d.clock ≤ now) : Attained hash pickupLead d' := by
  have hlisted := ((h.turn (.update settings hvalid)).turn (.wait now hnow)).turn
    (.start .verification) |>.turn (.list 200 rfl)
  unfold Desk.remindAt at hremind
  split at hremind
  · cases hremind
  next c remaining hcandidates =>
  obtain rfl := Option.some.inj hremind
  refine hlisted.turn (.insert ?_)
  dsimp only [ReminderKind.lead]
  rw [hcandidates]

/-- After any sequence of events the verification reminders in the outbox are those that
the jobs raised. Each was about a delivered errand, before its verification deadline, and
no errand has two. A reminder is not early either, if the `VerificationAfter` that the job
read is no longer than the time from the delivery to the deadline that it gave. -/
theorem verification_reminders (h : Attained hash pickupLead d) :
    d.tables.verificationReminders = d.raised.map Raised.row ∧
    (∀ r ∈ d.raised, r.row.errandID = r.errand.id ∧ r.errand.status = .delivered ∧
      ∃ raisedAt deliveredAt deadline, r.row.raisedAt = some raisedAt ∧
        r.errand.deliveredAt = some deliveredAt ∧
        r.errand.verificationDeadline = some deadline ∧ raisedAt < deadline ∧
        (r.settings.verificationAfter ≤ deadline - deliveredAt →
          deliveredAt + r.settings.verificationReminderAfter ≤ raisedAt)) ∧
    (d.raised.map fun r => r.errand.id).Nodup := by
  obtain ⟨hpassed, -, hraised, hrows⟩ := h.kept
  refine ⟨hrows.symm, fun r hr => ?_, ?_⟩
  · obtain ⟨⟨s, hs, he⟩, hstatus, now, deadline, hrow, hdeadline, hafter, hbefore⟩ := hraised r hr
    obtain ⟨_, hearlier⟩ := hpassed.earlier hs
    obtain ⟨_, _, heq, hrecorded, -⟩ := hearlier.recorded
    cases heq
    have hlived := hrecorded.lived r.errand he
    obtain ⟨hwell, -, -⟩ := hlived.regular
    obtain ⟨deliveredAt, hdelivered⟩ : ∃ deliveredAt, r.errand.deliveredAt = some deliveredAt := by
      have hsome := hwell.delivery
      rw [hdeadline] at hsome
      exact Option.isSome_iff_exists.mp hsome
    have hwhole := hlived.micros_verificationDeadline hdeadline
    rw [hrow]
    refine ⟨rfl, hstatus, now, deliveredAt, deadline, rfl, hdelivered, hdeadline, ?_, ?_⟩
    · unfold micros at hafter hwhole
      omega
    · intro hwindow
      unfold micros at hbefore
      omega
  · have hkeys : (d.raised.map fun r => r.row.idempotencyKey).Nodup := by
      have hmap : (d.raised.map Raised.row).map OutboxRow.idempotencyKey =
          d.raised.map fun r => r.row.idempotencyKey := by rw [List.map_map]; rfl
      obtain ⟨_, _, heq, hrecorded, -⟩ := hpassed.recorded
      cases heq
      rw [← hmap, hrows]
      exact hrecorded.keyed.distinct.sublist (List.filter_sublist.map _)
    rw [List.Nodup, List.pairwise_map] at hkeys ⊢
    refine hkeys.imp_of_mem fun {r r'} hr hr' hne hid => hne ?_
    obtain ⟨⟨s, hs, he⟩, hstatus, _, _, hrow, -⟩ := hraised r hr
    obtain ⟨⟨s', hs', he'⟩, hstatus', _, _, hrow', -⟩ := hraised r' hr'
    have hversion := hpassed.delivered_once hs hs' he he' hid hstatus hstatus'
    rw [hrow, hrow']
    change idempotencyKey r.errand.id _ r.errand.version =
      idempotencyKey r'.errand.id _ r'.errand.version
    rw [hid, hversion]

end Raising

/-- The desk after `sampleErrand` was submitted, accepted, picked up and delivered at once,
with the default settings. -/
def deliveredDesk : Option Desk := do
  let t ← (next sampleErrand .submit ⟨.requester, "auth0|requester"⟩ {} 0).toOption
  (Desk.transact (fun _ => 0) {} (.create sampleErrand t)).play (fun _ => 0) [
    (.reservationConfirmed, systemActor, {}),
    (.accept, ⟨.courier, "auth0|courier"⟩, { deadlines := defaultDeadlineSettings }),
    (.pickUp, ⟨.courier, "auth0|courier"⟩, {}),
    (.deliver, ⟨.courier, "auth0|courier"⟩, { deadlines := defaultDeadlineSettings })]

theorem attained_deliveredDesk {d : Desk} (h : deliveredDesk = some d) :
    Attained (fun _ => 0) 0 d ∧ d.clock = 0 := by
  simp only [deliveredDesk, Option.bind_eq_bind, Option.bind_eq_some_iff, toOption_eq_some] at h
  obtain ⟨t, ht, h⟩ := h
  have hadmits : Desk.Admits {} (.create sampleErrand t) :=
    ⟨⟨_, _, _, _, rfl, by decide, _, _, _, ht⟩, _, _, _, _, ht, le_refl _,
      fun hevent => by rcases hevent with hevent | hevent <;> cases hevent⟩
  refine (Attained.start.turn (.transact _ hadmits)).play h ?_
  change ∀ p : Event × Actor × EventInput, p ∈ _ → _ → p.2.2.deadlines = defaultDeadlineSettings
  decide

/-- Five minutes after the delivery, the requester is reminded. -/
theorem verification_reminders_default : ∃ d, Attained (fun _ => 0) 0 d ∧
    d.tables.verificationReminders.length = 1 ∧
    ∀ r ∈ d.raised, ∃ raisedAt deliveredAt, r.row.raisedAt = some raisedAt ∧
      r.errand.deliveredAt = some deliveredAt ∧
      deliveredAt + r.settings.verificationReminderAfter ≤ raisedAt := by
  have hruns : ((deliveredDesk.bind fun d => d.remindAt (fun _ => 0) defaultDeadlineSettings
      300000000000).map fun d => decide (d.raised.length = 1) && d.raised.all fun r =>
        decide (r.settings.verificationAfter ≤
          r.errand.verificationDeadline.getD 0 - r.errand.deliveredAt.getD 0)) = some true := by
    decide +kernel
  obtain ⟨d, hd, hfacts⟩ := Option.map_eq_some_iff.mp hruns
  obtain ⟨d₀, hd₀, hd⟩ := Option.bind_eq_some_iff.mp hd
  rw [Bool.and_eq_true, decide_eq_true_eq, List.all_eq_true] at hfacts
  obtain ⟨hattained₀, hclock⟩ := attained_deliveredDesk hd₀
  have hattained := hattained₀.remindAt hd (by decide) (by rw [hclock]; decide)
  obtain ⟨hrows, hraised, -⟩ := verification_reminders hattained
  refine ⟨d, hattained, by rw [hrows, List.length_map, hfacts.1], fun r hr => ?_⟩
  obtain ⟨-, -, raisedAt, deliveredAt, deadline, hat, hdelivered, hdeadline, -, htimely⟩ :=
    hraised r hr
  have hwindow := of_decide_eq_true (hfacts.2 r hr)
  rw [hdelivered, hdeadline] at hwindow
  exact ⟨raisedAt, deliveredAt, hat, hdelivered, htimely hwindow⟩

/-- A delivery with the default settings, after which verification was given an hour: the
job reminds the requester at once, not after five minutes. -/
theorem reminder_early : ∃ d, Attained (fun _ => 0) 0 d ∧
    ∃ r ∈ d.raised, ∃ raisedAt deliveredAt, r.row.raisedAt = some raisedAt ∧
      r.errand.deliveredAt = some deliveredAt ∧
      raisedAt < deliveredAt + r.settings.verificationReminderAfter := by
  have hruns : ((deliveredDesk.bind fun d => d.remindAt (fun _ => 0)
      { defaultDeadlineSettings with verificationAfter := 3600000000000 } 0).map fun d =>
      d.raised.any fun r => decide (r.row.raisedAt = some 0 ∧ r.errand.deliveredAt = some 0 ∧
        0 < r.settings.verificationReminderAfter)) = some true := by
    decide +kernel
  obtain ⟨d, hd, hany⟩ := Option.map_eq_some_iff.mp hruns
  obtain ⟨d₀, hd₀, hd⟩ := Option.bind_eq_some_iff.mp hd
  obtain ⟨hattained, hclock⟩ := attained_deliveredDesk hd₀
  obtain ⟨r, hr, hfacts⟩ := List.any_eq_true.mp hany
  obtain ⟨hraised, hdelivered, hpositive⟩ := of_decide_eq_true hfacts
  exact ⟨d, hattained.remindAt hd (by decide) (le_of_eq hclock), r, hr, 0, 0, hraised,
    hdelivered, by omega⟩

end FocServices.Orders
