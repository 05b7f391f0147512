import FocServices.Orders.Reconciler

/-!
# The deadline jobs of the scheduler

A deadline job claims a batch of due errands, fires its event on each, and is repeated
while its batches come back full. Selection and decision are written separately in the
source; they agree for every errand, so that nothing in a batch is skipped and every
batch shortens the list of due errands by its length. What can stop a job is an errand
whose version is used up, or a batch limit beyond the 32-bit row limit.
-/

namespace FocServices.Orders

open Txn

/-! ## The jobs -/

/-- The deadline jobs that `scheduler.New` registers, each with the event it fires. -/
def deadlineJobs : List (DueKind × Event) := [
  (.acceptanceExpiry, .acceptanceDeadlinePassed),
  (.pickupDeadline, .pickupDeadlinePassed),
  (.deliveryDeadline, .deliveryDeadlinePassed),
  (.verificationLapse, .verificationLapsed)]

/-- `Scheduler.decide`. An errand that is not due, or that `next` refuses, is skipped. -/
def decideDeadline (kind : DueKind) (ev : Event) (now : ℤ) (e : Errand) :
    Except StoreError (Option Transition) :=
  if kind.due e now then .ok (next e ev systemActor {} now).toOption else .ok none

/-- What one batch of a job did. -/
structure BatchResult where
  seen : ℕ
  applied : ℕ
  deriving DecidableEq, Repr

/-- `Scheduler.runDeadline` with no other transaction. The decision is called once for each
claimed errand. -/
def runDeadline (hash : String → ℤ) (kind : DueKind) (ev : Event) (now limit : ℤ) (s : Tables) :
    Except StoreError BatchResult × Tables :=
  let ended := (engine hash).atomically (claimDue kind now limit (decideDeadline kind ev now)) s 0
  (ended.1.map fun applied => ⟨(s.claimed kind now limit).length, applied⟩, ended.2.1)

/-- Whether `drain` runs another batch after this one. -/
def goesOn (limit : ℤ) : Except StoreError BatchResult → Bool
  | .error _ => false
  | .ok result => ¬ (result.seen < limit) ∧ result.applied ≠ 0

/-- `Scheduler.drain` with a fixed clock: the results of its batches, and the tables it
leaves. `none` if it is not done after `fuel` batches. -/
def drain (hash : String → ℤ) (kind : DueKind) (ev : Event) (now limit : ℤ) :
    ℕ → Tables → Option (List (Except StoreError BatchResult) × Tables)
  | 0, _ => none
  | fuel + 1, s =>
    let (result, s') := runDeadline hash kind ev now limit s
    if goesOn limit result then
      (drain hash kind ev now limit fuel s').map fun (results, s'') => (result :: results, s'')
    else some ([result], s')

/-- The transitions that batches committed. -/
def appliedIn (results : List (Except StoreError BatchResult)) : ℕ :=
  (results.map fun result => (result.toOption.map BatchResult.applied).getD 0).sum

/-! ## Selection and decision agree -/

/-- The status in which errands await the deadline of the job. -/
def DueKind.awaits : DueKind → Status
  | .acceptanceExpiry => .open
  | .pickupDeadline => .assigned
  | .deliveryDeadline => .pickedUp
  | .verificationLapse => .delivered
  | .stuckReservation => .pendingReservation
  | .stuckEdit => .open

/-- The guard that the deadline of the job has passed. -/
def DueKind.guard : DueKind → Option Guard
  | .acceptanceExpiry => some .afterAcceptanceDeadline
  | .pickupDeadline => some .afterPickupDeadline
  | .deliveryDeadline => some .afterDeliveryDeadline
  | .verificationLapse => some .afterVerificationDeadline
  | .stuckReservation | .stuckEdit => none

section Decisions

variable {kind : DueKind} {ev : Event} {e : Errand} {now : ℤ} {t : Transition}

theorem deadline_rules : ∀ job ∈ deadlineJobs, ∀ r ∈ transitionTable, r.event = job.2 →
    r.source = job.1.awaits ∧ r.target ≠ job.1.awaits ∧ (∃ g ∈ r.guards, job.1.guard = some g) ∧
      r.actor = .system ∧ r.needsReason = false := by decide

/-- Whether or not the acceptance deadline has passed, there is a rule for the event. -/
theorem deadline_choice : ∀ job ∈ deadlineJobs,
    ∀ other ∈ [Guard.beforeAcceptanceDeadline, .afterAcceptanceDeadline],
      ∃ r ∈ transitionTable, r.event = job.2 ∧
        ∀ g ∈ r.guards, job.1.guard = some g ∨ g = other := by decide

theorem due_iff (hjob : (kind, ev) ∈ deadlineJobs) : kind.due e now = true ↔
    e.status = kind.awaits ∧ ∀ g, kind.guard = some g → guardHolds g e now = true := by
  have hguard : kind.guard.isSome = true := by
    have htable : ∀ job ∈ deadlineJobs, job.1.guard.isSome = true := by decide
    exact htable _ hjob
  unfold DueKind.due DueKind.dueAt
  cases kind with
  | stuckReservation | stuckEdit => cases hguard
  | acceptanceExpiry | pickupDeadline | deliveryDeadline | verificationLapse =>
    simp only [DueKind.awaits, DueKind.guard, Option.some.injEq, forall_eq', guardHolds, passed]
    split
    · next hstatus => simp [hstatus]
    · next hstatus => simp [hstatus]

/-- A deadline job selects exactly the errands on which its event can be fired. -/
theorem deadline_due_iff (hjob : (kind, ev) ∈ deadlineJobs) :
    kind.due e now = true ↔ ∃ t, next e ev systemActor {} now = .ok t := by
  rw [due_iff hjob]
  constructor
  · rintro ⟨hstatus, hpassed⟩
    obtain ⟨other, hother, hholds⟩ : ∃ other ∈ [Guard.beforeAcceptanceDeadline,
        .afterAcceptanceDeadline], guardHolds other e now = true := by
      by_cases hlate : passed e.details.acceptanceDeadline now = true <;>
        simp [guardHolds, hlate]
    obtain ⟨r, hr, hevent, hguards⟩ := deadline_choice _ hjob other hother
    obtain ⟨hsource, -, -, hactor, -⟩ := deadline_rules _ hjob r hr hevent
    refine next_succeeds hr (hsource.trans hstatus.symm) hevent (fun g hg => ?_)
      (by rw [hactor]; rfl) (fun r hr hevent => ?_) fun r => ?_
    · rcases hguards g hg with hown | rfl
      · exact hpassed g hown
      · exact hholds
    · obtain ⟨-, -, -, -, hneeds⟩ := deadline_rules _ hjob r hr hevent
      rw [hneeds]
      rfl
    · simp only [deadlineJobs, List.mem_cons, Prod.mk.injEq, List.not_mem_nil, or_false] at hjob
      rcases hjob with ⟨-, rfl⟩ | ⟨-, rfl⟩ | ⟨-, rfl⟩ | ⟨-, rfl⟩ <;> exact ⟨_, rfl⟩
  · rintro ⟨t, ht⟩
    obtain ⟨r, t₀, hd⟩ := next_ok ht
    obtain ⟨hsource, -, ⟨g, hg, hown⟩, -⟩ := deadline_rules _ hjob r hd.mem hd.event
    refine ⟨hd.source.symm.trans hsource, fun g' hg' => ?_⟩
    obtain rfl := Option.some.inj (hown.symm.trans hg')
    exact hd.guards g hg

/-- The event takes the errand out of the status in which the deadline is awaited. -/
theorem deadline_target (hjob : (kind, ev) ∈ deadlineJobs)
    (h : next e ev systemActor {} now = .ok t) {stored : Errand}
    (hstatus : stored.status = t.target) : kind.due stored now = false := by
  obtain ⟨r, t₀, hd⟩ := next_ok h
  obtain ⟨-, htarget, -⟩ := deadline_rules _ hjob r hd.mem hd.event
  rw [← Bool.not_eq_true, due_iff hjob]
  rintro ⟨hawaits, -⟩
  rw [hstatus, show t.target = r.target from hd.columns.status] at hawaits
  exact htarget hawaits

end Decisions

/-! ## Decisions of the reconciler -/

/-- The reconciler can decide about every stored errand. -/
theorem Recorded.decideStuck_ok {s : Tables} (hs : Recorded s) {e : Errand} (he : e ∈ s.errands)
    {kind : DueKind} (hkind : kind = .stuckReservation ∨ kind = .stuckEdit)
    (status : String → DispatchStatus) (cutoff now : ℤ) :
    ∃ decision, decideStuck kind (getByKey s status) cutoff now e = .ok decision := by
  by_cases hdue : kind.due e cutoff = false
  · exact ⟨none, by rw [decideStuck, if_pos hdue]⟩
  rcases hkind with rfl | rfl
  · have hwaits := due_stuckReservation.mp (by simpa using hdue)
    obtain ⟨t, hnext⟩ := next_reservationFailed hwaits.1 now
    have hlookup : getByKey s status (idempotencyKey e.id "reserve" 0) =
        .ok (status (idempotencyKey e.id "reserve" 0)) := by
      rw [getByKey, if_pos (hs.reserved e he)]
    rw [decideStuck, if_neg hdue, if_pos rfl, hlookup, hnext]
    change ∃ decision, (if status (idempotencyKey e.id "reserve" 0) ≠ .sent ∧ _ then _ else _) = _
    split <;> exact ⟨_, rfl⟩
  · obtain ⟨p, hp⟩ : ∃ p, e.pendingEdit = some p := by
      cases hpending : e.pendingEdit with
      | none => simp [DueKind.due, DueKind.dueAt, hpending] at hdue
      | some p => exact ⟨p, rfl⟩
    have hopen := ((hs.keyed.regular e he).pendingEdit p hp).1
    have hrule : ∃ r ∈ transitionTable, r.source = .open ∧ r.event = .editRefused ∧
        r.guards = [] ∧ r.actor = .system := by decide
    obtain ⟨r, hr, hsource, hevent, hguards, hactor⟩ := hrule
    have hkey : e.pendingKey = p.key := by simp [Errand.pendingKey, hp]
    obtain ⟨t, hnext⟩ : ∃ t, next e .editRefused systemActor
        { reason := "ADJUST_TIMEOUT", editTimedOut := true, editKey := e.pendingKey } now =
          .ok t := by
      have hneeds : ∀ r ∈ transitionTable, r.event = .editRefused → r.needsReason = false := by
        decide
      have hmatches : e.pendingEdit.filter (fun q => q.key = e.pendingKey) = some p := by
        simp [hp, hkey, Option.filter]
      refine next_succeeds hr (hsource.trans hopen.symm) hevent (by simp [hguards])
        (by rw [hactor]; rfl) (fun r hr hevent => by rw [hneeds r hr hevent]; rfl) fun r => ?_
      simp only [applyEvent, Rule.transition, hmatches]
      exact ⟨_, rfl⟩
    rw [decideStuck, if_neg hdue, if_neg (by decide), hnext]
    exact ⟨_, rfl⟩

/-! ## Batches -/

section Batches

variable {hash : String → ℤ} {kind : DueKind} {ev : Event} {now limit : ℤ} {s s' : Tables}
  {e : Errand} {t : Transition}

/-- A deadline takes the errand one version on, with its details and without an edit. -/
theorem Move.atDeadline {input : EventInput} (hm : Move e input t)
    (hjob : (kind, t.event) ∈ deadlineJobs) : t.newVersion = e.version + 1 ∧
      (t.applyTo e).details = e.details ∧
      ((t.applyTo e).pendingEdit = none ∨
        (t.applyTo e).pendingEdit = e.pendingEdit ∧ e.status = .assigned) := by
  have hevents : ∀ job ∈ deadlineJobs, job.2 ≠ .submit ∧ job.2 ≠ .reservationConfirmed ∧
      job.2 ≠ .edit ∧ job.2 ≠ .editConfirmed := by decide
  obtain ⟨hsubmit, hconfirmed, hedit, heditConfirmed⟩ := hevents _ hjob
  cases hm with
  | submit _ _ hevent => exact absurd hevent hsubmit
  | «open» _ hevent => exact absurd hevent hconfirmed
  | edit _ _ hevent | requestEdit _ _ hevent => exact absurd hevent hedit
  | confirmEdit _ _ hevent => exact absurd hevent heditConfirmed
  | reopen hstatus _ hy => exact ⟨hy.version, hy.details, Or.inr ⟨hy.pendingEdit, hstatus⟩⟩
  | refuse _ _ hy | fail _ _ hy | refuseEdit _ _ _ _ _ hy | accept _ _ _ _ hy | withdraw _ _ _ hy
  | expire _ _ hy | proceed _ _ hy | complete _ hy | refund _ _ hy =>
    exact ⟨hy.version, hy.details, Or.inl hy.pendingEdit⟩

/-- A transition can be written when the database takes what it leaves. -/
theorem Recorded.writable_stored (hs : Recorded s) (he : e ∈ s.errands) {actor : Actor}
    {input : EventInput} (hnext : next e ev actor input now = .ok t) (hunfenced : Unfenced s e t)
    (hstored : Stored (t.applyTo e)) (hnone : (t.applyTo e).pendingEdit = none) :
    Writable s e t := by
  obtain ⟨hwell, hid, -⟩ := (hs.lived e he).regular
  obtain ⟨row, hrow⟩ := hstored.insertParams hid hnone
  refine ⟨hunfenced, row, hrow, ?_⟩
  rw [rowProblem_insertParams hrow, (hwell.next hnext).rowProblem (next_move hnext).status.1]
  exact hstored.snapshot

/-- The transition of a deadline can be written unless the version is used up. -/
theorem Recorded.writable (hs : Recorded s) (he : e ∈ s.errands)
    (hjob : (kind, ev) ∈ deadlineJobs) (hnext : next e ev systemActor {} now = .ok t)
    (hversion : e.version < maxInt32) : Writable s e t := by
  obtain ⟨hwell, -, -⟩ := (hs.lived e he).regular
  have hfor := next_for hnext
  obtain ⟨hnew, hdetails, hpending⟩ := (next_move hnext).atDeadline (hfor.event ▸ hjob)
  have hevents : ∀ job ∈ deadlineJobs, job.2 ≠ .edit := by decide
  have hunfenced : Unfenced s e t := by
    intro target htarget
    rw [editTargetSupplier, if_pos (hfor.event ▸ hevents _ hjob)] at htarget
    cases htarget
  have hnone : (t.applyTo e).pendingEdit = none := by
    rcases hpending with hnone | ⟨hsame, hassigned⟩
    · exact hnone
    · cases hold : e.pendingEdit with
      | none => exact hsame.trans hold
      | some p =>
        have hopen := (hwell.pendingEdit p hold).1
        rw [hassigned] at hopen
        cases hopen
  obtain ⟨hsupplier, hversionID, hbuilding, hreward, -, hsnapshot⟩ := hs.stored e he
  refine hs.writable_stored he hnext hunfenced ⟨?_, ?_, ?_, ?_, ?_, ?_⟩ hnone
  · rw [hdetails]; exact hsupplier
  · rw [hdetails]; exact hversionID
  · rw [hdetails]; exact hbuilding
  · rw [hdetails]; exact hreward
  · change t.newVersion ≤ maxInt32
    omega
  · rw [hdetails]; exact hsnapshot

/-- A batch of deadline transitions takes its errands off the list of due ones. -/
theorem Batch.due {pairs : List (Errand × Transition)} (h : Batch s pairs s') (hs : Recorded s)
    (hjob : (kind, ev) ∈ deadlineJobs)
    (hpairs : ∀ p ∈ pairs, next p.1 ev systemActor {} now = .ok p.2) :
    (s'.errands.countP fun e => kind.due e now) + pairs.length =
        (s.errands.countP fun e => kind.due e now) ∧
      ∀ e ∈ s'.errands, kind.due e now = true → e ∈ s.errands := by
  induction h with
  | nil => exact ⟨rfl, fun e he _ => he⟩
  | @cons s s' e row t rest he hdecides hrow hproblem hrest ih =>
    obtain ⟨hnext, hpairs⟩ := List.forall_mem_cons.mp hpairs
    obtain ⟨hcount, hmem⟩ := ih (hs.applied he hnext hrow hproblem) hpairs
    have hst := insertParams_ok hrow
    have hdue : kind.due e now = true := (deadline_due_iff hjob).mpr ⟨t, hnext⟩
    have hgone : kind.due (e.overwrite row) now = false := deadline_target hjob hnext hst.status
    have hone : ((s.applied e row t).errands.countP fun e => kind.due e now) + 1 =
        s.errands.countP fun e => kind.due e now :=
      countP_updateRow hs.keyed.unique he rfl hdue hgone
    refine ⟨?_, fun e' he' hdue' => ?_⟩
    · rw [List.length_cons]
      omega
    · rcases hs.keyed.unique.mem_updateRow he (hmem e' he' hdue') with rfl | ⟨hold, -⟩
      · rw [hgone] at hdue'
        cases hdue'
      · exact hold

theorem length_claimed (s : Tables) (kind : DueKind) (now limit : ℤ) :
    (s.claimed kind now limit).length =
      min (min limit.toNat maxInt32) (s.errands.countP fun e => kind.due e now) := by
  have hlength : (s.claimable (fun _ _ => true) kind now).length =
      s.errands.countP fun e => kind.due e now := by
    rw [Tables.claimable, List.length_insertionSort, List.countP_eq_length_filter]
    simp
  rw [Tables.claimed, List.length_take, hlength]

/-- The claimed errands are stored and due. -/
theorem mem_claimed (h : e ∈ s.claimed kind now limit) :
    e ∈ s.errands ∧ kind.due e now = true := by
  have hmem := (List.mem_insertionSort _).mp (List.mem_of_mem_take h)
  simpa using List.mem_filter.mp hmem

theorem length_decisions {decide : Errand → Except StoreError (Option Transition)}
    {batch : List Errand} (h : ∀ e ∈ batch, ∃ t, decide e = .ok (some t)) :
    (decisions decide batch).length = batch.length := by
  induction batch with
  | nil => rfl
  | cons e batch ih =>
    obtain ⟨⟨t, ht⟩, hrest⟩ := List.forall_mem_cons.mp h
    have hcons : decisions decide (e :: batch) = (e, t) :: decisions decide batch := by
      simp [decisions, ht, Except.toOption]
    rw [hcons, List.length_cons, List.length_cons, ih hrest]

theorem decideDeadline_ok :
    decideDeadline kind ev now e = .ok (some t) ↔
      kind.due e now = true ∧ next e ev systemActor {} now = .ok t := by
  unfold decideDeadline
  split
  · next hdue =>
    cases hnext : next e ev systemActor {} now <;> simp [hdue, Except.toOption]
  · next hdue => simp [hdue]

/-- A batch of a deadline job fires on every errand that it claims. -/
theorem Recorded.runDeadline_ok (hs : Recorded s) (hash : String → ℤ) (hjob : (kind, ev) ∈ deadlineJobs)
    (hlimit : 1 ≤ limit)
    (hversions : ∀ e ∈ s.errands, kind.due e now = true → e.version < maxInt32) :
    ∃ s', runDeadline hash kind ev now limit s =
        (.ok ⟨(s.claimed kind now limit).length, (s.claimed kind now limit).length⟩, s') ∧
      Recorded s' ∧
      (s'.errands.countP fun e => kind.due e now) + (s.claimed kind now limit).length =
        (s.errands.countP fun e => kind.due e now) ∧
      ∀ e ∈ s'.errands, kind.due e now = true → e ∈ s.errands := by
  set batch := s.claimed kind now limit with hbatch
  have hdecided : ∀ e ∈ batch, ∃ t, decideDeadline kind ev now e = .ok (some t) := by
    intro e he
    obtain ⟨-, hdue⟩ := mem_claimed he
    obtain ⟨t, ht⟩ := (deadline_due_iff hjob).mp hdue
    exact ⟨t, decideDeadline_ok.mpr ⟨hdue, ht⟩⟩
  have hspec : (engine hash).wp RowsAccepted (fun r s' _ => r = .ok batch.length ∧
      Batch s (decisions (decideDeadline kind ev now) batch) s')
      (claimDue kind now limit (decideDeadline kind ev now)) s 0 := by
    refine hs.wp_claimDue (fun e t ht => ⟨ev, systemActor, {}, now, (decideDeadline_ok.mp ht).2⟩)
      hbatch ?_ fun _ s' n hb => ⟨by rw [length_decisions hdecided], hb⟩
    rintro (hsmall | ⟨e, he, err, herr⟩ | ⟨p, hp, hrefused⟩)
    · omega
    · obtain ⟨t, ht⟩ := hdecided e he
      rw [ht] at herr
      cases herr
    · obtain ⟨hclaimed, hp⟩ := mem_decisions.mp hp
      obtain ⟨hstored, hdue⟩ := mem_claimed hclaimed
      exact absurd (hs.writable hstored hjob (decideDeadline_ok.mp hp).2 (hversions _ hstored hdue))
        hrefused
  obtain ⟨applied, happlied, hlength, hb⟩ := Engine.wp_commits hspec (by
    rintro err s n ⟨h, -⟩
    cases h)
  cases hlength
  obtain ⟨hcount, hmem⟩ := hb.due hs hjob fun p hp =>
    (decideDeadline_ok.mp (mem_decisions.mp hp).2).2
  rw [length_decisions hdecided] at hcount
  refine ⟨_, ?_, (hb.recorded hs).1, hcount, hmem⟩
  rw [runDeadline, happlied]
  rfl

/-- Draining a deadline job fires its event once on every errand that is due. -/
theorem Recorded.drain_ok (hs : Recorded s) (hjob : (kind, ev) ∈ deadlineJobs)
    (hlimit : 1 ≤ limit)
    (hversions : ∀ e ∈ s.errands, kind.due e now = true → e.version < maxInt32) {due : ℕ}
    (hdue : (s.errands.countP fun e => kind.due e now) = due)
    (hrows : limit ≤ maxInt32 ∨ due ≤ maxInt32) :
    ∃ results s', drain hash kind ev now limit (due / limit.toNat + 1) s = some (results, s') ∧
      appliedIn results = due ∧ ∀ e ∈ s'.errands, kind.due e now = false := by
  induction due using Nat.strong_induction_on generalizing s with
  | _ due ih =>
    obtain ⟨s', hrun, hs', hcount, hmem⟩ := hs.runDeadline_ok hash hjob hlimit hversions
    have hlength := length_claimed s kind now limit
    rw [hdue] at hlength hcount
    unfold drain
    rw [hrun]
    by_cases hfull : limit ≤ due
    · -- a full batch, and the errands that are left
      have hbatch : (s.claimed kind now limit).length = limit.toNat := by omega
      have hgoes : goesOn limit (.ok ⟨(s.claimed kind now limit).length,
          (s.claimed kind now limit).length⟩) = true := by
        simp only [goesOn, decide_eq_true_eq]
        omega
      have hfuel : due / limit.toNat = (due - limit.toNat) / limit.toNat + 1 :=
        Nat.div_eq_sub_div (by omega) (by omega)
      obtain ⟨results, s'', hdrain, happlied, hnone⟩ := ih (due - limit.toNat) (by omega) hs'
        (fun e he hdue => hversions e (hmem e he hdue) hdue) (by omega) (by omega)
      dsimp only
      rw [if_pos hgoes, hfuel, hdrain]
      refine ⟨_, _, rfl, ?_, hnone⟩
      change (s.claimed kind now limit).length + appliedIn results = due
      omega
    · -- the batch takes all that is due
      have hbatch : (s.claimed kind now limit).length = due := by omega
      have hstops : ¬ goesOn limit (.ok ⟨(s.claimed kind now limit).length,
          (s.claimed kind now limit).length⟩) = true := by
        simp only [goesOn, decide_eq_true_eq]
        omega
      dsimp only
      rw [if_neg hstops]
      refine ⟨_, _, rfl, ?_, fun e he => ?_⟩
      · change (s.claimed kind now limit).length + 0 = due
        omega
      · have hzero : (s'.errands.countP fun e => kind.due e now) = 0 := by omega
        simpa using List.countP_eq_zero.mp hzero e he

end Batches

/-- The tables after `sampleErrand` was submitted and its reservation confirmed. -/
def openedOne : Option Tables := do
  let t ← (next sampleErrand .submit ⟨.requester, "auth0|requester"⟩ {} 0).toOption
  let s := (Job.create sampleErrand t).perform (fun _ => 0) {}
  let e ← s.errands.head?
  let t' ← (next e .reservationConfirmed systemActor {} 0).toOption
  return (Job.apply t').perform (fun _ => 0) s

theorem passed_openedOne {s : Tables} (h : openedOne = some s) :
    ∃ past, Passed (fun _ => 0) (s :: past) := by
  simp only [openedOne, Option.bind_eq_bind, Option.bind_eq_some_iff, toOption_eq_some] at h
  obtain ⟨t, ht, e, he, t', ht', h⟩ := h
  obtain rfl := Option.some.inj h
  refine ⟨_, .perform (.apply t') (.perform (.create sampleErrand t) .start ?_) ?_⟩
  · exact ⟨_, _, _, _, rfl, by decide, _, _, _, ht⟩
  · exact ⟨_, List.mem_cons_self, e, List.mem_of_mem_head? he, _, _, _, _, ht'⟩

/-- Deadline jobs select exactly the errands that `next` lets expire, and these are not due
afterwards; the reconciler can decide about every stored errand. So a deadline job that is
drained fires once on every due errand, leaves none due and takes no more batches than
their number fills, and one more. The versions of the errands must not be used up, and
either the limit or the number of errands must fit the row limit. -/
theorem deadlines_drain :
    (∀ kind ev, (kind, ev) ∈ deadlineJobs → ∀ e now,
      (kind.due e now = true ↔ ∃ t, next e ev systemActor {} now = .ok t) ∧
      ∀ t, next e ev systemActor {} now = .ok t → kind.due (t.applyTo e) now = false) ∧
    ∀ hash s past, Passed hash (s :: past) →
      (∀ e ∈ s.errands, ∀ kind, kind = .stuckReservation ∨ kind = .stuckEdit →
        ∀ status cutoff now, ∃ decision,
          decideStuck kind (getByKey s status) cutoff now e = .ok decision) ∧
      ∀ kind ev, (kind, ev) ∈ deadlineJobs → ∀ now limit : ℤ, 1 ≤ limit →
        (∀ e ∈ s.errands, kind.due e now = true → e.version < maxInt32) →
        (limit ≤ maxInt32 ∨ (s.errands.countP fun e => kind.due e now) ≤ maxInt32) →
        ∃ results s', drain hash kind ev now limit
            ((s.errands.countP fun e => kind.due e now) / limit.toNat + 1) s =
              some (results, s') ∧
          appliedIn results = (s.errands.countP fun e => kind.due e now) ∧
          ∀ e ∈ s'.errands, kind.due e now = false := by
  refine ⟨fun kind ev hjob e now => ⟨deadline_due_iff hjob, fun t ht =>
    deadline_target hjob ht rfl⟩, fun hash s past h => ?_⟩
  obtain ⟨s', past', heq, hs, -⟩ := h.recorded
  cases heq
  exact ⟨fun e he kind hkind status cutoff now => hs.decideStuck_ok he hkind status cutoff now,
    fun kind ev hjob now limit hlimit hversions hrows =>
      hs.drain_ok hjob hlimit hversions rfl hrows⟩

/-- An open errand expires at its acceptance deadline. -/
theorem deadlines_drain_opened : ∃ s, openedOne = some s ∧
    (s.errands.countP fun e => DueKind.acceptanceExpiry.due e 7200000000000) = 1 ∧
    ∃ results s', drain (fun _ => 0) .acceptanceExpiry .acceptanceDeadlinePassed 7200000000000 100
        1 s = some (results, s') ∧
      appliedIn results = 1 ∧
      ∀ e ∈ s'.errands, DueKind.acceptanceExpiry.due e 7200000000000 = false := by
  have hopened : (openedOne.map fun s => s.errands.all fun e => decide (e.version < maxInt32)) =
      some true ∧ (openedOne.map fun s => s.errands.countP fun e =>
        DueKind.acceptanceExpiry.due e 7200000000000) = some 1 := by decide
  obtain ⟨s, hs, hall⟩ := Option.map_eq_some_iff.mp hopened.1
  obtain ⟨past, hpassed⟩ := passed_openedOne hs
  have hone : (s.errands.countP fun e => DueKind.acceptanceExpiry.due e 7200000000000) = 1 := by
    rw [hs] at hopened
    exact Option.some.inj hopened.2
  have hdrains := (deadlines_drain.2 _ s past hpassed).2 .acceptanceExpiry
    .acceptanceDeadlinePassed (by decide) 7200000000000 100 (by decide)
    (fun e he _ => of_decide_eq_true (List.all_eq_true.mp hall e he)) (Or.inl (by decide))
  rw [hone] at hdrains
  exact ⟨s, hs, hone, hdrains⟩

/-! ## A version that is used up -/

section Wears

variable {s s' : Tables} {e row : Errand} {t : Transition}

/-- What applying a transition to the errand it was decided on does. -/
theorem Recorded.perform_apply (hs : Recorded s) (hash : String → ℤ) (he : e ∈ s.errands)
    {ev : Event} {actor : Actor} {input : EventInput} {now : ℤ} (hnext : next e ev actor input now = .ok t)
    (hwritable : Writable s e t) : ∃ row, insertParams (t.applyTo e) = .ok row ∧
      (Job.apply t).perform hash s = s.applied e row t := by
  have hfor := next_for hnext
  have hregular := hs.keyed.regular e he
  have hfind : s.errandOf e.id = some e := hs.keyed.unique.findRow_eq he rfl
  have hanswer : exec hash (fun _ _ => true) (.getErrandForUpdate e.id) s =
      ⟨.ok e, [], [(.errand e.id, .exclusive)]⟩ := by simp only [exec, hfind]
  have hspec : (engine hash).wp RowsAccepted (fun r s' _ => r.toOption.isSome ∧
      ∃ row, insertParams (t.applyTo e) = .ok row ∧ s' = s.applied e row t)
      (Job.apply t).body s 0 := by
    change (engine hash).wp _ _ (apply t >>= fun stored =>
      .pure (JobResult.applied stored)) s 0
    rw [Engine.wp_bind]
    unfold apply
    rw [if_neg (by rw [hfor.source]; exact hregular.status), hfor.errandID, hregular.canonical]
    refine wp_query hanswer trivial ?_
    exact hs.wp_applyLocked he hnext (fun hrefused => absurd hwritable hrefused)
      fun row n hrow _ => ⟨rfl, row, hrow, rfl⟩
  obtain ⟨result, -, -, row, hrow, hsame⟩ := Engine.wp_commits hspec (by
    rintro err s n ⟨h, -⟩
    cases h)
  exact ⟨row, hrow, hsame⟩

theorem insertParams_details (h : insertParams e = .ok row)
    (hsupplier : Canonical e.details.supplierID) (hversion : Canonical e.details.supplierVersionID)
    (hbuilding : Canonical e.details.deliveryBuildingID) :
    row.details = { e.details with acceptanceDeadline := micros e.details.acceptanceDeadline } := by
  unfold insertParams at h
  simp only [bind_eq_ok, check_eq_ok, parseUUID_eq_ok] at h
  obtain ⟨_, -, _, hsupplier', _, hversion', _, hbuilding', -, _, -, h⟩ := h
  cases h
  rw [← Option.some.inj (hsupplier.symm.trans hsupplier'),
    ← Option.some.inj (hversion.symm.trans hversion'),
    ← Option.some.inj (hbuilding.symm.trans hbuilding')]

theorem insertParams_range (h : insertParams e = .ok row) : e.version ≤ maxInt32 := by
  unfold insertParams at h
  simp only [bind_eq_ok, check_eq_ok] at h
  obtain ⟨_, -, _, -, _, -, _, -, hrange, -⟩ := h
  omega

theorem Batch.rows {pairs : List (Errand × Transition)} (h : Batch s pairs s') :
    ∀ p ∈ pairs, ∃ row, insertParams (p.2.applyTo p.1) = .ok row := by
  induction h with
  | nil => simp
  | cons he hdecides hrow hproblem hrest ih => exact List.forall_mem_cons.mpr ⟨⟨_, hrow⟩, ih⟩

/-- A batch fails when it claims an errand whose version is used up. -/
theorem Recorded.runDeadline_fails (hs : Recorded s) (hash : String → ℤ) {kind : DueKind}
    {ev : Event} {now limit : ℤ}
    (hjob : (kind, ev) ∈ deadlineJobs) (he : e ∈ s.claimed kind now limit)
    (hversion : maxInt32 ≤ e.version) :
    ∃ err, runDeadline hash kind ev now limit s = (.error err, s) := by
  obtain ⟨-, hdue⟩ := mem_claimed he
  obtain ⟨t, ht⟩ := (deadline_due_iff hjob).mp hdue
  have hdecided : (e, t) ∈ decisions (decideDeadline kind ev now) (s.claimed kind now limit) :=
    mem_decisions.mpr ⟨he, decideDeadline_ok.mpr ⟨hdue, ht⟩⟩
  have hspec : (engine hash).wp RowsAccepted (fun r _ _ => ∃ err, r = .error err)
      (claimDue kind now limit (decideDeadline kind ev now)) s 0 := by
    refine hs.wp_claimDue (fun e t ht => ⟨ev, systemActor, {}, now, (decideDeadline_ok.mp ht).2⟩)
      rfl (fun _ err _ _ => ⟨err, rfl⟩) fun _ s' n hb => ?_
    obtain ⟨row, hrow⟩ := hb.rows _ hdecided
    have hrange : (t.applyTo e).version ≤ maxInt32 := insertParams_range hrow
    have hnew : (t.applyTo e).version = e.version + 1 :=
      ((next_move ht).atDeadline ((next_for ht).event ▸ hjob)).1
    omega
  unfold runDeadline
  rcases Engine.wp_atomically hspec with ⟨a, -, err, herr⟩ | ⟨err, herr, hsame⟩
  · cases herr
  · refine ⟨err, ?_⟩
    dsimp only
    rw [herr, hsame]
    rfl

end Wears

/-- An edit that keeps the reward is made at once. -/
theorem next_edit {e : Errand} {d : Details} {now : ℤ} (hstatus : e.status = .open)
    (hpending : e.pendingEdit = none) (hrequester : e.requesterID ≠ "")
    (hvalid : validateDetails d now (d.acceptanceDeadline ≠ e.details.acceptanceDeadline) = .ok ())
    (hreward : d.reward = e.details.reward) :
    ∃ t, next e .edit ⟨.requester, e.requesterID⟩ { edit := some d } now = .ok t ∧
      t.newVersion = e.version + 1 ∧ t.target = .open ∧ t.changes.details = some d ∧
      (t.applyTo e).pendingEdit = none := by
  have happlies : ∀ r : Rule, applyEvent (r.transition e .edit ⟨.requester, e.requesterID⟩
      { edit := some d } now) e { edit := some d } now =
        .ok { r.transition e .edit ⟨.requester, e.requesterID⟩ { edit := some d } now with
          changes := { (r.transition e .edit ⟨.requester, e.requesterID⟩
            { edit := some d } now).changes with details := some d } } := by
    intro r
    simp only [applyEvent, Rule.transition, hpending, Option.isSome_none, Bool.false_eq_true,
      if_false, hvalid, hreward, if_true]
    rfl
  have hrule : ∃ r ∈ transitionTable, r.source = .open ∧ r.event = .edit ∧ r.guards = [] ∧
      r.actor = .requester := by decide
  obtain ⟨r, hr, hsource, hevent, hguards, hactor⟩ := hrule
  have hmay : checkActor r.actor e ⟨.requester, e.requesterID⟩ { edit := some d } = .ok () := by
    rw [hactor]
    simp [checkActor, hrequester]
  have htable : ∀ r ∈ transitionTable, r.event = .edit →
      r.target = .open ∧ r.needsReason = false := by decide
  obtain ⟨t, ht⟩ := next_succeeds hr (hsource.trans hstatus.symm) hevent (by simp [hguards]) hmay
    (fun r hr hevent => by rw [(htable r hr hevent).2]; rfl) fun r => ⟨_, happlies r⟩
  obtain ⟨r', t₀, hd⟩ := next_ok ht
  obtain rfl := Except.ok.inj ((happlies r').symm.trans hd.applied)
  refine ⟨t, ht, ?_⟩
  rw [hd.result]
  refine ⟨rfl, (htable r' hd.mem hd.event).1, rfl, ?_⟩
  refine (dropped_pendingEdit rfl).trans ?_
  rw [hpending, ite_self]

/-- The open errand after edits that change nothing but its version. -/
theorem exists_edited (n : ℕ) (hn : n + 2 ≤ maxInt32) :
    ∃ s past e, Passed (fun _ => 0) (s :: past) ∧ s.errands = [e] ∧ e.status = .open ∧
      e.version = n + 2 ∧ e.pendingEdit = none ∧ e.requesterID = "auth0|requester" ∧
      e.details = sampleErrand.details := by
  induction n with
  | zero =>
    have hopened : (openedOne.map fun s => s.errands.all fun e => decide (e.status = .open ∧
        e.version = 2 ∧ e.pendingEdit = none ∧ e.requesterID = "auth0|requester" ∧
        e.details = sampleErrand.details)) = some true ∧
        (openedOne.map fun s => s.errands.length) = some 1 := by decide
    obtain ⟨s, hs, hall⟩ := Option.map_eq_some_iff.mp hopened.1
    obtain ⟨past, hpassed⟩ := passed_openedOne hs
    rw [hs] at hopened
    obtain ⟨e, he⟩ := List.length_eq_one_iff.mp (Option.some.inj hopened.2)
    rw [he, List.all_cons, Bool.and_eq_true, decide_eq_true_eq] at hall
    exact ⟨s, past, e, hpassed, he, hall.1⟩
  | succ n ih =>
    obtain ⟨s, past, e, hpassed, herrands, hstatus, hversion, hpending, hrequester, hdetails⟩ :=
      ih (by omega)
    obtain ⟨s₁, past₁, heq, hs, -⟩ := hpassed.recorded
    cases heq
    have he : e ∈ s.errands := by
      rw [herrands]
      exact List.mem_singleton_self e
    have hvalid : validateDetails sampleErrand.details 0 (sampleErrand.details.acceptanceDeadline ≠
        e.details.acceptanceDeadline) = .ok () := by
      rw [hdetails]
      exact toOption_eq_some.mp (by decide)
    obtain ⟨t, hnext, hnew, htarget, hchanged, hnone⟩ := next_edit hstatus hpending
      (by rw [hrequester]; decide) hvalid (by rw [hdetails])
    have hsame : (t.applyTo e).details = sampleErrand.details :=
      congrArg (fun d => Option.getD d e.details) hchanged
    have hids : Canonical sampleErrand.details.supplierID ∧
        Canonical sampleErrand.details.supplierVersionID ∧
        Canonical sampleErrand.details.deliveryBuildingID := by decide
    have hunfenced : Unfenced s e t := by
      intro target htarget
      simp [editTargetSupplier, hchanged, hdetails] at htarget
    have hstored : Stored (t.applyTo e) := by
      refine ⟨?_, ?_, ?_, ?_, ?_, ?_⟩
      · rw [hsame]; exact hids.1
      · rw [hsame]; exact hids.2.1
      · rw [hsame]; exact hids.2.2
      · rw [hsame]; decide
      · change t.newVersion ≤ maxInt32
        omega
      · rw [hsame]; rfl
    have hwritable := hs.writable_stored he hnext hunfenced hstored hnone
    obtain ⟨row, hrow, hperform⟩ :=
      hs.perform_apply (fun _ => 0) he hnext hwritable
    have hst := insertParams_ok hrow
    have hrowDetails := insertParams_details hrow (by rw [hsame]; exact hids.1)
      (by rw [hsame]; exact hids.2.1) (by rw [hsame]; exact hids.2.2)
    refine ⟨_, _, e.overwrite row, .perform (.apply t) hpassed
      ⟨s, List.mem_cons_self, e, he, _, _, _, _, hnext⟩, ?_, hst.status.trans htarget, ?_, ?_,
      hrequester, ?_⟩
    · rw [hperform]
      change updateRow Errand.id e.id _ s.errands = _
      simp [herrands, updateRow]
    · change row.version = n + 1 + 2
      rw [hst.version]
      change t.newVersion = _
      omega
    · have hisNone := hst.isSome_pendingEdit
      rw [hnone] at hisNone
      change row.pendingEdit = none
      exact Option.not_isSome_iff_eq_none.mp (by rw [hisNone]; decide)
    · change row.details = _
      rw [hrowDetails, hsame]
      decide

/-- An errand whose version is used up fails its batch and stays due: the database takes no
version beyond 32 bits. -/
theorem drain_stuck : ∃ s past, Passed (fun _ => 0) (s :: past) ∧
    (s.errands.countP fun e => DueKind.acceptanceExpiry.due e 7200000000000) = 1 ∧
    ∃ err, drain (fun _ => 0) .acceptanceExpiry .acceptanceDeadlinePassed 7200000000000 1 (1 / 1 + 1)
      s = some ([.error err], s) := by
  obtain ⟨s, past, e, hpassed, herrands, hstatus, hversion, -, -, hdetails⟩ :=
    exists_edited (maxInt32 - 2) (by decide)
  obtain ⟨s₁, past₁, heq, hs, -⟩ := hpassed.recorded
  cases heq
  have hdue : DueKind.acceptanceExpiry.due e 7200000000000 = true := by
    simp [DueKind.due, DueKind.dueAt, hstatus, hdetails, sampleErrand]
  have hcount : (s.errands.countP fun e => DueKind.acceptanceExpiry.due e 7200000000000) = 1 := by
    rw [herrands]
    simp [hdue]
  have hlength := length_claimed s .acceptanceExpiry 7200000000000 1
  rw [hcount] at hlength
  obtain ⟨e', hclaimed⟩ := List.length_eq_one_iff.mp hlength
  have he' : e' ∈ s.claimed .acceptanceExpiry 7200000000000 1 := by
    rw [hclaimed]
    exact List.mem_singleton_self e'
  obtain rfl : e' = e := List.mem_singleton.mp (herrands ▸ (mem_claimed he').1)
  obtain ⟨err, hfails⟩ := hs.runDeadline_fails (fun _ => 0)
    (by decide : (DueKind.acceptanceExpiry, Event.acceptanceDeadlinePassed) ∈ deadlineJobs) he'
    (by rw [hversion]; decide)
  refine ⟨s, past, hpassed, hcount, err, ?_⟩
  unfold drain
  rw [hfails]
  rfl

end FocServices.Orders
