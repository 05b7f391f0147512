import FocServices.Orders.Story

/-!
# The reconciler of stuck credit operations

`RunOnce` claims the errands whose reservation or edit has been waiting since the cutoff,
oldest first, and ends the wait of those it may. A reservation may be given up only when
its command was sent or has failed. Errands that the batch holds but skips still fill it,
so a batch makes progress exactly when one of the oldest errands is eligible.
-/

namespace FocServices.Orders

open Txn

/-! ## The job -/

/-- The timeouts that the reconciler reads from the settings. -/
structure Timeouts where
  reservation : ℤ
  edit : ℤ
  deriving DecidableEq, Repr

/-- `msgrepo.GetByKey`, of which the reconciler reads the status. -/
def getByKey (s : Tables) (status : String → DispatchStatus) (key : String) :
    Except StoreError DispatchStatus :=
  if s.hasKey key then .ok (status key) else .error (.internal "msgrepo: outbox row not found")

/-- The decision of `RunOnce` for a claimed errand. -/
def decideStuck (kind : DueKind) (lookup : String → Except StoreError DispatchStatus)
    (cutoff now : ℤ) (e : Errand) : Except StoreError (Option Transition) :=
  if kind.due e cutoff = false then .ok none
  else if kind = .stuckReservation then do
    let status ← lookup (idempotencyKey e.id "reserve" 0)
    if status ≠ .sent ∧ status ≠ .failed then return none
    else
      let t ← (next e .reservationFailed systemActor { reason := reasonReservationFailed }
        now).mapError StoreError.app
      return some t
  else do
    let t ← (next e .editRefused systemActor
      { reason := "ADJUST_TIMEOUT", editTimedOut := true, editKey := e.pendingKey }
      now).mapError StoreError.app
    return some t

/-- `Runner.RunOnce` with no other transaction. `settings` is what reading them gave, and
`status` the dispatch status of the outbox rows. -/
def runOnce (hash : String → ℤ) (kind : DueKind) (settings : Except StoreError Timeouts)
    (status : String → DispatchStatus) (now batchSize : ℤ) (s : Tables) :
    Except StoreError ℕ × Tables :=
  if kind ≠ .stuckReservation ∧ kind ≠ .stuckEdit then
    (.error (.internal "reconciler: unknown job"), s)
  else match settings with
    | .error err => (.error err, s)
    | .ok timeouts =>
      let timeout := if kind = .stuckEdit then timeouts.edit else timeouts.reservation
      if timeout ≤ 0 then (.error (.internal "reconciler: timeout must be positive"), s)
      else
        let ended := (engine hash).atomically
          (claimDue kind (now - timeout) batchSize
            (decideStuck kind (getByKey s status) (now - timeout) now)) s 0
        (ended.1, ended.2.1)

/-! ## Batches in any tables -/

/-- The statements that a transition issues after that on its errand. -/
def Stmt.logs : Stmt → Bool
  | .insertTransition _ | .insertOutbox _ | .openReview _ | .resolveReview _ _ => true
  | _ => false

section Batches

variable {hash : String → ℤ} {s : Tables} {n : ℕ} {e : Errand} {t : Transition}

theorem logs_frame {q : Stmt} (hq : q.logs = true) (s : Tables) :
    ((engine hash).storeAfter n q s).errands = s.errands := by
  change ((engine hash).applyAll (exec hash (fun _ _ => true) q s).writes s).errands = s.errands
  cases q with
  | insertTransition row =>
    rcases @insertTransition_answer hash s (fun _ _ => true) row with ⟨_, _, h⟩ | ⟨_, h⟩ <;>
      rw [h] <;> rfl
  | insertOutbox row =>
    simp only [exec]
    split
    · rfl
    · split <;> rfl
  | openReview review =>
    rcases @openReview_answer hash s (fun _ _ => true) review with ⟨_, _, h⟩ | ⟨_, h⟩ <;>
      rw [h] <;> rfl
  | resolveReview id resolution =>
    rcases @resolveReview_answer hash s (fun _ _ => true) id resolution with
      ⟨_, _, h⟩ | ⟨_, h⟩ | ⟨_, _, h⟩ <;> rw [h] <;> rfl
  | _ => cases hq

theorem conforms_check {α β : Type} {before : Program.Log Stmt.Reply → Stmt → Prop}
    {after : Program.Log Stmt.Reply → α → Prop} {log : Program.Log Stmt.Reply}
    {x : Except StoreError β} {f : β → Tx α}
    (h : ∀ b, x = .ok b → (f b).Conforms before after log) :
    (check x >>= f).Conforms before after log := by
  cases x with
  | ok b => exact h b rfl
  | error err => trivial

/-- Inserting rows into the outbox issues one kind of statement. -/
theorem insertOutboxRows_conforms {A : Stmt → Prop} {rows : List OutboxRow}
    (hrows : ∀ row ∈ rows, ∀ id, A (.insertOutbox { row with errandID := id }))
    {log : Program.Log Stmt.Reply} :
    (insertOutboxRows rows).Conforms (fun _ q => A q) (fun _ _ => True) log := by
  induction rows generalizing log with
  | nil => trivial
  | cons row rows ih =>
    obtain ⟨hfirst, hrest⟩ := List.forall_mem_cons.mp hrows
    unfold insertOutboxRows
    cases parseUUID "errandId" row.errandID with
    | error err => trivial
    | ok id =>
      refine ⟨hfirst id, fun reply => ?_⟩
      cases reply with
      | error err => trivial
      | ok u => exact ih hrest

/-- The statements that write the rows of a transition. -/
theorem writeTransitionRows_conforms {A : Stmt → Prop} {before after : Errand} {t : Transition}
    (hlog : ∀ row, A (.insertTransition row)) (hopen : ∀ review, A (.openReview review))
    (hresolve : ∀ id resolution, A (.resolveReview id resolution))
    (hrows : ∀ row ∈ t.outbox, ∀ id, A (.insertOutbox { row with errandID := id }))
    (log : Program.Log Stmt.Reply) :
    (writeTransitionRows before after t).Conforms (fun _ q => A q) (fun _ _ => True) log := by
  rw [writeTransitionRows_eq]
  cases parseUUID "errandId" after.id with
  | error err => trivial
  | ok id =>
    refine ⟨hlog _, fun reply => ?_⟩
    cases reply with
    | error err => trivial
    | ok u =>
      change Program.Conforms _ _ _ (if t.target = .reviewRequired then _ else _)
      split
      · refine ⟨hopen _, fun reply => ?_⟩
        cases reply with
        | error err => trivial
        | ok u => exact insertOutboxRows_conforms hrows
      split
      · refine ⟨hresolve _ _, fun reply => ?_⟩
        cases reply with
        | error err => trivial
        | ok resolved =>
          change Program.Conforms _ _ _ (if resolved = 0 then _ else _)
          split
          · trivial
          · exact insertOutboxRows_conforms hrows
      · exact insertOutboxRows_conforms hrows

/-- Whatever the other tables hold, a transition that is written changes its errand. -/
theorem wp_applyLocked_errands {post : Except StoreError Errand → Tables → ℕ → Prop}
    {ev : Event} {actor : Actor} {input : EventInput} {now : ℤ}
    (hfind : s.errandOf e.id = some e) (hid : Canonical e.id)
    (hnext : next e ev actor input now = .ok t) (hevent : ev ≠ .edit)
    (herr : ∀ err s n, post (.error err) s n)
    (h : ∀ row s' n, insertParams (t.applyTo e) = .ok row →
      s'.errands = updateRow Errand.id e.id (fun old => old.overwrite row) s.errands →
        post (.ok (e.overwrite row)) s' n) :
    (engine hash).wp (fun _ _ => True) post (applyLocked e t) s n := by
  have hstays : checkEditFence e t = .pure () := by
    have hnone : editTargetSupplier e t = none := by
      rw [editTargetSupplier, if_pos (by rw [(next_for hnext).event]; exact hevent)]
    unfold checkEditFence
    rw [hnone]
    rfl
  unfold applyLocked
  rw [compareAndSwap_of_next hnext, hstays]
  change (engine hash).wp (fun _ _ => True) post (check (insertParams (t.applyTo e)) >>= _) s n
  refine wp_check herr fun row hrow => ?_
  have hrowID : row.id = e.id := (insertParams_ok hrow).id_eq hid
  rw [← hrowID] at hfind
  rcases updateErrand_answer _ hfind with ⟨err, _, hanswer⟩ | ⟨_, hanswer⟩
  · refine wp_query hanswer trivial ?_
    cases err <;> exact herr _ _ _
  · refine wp_query hanswer trivial ?_
    change (engine hash).wp (fun _ _ => True) post (writeTransitionRows e (e.overwrite row) t >>=
      fun _ => .pure (e.overwrite row)) _ _
    rw [Engine.wp_bind]
    have hframe : ∀ (q : Stmt) (n : ℕ) (s' : Tables), q.logs = true →
        s'.errands = updateRow Errand.id e.id (fun old => old.overwrite row) s.errands →
          True ∧ ((engine hash).storeAfter n q s').errands =
            updateRow Errand.id e.id (fun old => old.overwrite row) s.errands :=
      fun q n s' hq hs' => ⟨trivial, (logs_frame hq s').trans hs'⟩
    refine Engine.wp_mono (Engine.wp_invariant hframe (writeTransitionRows_conforms (fun _ => rfl)
      (fun _ => rfl) (fun _ _ => rfl) (fun _ _ _ => rfl) []) (by rw [← hrowID]; rfl))
      fun r s' n' hs' => ?_
    cases r with
    | ok u => exact h row s' n' hrow hs'
    | error err => exact herr _ _ _

/-- What a decided batch does to the errands. -/
structure Moved (s : Tables) (pairs : List (Errand × Transition)) (s' : Tables) : Prop where
  idle : pairs = [] → s' = s
  others : ∀ e ∈ s.errands, (∀ p ∈ pairs, p.1.id ≠ e.id) → e ∈ s'.errands
  targets : ∀ p ∈ pairs, ∃ e' ∈ s'.errands, e'.id = p.1.id ∧ e'.status = p.2.target

theorem wp_applyDecided_errands {post : Except StoreError Unit → Tables → ℕ → Prop}
    {locked : String → Option Errand} {pairs : List (Errand × Transition)}
    (hunique : UniqueKey Errand.id s.errands)
    (hpairs : ∀ p ∈ pairs, p.1 ∈ s.errands ∧ Canonical p.1.id ∧ locked p.1.id = some p.1 ∧
      ∃ ev actor input now, next p.1 ev actor input now = .ok p.2 ∧ ev ≠ .edit)
    (hnodup : (pairs.map fun p => p.1.id).Nodup) (herr : ∀ err s n, post (.error err) s n)
    (h : ∀ s' n, Moved s pairs s' → post (.ok ()) s' n) :
    (engine hash).wp (fun _ _ => True) post (applyDecided locked (pairs.map Prod.snd)) s n := by
  induction pairs generalizing s locked n with
  | nil =>
    refine h s n ⟨fun _ => rfl, fun e he _ => he, ?_⟩
    rintro p ⟨⟩
  | cons pair pairs ih =>
    obtain ⟨e, t⟩ := pair
    obtain ⟨he, hid, hlocked, ev, actor, input, now, hnext, hevent⟩ :=
      hpairs (e, t) List.mem_cons_self
    rw [List.map_cons, List.nodup_cons] at hnodup
    rw [List.map_cons]
    unfold applyDecided
    rw [(next_for hnext).errandID, hlocked]
    dsimp only
    split
    · exact herr _ _ _
    rw [Engine.wp_bind]
    refine wp_applyLocked_errands (hunique.findRow_eq he rfl) hid hnext hevent
      (fun err s n => herr err s n) fun row s₁ n hrow herrands => ?_
    have hst := insertParams_ok hrow
    have hkey : ∀ r : Errand, r.id = e.id → (r.overwrite row).id = r.id :=
      fun r hr => (hst.id_eq hid).trans hr.symm
    have hne : ∀ p ∈ pairs, p.1.id ≠ e.id := fun p hp heq =>
      hnodup.1 (heq ▸ List.mem_map_of_mem (f := fun p : Errand × Transition => p.1.id) hp)
    have hkept : ∀ e' ∈ s.errands, e'.id ≠ e.id → e' ∈ s₁.errands := fun e' he' hid' => by
      rw [herrands]
      exact mem_updateRow.mpr ⟨e', he', if_neg hid'⟩
    refine ih (by rw [herrands]; exact hunique.updateRow hkey) (fun p hp => ?_) hnodup.2
      fun s' n' hmoved => h s' n' ⟨by simp, fun e' he' hother => ?_, fun p hp => ?_⟩
    · obtain ⟨hmem, hid', hlocked', hdecided⟩ := hpairs p (List.mem_cons_of_mem _ hp)
      exact ⟨hkept p.1 hmem (hne p hp), hid', by rw [if_neg (hne p hp)]; exact hlocked', hdecided⟩
    · obtain ⟨hother, hrest⟩ := List.forall_mem_cons.mp hother
      exact hmoved.others e' (hkept e' he' (Ne.symm hother)) hrest
    · rcases List.mem_cons.mp hp with rfl | hp
      · refine ⟨e.overwrite row, hmoved.others _ ?_ fun p hp => ?_, hst.id_eq hid, hst.status⟩
        · rw [herrands]
          exact mem_updateRow_self he
        · rw [show (e.overwrite row).id = e.id from hst.id_eq hid]
          exact hne p hp
      · exact hmoved.targets p hp

end Batches

/-! ## Progress -/

/-- An errand whose reservation may be given up: its command was sent or has failed. -/
def Errand.Eligible (e : Errand) (s : Tables) (status : String → DispatchStatus) (cutoff : ℤ) :
    Prop :=
  e.status = .pendingReservation ∧ e.createdAt ≤ cutoff ∧
    s.hasKey (idempotencyKey e.id "reserve" 0) = true ∧
    (status (idempotencyKey e.id "reserve" 0) = .sent ∨
      status (idempotencyKey e.id "reserve" 0) = .failed)

section Progress

variable {hash : String → ℤ} {s : Tables} {status : String → DispatchStatus} {cutoff now : ℤ}
  {e : Errand} {t : Transition}

/-- A reservation can be given up as long as it is awaited. -/
theorem next_reservationFailed (hstatus : e.status = .pendingReservation) (now : ℤ) :
    ∃ t, next e .reservationFailed systemActor { reason := reasonReservationFailed } now =
      .ok t := by
  have hrule : ∃ r ∈ transitionTable, r.source = .pendingReservation ∧
      r.event = .reservationFailed ∧ r.guards = [] ∧ r.actor = .system := by decide
  obtain ⟨r, hr, hsource, hevent, hguards, hactor⟩ := hrule
  refine next_succeeds hr (hsource.trans hstatus.symm) hevent (by simp [hguards])
    (by rw [hactor]; rfl) (by decide) fun r => ⟨_, rfl⟩

theorem target_of_reservationFailed {actor : Actor} {input : EventInput}
    (h : next e .reservationFailed actor input now = .ok t) : t.target = .rejected := by
  obtain ⟨r, t₀, hd⟩ := next_ok h
  have htable : ∀ r ∈ transitionTable, r.event = .reservationFailed → r.target = .rejected := by
    decide
  exact hd.columns.status.trans (htable r hd.mem hd.event)

theorem due_stuckReservation : DueKind.stuckReservation.due e cutoff = true ↔
    e.status = .pendingReservation ∧ e.createdAt ≤ cutoff := by
  unfold DueKind.due DueKind.dueAt
  by_cases hstatus : e.status = .pendingReservation <;> simp [hstatus]

/-- The reconciler gives up the reservations that it may, and no others. -/
theorem decideStuck_reservation :
    decideStuck .stuckReservation (getByKey s status) cutoff now e = .ok (some t) ↔
      e.Eligible s status cutoff ∧ next e .reservationFailed systemActor
        { reason := reasonReservationFailed } now = .ok t := by
  set key := idempotencyKey e.id "reserve" 0 with hkey
  have hdue := @due_stuckReservation cutoff e
  unfold decideStuck Errand.Eligible
  rw [← hkey]
  constructor
  · intro h
    split at h
    · cases h
    next hselected =>
    obtain ⟨hstatus, hcreated⟩ := hdue.mp (by simpa using hselected)
    rw [if_pos rfl, bind_eq_ok] at h
    obtain ⟨dispatch, hlookup, h⟩ := h
    split at h
    · cases h
    next hfinal =>
    obtain ⟨t', ht', h⟩ := bind_eq_ok.mp h
    cases h
    unfold getByKey at hlookup
    split at hlookup
    · next hfound =>
      cases hlookup
      exact ⟨⟨hstatus, hcreated, hfound, Decidable.or_iff_not_not_and_not.mpr hfinal⟩,
        mapError_eq_ok.mp ht'⟩
    · cases hlookup
  · rintro ⟨⟨hstatus, hcreated, hfound, hfinal⟩, hnext⟩
    have hselected := hdue.mpr ⟨hstatus, hcreated⟩
    have hopen : ¬ (status key ≠ .sent ∧ status key ≠ .failed) := by
      rintro ⟨hsent, hfailed⟩
      exact hfinal.elim hsent hfailed
    have hlookup : getByKey s status key = .ok (status key) := by
      rw [getByKey, if_pos hfound]
    rw [if_neg (by rw [hselected]; decide), if_pos rfl, hlookup, hnext]
    change (if status key ≠ .sent ∧ status key ≠ .failed then _ else _) = _
    rw [if_neg hopen]
    rfl

/-- What a batch of the reconciler that ends well has done. -/
theorem runOnce_moved (hunique : UniqueKey Errand.id s.errands)
    (hids : ∀ e ∈ s.errands, Canonical e.id) {timeouts : Timeouts} {batchSize : ℤ} {n : ℕ}
    (hok : (runOnce hash .stuckReservation (.ok timeouts) status now batchSize s).1 = .ok n) :
    (∀ e ∈ s.claimed .stuckReservation (now - timeouts.reservation) batchSize, ∃ decision,
      decideStuck .stuckReservation (getByKey s status) (now - timeouts.reservation) now e =
        .ok decision) ∧
    Moved s (decisions
      (decideStuck .stuckReservation (getByKey s status) (now - timeouts.reservation) now)
      (s.claimed .stuckReservation (now - timeouts.reservation) batchSize))
      (runOnce hash .stuckReservation (.ok timeouts) status now batchSize s).2 := by
  set decide := decideStuck .stuckReservation (getByKey s status) (now - timeouts.reservation) now
    with hdecide
  set batch := s.claimed .stuckReservation (now - timeouts.reservation) batchSize with hbatch
  obtain ⟨hpairs, hnodup⟩ := decisions_ok decide hunique hbatch
  have hspec : (engine hash).wp (fun _ _ => True) (fun r s' _ => ∀ n, r = .ok n →
      (∀ e ∈ batch, ∃ decision, decide e = .ok decision) ∧ Moved s (decisions decide batch) s')
      (claimDue .stuckReservation (now - timeouts.reservation) batchSize decide) s 0 := by
    refine wp_claimDue (fun _ _ _ _ => trivial) hbatch (fun _ _ _ _ _ h => by cases h) ?_
    intro hall n
    refine wp_applyDecided_errands hunique (fun p hp => ?_) hnodup (fun _ _ _ _ h => by cases h)
      fun s' n' hmoved n _ => ⟨hall, hmoved⟩
    obtain ⟨he, hlocked, hdecided⟩ := hpairs p hp
    exact ⟨he, hids p.1 he, hlocked, .reservationFailed, systemActor, _, now,
      (decideStuck_reservation.mp hdecided).2, by decide⟩
  have hkind : ¬ DueKind.stuckReservation = .stuckEdit := by decide
  unfold runOnce at hok ⊢
  rw [if_neg (fun h => h.1 rfl)] at hok ⊢
  dsimp only at hok ⊢
  rw [if_neg hkind] at hok ⊢
  by_cases htimeout : timeouts.reservation ≤ 0
  · rw [if_pos htimeout] at hok
    cases hok
  rw [if_neg htimeout] at hok ⊢
  rcases Engine.wp_atomically hspec with ⟨m, hm, hpost⟩ | ⟨err, herr, -⟩
  · exact hpost m rfl
  · rw [herr] at hok
    cases hok

/-- A batch of the reconciler that ends well moves an eligible errand to `REJECTED` exactly
when one of the errands it claimed, the oldest that are waiting, is eligible. -/
theorem reconciler_progress_iff (hunique : UniqueKey Errand.id s.errands)
    (hids : ∀ e ∈ s.errands, Canonical e.id) {timeouts : Timeouts} {batchSize : ℤ} {n : ℕ}
    (hok : (runOnce hash .stuckReservation (.ok timeouts) status now batchSize s).1 = .ok n) :
    (∃ e ∈ s.errands, e.Eligible s status (now - timeouts.reservation) ∧
      ∃ e' ∈ (runOnce hash .stuckReservation (.ok timeouts) status now batchSize s).2.errands,
        e'.id = e.id ∧ e'.status = .rejected) ↔
    ∃ e ∈ s.claimed .stuckReservation (now - timeouts.reservation) batchSize,
      e.Eligible s status (now - timeouts.reservation) := by
  obtain ⟨hall, hmoved⟩ := runOnce_moved hunique hids hok
  constructor
  · rintro ⟨e, he, ⟨hstatus, -⟩, e', he', hid, hrejected⟩
    -- if nothing was decided on, the errand is still waiting
    by_contra hnone
    have hidle := hmoved.idle (List.eq_nil_iff_forall_not_mem.mpr fun p hp => ?_)
    · rw [hidle] at he'
      obtain rfl := hunique.eq he' he hid
      rw [hstatus] at hrejected
      cases hrejected
    · obtain ⟨hclaimed, hdecided⟩ := mem_decisions.mp hp
      exact hnone ⟨p.1, hclaimed, (decideStuck_reservation.mp hdecided).1⟩
  · rintro ⟨e, hclaimed, heligible⟩
    obtain ⟨t, hnext⟩ := next_reservationFailed heligible.1 now
    have hdecided := decideStuck_reservation.mpr ⟨heligible, hnext⟩
    obtain ⟨e', he', hid, htarget⟩ :=
      hmoved.targets (e, t) (mem_decisions.mpr ⟨hclaimed, hdecided⟩)
    have he : e ∈ s.errands :=
      (batch_ok hunique (fun _ _ => true) .stuckReservation _ _).1 e hclaimed
    exact ⟨e, he, heligible, e', he', hid, htarget.trans (target_of_reservationFailed hnext)⟩

end Progress

/-- An errand submitted after `sampleErrand`. -/
def laterErrand : Errand :=
  { sampleErrand with
    id := "55555555-5555-4555-8555-555555555555"
    createIdempotencyKey := "create-2" }

/-- The tables after `sampleErrand` and, a microsecond later, `laterErrand` were submitted. -/
def submittedTwo : Option Tables := do
  let first ← (next sampleErrand .submit ⟨.requester, "auth0|requester"⟩ {} 0).toOption
  let second ← (next laterErrand .submit ⟨.requester, "auth0|requester"⟩ {} 1000).toOption
  return (Job.create laterErrand second).perform (fun _ => 0)
    ((Job.create sampleErrand first).perform (fun _ => 0) {})

theorem passed_submittedTwo {s : Tables} (h : submittedTwo = some s) :
    ∃ past, Passed (fun _ => 0) (s :: past) := by
  simp only [submittedTwo, Option.bind_eq_bind, Option.bind_eq_some_iff, toOption_eq_some] at h
  obtain ⟨first, hfirst, second, hsecond, h⟩ := h
  obtain rfl := Option.some.inj h
  refine ⟨_, .perform (.create laterErrand second) (.perform (.create sampleErrand first) .start
    ?_) ?_⟩
  · exact ⟨_, _, _, _, rfl, by decide, _, _, _, hfirst⟩
  · exact ⟨_, _, _, _, rfl, by decide, _, _, _, hsecond⟩

/-- Only the command of the errand with this identifier was sent. -/
def onlySent (id key : String) : DispatchStatus :=
  if key = idempotencyKey id "reserve" 0 then .sent else .pending

/-- With room for both errands, the batch gives up the reservation that was sent. -/
theorem reconciler_progress_two : ∃ s, submittedTwo = some s ∧
    ∃ e ∈ s.errands, e.Eligible s (onlySent laterErrand.id) 1000 ∧
      ∃ e' ∈ (runOnce (fun _ => 0) .stuckReservation (.ok ⟨1000, 1000⟩) (onlySent laterErrand.id)
        2000 2 s).2.errands, e'.id = e.id ∧ e'.status = .rejected := by
  have hruns : (submittedTwo.map fun s =>
      ((s.claimed .stuckReservation 1000 2).any fun e => decide (e.status = .pendingReservation ∧
        e.createdAt ≤ 1000 ∧ s.hasKey (idempotencyKey e.id "reserve" 0) = true ∧
        onlySent laterErrand.id (idempotencyKey e.id "reserve" 0) = .sent)) &&
      decide ((runOnce (fun _ => 0) .stuckReservation (.ok ⟨1000, 1000⟩) (onlySent laterErrand.id)
        2000 2 s).1.toOption = some 1)) = some true := by
    decide
  obtain ⟨s, hs, hfacts⟩ := Option.map_eq_some_iff.mp hruns
  obtain ⟨past, hpassed⟩ := passed_submittedTwo hs
  obtain ⟨s', past', heq, hrecorded, -⟩ := hpassed.recorded
  cases heq
  rw [Bool.and_eq_true, decide_eq_true_eq, List.any_eq_true] at hfacts
  obtain ⟨⟨e, he, heligible⟩, happlied⟩ := hfacts
  obtain ⟨hstatus, hcreated, hfound, hsent⟩ := of_decide_eq_true heligible
  have hok : (runOnce (fun _ => 0) .stuckReservation (.ok ⟨1000, 1000⟩) (onlySent laterErrand.id)
      2000 2 s).1 = .ok 1 := toOption_eq_some.mp happlied
  exact ⟨s, hs, (reconciler_progress_iff hrecorded.keyed.unique
    (fun e he => (hrecorded.keyed.regular e he).canonical) hok).mpr
      ⟨e, he, hstatus, hcreated, hfound, Or.inl hsent⟩⟩

/-- An errand whose command was sent is kept waiting by an older one whose command was not:
the older one fills the batch and is skipped. -/
theorem reconciler_stalls : ∃ s past, Passed (fun _ => 0) (s :: past) ∧
    (∃ e ∈ s.errands, e.Eligible s (onlySent laterErrand.id) 1000) ∧
    (runOnce (fun _ => 0) .stuckReservation (.ok ⟨1000, 1000⟩) (onlySent laterErrand.id) 2000 1
      s).1.toOption = some 0 ∧
    (runOnce (fun _ => 0) .stuckReservation (.ok ⟨1000, 1000⟩) (onlySent laterErrand.id) 2000 1
      s).2 = s := by
  have hruns : (submittedTwo.map fun s =>
      decide (s.errands.any fun e => decide (e.status = .pendingReservation ∧ e.createdAt ≤ 1000 ∧
        s.hasKey (idempotencyKey e.id "reserve" 0) = true ∧
        onlySent laterErrand.id (idempotencyKey e.id "reserve" 0) = .sent)) &&
      decide ((runOnce (fun _ => 0) .stuckReservation (.ok ⟨1000, 1000⟩) (onlySent laterErrand.id)
        2000 1 s).1.toOption = some 0 ∧ (runOnce (fun _ => 0) .stuckReservation (.ok ⟨1000, 1000⟩)
        (onlySent laterErrand.id) 2000 1 s).2 = s)) = some true := by
    decide
  obtain ⟨s, hs, hfacts⟩ := Option.map_eq_some_iff.mp hruns
  obtain ⟨past, hpassed⟩ := passed_submittedTwo hs
  rw [Bool.and_eq_true, decide_eq_true_eq, decide_eq_true_eq, List.any_eq_true] at hfacts
  obtain ⟨⟨e, he, heligible⟩, hstays⟩ := hfacts
  obtain ⟨hstatus, hcreated, hfound, hsent⟩ := of_decide_eq_true heligible
  exact ⟨s, past, hpassed, ⟨e, he, hstatus, hcreated, hfound, Or.inl hsent⟩, hstays⟩

end FocServices.Orders
