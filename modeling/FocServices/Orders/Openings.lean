import FocServices.Orders.Scheduler

/-!
# Any number of open errands

Submitting an errand and confirming its reservation adds one open errand to the tables, however
many are there. The steps are followed symbolically: what a job writes is derived from the
transition it was given and not computed.
-/

namespace FocServices.Orders

open Txn

/-- The row stores an errand without a pending edit, with its deadline in microseconds. -/
structure PlainRow (e row : Errand) : Prop where
  id : row.id = e.id
  status : row.status = e.status
  version : row.version = e.version
  requesterID : row.requesterID = e.requesterID
  createKey : row.createIdempotencyKey = e.createIdempotencyKey
  details : row.details =
    { e.details with acceptanceDeadline := micros e.details.acceptanceDeadline }
  pendingEdit : row.pendingEdit = none

theorem Stored.plainRow {e row : Errand} (h : Stored e) (hid : Canonical e.id)
    (hnone : e.pendingEdit = none) (hrow : Orders.insertParams e = .ok row) : PlainRow e row := by
  have hst := insertParams_ok hrow
  have hpending := hst.isSome_pendingEdit
  rw [hnone] at hpending
  exact ⟨hst.id_eq hid, hst.status, hst.version, hst.requesterID, insertParams_createKey hrow,
    insertParams_details hrow h.supplierID h.supplierVersionID h.deliveryBuildingID,
    Option.not_isSome_iff_eq_none.mp (by rw [hpending]; decide)⟩

section Stories

variable {hash : String → ℤ} {s : Tables} {past : List Tables} {e : Errand} {ev : Event}
  {actor : Actor} {input : EventInput} {now : ℤ} {t : Transition}

/-- A transition to what the database takes is applied. -/
theorem Passed.applied (h : Passed hash (s :: past)) (he : e ∈ s.errands)
    (hnext : next e ev actor input now = .ok t) (hunfenced : Unfenced s e t)
    (hstored : Stored (t.applyTo e)) (hnone : (t.applyTo e).pendingEdit = none) :
    ∃ row, PlainRow (t.applyTo e) row ∧ Passed hash (s.applied e row t :: s :: past) := by
  obtain ⟨_, _, heq, hs, -⟩ := h.recorded
  cases heq
  obtain ⟨row, hrow, hperform⟩ :=
    hs.perform_apply hash he hnext (hs.writable_stored he hnext hunfenced hstored hnone)
  refine ⟨row, hstored.plainRow (hs.lived e he).regular.2.1 hnone hrow, ?_⟩
  rw [← hperform]
  exact .perform _ h ⟨s, List.mem_cons_self, e, he, _, _, _, _, hnext⟩

/-- What creating an errand does when its identifier and its key are new and its supplier is
not fenced. -/
theorem Recorded.perform_create (hs : Recorded s) (hash : String → ℤ)
    {id requesterID key : String} {details : Details} (hid : Canonical id) (hkey : key ≠ "")
    (hnext : next (newErrand id requesterID key details) .submit actor input now = .ok t)
    {row : Errand} (hrow : insertParams (t.applyTo (newErrand id requesterID key details)) = .ok row)
    (hproblem : row.rowProblem = none) (hnew : ∀ e ∈ s.errands, e.id ≠ id)
    (hkeyNew : ∀ e ∈ s.errands, e.createIdempotencyKey ≠ key)
    (hopen : s.fenced row.details.supplierID = false) :
    (Job.create (newErrand id requesterID key details) t).perform hash s =
      s.created (newErrand id requesterID key details) row t := by
  have hfor := next_for hnext
  have hst := insertParams_ok hrow
  have hrowID : row.id = id := hst.id_eq hid
  have hspec : (engine hash).wp RowsAccepted (fun r s' _ => r.toOption.isSome ∧
      s' = s.created (newErrand id requesterID key details) row t)
      (Job.create (newErrand id requesterID key details) t).body s 0 := by
    change (engine hash).wp _ _ (create (newErrand id requesterID key details) t >>= fun stored =>
      .pure _) s 0
    rw [Engine.wp_bind]
    unfold create
    have hsubmit : ¬ ((newErrand id requesterID key details).status ≠ .none ∨ t.event ≠ .submit ∨
        t.source ≠ .none ∨ t.errandID ≠ (newErrand id requesterID key details).id) := by
      simp only [hfor.event, hfor.source, hfor.errandID]
      simp [newErrand]
    have hgiven : ¬ (newErrand id requesterID key details).createIdempotencyKey = "" := hkey
    rw [if_neg hsubmit, if_neg hgiven, hrow]
    have hunknown : exec hash (fun _ _ => true) (.getErrandByCreateKey requesterID key) s =
        ⟨.error .noRows, [], []⟩ := by
      have hfind : s.errands.find? (fun e => e.requesterID = requesterID ∧
          e.createIdempotencyKey = key) = none :=
        List.find?_eq_none.mpr fun e he h => hkeyNew e he (of_decide_eq_true h).2
      simp only [exec, hfind]
    refine wp_query hunknown trivial ?_
    change (engine hash).wp _ _ (checkFence row.details.supplierID _ >>= fun _ => _) s 1
    rw [Engine.wp_bind]
    refine wp_checkFence lenient_rowsAccepted (fun hfenced => ?_) fun _ n => ?_
    · rw [hopen] at hfenced
      cases hfenced
    have hinserted : exec hash (fun _ _ => true) (.insertErrand row) s =
        ⟨.ok row, [.insertErrand row], [(.createKey row.requesterID row.createIdempotencyKey,
          .exclusive), (.errand row.id, .exclusive)]⟩ := by
      have hfree : (s.errands.any fun e => e.requesterID = row.requesterID ∧
          e.createIdempotencyKey = row.createIdempotencyKey) = false := by
        rw [List.any_eq_false]
        intro e he h
        exact hkeyNew e he ((of_decide_eq_true h).2.trans (insertParams_createKey hrow))
      have hmissing : s.hasErrand row.id = false := by
        simpa [Tables.hasErrand, hrowID] using hnew
      simp only [exec, hproblem, hfree, hmissing, Bool.false_eq_true, if_false]
    refine wp_query hinserted trivial ?_
    change (engine hash).wp RowsAccepted _
      (writeTransitionRows (newErrand id requesterID key details) row t >>= fun _ =>
        .pure (row, true)) _ _
    rw [Engine.wp_bind]
    refine hs.wp_record (replaces_create hs.keyed rfl hid hrowID hnew rfl) hnext
      (wellFormed_newErrand id requesterID key details) hst (insertParams_reviewReason hrow)
      (hs.unknown hnew).2 rfl rfl fun n => ?_
    exact ⟨rfl, rfl⟩
  obtain ⟨result, -, -, hsame⟩ := Engine.wp_commits hspec (by
    rintro err s n ⟨h, -⟩
    cases h)
  exact hsame

/-- What a submission leaves. -/
theorem next_submitted {id requesterID key : String} {details : Details}
    (hnext : next (newErrand id requesterID key details) .submit actor input now = .ok t) :
    t.target = .pendingReservation ∧ t.newVersion = 1 ∧
      (t.applyTo (newErrand id requesterID key details)).details = details ∧
      (t.applyTo (newErrand id requesterID key details)).pendingEdit = none := by
  cases next_move hnext with
  | submit hstatus hversion hevent hreward hy =>
    exact ⟨hy.target, hy.version, hy.details, hy.pendingEdit⟩
  | «open» hstatus | refuse hstatus | fail hstatus | edit _ hstatus | requestEdit _ hstatus
  | confirmEdit _ hstatus | refuseEdit _ hstatus | accept hstatus | withdraw _ hstatus
  | reopen hstatus | expire hstatus | refund hstatus => cases hstatus
  | proceed name hstatus => rcases hstatus with ⟨h, -⟩ | ⟨h, -⟩ | ⟨h, -⟩ | ⟨h, -⟩ <;> cases h
  | complete hstatus => rcases hstatus with ⟨h, -⟩ | ⟨h, -⟩ <;> cases h

/-- What a confirmed reservation leaves. -/
theorem next_opened (hstatus : e.status = .pendingReservation)
    (hnext : next e .reservationConfirmed actor input now = .ok t) :
    t.target = .open ∧ t.newVersion = e.version + 1 ∧ (t.applyTo e).details = e.details ∧
      (t.applyTo e).pendingEdit = e.pendingEdit := by
  have hevent := (next_for hnext).event
  cases next_move hnext with
  | «open» _ _ hy => exact ⟨hy.target, hy.version, hy.details, hy.pendingEdit⟩
  | refuse _ h | fail _ h => cases hevent.symm.trans h
  | submit h | edit _ h | requestEdit _ h | confirmEdit _ h | refuseEdit _ h | accept h
  | withdraw _ h | reopen h | expire h | refund h => cases hstatus.symm.trans h
  | proceed name h =>
    rcases h with ⟨h, -⟩ | ⟨h, -⟩ | ⟨h, -⟩ | ⟨h, -⟩ <;> cases hstatus.symm.trans h
  | complete h => rcases h with ⟨h, -⟩ | ⟨h, -⟩ <;> cases hstatus.symm.trans h

/-- A new errand that the database takes is created. -/
theorem Passed.created (h : Passed hash (s :: past)) {id requesterID key : String}
    {details : Details} (hid : Canonical id) (hkey : key ≠ "")
    (hnext : next (newErrand id requesterID key details) .submit actor input now = .ok t)
    (hstored : Stored (t.applyTo (newErrand id requesterID key details)))
    (hnew : ∀ e ∈ s.errands, e.id ≠ id) (hkeyNew : ∀ e ∈ s.errands, e.createIdempotencyKey ≠ key)
    (hopen : s.fences = []) :
    ∃ row, PlainRow (t.applyTo (newErrand id requesterID key details)) row ∧
      Passed hash (s.created (newErrand id requesterID key details) row t :: s :: past) := by
  obtain ⟨_, _, heq, hs, -⟩ := h.recorded
  cases heq
  obtain ⟨-, -, -, hnone⟩ := next_submitted hnext
  obtain ⟨row, hrow⟩ := hstored.insertParams hid hnone
  have hproblem : row.rowProblem = none := by
    rw [rowProblem_insertParams hrow, ((wellFormed_newErrand id requesterID key details).next
      hnext).rowProblem (next_move hnext).status.1]
    exact hstored.snapshot
  refine ⟨row, hstored.plainRow hid hnone hrow, ?_⟩
  rw [← hs.perform_create hash hid hkey hnext hrow hproblem hnew hkeyNew
    (by simp [Tables.fenced, hopen])]
  exact .perform _ h ⟨_, _, _, _, rfl, hid, _, _, _, hnext⟩

end Stories

namespace Sample

def digit (k : ℕ) : Char := Char.ofNat (48 + k)

/-- Identifiers of 512 errands. -/
def errandID (n : ℕ) : String :=
  formatUUID (List.replicate 29 '0' ++ [digit (n / 64), digit (n / 8 % 8), digit (n % 8)])

theorem errandID_canonical {n : ℕ} (hn : n < 512) : Canonical (errandID n) := by
  have hdigit : ∀ k < 8, isHex (digit k) = true := by decide
  refine canonical_formatUUID (by simp) ?_
  rw [List.all_append, Bool.and_eq_true]
  refine ⟨by decide, ?_⟩
  simp [hdigit (n / 64) (by omega), hdigit (n / 8 % 8) (by omega), hdigit (n % 8) (by omega)]

theorem errandID_injective {m n : ℕ} (hm : m < 512) (hn : n < 512)
    (h : errandID m = errandID n) : m = n := by
  have hdigit : ∀ j < 8, ∀ k < 8, (digit j).toLower = (digit k).toLower → j = k := by decide
  have htext : ∀ n, (errandID n).toList.drop 33 =
      [(digit (n / 64)).toLower, (digit (n / 8 % 8)).toLower, (digit (n % 8)).toLower] := by
    intro n
    simp [errandID, formatUUID]
  have hlast := congrArg (fun s => s.toList.drop 33) h
  simp only [htext, List.cons.injEq, and_true] at hlast
  obtain ⟨h₁, h₂, h₃⟩ := hlast
  have := hdigit _ (by omega) _ (by omega) h₁
  have := hdigit _ (by omega) _ (by omega) h₂
  have := hdigit _ (by omega) _ (by omega) h₃
  omega

theorem errandID_ne {n : ℕ} : errandID n ≠ "" := by
  intro h
  have := congrArg (fun s => s.toList.length) h
  simp [errandID, formatUUID] at this

/-- An errand that was submitted and opened. -/
structure Opened (e : Errand) : Prop where
  status : e.status = .open
  version : e.version = 2
  requesterID : e.requesterID = "auth0|requester"
  createKey : e.createIdempotencyKey = e.id
  details : e.details = sampleErrand.details
  pendingEdit : e.pendingEdit = none

/-- The submission of an errand with the details of `sampleErrand`. -/
theorem next_submit {id : String} (hid : id ≠ "") : ∃ t,
    next (newErrand id "auth0|requester" id sampleErrand.details) .submit
      ⟨.requester, "auth0|requester"⟩ {} 0 = .ok t := by
  have hvalid : validateDetails sampleErrand.details 0 true = .ok () :=
    toOption_eq_some.mp (by decide)
  have hrule : ∃ r ∈ transitionTable, r.source = .none ∧ r.event = .submit ∧ r.guards = [] ∧
      r.actor = .requester := by decide
  obtain ⟨r, hr, hsource, hevent, hguards, hactor⟩ := hrule
  refine next_succeeds hr hsource hevent (by simp [hguards]) ?_ (by decide) fun r => ?_
  · rw [hactor]
    simp [checkActor, newErrand]
  · simp only [applyEvent, Rule.transition, newErrand, hid, if_false, hvalid]
    exact ⟨_, rfl⟩

theorem next_confirm {e : Errand} (hstatus : e.status = .pendingReservation) :
    ∃ t, next e .reservationConfirmed systemActor {} 0 = .ok t := by
  have hrule : ∃ r ∈ transitionTable, r.source = .pendingReservation ∧
      r.event = .reservationConfirmed ∧ r.guards = [] ∧ r.actor = .system := by decide
  obtain ⟨r, hr, hsource, hevent, hguards, hactor⟩ := hrule
  refine next_succeeds hr (hsource.trans hstatus.symm) hevent (by simp [hguards]) ?_ (by decide)
    fun r => ⟨_, rfl⟩
  rw [hactor]
  simp [checkActor, systemActor]

theorem stored_sample {e : Errand} (hdetails : e.details = sampleErrand.details)
    (hversion : e.version ≤ maxInt32) : Stored e := by
  have hids : Canonical sampleErrand.details.supplierID ∧
      Canonical sampleErrand.details.supplierVersionID ∧
      Canonical sampleErrand.details.deliveryBuildingID := by decide
  refine ⟨?_, ?_, ?_, ?_, hversion, ?_⟩
  · rw [hdetails]; exact hids.1
  · rw [hdetails]; exact hids.2.1
  · rw [hdetails]; exact hids.2.2
  · rw [hdetails]; decide
  · rw [hdetails]; rfl

/-- One more open errand. -/
theorem exists_more {s : Tables} {past : List Tables} (h : Passed (fun _ => 0) (s :: past))
    (hfences : s.fences = []) (hopened : ∀ e ∈ s.errands, Opened e) {id : String}
    (hid : Canonical id) (hne : id ≠ "") (hnew : ∀ e ∈ s.errands, e.id ≠ id) :
    ∃ s' past' e, Passed (fun _ => 0) (s' :: past') ∧ s'.fences = [] ∧
      s'.errands = s.errands ++ [e] ∧ e.id = id ∧ Opened e := by
  obtain ⟨t, ht⟩ := next_submit hne
  obtain ⟨htarget, hversion, hdetails, hnone⟩ := next_submitted ht
  obtain ⟨row, hrow, hcreated⟩ := h.created hid hne ht
    (stored_sample hdetails (by change t.newVersion ≤ _; rw [hversion]; decide)) hnew
    (fun e he hkey => hnew e he ((hopened e he).createKey.symm.trans hkey)) hfences
  have hrowStatus : row.status = .pendingReservation := hrow.status.trans htarget
  have hrowDetails : row.details = sampleErrand.details := by
    rw [hrow.details, hdetails]
    rfl
  have hrowID : row.id = id := hrow.id
  have hmem : row ∈ s.errands ++ [row] := List.mem_append_right _ (List.mem_singleton_self row)
  obtain ⟨t', ht'⟩ := next_confirm hrowStatus
  obtain ⟨htarget', hversion', hdetails', hnone'⟩ := next_opened hrowStatus ht'
  have hnewVersion : t'.newVersion = 2 := by
    rw [hversion', hrow.version]
    change t.newVersion + 1 = 2
    rw [hversion]
  obtain ⟨row', hrow', happlied⟩ := hcreated.applied hmem ht'
    (fun target htarget => by
      rw [editTargetSupplier, if_pos (by rw [(next_for ht').event]; decide)] at htarget
      cases htarget)
    (stored_sample (hdetails'.trans hrowDetails)
      (by change t'.newVersion ≤ _; rw [hnewVersion]; decide))
    (hnone'.trans hrow.pendingEdit)
  refine ⟨_, _, row.overwrite row', happlied, hfences, ?_, hrow'.id.trans hrowID, hrow'.status.trans
    htarget', hrow'.version.trans hnewVersion, hrow.requesterID, ?_, ?_, hrow'.pendingEdit⟩
  · change updateRow Errand.id row.id _ (s.errands ++ [row]) = _
    rw [updateRow, List.map_append]
    congr 1
    · refine (List.map_congr_left (g := fun e => e) fun e he => if_neg ?_).trans (List.map_id' _)
      rw [hrowID]
      exact hnew e he
    · simp
  · exact hrow.createKey.trans (hrow'.id.trans hrowID).symm
  · change row'.details = _
    rw [hrow'.details, hdetails', hrowDetails]
    rfl

/-- As many open errands as there are identifiers. -/
theorem exists_open {n : ℕ} (hn : n ≤ 512) : ∃ s past, Passed (fun _ => 0) (s :: past) ∧
    s.fences = [] ∧ s.errands.map Errand.id = (List.range n).map errandID ∧
    ∀ e ∈ s.errands, Opened e := by
  induction n with
  | zero => exact ⟨{}, [], .start, rfl, rfl, fun e he => by cases he⟩
  | succ n ih =>
    obtain ⟨s, past, hpassed, hfences, hids, hopened⟩ := ih (by omega)
    have hnew : ∀ e ∈ s.errands, e.id ≠ errandID n := by
      intro e he hid
      have hmem : e.id ∈ (List.range n).map errandID := hids ▸ List.mem_map_of_mem he
      obtain ⟨m, hm, hsame⟩ := List.mem_map.mp hmem
      have hlt := List.mem_range.mp hm
      have := errandID_injective (by omega) (by omega) (hsame.trans hid)
      omega
    obtain ⟨s', past', e, hpassed', hfences', herrands, hid, he⟩ :=
      exists_more hpassed hfences hopened (errandID_canonical (by omega)) errandID_ne hnew
    refine ⟨s', past', hpassed', hfences', ?_, ?_⟩
    · rw [herrands, List.map_append, hids, List.range_succ, List.map_append, List.map_singleton,
        List.map_singleton, hid]
    · rw [herrands]
      exact fun e' he' => (List.mem_append.mp he').elim (hopened e')
        fun h => List.mem_singleton.mp h ▸ he

end Sample

end FocServices.Orders
