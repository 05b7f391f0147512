import FocServices.Orders.Histories
import FocServices.Orders.Tasks

/-!
# Transitions on record

A transition is recorded in three tables: the errand, the log, and the reviews. In tables
that agree about every errand, writing a transition fails for three reasons only: the
columns of the errand cannot be stored, the database objects to them, or an edit moves the
errand to a supplier it may not use. The rows of the log and of the reviews are always
accepted, and the tables agree afterwards.
-/

namespace FocServices.Orders

open Txn

/-! ## Tables that agree -/

/-- The reviews of an errand, oldest first. -/
def Tables.reviewsOf (s : Tables) (id : String) : List Review :=
  s.reviews.filter fun r => r.errandID = id

/-- The reviews go with the errand: one if it has a review reason, open while the errand is
`REVIEW_REQUIRED` and resolved with its terminal status afterwards. -/
def Errand.Reviewed (e : Errand) (reviews : List Review) : Prop :=
  match e.reviewReason with
  | none => reviews = []
  | some reason => ∃ review, reviews = [review] ∧ review.reason = some reason ∧
      review.resolution.map Resolution.target =
        if e.status = .reviewRequired then none else some e.status

/-- The columns of the errand that no transition but an edit sets have values that the
database takes. -/
structure Stored (e : Errand) : Prop where
  supplierID : Canonical e.details.supplierID
  supplierVersionID : Canonical e.details.supplierVersionID
  deliveryBuildingID : Canonical e.details.deliveryBuildingID
  reward : e.details.reward ≤ maxInt32
  version : e.version ≤ maxInt32
  snapshot : e.details.deliveryBuildingSnapshot.problem "delivery_building_snapshot" = none

/-- The errands, the log and the reviews tell the same story. -/
structure Recorded (s : Tables) : Prop where
  keyed : Keyed s
  stored : ∀ e ∈ s.errands, Stored e
  reserved : ∀ e ∈ s.errands, s.hasKey (idempotencyKey e.id "reserve" 0) = true
  lived : ∀ e ∈ s.errands, Lived e (s.logOf e.id)
  requested : ∀ e ∈ s.errands, (s.logOf e.id).IsChain fun prev row =>
    row.errandVersion = prev.errandVersion →
      s.hasKey (idempotencyKey e.id "adjust" row.errandVersion) = true
  reviewed : ∀ e ∈ s.errands, e.Reviewed (s.reviewsOf e.id)
  logged : ∀ row ∈ s.transitions, s.hasErrand row.errandID = true
  opened : ∀ r ∈ s.reviews, s.hasErrand r.errandID = true

theorem recorded_empty : Recorded {} := by
  refine ⟨keyed_empty, ?_, ?_, ?_, ?_, ?_, ?_, ?_⟩ <;> simp

/-- The reviews after a transition of the errand. -/
def reviewsAfter (reviews : List Review) (id : String) (after : Errand) (t : Transition) :
    List Review :=
  if t.target = .reviewRequired then reviews ++ [reviewRow id after t]
  else if t.source = .reviewRequired then
    reviews.map fun r => if r.errandID = id ∧ r.resolution.isNone then
      { r with resolution := some (resolutionRow t) } else r
  else reviews

/-- The tables after the rows of a transition were written. -/
def Tables.record (s : Tables) (id : String) (before after : Errand) (t : Transition) : Tables :=
  { s with
    transitions := s.transitions ++ [transitionRow id before after t]
    reviews := reviewsAfter s.reviews id after t
    outbox := s.outbox ++ t.outbox }

/-- The tables after a transition of the stored errand was written. -/
def Tables.applied (s : Tables) (e row : Errand) (t : Transition) : Tables :=
  { s with errands := updateRow Errand.id e.id (fun old => old.overwrite row) s.errands }.record
    e.id e (e.overwrite row) t

/-- The tables after a new errand was written. -/
def Tables.created (s : Tables) (e row : Errand) (t : Transition) : Tables :=
  { s with errands := s.errands ++ [row] }.record e.id e row t

section Reviews

variable {e stored : Errand} {ev : Event} {actor : Actor} {input : EventInput} {now : ℤ}
  {t t₀ : Transition} {r : Rule} {reviews : List Review}

theorem reviews_table : ∀ r ∈ transitionTable,
    (r.target = .reviewRequired ↔ r.review.isSome = true) ∧
      (r.target = .reviewRequired → r.source ≠ .reviewRequired) := by decide

/-- Only an errand under review has a review reason, apart from those that have ended. -/
theorem WellFormed.reviewReason_none (hw : WellFormed e) (hlive : e.status.terminal = false)
    (hstatus : e.status ≠ .reviewRequired) : e.reviewReason = none := by
  have hreview := hw.review
  revert hlive hstatus hreview
  generalize e.status = status
  cases status <;> cases e.reviewReason <;> simp [Status.fits, Status.terminal]

theorem WellFormed.reviewReason_some (hw : WellFormed e) (hstatus : e.status = .reviewRequired) :
    ∃ reason, e.reviewReason = some reason := by
  have hreview := hw.review
  rw [hstatus] at hreview
  simp only [Status.fits, Bool.and_eq_true] at hreview
  exact Option.isSome_iff_exists.mp hreview.1

/-- A transition keeps the reviews of its errand in line with it. -/
theorem Errand.Reviewed.next (h : e.Reviewed reviews) (hw : WellFormed e)
    (hd : Decided e ev actor input now r t₀ t) (hstatus : stored.status = t.target)
    (hreason : stored.reviewReason = (t.applyTo e).reviewReason) (id : String)
    (hall : ∀ review ∈ reviews, review.errandID = id) :
    stored.Reviewed (reviewsAfter reviews id stored t) := by
  have hcolumns := hd.columns
  have htarget : t.target = r.target := hcolumns.status
  have hsource : t.source = e.status := by
    rw [hd.result]
    exact (applyEvent_for ⟨rfl, rfl, rfl, rfl, rfl, rfl, rfl⟩ hd.applied).source
  obtain ⟨hopens, hfrom⟩ := reviews_table r hd.mem
  have hlive : e.status.terminal = false := by
    have hterminal : ∀ r ∈ transitionTable, r.source.terminal = false := by decide
    rw [← hd.source]
    exact hterminal r hd.mem
  rw [hcolumns.reviewReason] at hreason
  unfold Errand.Reviewed at h ⊢
  unfold reviewsAfter
  rw [hstatus, hreason, htarget, hsource]
  by_cases hrequired : r.target = .reviewRequired
  · obtain ⟨reason, hreview⟩ := Option.isSome_iff_exists.mp (hopens.mp hrequired)
    have hbefore : e.status ≠ .reviewRequired := hd.source ▸ hfrom hrequired
    rw [hw.reviewReason_none hlive hbefore] at h
    subst h
    rw [if_pos hrequired, hreview]
    refine ⟨_, rfl, ?_, ?_⟩
    · simp [reviewRow, hreason, hreview]
    · simp [reviewRow, hrequired]
  · have hnone : r.review = none := by
      cases hreview : r.review with
      | none => rfl
      | some reason => exact absurd (hopens.mpr (by rw [hreview]; rfl)) hrequired
    rw [if_neg hrequired, hnone, Option.none_or]
    by_cases hunder : e.status = .reviewRequired
    · obtain ⟨reason, hsome⟩ := hw.reviewReason_some hunder
      rw [hsome] at h ⊢
      obtain ⟨review, rfl, hsame, hunresolved⟩ := h
      rw [if_pos hunder, Option.map_eq_none_iff] at hunresolved
      rw [if_pos hunder]
      have hid : review.errandID = id := hall review (List.mem_singleton_self review)
      refine ⟨{ review with resolution := some (resolutionRow t) }, ?_, hsame, ?_⟩
      · simp [hid, hunresolved]
      · simp [resolutionRow, hrequired, htarget]
    · rw [if_neg hunder, hw.reviewReason_none hlive hunder]
      rw [hw.reviewReason_none hlive hunder] at h
      exact h

end Reviews

/-! ## Writing a transition keeps the tables in agreement -/

theorem Tables.reviewsOf_after {s s' : Tables} {id : String} {after : Errand} {t : Transition}
    (h : s'.reviews = reviewsAfter s.reviews id after t) (id' : String) :
    s'.reviewsOf id' =
      if id' = id then reviewsAfter (s.reviewsOf id) id after t else s.reviewsOf id' := by
  unfold Tables.reviewsOf
  rw [h]
  unfold reviewsAfter
  split
  · by_cases hid : id' = id
    · simp [hid, reviewRow]
    · simp [hid, reviewRow, Ne.symm hid]
  split
  · -- resolving a review does not move it to another errand
    have hcomp : (fun r : Review => decide ((if r.errandID = id ∧ r.resolution.isNone then
        { r with resolution := some (resolutionRow t) } else r).errandID = id')) =
          fun r => decide (r.errandID = id') := by
      funext r
      split <;> rfl
    rw [List.filter_map, Function.comp_def, hcomp]
    by_cases hid : id' = id
    · rw [if_pos hid, hid]
    · rw [if_neg hid]
      refine (List.map_congr_left fun r hr => ?_).trans (List.map_id _)
      have hother : r.errandID ≠ id := by
        intro hsame
        obtain ⟨-, hr⟩ := List.mem_filter.mp hr
        exact hid ((of_decide_eq_true hr).symm.trans hsame)
      rw [if_neg fun hboth => hother hboth.1]
      rfl
  · by_cases hid : id' = id
    · rw [if_pos hid, hid]
    · rw [if_neg hid]

theorem mem_reviewsAfter {reviews : List Review} {id : String} {after : Errand} {t : Transition}
    {r : Review} (h : r ∈ reviewsAfter reviews id after t) :
    r.errandID = id ∨ ∃ r' ∈ reviews, r'.errandID = r.errandID := by
  unfold reviewsAfter at h
  split at h
  · rcases List.mem_append.mp h with hold | hnew
    · exact Or.inr ⟨r, hold, rfl⟩
    · obtain rfl := List.mem_singleton.mp hnew
      exact Or.inl rfl
  split at h
  · obtain ⟨r', hr', rfl⟩ := List.mem_map.mp h
    refine Or.inr ⟨r', hr', ?_⟩
    split <;> rfl
  · exact Or.inr ⟨r, h, rfl⟩

section Stores

variable {e row : Errand}

theorem rowProblem_eq_none (h : row.rowProblem = none) :
    row.details.deliveryBuildingSnapshot.problem "delivery_building_snapshot" = none := by
  unfold Errand.rowProblem at h
  split at h
  · cases h
  · next hnone => exact hnone

/-- A row that the database took. -/
theorem stored_of_insertParams (h : insertParams e = .ok row) (hproblem : row.rowProblem = none) :
    Stored row := by
  have hsnapshot := rowProblem_eq_none hproblem
  unfold insertParams at h
  simp only [bind_eq_ok, check_eq_ok, parseUUID_eq_ok] at h
  obtain ⟨_, -, _, hsupplier, _, hversionID, _, hbuilding, hrange, _, -, h⟩ := h
  cases h
  rw [not_or, not_lt, not_lt] at hrange
  exact ⟨canonical_of_scanUUID hsupplier, canonical_of_scanUUID hversionID,
    canonical_of_scanUUID hbuilding, hrange.1, hrange.2, hsnapshot⟩

/-- Columns that the database takes can be stored unless the version is used up. -/
theorem Stored.insertParams (h : Stored e) (hid : Canonical e.id) (hpending : e.pendingEdit = none) :
    ∃ row, insertParams e = .ok row := by
  have hrange : ¬ ((maxInt32 : ℤ) < e.details.reward ∨ maxInt32 < e.version) := by
    rw [not_or, not_lt, not_lt]
    exact ⟨h.reward, h.version⟩
  unfold Orders.insertParams
  rw [parseUUID_eq_ok.mpr hid, parseUUID_eq_ok.mpr h.supplierID,
    parseUUID_eq_ok.mpr h.supplierVersionID, parseUUID_eq_ok.mpr h.deliveryBuildingID, hpending]
  simp only [if_neg hrange]
  exact ⟨_, rfl⟩

end Stores

section Replace

variable {s s' : Tables} {e stored : Errand} {ev : Event} {actor : Actor} {input : EventInput}
  {now : ℤ} {t : Transition}

theorem Replaces.hasErrand (hr : Replaces s s' e stored) {id : String}
    (h : s.hasErrand id = true ∨ id = e.id) : s'.hasErrand id = true := by
  have hstored : stored ∈ s'.errands := (hr.mem stored).mpr (Or.inl rfl)
  have hfound : ∀ e' ∈ s'.errands, e'.id = id → s'.hasErrand id = true := fun e' he' hid => by
    simpa [Tables.hasErrand] using ⟨e', he', hid⟩
  by_cases hid : id = e.id
  · exact hfound stored hstored (hr.id.trans hid.symm)
  · obtain ⟨e', he', hid'⟩ : ∃ e' ∈ s.errands, e'.id = id := by
      simpa [Tables.hasErrand] using h.resolve_right hid
    exact hfound e' ((hr.mem e').mpr (Or.inr ⟨he', hid'.symm ▸ hid⟩)) hid'

/-- A new errand asks for its reservation. -/
theorem reserves_of_submit (hnext : next e .submit actor input now = .ok t) :
    ∃ row ∈ t.outbox, row.idempotencyKey = idempotencyKey e.id "reserve" 0 := by
  have hstatus := status_of_submit hnext
  cases next_move hnext with
  | submit _ _ _ _ hy =>
    rw [hy.outbox]
    exact ⟨_, List.mem_append_left _ (List.mem_singleton_self _), rfl⟩
  | «open» h | refuse h | fail h | edit _ h | requestEdit _ h | confirmEdit _ h | refuseEdit _ h
  | accept h | withdraw _ h | reopen h | expire h | refund h =>
    rw [hstatus] at h
    cases h
  | proceed name h =>
    rw [hstatus] at h
    rcases h with ⟨h, -⟩ | ⟨h, -⟩ | ⟨h, -⟩ | ⟨h, -⟩ <;> cases h
  | complete h =>
    rw [hstatus] at h
    rcases h with ⟨h, -⟩ | ⟨h, -⟩ <;> cases h

/-- The tables agree after a transition of an errand about which they agreed before. -/
theorem Recorded.replace (hs : Recorded s) (hr : Replaces s s' e stored) (hkeyed : Keyed s')
    (hnext : next e ev actor input now = .ok t) (hwell : WellFormed e)
    (hst : StoredAs (t.applyTo e) stored) (hstored : Stored stored)
    (hreserved : e ∈ s.errands ∨ ev = .submit)
    (hreason : stored.reviewReason = (t.applyTo e).reviewReason)
    (hlived : Lived stored (s.logOf e.id ++ [transitionRow e.id e stored t]))
    (hversion : ∀ row ∈ (s.logOf e.id).getLast?, row.errandVersion = e.version)
    (hrequested : (s.logOf e.id).IsChain fun prev row =>
      row.errandVersion = prev.errandVersion →
        s.hasKey (idempotencyKey e.id "adjust" row.errandVersion) = true)
    (hreviewed : e.Reviewed (s.reviewsOf e.id))
    (htransitions : s'.transitions = s.transitions ++ [transitionRow e.id e stored t])
    (hreviews : s'.reviews = reviewsAfter s.reviews e.id stored t)
    (houtbox : s'.outbox = s.outbox ++ t.outbox) : Recorded s' := by
  have hlogSelf : s'.logOf e.id = s.logOf e.id ++ [transitionRow e.id e stored t] :=
    Tables.logOf_self htransitions
  have hlogOther : ∀ id, id ≠ e.id → s'.logOf id = s.logOf id := fun id hid =>
    Tables.logOf_other htransitions (Ne.symm hid)
  have hkeys : ∀ key, s.hasKey key = true → s'.hasKey key = true := by
    intro key hkey
    rw [Tables.hasKey, houtbox, List.any_append, Bool.or_eq_true]
    exact Or.inl hkey
  refine ⟨hkeyed, ?_, ?_, ?_, ?_, ?_, ?_, ?_⟩
  · intro e' he'
    rcases (hr.mem e').mp he' with rfl | ⟨he', -⟩
    · exact hstored
    · exact hs.stored e' he'
  · intro e' he'
    rcases (hr.mem e').mp he' with rfl | ⟨he', -⟩
    · rw [hr.id]
      rcases hreserved with he | rfl
      · exact hkeys _ (hs.reserved e he)
      · obtain ⟨row, hrow, hkey⟩ := reserves_of_submit hnext
        rw [Tables.hasKey, houtbox, List.any_append, Bool.or_eq_true, List.any_eq_true (l := t.outbox)]
        exact Or.inr ⟨row, hrow, decide_eq_true hkey⟩
    · exact hkeys _ (hs.reserved e' he')
  · intro e' he'
    rcases (hr.mem e').mp he' with rfl | ⟨he', hid⟩
    · rw [hr.id, hlogSelf]
      exact hlived
    · rw [hlogOther e'.id hid]
      exact hs.lived e' he'
  · intro e' he'
    rcases (hr.mem e').mp he' with rfl | ⟨he', hid⟩
    · rw [hr.id, hlogSelf, List.isChain_append]
      refine ⟨hrequested.imp fun _ _ himp hsame => hkeys _ (himp hsame),
        List.isChain_singleton _, fun prev hprev row hrow hsame => ?_⟩
      obtain rfl := (Option.some.inj hrow).symm
      rw [hversion prev hprev] at hsame
      have hnew : e'.version = t.newVersion := hst.version
      obtain ⟨-, asked, hasked, hkey⟩ := (next_move hnext).requests (hnew.symm.trans hsame)
      rw [Tables.hasKey, houtbox, List.any_append, Bool.or_eq_true, List.any_eq_true]
      right
      rw [List.any_eq_true]
      refine ⟨asked, hasked, ?_⟩
      simp [hkey, hsame]
    · rw [hlogOther e'.id hid]
      exact (hs.requested e' he').imp fun _ _ himp hsame => hkeys _ (himp hsame)
  · intro e' he'
    rw [Tables.reviewsOf_after hreviews]
    rcases (hr.mem e').mp he' with rfl | ⟨he', hid⟩
    · obtain ⟨r, t₀, hd⟩ := next_ok hnext
      rw [if_pos hr.id]
      refine hreviewed.next hwell hd hst.status hreason e.id fun review hreview => ?_
      simpa using (List.mem_filter.mp hreview).2
    · rw [if_neg hid]
      exact hs.reviewed e' he'
  · rw [htransitions, List.forall_mem_append]
    refine ⟨fun row hrow => hr.hasErrand (Or.inl (hs.logged row hrow)), fun row hrow => ?_⟩
    obtain rfl := List.mem_singleton.mp hrow
    exact hr.hasErrand (Or.inr rfl)
  · intro r hmem
    rw [hreviews] at hmem
    rcases mem_reviewsAfter hmem with hid | ⟨r', hr', hid⟩
    · exact hr.hasErrand (Or.inr hid)
    · exact hr.hasErrand (Or.inl (hid ▸ hs.opened r' hr'))

theorem insertParams_reviewReason {row : Errand} (h : insertParams e = .ok row) :
    row.reviewReason = e.reviewReason := by
  unfold insertParams at h
  simp only [bind_eq_ok, check_eq_ok] at h
  obtain ⟨_, -, _, -, _, -, _, -, -, _, -, h⟩ := h
  cases h
  rfl

theorem Recorded.applied (hs : Recorded s) (he : e ∈ s.errands)
    (hnext : next e ev actor input now = .ok t) {row : Errand}
    (hrow : insertParams (t.applyTo e) = .ok row) (hproblem : row.rowProblem = none) :
    Recorded (s.applied e row t) := by
  have hlived := hs.lived e he
  obtain ⟨hwell, hid, -⟩ := hlived.regular
  have hst := insertParams_ok hrow
  have hr : Replaces s (s.applied e row t) e (e.overwrite row) :=
    replaces_apply hs.keyed he (hst.id_eq hid) rfl
  have hstep : Step (fun _ _ _ => True) s (s.applied e row t) :=
    .apply e ev actor input now t row he hnext trivial hrow rfl rfl
  have hreason := insertParams_reviewReason hrow
  have hstored : Stored (e.overwrite row) := by
    obtain ⟨hsupplier, hversionID, hbuilding, hreward, hversion, hsnapshot⟩ :=
      stored_of_insertParams hrow hproblem
    exact ⟨hsupplier, hversionID, hbuilding, hreward, hversion, hsnapshot⟩
  refine hs.replace hr (hs.keyed.step hstep) hnext hwell (overwrite_storedAs hst rfl) hstored
    (Or.inl he) hreason (.step hlived hnext hrow) ?_ (hs.requested e he)
    (hs.reviewed e he) rfl rfl rfl
  intro last hlast
  obtain ⟨init, last', hlog, -, hversion⟩ := hlived.log_ends
  rw [hlog, List.getLast?_append, List.getLast?_singleton] at hlast
  obtain rfl := Option.some.inj hlast
  exact hversion

/-- Nothing is on record about an errand that does not exist. -/
theorem Recorded.unknown (hs : Recorded s) {id : String} (hnew : ∀ e ∈ s.errands, e.id ≠ id) :
    s.logOf id = [] ∧ s.reviewsOf id = [] := by
  have hmissing : ∀ errandID, s.hasErrand errandID = true → errandID ≠ id := by
    rintro errandID hfound rfl
    obtain ⟨e, he, hid⟩ : ∃ e ∈ s.errands, e.id = errandID := by
      simpa [Tables.hasErrand] using hfound
    exact hnew e he hid
  constructor
  · exact List.filter_eq_nil_iff.mpr fun r hr hsame =>
      hmissing _ (hs.logged r hr) (of_decide_eq_true hsame)
  · exact List.filter_eq_nil_iff.mpr fun r hr hsame =>
      hmissing _ (hs.opened r hr) (of_decide_eq_true hsame)

theorem Recorded.created (hs : Recorded s) {id requesterID key : String} {details : Details}
    (hid : Canonical id)
    (hnext : next (newErrand id requesterID key details) .submit actor input now = .ok t)
    {row : Errand} (hrow : insertParams (t.applyTo (newErrand id requesterID key details)) = .ok row)
    (hproblem : row.rowProblem = none) (hnew : ∀ e' ∈ s.errands, e'.id ≠ id) :
    Recorded (s.created (newErrand id requesterID key details) row t) := by
  have hst := insertParams_ok hrow
  obtain ⟨hlog, hreviews⟩ := hs.unknown hnew
  have hr : Replaces s (s.created (newErrand id requesterID key details) row t)
      (newErrand id requesterID key details) row :=
    replaces_create hs.keyed rfl hid (hst.id_eq hid) hnew rfl
  have hstep : Step (fun _ _ _ => True) s
      (s.created (newErrand id requesterID key details) row t) :=
    .create _ actor input now t row hnext hid hrow hnew rfl rfl
  refine hs.replace hr (hs.keyed.step hstep) hnext (wellFormed_newErrand id requesterID key details)
    hst (stored_of_insertParams hrow hproblem) (Or.inr rfl) (insertParams_reviewReason hrow) ?_ ?_
    ?_ hreviews rfl rfl rfl
  · change Lived row (s.logOf id ++ _)
    rw [hlog]
    exact .submit hid hnext hrow
  · intro last hlast
    change last ∈ (s.logOf id).getLast? at hlast
    rw [hlog] at hlast
    cases hlast
  · change (s.logOf id).IsChain _
    rw [hlog]
    exact .nil

/-- Stored errands have successors. -/
theorem Recorded.succeeds_applied (hs : Recorded s) (he : e ∈ s.errands)
    (hnext : next e ev actor input now = .ok t) {row : Errand}
    (hrow : insertParams (t.applyTo e) = .ok row) {e' : Errand} (he' : e' ∈ s.errands) :
    ∃ e'' ∈ (s.applied e row t).errands, Succeeds e' e'' := by
  have hst := insertParams_ok hrow
  by_cases hid : e'.id = e.id
  · obtain rfl := hs.keyed.unique.eq he' he hid
    exact ⟨e'.overwrite row, mem_updateRow_self he,
      hst.id_eq (hs.keyed.regular e' he).canonical, rfl, rfl,
      Or.inr ((next_move hnext).rank (overwrite_storedAs hst rfl))⟩
  · exact ⟨e', mem_updateRow.mpr ⟨e', he', if_neg hid⟩, .refl e'⟩

end Replace

end FocServices.Orders
