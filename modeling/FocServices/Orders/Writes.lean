import FocServices.Orders.Records

/-!
# What writing transitions does

In tables that agree about every errand a transition that was decided on the stored
errand is written whenever its row can be: `Writable` is exact. The rules below give the
tables afterwards, for one transition, for a new errand and for a batch.
-/

namespace FocServices.Orders

open Txn

/-! ## Writing one transition -/

/-- The inserts of outbox rows, the opening of a review and its resolution succeed, and a
resolution changes one row. -/
def RowsAccepted : (q : Stmt) → q.Reply → Prop
  | .insertOutbox _, reply => reply = .ok ()
  | .openReview _, reply => reply = .ok ()
  | .resolveReview _ _, reply => reply = .ok 1
  | _, _ => True

theorem lenient_rowsAccepted : Lenient RowsAccepted := by
  intro q reply hq h
  cases q with
  | insertOutbox row => exact h
  | openReview review | resolveReview id resolution => cases hq
  | _ => trivial

/-- The columns of the errand after the transition can be stored, and an edit may move it
to its supplier. -/
def Writable (s : Tables) (e : Errand) (t : Transition) : Prop :=
  Unfenced s e t ∧ ∃ row, insertParams (t.applyTo e) = .ok row ∧ row.rowProblem = none

section Rules

variable {hash : String → ℤ} {s : Tables} {n : ℕ} {e : Errand} {ev : Event} {actor : Actor}
  {input : EventInput} {now : ℤ} {t : Transition}

theorem wp_openReview_accepted {α : Type} {post : Except StoreError α → Tables → ℕ → Prop}
    {review : Review} {f : Unit → Tx α} (hreason : review.reason ≠ none)
    (hnone : ∀ r ∈ s.reviews, r.errandID = review.errandID → r.resolution ≠ none)
    (herrand : s.hasErrand review.errandID = true)
    (h : (engine hash).wp RowsAccepted post (f ()) { s with reviews := s.reviews ++ [review] }
      (n + 1)) :
    (engine hash).wp RowsAccepted post
      (query (.openReview review) >>= fun reply => orFail reply >>= f) s n := by
  have hfree : ¬ (s.reviews.any fun r => decide (r.errandID = review.errandID ∧
      r.resolution.isNone = true)) = true := by
    rw [List.any_eq_true]
    rintro ⟨r, hr, hopen⟩
    obtain ⟨hid, hopen⟩ := of_decide_eq_true hopen
    exact hnone r hr hid (Option.isNone_iff_eq_none.mp hopen)
  have hanswer : exec hash (fun _ _ => true) (.openReview review) s =
      ⟨.ok (), [.insertReview review], [(.openReview review.errandID, .exclusive),
        (.errand review.errandID, .shared)]⟩ := by
    simp only [exec, if_neg hreason, if_neg hfree, herrand, not_true_eq_false, if_false]
    rfl
  exact wp_query hanswer rfl h

theorem wp_resolveReview_accepted {α : Type} {post : Except StoreError α → Tables → ℕ → Prop}
    {id : String} {resolution : Resolution} {f : ℕ → Tx α}
    (hone : (s.reviews.countP fun r => r.errandID = id ∧ r.resolution.isNone) = 1)
    (htarget : resolution.target = .completed ∨ resolution.target = .refunded)
    (hresolver : resolution.resolverID ≠ "") (hreason : resolution.reason ≠ "")
    (h : (engine hash).wp RowsAccepted post (f 1)
      ((Write.resolveReview id resolution).apply s) (n + 1)) :
    (engine hash).wp RowsAccepted post
      (query (.resolveReview id resolution) >>= fun reply => orFail reply >>= f) s n := by
  have hends : ¬ (resolution.target ≠ .completed ∧ resolution.target ≠ .refunded) := by
    rintro ⟨hcompleted, hrefunded⟩
    exact htarget.elim hcompleted hrefunded
  have hfilled : ¬ (resolution.resolverID = "" ∨ resolution.reason = "") := by
    rintro (hempty | hempty)
    · exact hresolver hempty
    · exact hreason hempty
  have hanswer : exec hash (fun _ _ => true) (.resolveReview id resolution) s =
      ⟨.ok 1, [.resolveReview id resolution], [(.openReview id, .exclusive)]⟩ := by
    simp only [exec]
    rw [hone]
    simp only [if_neg hends, if_neg hfilled]
  exact wp_query hanswer rfl h

/-- The rows of a transition are written. -/
theorem wp_acceptedRows {post : Except StoreError Unit → Tables → ℕ → Prop} {before after : Errand}
    (hid : Canonical after.id) (hrows : ∀ row ∈ t.outbox, row.errandID = after.id)
    (herrand : s.hasErrand after.id = true)
    (hnodup : (t.outbox.map OutboxRow.idempotencyKey).Nodup)
    (hfree : ∀ row ∈ t.outbox, ∀ r ∈ s.outbox, r.idempotencyKey ≠ row.idempotencyKey)
    (htarget : t.target ≠ .none) (hversion : after.version ≠ 0)
    (hopens : t.target = .reviewRequired → after.reviewReason ≠ none ∧
      ∀ r ∈ s.reviews, r.errandID = after.id → r.resolution ≠ none)
    (hresolves : t.target ≠ .reviewRequired → t.source = .reviewRequired →
      (s.reviews.countP fun r => r.errandID = after.id ∧ r.resolution.isNone) = 1 ∧
        (t.target = .completed ∨ t.target = .refunded) ∧ t.actor.id ≠ "" ∧ t.reason ≠ "")
    (h : ∀ n, post (.ok ()) (s.record after.id before after t) n) :
    (engine hash).wp RowsAccepted post (writeTransitionRows before after t) s n := by
  have hparse : check (parseUUID "errandId" after.id) = (.pure after.id : Tx String) := by
    unfold parseUUID
    rw [hid]
    rfl
  have hanswer : exec hash (fun _ _ => true)
      (.insertTransition (transitionRow after.id before after t)) s =
      ⟨.ok (), [.insertTransition (transitionRow after.id before after t)],
        [(.errand after.id, .shared)]⟩ := by
    have htarget' : (transitionRow after.id before after t).target ≠ .none := htarget
    have hversion' : (transitionRow after.id before after t).errandVersion ≠ 0 := hversion
    have herrand' : s.hasErrand (transitionRow after.id before after t).errandID = true := herrand
    simp only [exec, if_neg htarget', if_neg hversion', herrand', not_true_eq_false, if_false]
    rfl
  -- the outbox rows go in last, whatever became of the reviews
  have hinsert : ∀ reviews n, reviews = reviewsAfter s.reviews after.id after t →
      (engine hash).wp RowsAccepted post (insertOutboxRows t.outbox)
        { s with
          transitions := s.transitions ++ [transitionRow after.id before after t]
          reviews := reviews } n := by
    rintro reviews n rfl
    exact wp_insertOutboxRows lenient_rowsAccepted hid hrows herrand hnodup hfree h
  rw [writeTransitionRows_eq, hparse]
  refine wp_query hanswer trivial ?_
  by_cases hreview : t.target = .reviewRequired
  · obtain ⟨hreason, hnone⟩ := hopens hreview
    change (engine hash).wp RowsAccepted post (if t.target = .reviewRequired then _ else _) _ _
    rw [if_pos hreview]
    refine wp_openReview_accepted hreason hnone herrand (hinsert _ _ ?_)
    rw [reviewsAfter, if_pos hreview]
    rfl
  change (engine hash).wp RowsAccepted post (if t.target = .reviewRequired then _ else _) _ _
  rw [if_neg hreview]
  by_cases hsource : t.source = .reviewRequired
  · obtain ⟨hone, hends, hresolver, hreason⟩ := hresolves hreview hsource
    rw [if_pos hsource]
    refine wp_resolveReview_accepted hone hends hresolver hreason ?_
    rw [if_neg Nat.one_ne_zero]
    refine hinsert _ _ ?_
    rw [reviewsAfter, if_neg hreview, if_pos hsource]
    rfl
  · rw [if_neg hsource]
    refine hinsert _ _ ?_
    rw [reviewsAfter, if_neg hreview, if_neg hsource]

theorem compareAndSwap_of_next (hnext : next e ev actor input now = .ok t) :
    compareAndSwap e t = .ok () := by
  have hfor := next_for hnext
  unfold compareAndSwap
  rw [if_neg (not_not.mpr hfor.source.symm), if_neg]
  rw [not_or, not_not, not_not]
  exact ⟨hfor.expectedVersion.symm, hfor.expectedPendingEditKey.symm⟩

/-- The reviews of an errand in agreement with it. -/
theorem Errand.Reviewed.cases {reviews : List Review} (h : e.Reviewed reviews)
    (hw : WellFormed e) : (reviews = [] ∧ e.status ≠ .reviewRequired) ∨
      ∃ review, reviews = [review] ∧ review.reason = e.reviewReason ∧
        (review.resolution = none ∧ e.status = .reviewRequired ∨
          ∃ resolution, review.resolution = some resolution ∧ resolution.target = e.status ∧
            e.status.terminal = true) := by
  unfold Errand.Reviewed at h
  cases hreason : e.reviewReason with
  | none =>
    rw [hreason] at h
    refine Or.inl ⟨h, fun hstatus => ?_⟩
    obtain ⟨reason, hsome⟩ := hw.reviewReason_some hstatus
    rw [hreason] at hsome
    cases hsome
  | some reason =>
    rw [hreason] at h
    obtain ⟨review, rfl, hsame, hresolution⟩ := h
    refine Or.inr ⟨review, rfl, hsame, ?_⟩
    by_cases hstatus : e.status = .reviewRequired
    · rw [if_pos hstatus, Option.map_eq_none_iff] at hresolution
      exact Or.inl ⟨hresolution, hstatus⟩
    · rw [if_neg hstatus] at hresolution
      obtain ⟨resolution, hresolution, htarget⟩ := Option.map_eq_some_iff.mp hresolution
      refine Or.inr ⟨resolution, hresolution, htarget, ?_⟩
      by_contra hlive
      have hnone := hw.reviewReason_none (Bool.not_eq_true _ ▸ hlive) hstatus
      rw [hreason] at hnone
      cases hnone

/-- Only errands under review have an open review, and they have one. -/
theorem Errand.Reviewed.open_iff {reviews : List Review} (h : e.Reviewed reviews)
    (hw : WellFormed e) :
    (e.status = .reviewRequired → (reviews.countP fun r => r.resolution.isNone) = 1) ∧
      (e.status ≠ .reviewRequired → ∀ r ∈ reviews, r.resolution ≠ none) := by
  rcases h.cases hw with ⟨rfl, hstatus⟩ |
    ⟨review, rfl, -, ⟨hopen, hstatus⟩ | ⟨resolution, hresolved, -, hends⟩⟩
  · exact ⟨fun h => absurd h hstatus, by simp⟩
  · exact ⟨fun _ => by simp [hopen], fun h => absurd hstatus h⟩
  · refine ⟨fun hstatus => ?_, fun _ => by simp [hresolved]⟩
    rw [hstatus] at hends
    cases hends

theorem Tables.countP_reviewsOf (s : Tables) (id : String) :
    (s.reviews.countP fun r => r.errandID = id ∧ r.resolution.isNone) =
      (s.reviewsOf id).countP fun r => r.resolution.isNone := by
  rw [Tables.reviewsOf, List.countP_filter]
  congr 1
  funext r
  rw [Bool.decide_and, Bool.decide_eq_true, Bool.and_comm]

/-- The rows of a transition of an errand about which the tables agree are accepted,
whatever became of the errands since. -/
theorem Recorded.wp_record {post : Except StoreError Unit → Tables → ℕ → Prop}
    {s₀ : Tables} {stored : Errand} (hs : Recorded s₀) (hr : Replaces s₀ s e stored)
    (hnext : next e ev actor input now = .ok t) (hwell : WellFormed e)
    (hst : StoredAs (t.applyTo e) stored)
    (hreason : stored.reviewReason = (t.applyTo e).reviewReason)
    (hreviewed : e.Reviewed (s₀.reviewsOf e.id))
    (hreviews : s.reviews = s₀.reviews) (houtbox : s.outbox = s₀.outbox)
    (h : ∀ n, post (.ok ()) (s.record e.id e stored t) n) :
    (engine hash).wp RowsAccepted post (writeTransitionRows e stored t) s n := by
  obtain ⟨r, t₀, hd⟩ := next_ok hnext
  have hm := next_move hnext
  have hid := hr.id
  have hfor := next_for hnext
  obtain ⟨hcount, hclosed⟩ := hreviewed.open_iff hwell
  have hafter := hwell.next hnext
  have hemits := hm.emitsFresh fun hstatus => (hwell.stored hstatus).1
  have hlive : t.target = .reviewRequired → e.status ≠ .reviewRequired := by
    intro htarget
    rw [← hd.source]
    exact (reviews_table r hd.mem).2 (hd.columns.status.symm.trans htarget)
  refine wp_acceptedRows (by rw [hid]; exact hr.canonical) ?_ (hr.hasErrand (Or.inr hid))
    (hemits.nodup hr.canonical) ?_ hm.status.1 ?_ ?_ ?_ (by rw [hid]; exact h)
  · intro row hrow
    exact (hm.errandID_rows row hrow).trans hid.symm
  · intro row hrow
    rw [houtbox]
    exact hs.keyed.key_free hr hm hrow
  · rw [hst.version]
    exact Nat.ne_of_gt (hafter.stored hm.status.1).1
  · intro htarget
    constructor
    · rw [hreason]
      obtain ⟨reason, hsome⟩ := hafter.reviewReason_some htarget
      rw [hsome]
      exact Option.some_ne_none _
    · intro review hreview hsame
      rw [hreviews] at hreview
      refine hclosed (hlive htarget) review (List.mem_filter.mpr ⟨hreview, ?_⟩)
      exact decide_eq_true (hsame.trans hid)
  · intro _ hsource
    have hunder : e.status = .reviewRequired := hfor.source.symm.trans hsource
    obtain ⟨hends, hresolver, hgiven⟩ := hd.resolver hunder
    refine ⟨?_, hends, hfor.actor ▸ hresolver, hgiven⟩
    rw [hid, hreviews, Tables.countP_reviewsOf]
    exact hcount hunder

/-- A transition of a stored errand is written exactly when it can be. -/
theorem Recorded.wp_applyLocked {post : Except StoreError Errand → Tables → ℕ → Prop}
    (hs : Recorded s) (he : e ∈ s.errands) (hnext : next e ev actor input now = .ok t)
    (herr : ¬ Writable s e t → ∀ err n, post (.error err) s n)
    (h : ∀ row n, insertParams (t.applyTo e) = .ok row → row.rowProblem = none →
      post (.ok (e.overwrite row)) (s.applied e row t) n) :
    (engine hash).wp RowsAccepted post (applyLocked e t) s n := by
  obtain ⟨hwell, hid, hstatus⟩ := (hs.lived e he).regular
  unfold applyLocked
  rw [compareAndSwap_of_next hnext]
  change (engine hash).wp RowsAccepted post (checkEditFence e t >>= fun _ => _) s n
  rw [Engine.wp_bind]
  refine wp_checkEditFence lenient_rowsAccepted (fun hfenced err n => herr ?_ err n)
    fun hopen n => ?_
  · rintro ⟨hopen, -⟩
    exact hfenced hopen
  cases hrow : insertParams (t.applyTo e) with
  | error err =>
    refine herr ?_ err n
    rintro ⟨-, row, hok, -⟩
    rw [hrow] at hok
    cases hok
  | ok row =>
    have hst := insertParams_ok hrow
    have hrowID : row.id = e.id := hst.id_eq hid
    have hfind : s.errandOf row.id = some e := hs.keyed.unique.findRow_eq he hrowID.symm
    have hfor := next_for hnext
    have hmatch : ¬ (e.status ≠ t.source ∨ e.version ≠ t.expectedVersion ∨
        e.pendingKey ≠ t.expectedPendingEditKey) := by
      rw [not_or, not_or, not_not, not_not, not_not]
      exact ⟨hfor.source.symm, hfor.expectedVersion.symm, hfor.expectedPendingEditKey.symm⟩
    cases hproblem : row.rowProblem with
    | some err =>
      have hanswer : exec hash (fun _ _ => true)
          (.updateErrand row t.source t.expectedVersion t.expectedPendingEditKey) s =
          ⟨.error err, [], [(.errand row.id, .exclusive)]⟩ := by
        simp only [exec, hfind, if_neg hmatch, hproblem]
      have hfails : ∀ err n, post (.error err) s n := by
        refine herr ?_
        rintro ⟨-, row', hok, hnone⟩
        obtain rfl := Except.ok.inj (hrow.symm.trans hok)
        rw [hproblem] at hnone
        cases hnone
      refine wp_query hanswer trivial ?_
      cases err <;> exact hfails _ _
    | none =>
      have hanswer : exec hash (fun _ _ => true)
          (.updateErrand row t.source t.expectedVersion t.expectedPendingEditKey) s =
          ⟨.ok (e.overwrite row), [.updateErrand row], [(.errand row.id, .exclusive)]⟩ := by
        simp only [exec, hfind, if_neg hmatch, hproblem]
      refine wp_query hanswer trivial ?_
      have herrands : ((engine hash).applyAll [.updateErrand row] s).errands =
          updateRow Errand.id e.id (fun old => old.overwrite row) s.errands := by
        rw [← hrowID]
        rfl
      have hreason := insertParams_reviewReason hrow
      change (engine hash).wp RowsAccepted post (writeTransitionRows e (e.overwrite row) t >>=
        fun _ => .pure (e.overwrite row)) _ _
      rw [Engine.wp_bind]
      refine hs.wp_record (replaces_apply hs.keyed he hrowID herrands) hnext hwell
        (overwrite_storedAs hst rfl) hreason (hs.reviewed e he) rfl rfl fun n => ?_
      have happlied : ((engine hash).applyAll [.updateErrand row] s).record e.id e
          (e.overwrite row) t = s.applied e row t := by
        rw [Tables.applied, ← hrowID]
        rfl
      change post _ (((engine hash).applyAll [.updateErrand row] s).record e.id e
          (e.overwrite row) t) n
      rw [happlied]
      exact h row n hrow hproblem

end Rules

/-! ## Writing a batch -/

/-- The transitions that a job decides on for a batch, with the errands they are for. -/
def decisions (decide : Errand → Except StoreError (Option Transition)) (batch : List Errand) :
    List (Errand × Transition) :=
  batch.filterMap fun e => ((decide e).toOption.join).map fun t => (e, t)

/-- The errands a job claims when no other transaction holds a row lock. -/
def Tables.claimed (s : Tables) (kind : DueKind) (now limit : ℤ) : List Errand :=
  (s.claimable (fun _ _ => true) kind now).take (min limit.toNat maxInt32)

/-- Transitions are written one after another, each over the errand it was decided for. -/
inductive Batch : Tables → List (Errand × Transition) → Tables → Prop where
  | nil {s : Tables} : Batch s [] s
  | cons {s s' : Tables} {e row : Errand} {t : Transition} {rest : List (Errand × Transition)}
      (he : e ∈ s.errands) (hdecides : Decides e t) (hrow : insertParams (t.applyTo e) = .ok row)
      (hproblem : row.rowProblem = none) (hrest : Batch (s.applied e row t) rest s') : Batch s ((e, t) :: rest) s'

section Batches

variable {decide : Errand → Except StoreError (Option Transition)} {batch : List Errand}

theorem mem_decisions {e : Errand} {t : Transition} :
    (e, t) ∈ decisions decide batch ↔ e ∈ batch ∧ decide e = .ok (some t) := by
  unfold decisions
  rw [List.mem_filterMap]
  constructor
  · rintro ⟨e', he', hsome⟩
    obtain ⟨t', ht', hpair⟩ := Option.map_eq_some_iff.mp hsome
    cases hpair
    refine ⟨he', ?_⟩
    cases hdecide : decide e with
    | error err =>
      rw [hdecide] at ht'
      cases ht'
    | ok decision =>
      rw [hdecide] at ht'
      exact congrArg Except.ok ht'
  · rintro ⟨he, hdecide⟩
    exact ⟨e, he, by rw [hdecide]; rfl⟩

/-- A batch is decided when none of its decisions fails. -/
theorem decideAll_eq (decide : Errand → Except StoreError (Option Transition))
    (batch : List Errand) : (∃ e ∈ batch, ∃ err, decide e = .error err) ∧
      (∃ err, decideAll decide batch = .error err) ∨
    (∀ e ∈ batch, ∃ decision, decide e = .ok decision) ∧
      decideAll decide batch = .ok ((decisions decide batch).map Prod.snd) := by
  induction batch with
  | nil => exact Or.inr ⟨by simp, rfl⟩
  | cons e batch ih =>
    cases hdecide : decide e with
    | error err =>
      refine Or.inl ⟨⟨e, List.mem_cons_self, err, hdecide⟩, err, ?_⟩
      rw [decideAll, hdecide]
      rfl
    | ok decision =>
      rcases ih with ⟨⟨e', he', herr⟩, err, hrest⟩ | ⟨hall, hrest⟩
      · refine Or.inl ⟨⟨e', List.mem_cons_of_mem _ he', herr⟩, err, ?_⟩
        rw [decideAll, hdecide, hrest]
        rfl
      · refine Or.inr ⟨List.forall_mem_cons.mpr ⟨⟨decision, hdecide⟩, hall⟩, ?_⟩
        rw [decideAll, hdecide, hrest]
        cases decision with
        | none =>
          have hskip : decisions decide (e :: batch) = decisions decide batch := by
            simp [decisions, hdecide, Except.toOption]
          rw [hskip]
          rfl
        | some t =>
          have htake : decisions decide (e :: batch) = (e, t) :: decisions decide batch := by
            simp [decisions, hdecide, Except.toOption]
          rw [htake]
          rfl

variable {hash : String → ℤ} {s s' : Tables} {n : ℕ}

theorem Batch.recorded {pairs : List (Errand × Transition)} (h : Batch s pairs s')
    (hs : Recorded s) :
    Recorded s' ∧ ∀ e ∈ s.errands, ∃ e' ∈ s'.errands, Succeeds e e' := by
  induction h with
  | nil => exact ⟨hs, fun e he => ⟨e, he, .refl e⟩⟩
  | cons he hdecides hrow hproblem hrest ih =>
    obtain ⟨ev, actor, input, now, hnext⟩ := hdecides
    obtain ⟨hlast, hlater⟩ := ih (hs.applied he hnext hrow hproblem)
    refine ⟨hlast, fun e' he' => ?_⟩
    obtain ⟨e₁, he₁, hsucceeds⟩ := hs.succeeds_applied he hnext hrow he'
    obtain ⟨e₂, he₂, hsucceeds'⟩ := hlater e₁ he₁
    exact ⟨e₂, he₂, hsucceeds.trans hsucceeds'⟩

/-- A decided batch is written when each of its transitions can be. -/
theorem Recorded.wp_applyDecided {post : Except StoreError Unit → Tables → ℕ → Prop}
    {locked : String → Option Errand} {pairs : List (Errand × Transition)} (hs : Recorded s)
    (hpairs : ∀ p ∈ pairs, p.1 ∈ s.errands ∧ locked p.1.id = some p.1 ∧ Decides p.1 p.2)
    (hnodup : (pairs.map fun p => p.1.id).Nodup)
    (herr : (∃ p ∈ pairs, ¬ Writable s p.1 p.2) → ∀ err s n, post (.error err) s n)
    (h : ∀ s' n, Batch s pairs s' → post (.ok ()) s' n) :
    (engine hash).wp RowsAccepted post (applyDecided locked (pairs.map Prod.snd)) s n := by
  induction pairs generalizing s locked n with
  | nil => exact h s n .nil
  | cons pair pairs ih =>
    obtain ⟨e, t⟩ := pair
    obtain ⟨he, hlocked, hdecides⟩ := hpairs (e, t) List.mem_cons_self
    have hnext' := hdecides
    obtain ⟨ev, actor, input, now, hnext⟩ := hnext'
    have hfor := next_for hnext
    have hsource : t.source ≠ .none := by
      rw [hfor.source]
      exact (hs.keyed.regular e he).status
    rw [List.map_cons, List.nodup_cons] at hnodup
    rw [List.map_cons]
    unfold applyDecided
    rw [hfor.errandID, hlocked]
    dsimp only
    rw [if_neg hsource, Engine.wp_bind]
    refine hs.wp_applyLocked he hnext (fun hrefused err n => ?_) fun row n hrow hproblem => ?_
    · exact herr ⟨(e, t), List.mem_cons_self, hrefused⟩ err s n
    refine ih (hs.applied he hnext hrow hproblem) (fun p hp => ?_) hnodup.2 ?_ fun s' n hbatch =>
      h s' n (.cons he hdecides hrow hproblem hbatch)
    · obtain ⟨hmem, hlocked', hdecides'⟩ := hpairs p (List.mem_cons_of_mem _ hp)
      have hne : p.1.id ≠ e.id := fun heq =>
        hnodup.1 (heq ▸ List.mem_map_of_mem (f := fun p : Errand × Transition => p.1.id) hp)
      exact ⟨mem_updateRow.mpr ⟨p.1, hmem, if_neg hne⟩, by rw [if_neg hne]; exact hlocked',
        hdecides'⟩
    · rintro ⟨p, hp, hrefused⟩
      exact herr ⟨p, List.mem_cons_of_mem _ hp, hrefused⟩

/-- The decisions for a batch are about stored errands, each about another one. -/
theorem decisions_ok (decide : Errand → Except StoreError (Option Transition)) {kind : DueKind}
    {now limit : ℤ} (hunique : UniqueKey Errand.id s.errands)
    (hbatch : batch = s.claimed kind now limit) :
    (∀ p ∈ decisions decide batch, p.1 ∈ s.errands ∧
      (batch.find? fun e => e.id = p.1.id) = some p.1 ∧ decide p.1 = .ok (some p.2)) ∧
      ((decisions decide batch).map fun p => p.1.id).Nodup := by
  obtain ⟨hstored, hdistinct⟩ :=
    batch_ok hunique (fun _ _ => true) kind now (min limit.toNat maxInt32)
  rw [Tables.claimed] at hbatch
  rw [← hbatch] at hstored hdistinct
  constructor
  · intro p hp
    obtain ⟨he, hdecided⟩ := mem_decisions.mp hp
    exact ⟨hstored p.1 he, hdistinct.findRow_eq he rfl, hdecided⟩
  · refine hdistinct.sublist (sublist_filterMap fun e _ p hp => ?_)
    obtain ⟨t, -, rfl⟩ := Option.map_eq_some_iff.mp hp
    rfl

/-- A job of due errands applies what it decides on for the errands it claims. -/
theorem wp_claimDue {P : (q : Stmt) → q.Reply → Prop}
    {post : Except StoreError ℕ → Tables → ℕ → Prop} {kind : DueKind} {now limit : ℤ}
    (hP : ∀ kind now limit reply, P (.claim kind now limit) reply)
    (hbatch : batch = s.claimed kind now limit)
    (herr : limit < 1 ∨ (∃ e ∈ batch, ∃ err, decide e = .error err) →
      ∀ err s n, post (.error err) s n)
    (h : (∀ e ∈ batch, ∃ decision, decide e = .ok decision) → ∀ n, (engine hash).wp P
      (fun r => post (r.map fun _ => (decisions decide batch).length))
      (applyDecided (fun id => batch.find? fun e => e.id = id)
        ((decisions decide batch).map Prod.snd)) s n) :
    (engine hash).wp P post (claimDue kind now limit decide) s n := by
  unfold claimDue
  by_cases hlimit : limit < 1
  · rw [if_pos hlimit]
    exact herr (Or.inl hlimit) _ _ _
  rw [if_neg hlimit]
  refine ⟨hP _ _ _ _, ?_⟩
  change (engine hash).wp P post (check (decideAll decide (s.claimed kind now limit)) >>=
    fun decided => applyDecided (fun id => (s.claimed kind now limit).find? fun e => e.id = id)
      decided >>= fun _ => .pure decided.length) s (n + 1)
  rw [← hbatch]
  rcases decideAll_eq decide batch with ⟨hfails, err, heq⟩ | ⟨hall, heq⟩
  · rw [heq]
    exact herr (Or.inr hfails) _ _ _
  rw [heq]
  change (engine hash).wp P post (applyDecided _ _ >>= fun _ => .pure _) s (n + 1)
  rw [Engine.wp_bind, List.length_map]
  refine Engine.wp_mono (h hall (n + 1)) fun r s' n' hr => ?_
  cases r with
  | ok u => exact hr
  | error err => exact hr

/-- In tables that agree, the job fails only if a decision fails or a transition cannot be
written. -/
theorem Recorded.wp_claimDue {post : Except StoreError ℕ → Tables → ℕ → Prop} {kind : DueKind}
    {now limit : ℤ} (hs : Recorded s) (hdecide : ∀ e t, decide e = .ok (some t) → Decides e t)
    (hbatch : batch = s.claimed kind now limit)
    (herr : limit < 1 ∨ (∃ e ∈ batch, ∃ err, decide e = .error err) ∨
      (∃ p ∈ decisions decide batch, ¬ Writable s p.1 p.2) → ∀ err s n, post (.error err) s n)
    (h : (∀ e ∈ batch, ∃ decision, decide e = .ok decision) → ∀ s' n,
      Batch s (decisions decide batch) s' → post (.ok (decisions decide batch).length) s' n) :
    (engine hash).wp RowsAccepted post (claimDue kind now limit decide) s n := by
  obtain ⟨hpairs, hnodup⟩ := decisions_ok decide hs.keyed.unique hbatch
  refine Orders.wp_claimDue (fun _ _ _ _ => trivial) hbatch
    (fun hfails => herr (hfails.imp_right Or.inl)) fun hall n => ?_
  refine hs.wp_applyDecided (fun p hp => ?_) hnodup
    (fun hrefused => herr (Or.inr (Or.inr hrefused))) fun s' n hb => h hall s' n hb
  obtain ⟨he, hlocked, hdecided⟩ := hpairs p hp
  exact ⟨he, hlocked, hdecide _ _ hdecided⟩

end Batches

/-! ## Transactions keep the tables in agreement -/

/-- The tables still agree, and every errand is there or has moved on. -/
structure Later (s s' : Tables) : Prop where
  recorded : Recorded s'
  succeeds : ∀ e ∈ s.errands, ∃ e' ∈ s'.errands, Succeeds e e'

theorem Later.refl {s : Tables} (hs : Recorded s) : Later s s := ⟨hs, fun e he => ⟨e, he, .refl e⟩⟩

/-- A body that ends well leaves later tables. -/
def Agreed (s : Tables) {α : Type} : Except StoreError α → Tables → ℕ → Prop
  | .ok _, s', _ => Later s s'
  | .error _, _, _ => True

section Jobs

variable {hash : String → ℤ} {s s' : Tables} {n : ℕ}

theorem wp_agreed_return {α β : Type} {p : Tx α} {f : α → β}
    (h : (engine hash).wp RowsAccepted (Agreed s) p s n) :
    (engine hash).wp RowsAccepted (Agreed s) (p >>= fun a => .pure (f a)) s n := by
  rw [Engine.wp_bind]
  refine Engine.wp_mono h fun r s' n' hr => ?_
  cases r with
  | ok a => exact hr
  | error e => trivial

/-- A transition decided on an earlier row is applied to that very row, or refused. -/
theorem Recorded.apply_agreed (hs : Recorded s) {e : Errand} {t : Transition} (he : Regular e)
    (hdecides : Decides e t) (hcur : ∃ cur ∈ s.errands, Succeeds e cur) :
    (engine hash).wp RowsAccepted (Agreed s) (apply t) s n := by
  obtain ⟨cur, hcur, hsucceeds⟩ := hcur
  obtain ⟨ev, actor, input, now, hnext⟩ := id hdecides
  have hfind : s.errandOf e.id = some cur := hs.keyed.unique.findRow_eq hcur hsucceeds.id
  unfold apply
  split
  · trivial
  rw [(next_for hnext).errandID, he.canonical]
  have hanswer : exec hash (fun _ _ => true) (.getErrandForUpdate e.id) s =
      ⟨.ok cur, [], [(.errand e.id, .exclusive)]⟩ := by simp only [exec, hfind]
  refine wp_query hanswer trivial ?_
  change (engine hash).wp RowsAccepted (Agreed s) (applyLocked cur t) s (n + 1)
  cases hcas : compareAndSwap cur t with
  | error err =>
    unfold applyLocked
    rw [hcas]
    trivial
  | ok u =>
    obtain rfl := hsucceeds.eq_of_compareAndSwap he (hs.keyed.regular cur hcur) hdecides hcas
    exact hs.wp_applyLocked hcur hnext (fun _ _ _ => trivial) fun row n hrow hproblem =>
      ⟨hs.applied hcur hnext hrow hproblem, fun e' he' => hs.succeeds_applied hcur hnext hrow he'⟩

theorem Recorded.create_agreed (hs : Recorded s) {id requesterID key : String} {details : Details}
    {actor : Actor} {input : EventInput} {now : ℤ} {t : Transition} (hid : Canonical id)
    (hnext : next (newErrand id requesterID key details) .submit actor input now = .ok t) :
    (engine hash).wp RowsAccepted (Agreed s) (create (newErrand id requesterID key details) t)
      s n := by
  unfold create
  split
  · trivial
  split
  · trivial
  refine wp_check (fun _ _ _ => trivial) fun row hrow => ?_
  have hst := insertParams_ok hrow
  have hrowID : row.id = id := hst.id_eq hid
  rcases getErrandByCreateKey_answer _ requesterID key with ⟨existing, hanswer⟩ | hanswer
  · exact wp_query hanswer trivial (.refl hs)
  refine wp_query hanswer trivial ?_
  change (engine hash).wp RowsAccepted (Agreed s) (checkFence row.details.supplierID _ >>=
    fun _ => _) s (n + 1)
  rw [Engine.wp_bind]
  refine wp_checkFence lenient_rowsAccepted (fun _ _ _ => trivial) fun _ n => ?_
  rcases insertErrand_answer _ row with ⟨err, hanswer⟩ | ⟨hproblem, hnew, -, hanswer⟩
  · refine wp_query hanswer trivial ?_
    cases err with
    | noRows =>
      rcases getErrandByCreateKey_answer _ requesterID key with ⟨existing, hanswer⟩ | hanswer
      · exact wp_query hanswer trivial (.refl hs)
      · exact wp_query hanswer trivial trivial
    | _ => trivial
  refine wp_query hanswer trivial ?_
  rw [hrowID] at hnew
  change (engine hash).wp RowsAccepted (Agreed s)
    (writeTransitionRows (newErrand id requesterID key details) row t >>= fun _ =>
      .pure (row, true)) _ _
  rw [Engine.wp_bind]
  refine hs.wp_record (replaces_create hs.keyed rfl hid hrowID hnew rfl) hnext
    (wellFormed_newErrand id requesterID key details) hst (insertParams_reviewReason hrow)
    (hs.unknown hnew).2 rfl rfl fun n => ?_
  exact ⟨hs.created hid hnext hrow hproblem hnew, fun e he => ⟨e, List.mem_append_left _ he, .refl e⟩⟩

theorem Recorded.claimDue_agreed (hs : Recorded s) {kind : DueKind} {now limit : ℤ}
    {decide : Errand → Except StoreError (Option Transition)}
    (hdecide : ∀ e t, decide e = .ok (some t) → Decides e t) :
    (engine hash).wp RowsAccepted (Agreed s) (claimDue kind now limit decide) s n :=
  hs.wp_claimDue hdecide rfl (fun _ _ _ _ => trivial) fun _ _ _ hbatch =>
    ⟨(hbatch.recorded hs).1, (hbatch.recorded hs).2⟩

end Jobs

end FocServices.Orders
