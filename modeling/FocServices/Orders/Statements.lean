import FocServices.Orders.Steps

/-!
# Rules for the order statements

What the database can answer to a statement, and one rule of the weakest precondition
for each statement and each part of a transaction that writes a transition. In tables
whose outbox is in order, the inserts of a transition's outbox rows are accepted.
-/

namespace FocServices.Orders

open Txn

/-- The inserts of a transition's outbox rows succeed. -/
def OutboxAccepted : (q : Stmt) → q.Reply → Prop
  | .insertOutbox _, reply => reply = .ok ()
  | _, _ => True

/-- The statements on reviews. -/
def Stmt.onReviews : Stmt → Bool
  | .openReview _ | .resolveReview _ _ => true
  | _ => false

/-- A condition on replies that asks no more than that outbox rows are accepted, except
of the statements on reviews. -/
def Lenient (P : (q : Stmt) → q.Reply → Prop) : Prop :=
  ∀ q reply, q.onReviews = false → OutboxAccepted q reply → P q reply

theorem lenient_outboxAccepted : Lenient OutboxAccepted := fun _ _ _ h => h

section Rules

variable {hash : String → ℤ} {P : (q : Stmt) → q.Reply → Prop} {α : Type}
  {post : Except StoreError α → Tables → ℕ → Prop} {s : Tables} {n : ℕ}

/-- A statement whose answer is known. -/
theorem wp_query {q : Stmt} {f : q.Reply → Tx α} {answer : Answer Stmt.Reply Write Lock q}
    (hanswer : exec hash (fun _ _ => true) q s = answer) (haccepted : P q answer.reply)
    (h : (engine hash).wp P post (f answer.reply)
      ((engine hash).applyAll answer.writes s) (n + 1)) :
    (engine hash).wp P post (query q >>= f) s n := by
  subst hanswer
  exact ⟨haccepted, h⟩

/-- A check that fails ends the body. -/
theorem wp_check {β : Type} {x : Except StoreError β} {f : β → Tx α}
    (herr : ∀ err s n, post (.error err) s n)
    (h : ∀ b, x = .ok b → (engine hash).wp P post (f b) s n) :
    (engine hash).wp P post (check x >>= f) s n := by
  cases x with
  | ok b => exact h b rfl
  | error err => exact herr err s n

/-- The fence check fails for a fenced supplier only. -/
theorem wp_checkFence {post : Except StoreError Unit → Tables → ℕ → Prop} {id supplierID : String}
    (hP : Lenient P) (herr : s.fenced id = true → ∀ err n, post (.error err) s n)
    (h : s.fenced id = false → ∀ n, post (.ok ()) s n) :
    (engine hash).wp P post (checkFence id supplierID) s n := by
  unfold checkFence
  refine ⟨hP _ _ rfl trivial, hP _ _ rfl trivial, ?_⟩
  change (engine hash).wp P post (if s.fenced id then _ else _) s (n + 2)
  by_cases hfenced : s.fenced id
  · rw [if_pos hfenced]
    exact herr hfenced _ _
  · rw [if_neg hfenced]
    exact h (by simpa using hfenced) _

/-- A row with a new key for a stored errand is inserted. -/
theorem wp_insertOutbox {row : OutboxRow} {f : Except DBError Unit → Tx α} (hP : Lenient P)
    (hkey : ∀ r ∈ s.outbox, r.idempotencyKey ≠ row.idempotencyKey)
    (herrand : s.hasErrand row.errandID = true)
    (h : (engine hash).wp P post (f (.ok ()))
      { s with outbox := s.outbox ++ [row] } (n + 1)) :
    (engine hash).wp P post (query (.insertOutbox row) >>= f) s n := by
  have hfree : s.hasKey row.idempotencyKey = false := by
    simpa [Tables.hasKey] using hkey
  have hanswer : exec hash (fun _ _ => true) (.insertOutbox row) s =
      ⟨.ok (), [.insertOutbox row], [(.outboxKey row.idempotencyKey, .exclusive),
        (.errand row.errandID, .shared)]⟩ := by
    simp [exec, hfree, herrand]
  exact wp_query hanswer (hP _ _ rfl rfl) h

theorem wp_insertOutboxRows {post : Except StoreError Unit → Tables → ℕ → Prop}
    {rows : List OutboxRow} {id : String} (hP : Lenient P) (hid : Canonical id)
    (hrows : ∀ row ∈ rows, row.errandID = id) (herrand : s.hasErrand id = true)
    (hnodup : (rows.map OutboxRow.idempotencyKey).Nodup)
    (hfree : ∀ row ∈ rows, ∀ r ∈ s.outbox, r.idempotencyKey ≠ row.idempotencyKey)
    (h : ∀ n, post (.ok ()) { s with outbox := s.outbox ++ rows } n) :
    (engine hash).wp P post (insertOutboxRows rows) s n := by
  induction rows generalizing s n with
  | nil =>
    have hnil := h n
    rw [List.append_nil] at hnil
    exact hnil
  | cons row rows ih =>
    have hrowID : row.errandID = id := hrows row List.mem_cons_self
    have hparse : check (parseUUID "errandId" row.errandID) = (.pure row.errandID : Tx String) := by
      unfold parseUUID
      rw [hrowID, hid]
      rfl
    rw [List.map_cons, List.nodup_cons] at hnodup
    unfold insertOutboxRows
    rw [hparse]
    refine wp_insertOutbox hP (hfree row List.mem_cons_self) (by rw [hrowID]; exact herrand) ?_
    refine ih (fun r hr => hrows r (List.mem_cons_of_mem _ hr)) herrand hnodup.2 ?_ ?_
    · intro new hnew
      rw [List.forall_mem_append]
      refine ⟨hfree new (List.mem_cons_of_mem _ hnew), ?_⟩
      simp only [List.mem_singleton, forall_eq]
      exact fun heq => hnodup.1 (heq ▸ List.mem_map_of_mem hnew)
    · intro n
      simpa using h n

theorem insertTransition_answer (grantable : Lock → Mode → Bool) (row : TransitionRow) :
    (∃ e locks, exec hash grantable (.insertTransition row) s = ⟨.error e, [], locks⟩) ∨
      ∃ locks, exec hash grantable (.insertTransition row) s =
        ⟨.ok (), [.insertTransition row], locks⟩ := by
  simp only [exec]
  split_ifs
  · exact Or.inl ⟨_, _, rfl⟩
  · exact Or.inl ⟨_, _, rfl⟩
  · exact Or.inr ⟨_, rfl⟩
  · exact Or.inl ⟨_, _, rfl⟩

theorem openReview_answer (grantable : Lock → Mode → Bool) (review : Review) :
    (∃ e locks, exec hash grantable (.openReview review) s = ⟨.error e, [], locks⟩) ∨
      ∃ locks, exec hash grantable (.openReview review) s =
        ⟨.ok (), [.insertReview review], locks⟩ := by
  simp only [exec]
  split_ifs
  · exact Or.inl ⟨_, _, rfl⟩
  · exact Or.inl ⟨_, _, rfl⟩
  · exact Or.inr ⟨_, rfl⟩
  · exact Or.inl ⟨_, _, rfl⟩

theorem resolveReview_answer (grantable : Lock → Mode → Bool) (errandID : String)
    (resolution : Resolution) :
    (∃ e locks, exec hash grantable (.resolveReview errandID resolution) s =
        ⟨.error e, [], locks⟩) ∨
      (∃ locks, exec hash grantable (.resolveReview errandID resolution) s = ⟨.ok 0, [], locks⟩) ∨
      ∃ count locks, exec hash grantable (.resolveReview errandID resolution) s =
        ⟨.ok (count + 1), [.resolveReview errandID resolution], locks⟩ := by
  simp only [exec]
  split
  · exact Or.inr (Or.inl ⟨_, rfl⟩)
  · split_ifs
    · exact Or.inl ⟨_, _, rfl⟩
    · exact Or.inl ⟨_, _, rfl⟩
    · exact Or.inr (Or.inr ⟨_, _, rfl⟩)

theorem updateErrand_answer (grantable : Lock → Mode → Bool) {row old : Errand} {status : Status}
    {version : ℕ} {key : String} (hfind : s.errandOf row.id = some old) :
    (∃ e locks, exec hash grantable (.updateErrand row status version key) s =
        ⟨.error e, [], locks⟩) ∨
      ∃ locks, exec hash grantable (.updateErrand row status version key) s =
        ⟨.ok (old.overwrite row), [.updateErrand row], locks⟩ := by
  simp only [exec, hfind]
  split_ifs
  · exact Or.inl ⟨_, _, rfl⟩
  · split
    · exact Or.inl ⟨_, _, rfl⟩
    · exact Or.inr ⟨_, rfl⟩

theorem getErrandByCreateKey_answer (grantable : Lock → Mode → Bool) (requesterID key : String) :
    (∃ e, exec hash grantable (.getErrandByCreateKey requesterID key) s = ⟨.ok e, [], []⟩) ∨
      exec hash grantable (.getErrandByCreateKey requesterID key) s = ⟨.error .noRows, [], []⟩ := by
  simp only [exec]
  split
  · exact Or.inl ⟨_, rfl⟩
  · exact Or.inr rfl

theorem insertErrand_answer (grantable : Lock → Mode → Bool) (row : Errand) :
    (∃ e, exec hash grantable (.insertErrand row) s = ⟨.error e, [], []⟩) ∨
      row.rowProblem = none ∧ (∀ e ∈ s.errands, e.id ≠ row.id) ∧
      (∀ e ∈ s.errands, ¬ (e.requesterID = row.requesterID ∧
        e.createIdempotencyKey = row.createIdempotencyKey)) ∧
      exec hash grantable (.insertErrand row) s = ⟨.ok row, [.insertErrand row],
        [(.createKey row.requesterID row.createIdempotencyKey, .exclusive),
          (.errand row.id, .exclusive)]⟩ := by
  simp only [exec]
  split
  · exact Or.inl ⟨_, rfl⟩
  next hproblem =>
  split_ifs with hkey hid
  · exact Or.inl ⟨_, rfl⟩
  · exact Or.inl ⟨_, rfl⟩
  · refine Or.inr ⟨hproblem, by simpa [Tables.hasErrand] using hid, ?_, rfl⟩
    simpa only [List.any_eq_true, not_exists, not_and, decide_eq_true_eq] using hkey

theorem insertOutboxIfAbsent_answer (grantable : Lock → Mode → Bool) (row : OutboxRow) :
    (∃ e locks, exec hash grantable (.insertOutboxIfAbsent row) s = ⟨.error e, [], locks⟩) ∨
      exec hash grantable (.insertOutboxIfAbsent row) s = ⟨.ok 0, [], []⟩ ∨
      ∃ locks, (∀ r ∈ s.outbox, r.idempotencyKey ≠ row.idempotencyKey) ∧
        exec hash grantable (.insertOutboxIfAbsent row) s =
          ⟨.ok 1, [.insertOutbox row], locks⟩ := by
  simp only [exec]
  split_ifs with hkey herrand
  · exact Or.inr (Or.inl rfl)
  · exact Or.inr (Or.inr ⟨_, by simpa [Tables.hasKey] using hkey, rfl⟩)
  · exact Or.inl ⟨_, _, rfl⟩

theorem insertCurrentReminder_answer (grantable : Lock → Mode → Bool) (row : OutboxRow)
    (status : Status) (version : ℕ) :
    (∃ locks, exec hash grantable (.insertCurrentReminder row status version) s =
        ⟨.ok 0, [], locks⟩) ∨
      ∃ locks, (∀ r ∈ s.outbox, r.idempotencyKey ≠ row.idempotencyKey) ∧
        exec hash grantable (.insertCurrentReminder row status version) s =
          ⟨.ok 1, [.insertOutbox row], locks⟩ := by
  simp only [exec]
  split_ifs with hcurrent hkey
  · exact Or.inl ⟨_, rfl⟩
  · exact Or.inr ⟨_, by simpa [Tables.hasKey] using hkey, rfl⟩
  · exact Or.inl ⟨_, rfl⟩

theorem wp_insertTransition {row : TransitionRow} {f : Unit → Tx α}
    (herr : ∀ err s n, post (.error err) s n)
    (h : (engine hash).wp OutboxAccepted post (f ())
      { s with transitions := s.transitions ++ [row] } (n + 1)) :
    (engine hash).wp OutboxAccepted post
      (query (.insertTransition row) >>= fun reply => orFail reply >>= f) s n := by
  rcases insertTransition_answer _ row with ⟨_, _, hanswer⟩ | ⟨_, hanswer⟩
  · exact wp_query hanswer trivial (herr _ _ _)
  · exact wp_query hanswer trivial h

theorem wp_openReview {review : Review} {f : Unit → Tx α}
    (herr : ∀ err s n, post (.error err) s n)
    (h : (engine hash).wp OutboxAccepted post (f ())
      { s with reviews := s.reviews ++ [review] } (n + 1)) :
    (engine hash).wp OutboxAccepted post
      (query (.openReview review) >>= fun reply => orFail reply >>= f) s n := by
  rcases openReview_answer _ review with ⟨_, _, hanswer⟩ | ⟨_, hanswer⟩
  · exact wp_query hanswer trivial (herr _ _ _)
  · exact wp_query hanswer trivial h

theorem wp_resolveReview {errandID : String} {resolution : Resolution} {f : ℕ → Tx α}
    (herr : ∀ err s n, post (.error err) s n)
    (h : ∀ count reviews, (engine hash).wp OutboxAccepted post (f count)
      { s with reviews := reviews } (n + 1)) :
    (engine hash).wp OutboxAccepted post
      (query (.resolveReview errandID resolution) >>= fun reply => orFail reply >>= f) s n := by
  rcases resolveReview_answer _ errandID resolution with
    ⟨_, _, hanswer⟩ | ⟨_, hanswer⟩ | ⟨count, _, hanswer⟩
  · exact wp_query hanswer trivial (herr _ _ _)
  · exact wp_query hanswer trivial (h 0 s.reviews)
  · exact wp_query hanswer trivial (h (count + 1) _)

/-- The statements of a transition besides its outbox rows leave errands and outbox
alone; they may fail. -/
theorem wp_writeTransitionRows {post : Except StoreError Unit → Tables → ℕ → Prop}
    {before after : Errand} {t : Transition}
    (herr : ∀ err s n, post (.error err) s n) (hid : Canonical after.id)
    (hrows : ∀ row ∈ t.outbox, row.errandID = after.id) (herrand : s.hasErrand after.id = true)
    (hnodup : (t.outbox.map OutboxRow.idempotencyKey).Nodup)
    (hfree : ∀ row ∈ t.outbox, ∀ r ∈ s.outbox, r.idempotencyKey ≠ row.idempotencyKey)
    (h : ∀ transitions reviews n, post (.ok ())
      { s with
        transitions := transitions, reviews := reviews, outbox := s.outbox ++ t.outbox } n) :
    (engine hash).wp OutboxAccepted post (writeTransitionRows before after t) s n := by
  have hinsert : ∀ transitions reviews n, (engine hash).wp OutboxAccepted post
      (insertOutboxRows t.outbox)
      { s with transitions := transitions, reviews := reviews } n :=
    fun transitions reviews n =>
      wp_insertOutboxRows lenient_outboxAccepted hid hrows herrand hnodup hfree
        (h transitions reviews)
  have hparse : check (parseUUID "errandId" after.id) = (.pure after.id : Tx String) := by
    unfold parseUUID
    rw [hid]
    rfl
  unfold writeTransitionRows
  rw [hparse]
  refine wp_insertTransition herr ?_
  by_cases hreview : t.target = .reviewRequired
  · rw [if_pos hreview]
    exact wp_openReview herr (hinsert _ _ _)
  rw [if_neg hreview]
  by_cases hsource : t.source = .reviewRequired
  · rw [if_pos hsource]
    refine wp_resolveReview herr fun count reviews => ?_
    by_cases hcount : count = 0
    · rw [if_pos hcount]
      exact herr _ _ _
    · rw [if_neg hcount]
      exact hinsert _ _ _
  · rw [if_neg hsource]
    exact hinsert _ _ _

/-- The supplier an edit moves the errand to can be read and has no fence. -/
def Unfenced (s : Tables) (cur : Errand) (t : Transition) : Prop :=
  ∀ target, editTargetSupplier cur t = some target →
    ∃ id, scanUUID target = some id ∧ s.fenced id = false

theorem wp_checkEditFence {post : Except StoreError Unit → Tables → ℕ → Prop} {cur : Errand}
    {t : Transition} (hP : Lenient P)
    (herr : ¬ Unfenced s cur t → ∀ err n, post (.error err) s n)
    (h : Unfenced s cur t → ∀ n, post (.ok ()) s n) :
    (engine hash).wp P post (checkEditFence cur t) s n := by
  unfold checkEditFence
  split
  · next target htarget =>
    cases hid : scanUUID target with
    | none =>
      have hparse : ∃ err, parseUUID "supplierId" target = .error err := by
        unfold parseUUID
        rw [hid]
        exact ⟨_, rfl⟩
      obtain ⟨err, hparse⟩ := hparse
      rw [hparse]
      refine herr (fun hall => ?_) err n
      obtain ⟨id, hsome, -⟩ := hall target htarget
      rw [hid] at hsome
      cases hsome
    | some id =>
      rw [parseUUID_eq_ok.mpr hid]
      refine wp_checkFence hP (fun hfenced => herr fun hall => ?_) fun hopen => h fun target' ht => ?_
      · obtain ⟨id', hsome, hopen⟩ := hall target htarget
        obtain rfl := Option.some.inj (hid.symm.trans hsome)
        rw [hopen] at hfenced
        cases hfenced
      · obtain rfl := Option.some.inj (htarget.symm.trans ht)
        exact ⟨id, hid, hopen⟩
  · next hnone =>
    refine h (fun target htarget => ?_) n
    rw [hnone] at htarget
    cases htarget

/-- A transition decided for the stored errand is written, or the transaction fails. -/
theorem wp_applyLocked {post : Except StoreError Errand → Tables → ℕ → Prop} {e : Errand}
    {ev : Event} {actor : Actor} {input : EventInput} {now : ℤ} {t : Transition} (hk : Keyed s)
    (he : e ∈ s.errands) (hnext : next e ev actor input now = .ok t)
    (herr : ∀ err s n, post (.error err) s n)
    (h : ∀ row s' n, insertParams (t.applyTo e) = .ok row →
      s'.errands = updateRow Errand.id e.id (fun old => old.overwrite row) s.errands →
      s'.outbox = s.outbox ++ t.outbox → post (.ok (e.overwrite row)) s' n) :
    (engine hash).wp OutboxAccepted post (applyLocked e t) s n := by
  have hid := (hk.regular e he).canonical
  unfold applyLocked
  refine wp_check herr fun _ _ => ?_
  rw [Engine.wp_bind]
  refine wp_checkEditFence lenient_outboxAccepted (fun _ err n => herr err s n) fun _ n => ?_
  refine wp_check herr fun row hrow => ?_
  have hst := insertParams_ok hrow
  have hrowID : row.id = e.id := hst.id_eq hid
  have hm := next_move hnext
  have hfind : s.errandOf row.id = some e := hk.unique.findRow_eq he hrowID.symm
  rcases updateErrand_answer _ hfind with ⟨err, _, hanswer⟩ | ⟨_, hanswer⟩
  · refine wp_query hanswer trivial ?_
    cases err <;> exact herr _ _ _
  · refine wp_query hanswer trivial ?_
    have hr : Replaces s ((engine hash).applyAll [.updateErrand row] s) e (e.overwrite row) :=
      replaces_apply hk he hrowID (by rw [← hrowID]; rfl)
    have hemits := hm.emitsFresh fun _ => (hk.regular e he).version
    rw [Engine.wp_bind]
    refine wp_writeTransitionRows (fun err s n => herr err s n) hst.canonical
      (fun r hr => (hm.errandID_rows r hr).trans hrowID.symm) ?_ (hemits.nodup hid)
      (fun r hmem => hk.key_free hr hm hmem) ?_
    · have hmem := (hr.mem (e.overwrite row)).mpr (Or.inl rfl)
      simpa [Tables.hasErrand] using ⟨_, hmem, rfl⟩
    · intro transitions reviews n
      exact h row _ n hrow (by rw [← hrowID]; rfl) rfl

end Rules

end FocServices.Orders
