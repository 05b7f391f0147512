import FocServices.Orders.Commits

/-!
# The statements of a transaction among others

One rule for each part of a transaction that writes transitions, while other
transactions commit in between. `Ensures tr s P` says that `P` holds of the committed
tables and of the transaction's own view of them, whatever commits next.
-/

namespace FocServices.Orders

open Txn Relation

/-- The transition was decided for the errand. -/
def Decides (e : Errand) (t : Transition) : Prop :=
  ∃ ev actor input now, next e ev actor input now = .ok t

/-- The transition is written over the stored errand it was decided for. -/
structure Applies (hash : String → ℤ) (ok : Tables → Errand → Transition → Prop)
    (locks : List (Lock × Mode)) (e : Errand) (t : Transition) (s s' : Tables) : Prop where
  change : Change hash ok locks s s'
  decided : Decides e t
  cur : e ∈ s.errands
  errands : ∃ row, insertParams (t.applyTo e) = .ok row ∧
    s'.errands = updateRow Errand.id e.id (fun old => old.overwrite row) s.errands
  fences : s'.fences = s.fences

section Rules

variable {hash : String → ℤ} {ok : Tables → Errand → Transition → Prop}

/-- Whatever commits next, `P` holds of the committed tables and of the own view. -/
abbrev Ensures (hash : String → ℤ) (ok : Tables → Errand → Transition → Prop)
    (tr : Trail Stmt.Reply Write Lock) (s : Tables) (P : Tables → Tables → Prop) : Prop :=
  Holds (engine hash) (Commits hash ok) tr s P

/-- The body ends in `final`, whatever commits in between. -/
abbrev Secure (hash : String → ℤ) (ok : Tables → Errand → Transition → Prop) {α : Type}
    (final : Except StoreError α → Trail Stmt.Reply Write Lock → Tables → Prop) (p : Tx α)
    (tr : Trail Stmt.Reply Write Lock) (s : Tables) : Prop :=
  p.Safe (engine hash) (Commits hash ok) final tr s

/-- The answer to a statement of a transaction on this path. -/
abbrev answerTo (hash : String → ℤ) (grantable : Lock → Mode → Bool) (q : Stmt)
    (tr : Trail Stmt.Reply Write Lock) (s : Tables) : Answer Stmt.Reply Write Lock q :=
  exec hash grantable q ((engine hash).applyAll tr.writes s)

variable {α : Type} {final : Except StoreError α → Trail Stmt.Reply Write Lock → Tables → Prop}
  {tr : Trail Stmt.Reply Write Lock} {s : Tables} {P : Tables → Tables → Prop}

theorem secure_query {q : Stmt} {f : q.Reply → Tx α}
    (h : ∀ grantable a, answerTo hash grantable q tr s = a → ∀ s',
      Disturbed (Commits hash ok) (tr.add q a).locks s s' →
        Secure hash ok final (f a.reply) (tr.add q a) s') :
    Secure hash ok final (query q >>= f) tr s :=
  fun _ grantable s' hs' => h grantable _ rfl s' hs'

theorem secure_check {β : Type} {x : Except StoreError β} {f : β → Tx α}
    (herr : ∀ err tr s, final (.error err) tr s)
    (h : ∀ b, x = .ok b → Secure hash ok final (f b) tr s) :
    Secure hash ok final (check x >>= f) tr s := by
  cases x with
  | ok b => exact h b rfl
  | error err => exact herr err tr s

/-- After the fence check the supplier has no fence, and gets none before the end. -/
theorem secure_checkFence {final : Except StoreError Unit → Trail Stmt.Reply Write Lock → Tables → Prop}
    {id supplierID : String} (hP : Ensures hash ok tr s P)
    (hsane : ∀ s v, P s v → Sane s ∧ v.fences = s.fences)
    (herr : ∀ err tr s, final (.error err) tr s)
    (h : ∀ tr' s', tr.Extends tr' → (.supplier (hash id), .shared) ∈ tr'.locks →
      Ensures hash ok tr' s' (fun s v => P s v ∧ s.fenced id = false) → final (.ok ()) tr' s') :
    Secure hash ok final (checkFence id supplierID) tr s := by
  unfold checkFence
  refine secure_query fun grantable a ha s' hs' => ?_
  subst ha
  have hP' := hP.read rfl hs'
  have hext := tr.extends_add _ (answerTo hash grantable (.lockSupplierShared id) tr s)
  have hlock : ((.supplier (hash id), .shared) : Lock × Mode) ∈
      (tr.add _ (answerTo hash grantable (.lockSupplierShared id) tr s)).locks :=
    List.mem_append_right _ (List.mem_singleton_self _)
  generalize tr.add _ (answerTo hash grantable (.lockSupplierShared id) tr s) = tr' at *
  refine secure_query fun grantable a ha s'' hs'' => ?_
  subst ha
  obtain ⟨hs₁, hfences⟩ := hsane _ _ hP'.now
  have hview : ((engine hash).applyAll tr'.writes s').fenced id = s'.fenced id := by
    rw [Tables.fenced, hfences]
    rfl
  change Secure hash ok final (if ((engine hash).applyAll tr'.writes s').fenced id then _ else _) _ _
  rw [hview]
  by_cases hfenced : s'.fenced id = true
  · rw [if_pos hfenced]
    exact herr _ _ _
  · rw [if_neg hfenced]
    have hext' := tr'.extends_add _ (answerTo hash grantable (.supplierFenced id) tr' s')
    have hlock' := hext'.locks hlock
    refine h _ s'' (hext.trans hext') hlock' fun s₁ h₁ => ?_
    exact ⟨hP'.read rfl hs'' s₁ h₁, hs₁.locked_open (hs''.trans h₁) hlock' (by simpa using hfenced)⟩

theorem secure_checkEditFence
    {final : Except StoreError Unit → Trail Stmt.Reply Write Lock → Tables → Prop} {cur : Errand}
    {t : Transition} (hP : Ensures hash ok tr s P)
    (hsane : ∀ s v, P s v → Sane s ∧ v.fences = s.fences)
    (herr : ∀ err tr s, final (.error err) tr s)
    (h : ∀ tr' s', tr.Extends tr' → Ensures hash ok tr' s' (fun s v => P s v ∧
      ∀ target, editTargetSupplier cur t = some target → ∃ id, scanUUID target = some id ∧
        (.supplier (hash id), .shared) ∈ tr'.locks ∧ s.fenced id = false) →
        final (.ok ()) tr' s') :
    Secure hash ok final (checkEditFence cur t) tr s := by
  unfold checkEditFence
  split
  · next target htarget =>
    refine secure_check herr fun id hid => ?_
    refine secure_checkFence hP hsane herr fun tr' s' hext hlock hP' => ?_
    refine h tr' s' hext (hP'.mono ?_)
    rintro s v ⟨hv, hopen⟩
    refine ⟨hv, fun target' htarget' => ?_⟩
    obtain rfl := Option.some.inj (htarget.symm.trans htarget')
    exact ⟨id, parseUUID_eq_ok.mp hid, hlock, hopen⟩
  · next hnone =>
    refine h tr s (.refl tr) (hP.mono fun s v hv => ⟨hv, fun target htarget => ?_⟩)
    rw [hnone] at htarget
    cases htarget

theorem insertOutbox_answer (grantable : Lock → Mode → Bool) (row : OutboxRow) (s : Tables) :
    (∃ e locks, exec hash grantable (.insertOutbox row) s = ⟨.error e, [], locks⟩) ∨
      ∃ locks, (.outboxKey row.idempotencyKey, .exclusive) ∈ locks ∧
        exec hash grantable (.insertOutbox row) s = ⟨.ok (), [.insertOutbox row], locks⟩ := by
  simp only [exec]
  split_ifs
  · exact Or.inl ⟨_, _, rfl⟩
  · exact Or.inr ⟨_, by simp, rfl⟩
  · exact Or.inl ⟨_, _, rfl⟩

/-- Outbox rows are inserted one after the other, each under the lock of its key. -/
theorem secure_insertOutboxRows
    {final : Except StoreError Unit → Trail Stmt.Reply Write Lock → Tables → Prop}
    {rows : List OutboxRow} (hrows : ∀ row ∈ rows, Canonical row.errandID)
    (hP : Ensures hash ok tr s P) (herr : ∀ err tr s, final (.error err) tr s)
    (h : ∀ tr' s', tr.Extends tr' →
      (∀ row ∈ rows, (.outboxKey row.idempotencyKey, .exclusive) ∈ tr'.locks) →
      Ensures hash ok tr' s' (fun s v' => ∃ v, P s v ∧
        v' = { v with outbox := v.outbox ++ rows }) → final (.ok ()) tr' s') :
    Secure hash ok final (insertOutboxRows rows) tr s := by
  induction rows generalizing tr s P with
  | nil =>
    refine h tr s (.refl tr) (by simp) (hP.mono fun s v hv => ⟨v, hv, ?_⟩)
    rw [List.append_nil]
  | cons row rows ih =>
    have hparse : check (parseUUID "errandId" row.errandID) = (.pure row.errandID : Tx String) := by
      unfold parseUUID
      rw [hrows row List.mem_cons_self]
      rfl
    unfold insertOutboxRows
    rw [hparse]
    refine secure_query fun grantable a ha s' hs' => ?_
    rcases insertOutbox_answer grantable row _ with ⟨err, locks, hanswer⟩ | ⟨locks, hkey, hanswer⟩
    · obtain rfl := ha.symm.trans hanswer
      exact herr _ _ _
    · obtain rfl := ha.symm.trans hanswer
      refine ih (fun r hr => hrows r (List.mem_cons_of_mem _ hr)) (hP.add hs') ?_
      intro tr'' s'' hext hkeys hP''
      refine h tr'' s'' ((tr.extends_add _ _).trans hext) ?_ (hP''.mono ?_)
      · rw [List.forall_mem_cons]
        exact ⟨hext.locks (List.mem_append_right _ hkey), hkeys⟩
      · rintro s v' ⟨_, ⟨v, hv, rfl⟩, rfl⟩
        refine ⟨v, hv, ?_⟩
        change { v with outbox := v.outbox ++ [row] ++ rows } = _
        rw [List.append_assoc, List.singleton_append]

/-- What the rows of a transition add to the tables. -/
def WritesRows (before after : Errand) (t : Transition) (v v' : Tables) : Prop :=
  ∃ reviews, v' = { v with
    transitions := v.transitions ++ [transitionRow after.id before after t]
    reviews := reviews
    outbox := v.outbox ++ t.outbox }

theorem secure_writeTransitionRows
    {final : Except StoreError Unit → Trail Stmt.Reply Write Lock → Tables → Prop}
    {before after : Errand} {t : Transition} (hid : Canonical after.id)
    (hrows : ∀ row ∈ t.outbox, Canonical row.errandID) (hP : Ensures hash ok tr s P)
    (herr : ∀ err tr s, final (.error err) tr s)
    (h : ∀ tr' s', tr.Extends tr' →
      (∀ row ∈ t.outbox, (.outboxKey row.idempotencyKey, .exclusive) ∈ tr'.locks) →
      Ensures hash ok tr' s' (fun s v' => ∃ v, P s v ∧ WritesRows before after t v v') →
        final (.ok ()) tr' s') :
    Secure hash ok final (writeTransitionRows before after t) tr s := by
  have hparse : check (parseUUID "errandId" after.id) = (.pure after.id : Tx String) := by
    unfold parseUUID
    rw [hid]
    rfl
  -- the inserts into the outbox, once the log and the reviews are written
  have houtbox : ∀ tr₁ s₁, tr.Extends tr₁ → Ensures hash ok tr₁ s₁ (fun s v' => ∃ v, P s v ∧
      ∃ reviews, v' = { v with
        transitions := v.transitions ++ [transitionRow after.id before after t]
        reviews := reviews }) →
      Secure hash ok final (insertOutboxRows t.outbox) tr₁ s₁ := by
    intro tr₁ s₁ hext hP₁
    refine secure_insertOutboxRows hrows hP₁ herr fun tr' s' hext' hkeys hP' => ?_
    refine h tr' s' (hext.trans hext') hkeys (hP'.mono ?_)
    rintro s v' ⟨_, ⟨v, hv, reviews, rfl⟩, rfl⟩
    exact ⟨v, hv, reviews, rfl⟩
  rw [writeTransitionRows_eq, hparse]
  refine secure_query fun grantable a ha s' hs' => ?_
  rcases insertTransition_answer grantable (transitionRow after.id before after t) with
    ⟨err, locks, hanswer⟩ | ⟨locks, hanswer⟩
  · obtain rfl := ha.symm.trans hanswer
    exact herr _ _ _
  obtain rfl := ha.symm.trans hanswer
  have hP' := hP.add hs'
  have hext := tr.extends_add (.insertTransition (transitionRow after.id before after t))
    ⟨.ok (), [.insertTransition (transitionRow after.id before after t)], locks⟩
  change Secure hash ok final (if t.target = .reviewRequired then _ else _) _ _
  by_cases hreview : t.target = .reviewRequired
  · rw [if_pos hreview]
    refine secure_query fun grantable a ha s'' hs'' => ?_
    rcases openReview_answer grantable (reviewRow after.id after t) with
      ⟨err, locks', hanswer⟩ | ⟨locks', hanswer⟩
    · obtain rfl := ha.symm.trans hanswer
      exact herr _ _ _
    · obtain rfl := ha.symm.trans hanswer
      refine houtbox _ s'' (hext.trans (Trail.extends_add _ _ _)) ((hP'.add hs'').mono ?_)
      rintro s v' ⟨_, ⟨v, hv, rfl⟩, rfl⟩
      exact ⟨v, hv, _, rfl⟩
  rw [if_neg hreview]
  by_cases hsource : t.source = .reviewRequired
  · rw [if_pos hsource]
    refine secure_query fun grantable a ha s'' hs'' => ?_
    rcases resolveReview_answer grantable after.id (resolutionRow t) with
      ⟨err, locks', hanswer⟩ | ⟨locks', hanswer⟩ | ⟨count, locks', hanswer⟩
    · obtain rfl := ha.symm.trans hanswer
      exact herr _ _ _
    · obtain rfl := ha.symm.trans hanswer
      exact herr _ _ _
    · obtain rfl := ha.symm.trans hanswer
      refine houtbox _ s'' (hext.trans (Trail.extends_add _ _ _)) ((hP'.add hs'').mono ?_)
      rintro s v' ⟨_, ⟨v, hv, rfl⟩, rfl⟩
      exact ⟨v, hv, _, rfl⟩
  · rw [if_neg hsource]
    refine houtbox _ s' hext (hP'.mono ?_)
    rintro s v' ⟨v, hv, rfl⟩
    exact ⟨v, hv, v.reviews, rfl⟩

theorem Tables.fenced_congr {s v : Tables} (h : v.fences = s.fences) (id : String) :
    v.fenced id = s.fenced id := by
  unfold Tables.fenced
  rw [h]

/-- A transition whose condition holds for the locked errand is written over it, or the
transaction fails. -/
theorem secure_applyLocked (own : Tables → Errand → Transition → Prop)
    {final : Except StoreError Errand → Trail Stmt.Reply Write Lock → Tables → Prop}
    {cur : Errand} {t : Transition} (hP : Ensures hash ok tr s P)
    (hsane : ∀ s v, P s v → Sane s ∧ Sane v ∧ v.fences = s.fences ∧ cur ∈ v.errands)
    (hdecides : compareAndSwap cur t = .ok () → Decides cur t)
    (hok : compareAndSwap cur t = .ok () → ∀ s v, P s v → own v cur t)
    (hlock : (.errand cur.id, .exclusive) ∈ tr.locks)
    (herr : ∀ err tr s, final (.error err) tr s)
    (h : ∀ tr' s' stored, tr.Extends tr' → compareAndSwap cur t = .ok () →
      Ensures hash ok tr' s' (fun s v' => ∃ v, P s v ∧ Applies hash own tr'.locks cur t v v') →
        final (.ok stored) tr' s') :
    Secure hash ok final (applyLocked cur t) tr s := by
  have hview : ∀ s v, P s v → Sane s ∧ v.fences = s.fences := fun s v hv =>
    ⟨(hsane s v hv).1, (hsane s v hv).2.2.1⟩
  unfold applyLocked
  refine secure_check herr fun _ hcas => ?_
  rw [Secure, safe_bind]
  refine secure_checkEditFence hP hview (fun err tr s => herr err tr s) ?_
  intro tr₁ s₁ hext₁ hP₁
  refine secure_check herr fun row hrow => ?_
  obtain ⟨-, hsane₁, -, hcur⟩ := hsane _ _ hP₁.now.1
  obtain ⟨ev, actor, input, now, hnext⟩ := hdecides hcas
  have hcanonical := (hsane₁.keyed.regular cur hcur).canonical
  have hst := insertParams_ok hrow
  have hrowID : row.id = cur.id := hst.id_eq hcanonical
  have hfind : ((engine hash).applyAll tr₁.writes s₁).errandOf row.id = some cur :=
    hsane₁.keyed.unique.findRow_eq hcur hrowID.symm
  refine secure_query fun grantable a ha s₂ hs₂ => ?_
  rcases updateErrand_answer grantable hfind with ⟨err, locks, hanswer⟩ | ⟨locks, hanswer⟩
  · obtain rfl := ha.symm.trans hanswer
    cases err <;> exact herr _ _ _
  obtain rfl := ha.symm.trans hanswer
  have hrows : ∀ r ∈ t.outbox, Canonical r.errandID := by
    intro r hr
    rw [(next_move hnext).errandID_rows r hr]
    exact hcanonical
  change Secure hash ok final (writeTransitionRows cur (cur.overwrite row) t >>= fun _ =>
    .pure (cur.overwrite row)) _ _
  rw [Secure, safe_bind]
  refine secure_writeTransitionRows hst.canonical hrows (hP₁.add hs₂)
    (fun err tr s => herr err tr s) ?_
  intro tr₂ s₃ hext₂ hkeys hP₂
  have hext := (hext₁.trans (tr₁.extends_add _ _)).trans hext₂
  refine h tr₂ s₃ _ hext hcas (hP₂.mono ?_)
  rintro s v' ⟨_, ⟨v, ⟨hv, hsupplier⟩, rfl⟩, reviews, rfl⟩
  obtain ⟨-, -, hfences, hcur⟩ := hsane s v hv
  have herrands : (Write.apply (.updateErrand row) v).errands =
      updateRow Errand.id cur.id (fun old => old.overwrite row) v.errands := by
    rw [← hrowID]
    rfl
  refine ⟨v, hv, ?_, ⟨ev, actor, input, now, hnext⟩, hcur, ⟨row, hrow, herrands⟩, rfl⟩
  refine .apply cur ev actor input now t row hcur hnext (hok hcas s v hv) hrow (hext.locks hlock)
    ?_ hkeys herrands ?_ rfl rfl
  · intro target htarget
    obtain ⟨id, hid, hshared, hopen⟩ := hsupplier target htarget
    refine ⟨id, hid, ((tr₁.extends_add _ _).trans hext₂).locks hshared, ?_⟩
    rw [Tables.fenced_congr hfences, hopen]
  · rw [← hrowID]
    rfl

end Rules

end FocServices.Orders
