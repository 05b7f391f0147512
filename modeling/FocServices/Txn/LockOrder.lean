import FocServices.Txn.Interleave
import Mathlib.Order.Basic

/-!
# Lock order and deadlocks

A statement that needs several locks takes them one at a time, and holds those it has
while it waits for the next. The locks are ranked. A transaction is in order if every lock
it goes on to take outranks the locks it holds, or is taken only under another lock, its
guard, that all its holders hold exclusively. If every transaction is in order, no cycle
of waiting transactions arises.
-/

namespace Txn

variable {J Q : Type} {R : Q → Type} {ε α β S W L : Type}

section Acquire

variable [DecidableEq L]

/-- Whether a lock is held in a mode at least as strong. -/
def covers (held : List (L × Mode)) (lm : L × Mode) : Bool :=
  held.any fun h => h.1 = lm.1 && (h.2 == .exclusive || lm.2 == .shared)

theorem covers_exclusive {held : List (L × Mode)} {l : L} :
    covers held (l, .exclusive) = true ↔ (l, Mode.exclusive) ∈ held := by
  simp [covers]

theorem covers_of_mem {held : List (L × Mode)} {l : L} (m : Mode)
    (h : (l, Mode.exclusive) ∈ held) : covers held (l, m) = true := by
  simp only [covers, List.any_eq_true]
  exact ⟨_, h, by simp⟩

variable (E : Engine Q R S W L) (requests : ℕ → (q : Q) → S → List (L × Mode))
  (body : J → Program Q R ε α)

/-- The locks a statement still has to take, in the order in which it takes them. -/
def missing (held : List (L × Mode)) (n : ℕ) (q : Q) (s : S) : List (L × Mode) :=
  (requests n q s).filter fun lm => !covers held lm

namespace World

/-- The locks thread `t` still has to take for its next statement. -/
def missing (w : World J Q R ε α S W L) (t : ℕ) : List (L × Mode) :=
  match w.threads t with
  | .running ⟨_, .stmt q _, _, writes, locks⟩ =>
    Txn.missing requests locks w.serial q (E.applyAll writes w.store)
  | _ => []

/-- Take one scheduling decision, where a statement takes its locks one at a time and is
executed with the last of them. -/
def acquire (w : World J Q R ε α S W L) : Action J → Option (World J Q R ε α S W L)
  | .advance t =>
    match w.threads t with
    | .running ⟨job, .stmt q next, log, writes, locks⟩ =>
      match w.missing E requests t with
      | lm :: _ :: _ =>
        if w.grantable t lm.1 lm.2 then
          some (w.setThread t
            (.running (.mk job (.stmt q next) log writes (locks ++ [lm]))))
        else none
      | last =>
        if last.all fun lm => w.grantable t lm.1 lm.2 then
          let a := w.answer E t writes q
          some ({ w with serial := w.serial + 1 }.setThread t
            (.running (.mk job (next a.reply) (log ++ [Sigma.mk q a.reply]) (writes ++ a.writes)
              (locks ++ last))))
        else none
    | _ => none
  | a => w.perform E body a

/-- Take scheduling decisions one after another. -/
def acquireAll (w : World J Q R ε α S W L) :
    List (Action J) → Option (World J Q R ε α S W L)
  | [] => some w
  | a :: as => (w.acquire E requests body a).bind fun w' => w'.acquireAll as

/-- Worlds reached from an initial store. -/
def Acquired (s : S) (w : World J Q R ε α S W L) : Prop :=
  Relation.ReflTransGen (fun w w' => ∃ a, w.acquire E requests body a = some w') (initial s) w

/-- Thread `t` waits for thread `u`: the next lock it has to take is held by `u` in a
conflicting mode. -/
def WaitsFor (w : World J Q R ε α S W L) (t u : ℕ) : Prop :=
  u ≠ t ∧ ∃ lm rest, w.missing E requests t = lm :: rest ∧
    ∃ m, (lm.1, m) ∈ (w.threads u).locks ∧ m.compatible lm.2 = false

/-- No cycle of waiting threads. -/
def DeadlockFree (w : World J Q R ε α S W L) : Prop :=
  ∀ t, ¬ Relation.TransGen (w.WaitsFor E requests) t t

variable {E requests body} {w w' : World J Q R ε α S W L}

theorem acquired_of_acquireAll {s : S} {as : List (Action J)}
    (h : (initial s : World J Q R ε α S W L).acquireAll E requests body as = some w) :
    Acquired E requests body s w := by
  suffices hgen : ∀ (as : List (Action J)) (v : World J Q R ε α S W L),
      Acquired E requests body s v → v.acquireAll E requests body as = some w →
        Acquired E requests body s w from
    hgen as _ .refl h
  intro as
  induction as with
  | nil =>
    intro v hv hrun
    cases Option.some.inj hrun
    exact hv
  | cons a as ih =>
    intro v hv hrun
    obtain ⟨v', hstep, hrest⟩ := Option.bind_eq_some_iff.mp hrun
    exact ih v' (hv.tail ⟨a, hstep⟩) hrest

theorem missing_running {t : ℕ} {job : J} {q : Q} {next : R q → Program Q R ε α}
    {log : Program.Log R} {writes : List W} {locks : List (L × Mode)}
    (h : w.threads t = .running ⟨job, .stmt q next, log, writes, locks⟩) :
    w.missing E requests t =
      Txn.missing requests locks w.serial q (E.applyAll writes w.store) := by
  simp only [missing, h]

/-- Everything one decision can do. -/
theorem acquire_cases {a : Action J} (h : w.acquire E requests body a = some w') :
    (∃ job, w' = { w with count := w.count + 1 }.setThread w.count
        (.running (.mk job (body job) [] [] []))) ∨
    (∃ t job q next log writes locks lm lm' more,
      w.threads t = .running ⟨job, .stmt q next, log, writes, locks⟩ ∧
      w.missing E requests t = lm :: lm' :: more ∧ w.grantable t lm.1 lm.2 = true ∧
      w' = w.setThread t (.running (.mk job (.stmt q next) log writes (locks ++ [lm])))) ∨
    (∃ t job q next log writes locks,
      w.threads t = .running ⟨job, .stmt q next, log, writes, locks⟩ ∧
      (w.missing E requests t).length ≤ 1 ∧
      (∀ lm ∈ w.missing E requests t, w.grantable t lm.1 lm.2 = true) ∧
      w' = { w with serial := w.serial + 1 }.setThread t
        (.running (.mk job (next (w.answer E t writes q).reply)
          (log ++ [Sigma.mk q (w.answer E t writes q).reply])
          (writes ++ (w.answer E t writes q).writes) (locks ++ w.missing E requests t)))) ∨
    (∃ t job b log writes locks, w.threads t = .running ⟨job, .pure b, log, writes, locks⟩ ∧
      w' = { w with store := E.applyAll writes w.store }.setThread t (.committed job b log)) ∨
    (∃ t s, w.threads t = .running s ∧ w' = w.setThread t (.aborted s.job)) := by
  cases a with
  | start job => exact Or.inl ⟨job, (Option.some.inj h).symm⟩
  | advance t =>
    simp only [acquire] at h
    split at h
    · next job q next log writes locks ht =>
      split at h
      · next lm lm' more hmissing =>
        split at h
        · next hgrant =>
          exact Or.inr (Or.inl ⟨t, job, q, next, log, writes, locks, lm, lm', more, ht, hmissing,
            hgrant, (Option.some.inj h).symm⟩)
        · cases h
      · next hlast =>
        split at h
        · next hgrant =>
          refine Or.inr (Or.inr (Or.inl ⟨t, job, q, next, log, writes, locks, ht, ?_,
            List.all_eq_true.mp hgrant, (Option.some.inj h).symm⟩))
          rcases hm : w.missing E requests t with _ | ⟨lm, _ | ⟨lm', more⟩⟩
          · simp
          · simp
          · exact absurd hm (hlast lm lm' more)
        · cases h
    · cases h
  | commit t =>
    have hperform : w.perform E body (.commit t) = some w' := h
    rcases perform_cases hperform with ⟨job, ha, -⟩ | ⟨t', _, _, _, _, _, _, ha, -⟩ |
      ⟨t', job, b, log, writes, locks, -, ht, rfl⟩ | ⟨t', s, ha, -⟩
    · cases ha
    · cases ha
    · exact Or.inr (Or.inr (Or.inr (Or.inl ⟨t', job, b, log, writes, locks, ht, rfl⟩)))
    · cases ha
  | abort t =>
    have hperform : w.perform E body (.abort t) = some w' := h
    rcases perform_cases hperform with ⟨job, ha, -⟩ | ⟨t', _, _, _, _, _, _, ha, -⟩ |
      ⟨t', _, _, _, _, _, ha, -⟩ | ⟨t', s, -, ht, rfl⟩
    · cases ha
    · cases ha
    · cases ha
    · exact Or.inr (Or.inr (Or.inr (Or.inr ⟨t', s, ht, rfl⟩)))

theorem LocksConsistent.acquire (hw : LocksConsistent w) {a : Action J}
    (h : w.acquire E requests body a = some w') : LocksConsistent w' := by
  rcases acquire_cases h with ⟨job, rfl⟩ |
    ⟨t, job, q, next, log, writes, locks, lm, lm', more, ht, -, hgrant, rfl⟩ |
    ⟨t, job, q, next, log, writes, locks, ht, -, hgrant, rfl⟩ |
    ⟨t, job, b, log, writes, locks, ht, rfl⟩ | ⟨t, s, ht, rfl⟩
  · have hstep : LocksConsistent { w with count := w.count + 1 } :=
      ⟨fun t ht => hw.idle t (by simp only at ht; omega), hw.compatible⟩
    exact hstep.setThread (by simp) fun l m hm => nomatch hm
  · refine hw.setThread (hw.lt_count ht) fun l m hm => ?_
    rcases List.mem_append.mp hm with hold | hnew
    · left
      rw [ht]
      exact hold
    · cases List.mem_singleton.mp hnew
      exact Or.inr hgrant
  · have hstep : LocksConsistent { w with serial := w.serial + 1 } := ⟨hw.idle, hw.compatible⟩
    refine hstep.setThread (hw.lt_count ht) fun l m hm => ?_
    rcases List.mem_append.mp hm with hold | hnew
    · left
      rw [ht]
      exact hold
    · exact Or.inr (hgrant (l, m) hnew)
  · have hstep : LocksConsistent { w with store := E.applyAll writes w.store } :=
      ⟨hw.idle, hw.compatible⟩
    exact hstep.setThread (hw.lt_count ht) fun l m hm => nomatch hm
  · exact hw.setThread (hw.lt_count ht) fun l m hm => nomatch hm

end World

end Acquire

/-- An order of the locks. `invariant` is what is known of the stores in which statements
are executed, and `keeps` tells the writes that do not break it. -/
structure LockOrder (S W L ρ : Type) where
  rank : L → ρ
  guard : L → Option L
  invariant : S → Prop
  keeps : W → Prop

section Order

variable {ρ : Type} [Preorder ρ] [DecidableEq L] (E : Engine Q R S W L)
  (requests : ℕ → (q : Q) → S → List (L × Mode)) (O : LockOrder S W L ρ)

/-- A transaction that holds `held` may go on to wait for the lock. -/
structure LockOrder.Respects (held : List (L × Mode)) (l : L) : Prop where
  guarded : ∀ g, O.guard l = some g → (g, Mode.exclusive) ∈ held
  outranks : O.guard l = none → ∀ h ∈ held, O.rank h.1 < O.rank l

/-- What a transaction may hold that took locks of `q` but not yet all of them. -/
inductive Partly (q : Q) (held : List (L × Mode)) : List (L × Mode) → Prop where
  | start : Partly q held held
  | take {locks : List (L × Mode)} {n : ℕ} {s : S} {lm lm' : L × Mode} {more : List (L × Mode)} :
      Partly q held locks → O.invariant s → missing requests locks n q s = lm :: lm' :: more →
      Partly q held (locks ++ [lm])

/-- The rest of a transaction that holds `held` takes its locks in order, makes only writes
that keep the invariant, and ends with an outcome and locks that satisfy `post`. -/
def Program.InOrder (post : Except ε α → List (L × Mode) → Prop) :
    Program Q R ε α → List (L × Mode) → Prop
  | .pure a, held => post (.ok a) held
  | .fail e, held => post (.error e) held
  | .stmt q next, held => ∀ locks, Partly requests O q held locks → ∀ n g s, O.invariant s →
      (∀ lm ∈ (missing requests locks n q s).head?, O.Respects locks lm.1) ∧
      ((missing requests locks n q s).length ≤ 1 →
        (∀ x ∈ (E.exec n g q s).writes, O.keeps x) ∧
        InOrder post (next (E.exec n g q s).reply) (locks ++ missing requests locks n q s))

variable {E requests O} {post post' : Except ε α → List (L × Mode) → Prop}
  {held locks : List (L × Mode)}

omit [Preorder ρ] in
theorem Partly.trans {q : Q} {locks' : List (L × Mode)} (h : Partly requests O q held locks)
    (h' : Partly requests O q locks locks') : Partly requests O q held locks' := by
  induction h' with
  | start => exact h
  | take _ hs hmissing ih => exact ih.take hs hmissing

theorem inOrder_bind {p : Program Q R ε β} {f : β → Program Q R ε α} :
    (p >>= f).InOrder E requests O post held ↔
      p.InOrder E requests O (fun r locks => match r with
        | .ok b => (f b).InOrder E requests O post locks
        | .error e => post (.error e) locks) held := by
  induction p generalizing held with
  | pure b => exact Iff.rfl
  | fail e => exact Iff.rfl
  | stmt q next ih =>
    exact forall_congr' fun locks => imp_congr_right fun _ => forall_congr' fun n =>
      forall_congr' fun g => forall_congr' fun s => imp_congr_right fun _ =>
        and_congr_right fun _ => imp_congr_right fun _ => and_congr_right fun _ => ih _

theorem inOrder_mono {p : Program Q R ε α} (h : p.InOrder E requests O post held)
    (himp : ∀ r locks, post r locks → post' r locks) : p.InOrder E requests O post' held := by
  induction p generalizing held with
  | pure a => exact himp _ _ h
  | fail e => exact himp _ _ h
  | stmt q next ih =>
    intro locks hpartly n g s hs
    obtain ⟨hrespects, hrest⟩ := h locks hpartly n g s hs
    exact ⟨hrespects, fun hshort => ⟨(hrest hshort).1, ih _ (hrest hshort).2⟩⟩

/-- The rule for a statement that has to take at most one lock. -/
theorem inOrder_stmt {q : Q} {next : R q → Program Q R ε α}
    (hshort : ∀ n s, O.invariant s → (missing requests held n q s).length ≤ 1)
    (hrespects : ∀ n s, O.invariant s →
      ∀ lm ∈ (missing requests held n q s).head?, O.Respects held lm.1)
    (hrest : ∀ n g s, O.invariant s → (∀ x ∈ (E.exec n g q s).writes, O.keeps x) ∧
      (next (E.exec n g q s).reply).InOrder E requests O post
        (held ++ missing requests held n q s)) :
    (Program.stmt q next).InOrder E requests O post held := by
  intro locks hpartly n g s hs
  have hlocks : locks = held := by
    induction hpartly with
    | start => rfl
    | @take locks n s lm lm' more _ hs' hmissing ih =>
      have hlength := hshort n s hs'
      rw [← ih, hmissing] at hlength
      simp at hlength
  subst hlocks
  exact ⟨hrespects n s hs, fun _ => hrest n g s hs⟩

namespace World

variable (E requests O) {body : J → Program Q R ε α}

/-- Every running transaction is in order. -/
structure Orderly (w : World J Q R ε α S W L) : Prop where
  consistent : LocksConsistent w
  store : O.invariant w.store
  keeps : ∀ t s, w.threads t = .running s → ∀ x ∈ s.writes, O.keeps x
  guarded : ∀ t l m g, (l, m) ∈ (w.threads t).locks → O.guard l = some g →
    (g, Mode.exclusive) ∈ (w.threads t).locks
  inOrder : ∀ t s, w.threads t = .running s →
    s.rest.InOrder E requests O (fun _ _ => True) s.locks

variable {E requests O} {w w' : World J Q R ε α S W L}

theorem orderly_initial {s : S} (hs : O.invariant s) :
    Orderly E requests O (initial s : World J Q R ε α S W L) :=
  ⟨locksConsistent_initial s, hs, fun _ _ h => (nomatch h), fun _ _ _ _ h => (nomatch h),
    fun _ _ h => (nomatch h)⟩

/-- A thread moves; then the others are as before. -/
theorem Orderly.setThread (hw : Orderly E requests O w) {t : ℕ} {th : Thread J Q R ε α W L}
    (hconsistent : LocksConsistent (w.setThread t th))
    (hkeeps : ∀ s, th = .running s → ∀ x ∈ s.writes, O.keeps x)
    (hguarded : ∀ l m g, (l, m) ∈ th.locks → O.guard l = some g →
      (g, Mode.exclusive) ∈ th.locks)
    (hinOrder : ∀ s, th = .running s → s.rest.InOrder E requests O (fun _ _ => True) s.locks) :
    Orderly E requests O (w.setThread t th) := by
  refine ⟨hconsistent, hw.store, fun u s hu => ?_, fun u l m g hlm hg => ?_, fun u s hu => ?_⟩
  · by_cases hut : u = t
    · subst u
      exact hkeeps s (by simpa using hu)
    · rw [setThread_of_ne _ hut] at hu
      exact hw.keeps u s hu
  · by_cases hut : u = t
    · subst u
      rw [setThread_self] at hlm ⊢
      exact hguarded l m g hlm hg
    · rw [setThread_of_ne _ hut] at hlm ⊢
      exact hw.guarded u l m g hlm hg
  · by_cases hut : u = t
    · subst u
      exact hinOrder s (by simpa using hu)
    · rw [setThread_of_ne _ hut] at hu
      exact hw.inOrder u s hu

omit [DecidableEq L] in
/-- A lock taken in order is taken under its guard. -/
theorem guarded_append {l : L} {m : Mode} (hrespects : O.Respects locks l)
    (hlocks : ∀ l m g, (l, m) ∈ locks → O.guard l = some g → (g, Mode.exclusive) ∈ locks) :
    ∀ l' m' g, (l', m') ∈ locks ++ [(l, m)] → O.guard l' = some g →
      (g, Mode.exclusive) ∈ locks ++ [(l, m)] := by
  intro l' m' g hmem hg
  rcases List.mem_append.mp hmem with hold | hnew
  · exact List.mem_append_left _ (hlocks l' m' g hold hg)
  · cases List.mem_singleton.mp hnew
    exact List.mem_append_left _ (hrespects.guarded g hg)

theorem Orderly.acquire (hw : Orderly E requests O w)
    (hbody : ∀ job, (body job).InOrder E requests O (fun _ _ => True) [])
    (hwrite : ∀ x s, O.keeps x → O.invariant s → O.invariant (E.apply x s)) {a : Action J}
    (h : w.acquire E requests body a = some w') : Orderly E requests O w' := by
  have hconsistent := hw.consistent.acquire h
  have hview : ∀ t job (rest : Program Q R ε α) log writes locks,
      w.threads t = .running ⟨job, rest, log, writes, locks⟩ →
        O.invariant (E.applyAll writes w.store) := fun t job rest log writes locks ht =>
    E.applyAll_induction (fun x hx s => hwrite x s (hw.keeps t _ ht x hx)) hw.store
  rcases acquire_cases h with ⟨job, rfl⟩ |
    ⟨t, job, q, next, log, writes, locks, lm, lm', more, ht, hmissing, -, rfl⟩ |
    ⟨t, job, q, next, log, writes, locks, ht, hshort, -, rfl⟩ |
    ⟨t, job, b, log, writes, locks, ht, rfl⟩ | ⟨t, s, ht, rfl⟩
  · have hw' : Orderly E requests O { w with count := w.count + 1 } :=
      ⟨⟨fun t ht => hw.consistent.idle t (by simp only at ht; omega), hw.consistent.compatible⟩,
        hw.store, hw.keeps, hw.guarded, hw.inOrder⟩
    refine hw'.setThread hconsistent ?_ (fun _ _ _ h => (nomatch h)) ?_
    · rintro s ⟨⟩ x hx
      cases hx
    · rintro s ⟨⟩
      exact hbody job
  · -- the thread holds one lock more and still waits to execute the statement
    rw [missing_running ht] at hmissing
    have hinOrder := hw.inOrder t _ ht
    have hguarded := fun l m g => hw.guarded t l m g
    rw [ht] at hguarded
    have hrespects := (hinOrder locks .start w.serial (fun _ _ => true) _
      (hview t _ _ _ _ _ ht)).1 lm (by rw [hmissing]; rfl)
    refine hw.setThread hconsistent ?_ (guarded_append hrespects hguarded) ?_
    · rintro s ⟨⟩ x hx
      exact hw.keeps t _ ht x hx
    · rintro s ⟨⟩ locks' hpartly
      exact hinOrder locks' (.trans (.take .start (hview t _ _ _ _ _ ht) hmissing) hpartly)
  · rw [missing_running ht] at hshort ⊢
    have hguarded := fun l m g => hw.guarded t l m g
    rw [ht] at hguarded
    obtain ⟨hrespects, hrest⟩ := hw.inOrder t _ ht locks .start w.serial (w.grantable t) _
      (hview t _ _ _ _ _ ht)
    obtain ⟨hwrites, hinOrder⟩ := hrest hshort
    have hw' : Orderly E requests O { w with serial := w.serial + 1 } :=
      ⟨⟨hw.consistent.idle, hw.consistent.compatible⟩, hw.store, hw.keeps, hw.guarded, hw.inOrder⟩
    rw [missing_running ht] at hconsistent
    refine hw'.setThread hconsistent ?_ ?_ ?_
    · rintro s ⟨⟩ x hx
      rcases List.mem_append.mp hx with hx | hx
      · exact hw.keeps t _ ht x hx
      · exact hwrites x hx
    · rcases hm : Txn.missing requests locks w.serial q (E.applyAll writes w.store) with
        _ | ⟨lm, _ | ⟨lm', more⟩⟩
      · simpa [Thread.locks] using hguarded
      · exact guarded_append (hrespects lm (by rw [hm]; rfl)) hguarded
      · rw [hm] at hshort
        simp at hshort
    · rintro s ⟨⟩
      exact hinOrder
  · have hw' : Orderly E requests O { w with store := E.applyAll writes w.store } :=
      ⟨⟨hw.consistent.idle, hw.consistent.compatible⟩, hview t _ _ _ _ _ ht, hw.keeps,
        hw.guarded, hw.inOrder⟩
    exact hw'.setThread hconsistent (fun _ h => (nomatch h)) (fun _ _ _ h => (nomatch h))
      (fun _ h => (nomatch h))
  · exact hw.setThread hconsistent (fun _ h => (nomatch h)) (fun _ _ _ h => (nomatch h))
      (fun _ h => (nomatch h))

/-- A waiting thread is running, holds nothing that outranks the lock it waits for, and
nobody else holds a guarded one. -/
theorem Orderly.outranks (hw : Orderly E requests O w)
    (hwrite : ∀ x s, O.keeps x → O.invariant s → O.invariant (E.apply x s)) {t u : ℕ}
    {lm : L × Mode} {rest : List (L × Mode)} {m : Mode} (hne : u ≠ t)
    (hmissing : w.missing E requests t = lm :: rest) (hheld : (lm.1, m) ∈ (w.threads u).locks) :
    ∀ h ∈ (w.threads t).locks, O.rank h.1 < O.rank lm.1 := by
  rcases ht : w.threads t with _ | ⟨job, _ | _ | ⟨q, next⟩, log, writes, locks⟩ | _ | _
  case running.stmt =>
    rw [missing_running ht] at hmissing
    have hview : O.invariant (E.applyAll writes w.store) :=
      E.applyAll_induction (fun x hx s => hwrite x s (hw.keeps t _ ht x hx)) hw.store
    have hrespects := (hw.inOrder t _ ht locks .start w.serial (fun _ _ => true) _ hview).1 lm
      (by rw [hmissing]; rfl)
    refine hrespects.outranks ?_
    -- two holders of the guard would both hold it exclusively
    rcases hg : O.guard lm.1 with _ | g
    · rfl
    · have hself : (g, Mode.exclusive) ∈ (w.threads t).locks := by
        rw [ht]
        exact hrespects.guarded g hg
      have hother := hw.guarded u lm.1 m g hheld hg
      exact absurd (hw.consistent.compatible t u g _ _ (Ne.symm hne) hself hother) (by decide)
  all_goals simp [missing, ht] at hmissing

/-- Along a chain of waiting threads the ranks of the locks they wait for increase. -/
theorem Orderly.deadlockFree (hw : Orderly E requests O w)
    (hwrite : ∀ x s, O.keeps x → O.invariant s → O.invariant (E.apply x s)) :
    w.DeadlockFree E requests := by
  have hedge : ∀ t u lm rest lm' rest', w.WaitsFor E requests t u →
      w.missing E requests t = lm :: rest → w.missing E requests u = lm' :: rest' →
      (∃ v, w.WaitsFor E requests u v) → O.rank lm.1 < O.rank lm'.1 := by
    rintro t u lm rest lm' rest' ⟨-, lm₀, rest₀, ht, m, hheld, -⟩ htm hum ⟨v, hne, lm₁, rest₁, hu,
      m', hheld', -⟩
    cases ht.symm.trans htm
    cases hu.symm.trans hum
    exact hw.outranks hwrite hne hu hheld' (lm.1, m) hheld
  have hchain : ∀ t u, Relation.TransGen (w.WaitsFor E requests) t u →
      ∀ lm rest lm' rest', w.missing E requests t = lm :: rest →
        w.missing E requests u = lm' :: rest' → (∃ v, w.WaitsFor E requests u v) →
        O.rank lm.1 < O.rank lm'.1 := by
    intro t u h
    induction h with
    | single hlast => exact fun lm rest lm' rest' => hedge _ _ lm rest lm' rest' hlast
    | tail _ hlast ih =>
      intro lm rest lm' rest' ht hu hv
      obtain ⟨-, lm₁, rest₁, hmid, -⟩ := id hlast
      exact (ih lm rest lm₁ rest₁ ht hmid ⟨_, hlast⟩).trans
        (hedge _ _ lm₁ rest₁ lm' rest' hlast hmid hu hv)
  intro t hcycle
  obtain ⟨u, hfirst, -⟩ := Relation.TransGen.head'_iff.mp hcycle
  obtain ⟨-, lm, rest, hmissing, -⟩ := id hfirst
  exact lt_irrefl _ (hchain t t hcycle lm rest lm rest hmissing hmissing ⟨u, hfirst⟩)

/-- If every body is in order, no reachable world has a deadlock. -/
theorem Acquired.deadlockFree {s : S} (h : Acquired E requests body s w) (hs : O.invariant s)
    (hbody : ∀ job, (body job).InOrder E requests O (fun _ _ => True) [])
    (hwrite : ∀ x s, O.keeps x → O.invariant s → O.invariant (E.apply x s)) :
    w.DeadlockFree E requests := by
  have hw : Orderly E requests O w := by
    induction h with
    | refl => exact orderly_initial hs
    | tail _ hstep ih =>
      obtain ⟨a, ha⟩ := hstep
      exact ih.acquire hbody hwrite ha
  exact hw.deadlockFree hwrite

end World

end Order

end Txn
