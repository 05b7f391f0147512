import FocServices.Txn.Program
import Mathlib.Logic.Relation
import Mathlib.Logic.Function.Basic

/-!
# Interleaved transactions under read committed

Any number of transactions run statement by statement in any order. A statement
sees the latest committed store with its own transaction's writes on top; the
writes reach the store at the commit. A statement that needs a lock held by another
transaction in a conflicting mode cannot run until that transaction has ended, and
then sees what it committed. Unique keys are locks too: an insert takes the key, so
a second insert of it waits for the first transaction's end.
-/

namespace Txn

open Program

/-- A running transaction: its job, what is left of its body, the statements it has
issued, its uncommitted writes and its locks. -/
structure Session (J Q : Type) (R : Q → Type) (ε α W L : Type) where
  job : J
  rest : Program Q R ε α
  log : Log R
  writes : List W
  locks : List (L × Mode)

/-- A transaction slot. -/
inductive Thread (J Q : Type) (R : Q → Type) (ε α W L : Type) where
  | idle
  | running (s : Session J Q R ε α W L)
  | committed (job : J) (result : α) (log : Log R)
  | aborted (job : J)

/-- The locks a thread holds; an ended transaction holds none. -/
def Thread.locks {J Q : Type} {R : Q → Type} {ε α W L : Type} :
    Thread J Q R ε α W L → List (L × Mode)
  | .running s => s.locks
  | _ => []

/-- The job of a started thread. -/
def Thread.job {J Q : Type} {R : Q → Type} {ε α W L : Type} : Thread J Q R ε α W L → Option J
  | .idle => none
  | .running s => some s.job
  | .committed job _ _ => some job
  | .aborted job => some job

/-- The committed store and all transactions ever started. `serial` numbers the
statements and `count` the transactions. -/
structure World (J Q : Type) (R : Q → Type) (ε α S W L : Type) where
  store : S
  serial : ℕ
  count : ℕ
  threads : ℕ → Thread J Q R ε α W L

/-- One scheduling decision. -/
inductive Action (J : Type) where
  | start (job : J)
  | advance (t : ℕ)
  | commit (t : ℕ)
  | abort (t : ℕ)
  deriving DecidableEq

variable {J Q : Type} {R : Q → Type} {ε α S W L : Type}

namespace World

/-- A world in which nothing has started. -/
def initial (s : S) : World J Q R ε α S W L := ⟨s, 0, 0, fun _ => .idle⟩

/-- Whether no other thread holds `l` in a mode that conflicts with `m`. -/
def grantable [DecidableEq L] (w : World J Q R ε α S W L) (t : ℕ) (l : L) (m : Mode) : Bool :=
  (List.range w.count).all fun u =>
    u == t || (w.threads u).locks.all fun lm => lm.1 ≠ l || lm.2.compatible m

/-- Replace one thread. -/
def setThread (w : World J Q R ε α S W L) (t : ℕ) (th : Thread J Q R ε α W L) :
    World J Q R ε α S W L :=
  { w with threads := Function.update w.threads t th }

section

variable {w : World J Q R ε α S W L}

@[simp] theorem setThread_self (t : ℕ) (th : Thread J Q R ε α W L) :
    (w.setThread t th).threads t = th := by simp [setThread]

theorem setThread_of_ne {t u : ℕ} (th : Thread J Q R ε α W L) (h : u ≠ t) :
    (w.setThread t th).threads u = w.threads u := by simp [setThread, h]

@[simp] theorem setThread_store (t : ℕ) (th : Thread J Q R ε α W L) :
    (w.setThread t th).store = w.store := rfl

@[simp] theorem setThread_count (t : ℕ) (th : Thread J Q R ε α W L) :
    (w.setThread t th).count = w.count := rfl

@[simp] theorem setThread_serial (t : ℕ) (th : Thread J Q R ε α W L) :
    (w.setThread t th).serial = w.serial := rfl

/-- Slots past the count are idle, and no two threads hold conflicting locks. -/
structure LocksConsistent (w : World J Q R ε α S W L) : Prop where
  idle : ∀ t, w.count ≤ t → w.threads t = .idle
  compatible : ∀ t u l m m', t ≠ u → (l, m) ∈ (w.threads t).locks →
    (l, m') ∈ (w.threads u).locks → m.compatible m' = true

theorem locksConsistent_initial (s : S) :
    LocksConsistent (initial s : World J Q R ε α S W L) :=
  ⟨fun _ _ => rfl, fun _ _ _ _ _ _ h => nomatch h⟩

/-- A running thread is one of the started ones. -/
theorem LocksConsistent.lt_count (hw : LocksConsistent w) {t : ℕ}
    {s : Session J Q R ε α W L} (ht : w.threads t = .running s) : t < w.count := by
  by_contra hge
  rw [hw.idle t (by omega)] at ht
  cases ht

/-- Every running thread obeys a discipline its body obeys, and every committed
result satisfies the discipline's postcondition. -/
def Disciplined (pre : J → Log R → Q → Prop) (post : J → Log R → α → Prop)
    (w : World J Q R ε α S W L) : Prop :=
  ∀ t, match w.threads t with
    | .running s => s.rest.Conforms (pre s.job) (post s.job) s.log ∧ Obeys (pre s.job) s.log
    | .committed job b log => post job log b ∧ Obeys (pre job) log
    | _ => True

theorem disciplined_initial {pre : J → Log R → Q → Prop} {post : J → Log R → α → Prop} (s : S) :
    Disciplined pre post (initial s : World J Q R ε α S W L) := fun _ => trivial

theorem Disciplined.running {pre : J → Log R → Q → Prop} {post : J → Log R → α → Prop}
    (hw : Disciplined pre post w) {t : ℕ} {s : Session J Q R ε α W L}
    (ht : w.threads t = .running s) :
    s.rest.Conforms (pre s.job) (post s.job) s.log ∧ Obeys (pre s.job) s.log := by
  have h := hw t
  rw [ht] at h
  exact h

/-- Every uncommitted write comes from a statement of its transaction. -/
def Sourced (mayWrite : Q → W → Prop) (w : World J Q R ε α S W L) : Prop :=
  ∀ t s, w.threads t = .running s → ∀ x ∈ s.writes, ∃ e ∈ s.log, mayWrite e.1 x

theorem sourced_initial {mayWrite : Q → W → Prop} (s : S) :
    Sourced mayWrite (initial s : World J Q R ε α S W L) := fun _ _ h => nomatch h

end

variable (E : Engine Q R S W L) (body : J → Program Q R ε α) [DecidableEq L]

/-- The answer to a statement of thread `t`: it is executed on the committed store
with the thread's own writes on top. -/
def answer (w : World J Q R ε α S W L) (t : ℕ) (writes : List W) (q : Q) : Answer R W L q :=
  E.exec w.serial (w.grantable t) q (E.applyAll writes w.store)

/-- Take one scheduling decision. `none` means that it cannot be taken now; for
`advance` that the statement has to wait for a lock. Any running transaction may be
aborted at any time: its body failed, or its connection was lost. -/
def perform (w : World J Q R ε α S W L) : Action J → Option (World J Q R ε α S W L)
  | .start job =>
    some ({ w with count := w.count + 1 }.setThread w.count
      (.running (.mk job (body job) [] [] [])))
  | .advance t =>
    match w.threads t with
    | .running ⟨job, .stmt q next, log, writes, locks⟩ =>
      let a := w.answer E t writes q
      if a.locks.all (fun lm => w.grantable t lm.1 lm.2) then
        some ({ w with serial := w.serial + 1 }.setThread t
          (.running (.mk job (next a.reply) (log ++ [Sigma.mk q a.reply]) (writes ++ a.writes)
            (locks ++ a.locks))))
      else none
    | _ => none
  | .commit t =>
    match w.threads t with
    | .running ⟨job, .pure a, log, writes, _⟩ =>
      some ({ w with store := E.applyAll writes w.store }.setThread t (.committed job a log))
    | _ => none
  | .abort t =>
    match w.threads t with
    | .running s => some (w.setThread t (.aborted s.job))
    | _ => none

/-- Take scheduling decisions one after another, as long as they are allowed. -/
def performAll (allowed : World J Q R ε α S W L → Action J → Bool) (w : World J Q R ε α S W L) :
    List (Action J) → Option (World J Q R ε α S W L)
  | [] => some w
  | a :: as =>
    if allowed w a then (w.perform E body a).bind fun w' => w'.performAll allowed as else none

/-- One step, where `allowed` restricts which decisions may be taken when. -/
def Step (allowed : World J Q R ε α S W L → Action J → Prop)
    (w w' : World J Q R ε α S W L) : Prop :=
  ∃ a, allowed w a ∧ w.perform E body a = some w'

/-- Worlds reached from an initial store by allowed decisions. -/
def Reachable (allowed : World J Q R ε α S W L → Action J → Prop) (s : S)
    (w : World J Q R ε α S W L) : Prop :=
  Relation.ReflTransGen (Step E body allowed) (initial s) w

variable {E body} {w w' : World J Q R ε α S W L}

/-- Everything one decision can do. -/
theorem perform_cases {a : Action J} (h : w.perform E body a = some w') :
    (∃ job, a = .start job ∧
      w' = { w with count := w.count + 1 }.setThread w.count
        (.running (.mk job (body job) [] [] []))) ∨
    (∃ t job q next log writes locks, a = .advance t ∧
      w.threads t = .running ⟨job, .stmt q next, log, writes, locks⟩ ∧
      (∀ lm ∈ (w.answer E t writes q).locks, w.grantable t lm.1 lm.2 = true) ∧
      w' = { w with serial := w.serial + 1 }.setThread t
        (.running (.mk job (next (w.answer E t writes q).reply)
          (log ++ [Sigma.mk q (w.answer E t writes q).reply])
          (writes ++ (w.answer E t writes q).writes)
          (locks ++ (w.answer E t writes q).locks)))) ∨
    (∃ t job b log writes locks, a = .commit t ∧
      w.threads t = .running ⟨job, .pure b, log, writes, locks⟩ ∧
      w' = { w with store := E.applyAll writes w.store }.setThread t (.committed job b log)) ∨
    (∃ t s, a = .abort t ∧ w.threads t = .running s ∧ w' = w.setThread t (.aborted s.job)) := by
  cases a with
  | start job => exact Or.inl ⟨job, rfl, (Option.some.inj h).symm⟩
  | advance t =>
    right; left
    simp only [perform] at h
    split at h
    · next job q next log writes locks heq =>
      split at h
      · next hgrant =>
        exact ⟨t, job, q, next, log, writes, locks, rfl, heq,
          fun lm hlm => List.all_eq_true.mp hgrant lm hlm, (Option.some.inj h).symm⟩
      · cases h
    · cases h
  | commit t =>
    right; right; left
    simp only [perform] at h
    split at h
    · next job b log writes locks heq =>
      exact ⟨t, job, b, log, writes, locks, rfl, heq, (Option.some.inj h).symm⟩
    · cases h
  | abort t =>
    right; right; right
    simp only [perform] at h
    split at h
    · next s heq => exact ⟨t, s, rfl, heq, (Option.some.inj h).symm⟩
    · cases h

/-- Where a running thread comes from: it did not move, it was started, or it
advanced by one statement. -/
theorem running_cases {a : Action J} (h : w.perform E body a = some w') {u : ℕ}
    {su : Session J Q R ε α W L} (hu : w'.threads u = .running su) :
    w.threads u = .running su ∨
    (∃ job, a = .start job ∧ u = w.count ∧ w'.store = w.store ∧
      su = .mk job (body job) [] [] []) ∨
    (∃ job q next log writes locks, a = .advance u ∧ w'.store = w.store ∧
      w.threads u = .running ⟨job, .stmt q next, log, writes, locks⟩ ∧
      (∀ lm ∈ (w.answer E u writes q).locks, w.grantable u lm.1 lm.2 = true) ∧
      su = .mk job (next (w.answer E u writes q).reply)
        (log ++ [Sigma.mk q (w.answer E u writes q).reply])
        (writes ++ (w.answer E u writes q).writes)
        (locks ++ (w.answer E u writes q).locks)) := by
  rcases perform_cases h with ⟨job, rfl, rfl⟩ |
    ⟨t, job, q, next, log, writes, locks, rfl, ht, hgrant, rfl⟩ |
    ⟨t, job, b, log, writes, locks, -, ht, rfl⟩ | ⟨t, s, -, ht, rfl⟩
  · by_cases hut : u = w.count
    · subst hut
      rw [setThread_self] at hu
      cases hu
      exact Or.inr (Or.inl ⟨job, rfl, rfl, rfl, rfl⟩)
    · rw [setThread_of_ne _ hut] at hu
      exact Or.inl hu
  · by_cases hut : u = t
    · subst hut
      rw [setThread_self] at hu
      cases hu
      exact Or.inr (Or.inr ⟨job, q, next, log, writes, locks, rfl, rfl, ht, hgrant, rfl⟩)
    · rw [setThread_of_ne _ hut] at hu
      exact Or.inl hu
  · by_cases hut : u = t
    · subst hut
      rw [setThread_self] at hu
      cases hu
    · rw [setThread_of_ne _ hut] at hu
      exact Or.inl hu
  · by_cases hut : u = t
    · subst hut
      rw [setThread_self] at hu
      cases hu
    · rw [setThread_of_ne _ hut] at hu
      exact Or.inl hu

/-- Where a committed thread comes from: it was committed, or it commits now. -/
theorem committed_cases {a : Action J} (h : w.perform E body a = some w') {u : ℕ} {job : J} {b : α}
    {log : Log R} (hu : w'.threads u = .committed job b log) :
    w.threads u = .committed job b log ∨
    ∃ writes locks, a = .commit u ∧
      w.threads u = .running ⟨job, .pure b, log, writes, locks⟩ ∧
      w'.store = E.applyAll writes w.store := by
  rcases perform_cases h with ⟨job', -, rfl⟩ |
    ⟨t, job', q, next, log', writes, locks, rfl, ht, hgrant, rfl⟩ |
    ⟨t, job', b', log', writes, locks, rfl, ht, rfl⟩ | ⟨t, s, -, ht, rfl⟩
  · by_cases hut : u = w.count
    · subst hut
      rw [setThread_self] at hu
      cases hu
    · rw [setThread_of_ne _ hut] at hu
      exact Or.inl hu
  · by_cases hut : u = t
    · subst hut
      rw [setThread_self] at hu
      cases hu
    · rw [setThread_of_ne _ hut] at hu
      exact Or.inl hu
  · by_cases hut : u = t
    · subst hut
      rw [setThread_self] at hu
      cases hu
      exact Or.inr ⟨writes, locks, rfl, ht, rfl⟩
    · rw [setThread_of_ne _ hut] at hu
      exact Or.inl hu
  · by_cases hut : u = t
    · subst hut
      rw [setThread_self] at hu
      cases hu
    · rw [setThread_of_ne _ hut] at hu
      exact Or.inl hu

/-- The committed store changes by the commit of a finished thread only, which is
then no longer running. -/
theorem store_cases {a : Action J} (h : w.perform E body a = some w') :
    w'.store = w.store ∨
    ∃ t job b log writes locks, w.threads t = .running ⟨job, .pure b, log, writes, locks⟩ ∧
      w'.threads t = .committed job b log ∧ w'.store = E.applyAll writes w.store := by
  rcases perform_cases h with ⟨job, -, rfl⟩ |
    ⟨t, job, q, next, log, writes, locks, rfl, ht, hgrant, rfl⟩ |
    ⟨t, job, b, log, writes, locks, -, ht, rfl⟩ | ⟨t, s, -, ht, rfl⟩
  · exact Or.inl rfl
  · exact Or.inl rfl
  · exact Or.inr ⟨t, job, b, log, writes, locks, ht, setThread_self t _, rfl⟩
  · exact Or.inl rfl

/-- A thread whose body has ended may commit. -/
theorem exists_commit {t : ℕ} {job : J} {b : α} {log : Log R} {writes : List W}
    {locks : List (L × Mode)} (ht : w.threads t = .running ⟨job, .pure b, log, writes, locks⟩) :
    ∃ v, w.perform E body (.commit t) = some v ∧ v.threads t = .committed job b log := by
  refine ⟨{ w with store := E.applyAll writes w.store }.setThread t (.committed job b log), ?_,
    setThread_self t _⟩
  simp only [perform, ht]

/-- A statement that takes no lock need not wait. -/
theorem exists_advance {t : ℕ} {job : J} {q : Q} {next : R q → Program Q R ε α} {log : Log R}
    {writes : List W} {locks : List (L × Mode)}
    (ht : w.threads t = .running ⟨job, .stmt q next, log, writes, locks⟩)
    (hlocks : (w.answer E t writes q).locks = []) :
    ∃ v log' writes' locks', w.perform E body (.advance t) = some v ∧ v.threads t =
      .running ⟨job, next (w.answer E t writes q).reply, log', writes', locks'⟩ := by
  let log' := log ++ [Sigma.mk q (w.answer E t writes q).reply]
  let writes' := writes ++ (w.answer E t writes q).writes
  refine ⟨{ w with serial := w.serial + 1 }.setThread t (.running ⟨job,
    next (w.answer E t writes q).reply, log', writes', locks⟩), log', writes', locks, ?_,
    setThread_self t _⟩
  simp only [perform, ht, hlocks, List.all_nil, if_true, List.append_nil, log', writes']

/-- A committed thread stays as it is. -/
theorem committed_perform {a : Action J} (hw : LocksConsistent w) (h : w.perform E body a = some w')
    {u : ℕ} {job : J} {b : α} {log : Log R} (hu : w.threads u = .committed job b log) :
    w'.threads u = .committed job b log := by
  rcases perform_cases h with ⟨job', -, rfl⟩ |
    ⟨t, job', q, next, log', writes, locks, -, ht, hgrant, rfl⟩ |
    ⟨t, job', b', log', writes, locks, -, ht, rfl⟩ | ⟨t, s, -, ht, rfl⟩
  · have hne : u ≠ w.count := by
      rintro rfl
      rw [hw.idle _ (Nat.le_refl _)] at hu
      cases hu
    rwa [setThread_of_ne _ hne]
  all_goals
    have hne : u ≠ t := by
      rintro rfl
      rw [ht] at hu
      cases hu
    rwa [setThread_of_ne _ hne]

/-- A thread keeps its job. -/
theorem job_perform {a : Action J} (hw : LocksConsistent w) (h : w.perform E body a = some w')
    {u : ℕ} {job : J} (hu : (w.threads u).job = some job) : (w'.threads u).job = some job := by
  rcases perform_cases h with ⟨job', -, rfl⟩ |
    ⟨t, job', q, next, log, writes, locks, -, ht, hgrant, rfl⟩ |
    ⟨t, job', b, log, writes, locks, -, ht, rfl⟩ | ⟨t, s, -, ht, rfl⟩
  · have hne : u ≠ w.count := by
      rintro rfl
      rw [hw.idle _ (Nat.le_refl _)] at hu
      cases hu
    rwa [setThread_of_ne _ hne]
  all_goals
    by_cases hut : u = t
    · subst hut
      rw [ht] at hu
      rw [setThread_self]
      exact hu
    · rwa [setThread_of_ne _ hut]

/-- A schedule whose decisions are all allowed reaches its final world. -/
theorem reachable_of_performAll {allowed : World J Q R ε α S W L → Action J → Bool} {s : S}
    {schedule : List (Action J)}
    (h : (initial s : World J Q R ε α S W L).performAll E body allowed schedule = some w) :
    Reachable E body (fun w a => allowed w a = true) s w := by
  suffices hgen : ∀ (schedule : List (Action J)) (v : World J Q R ε α S W L),
      Reachable E body (fun w a => allowed w a = true) s v →
        v.performAll E body allowed schedule = some w →
        Reachable E body (fun w a => allowed w a = true) s w from
    hgen schedule _ .refl h
  intro schedule
  induction schedule with
  | nil =>
    intro v hv hrun
    cases Option.some.inj hrun
    exact hv
  | cons a as ih =>
    intro v hv hrun
    unfold performAll at hrun
    split at hrun
    · next hallowed =>
      obtain ⟨v', hstep, hrest⟩ := Option.bind_eq_some_iff.mp hrun
      exact ih v' (hv.tail ⟨a, hallowed, hstep⟩) hrest
    · cases hrun

/-- A property that holds initially and is kept by every allowed decision holds in
every reachable world. -/
theorem Reachable.induction {allowed : World J Q R ε α S W L → Action J → Prop} {s : S}
    {P : World J Q R ε α S W L → Prop} (h : Reachable E body allowed s w)
    (hinit : P (initial s))
    (hstep : ∀ w a w', P w → allowed w a → w.perform E body a = some w' → P w') : P w := by
  induction h with
  | refl => exact hinit
  | tail _ hs ih =>
    obtain ⟨a, ha, hp⟩ := hs
    exact hstep _ a _ ih ha hp

/-- Fewer restrictions reach at least as many worlds. -/
theorem Reachable.mono {allowed allowed' : World J Q R ε α S W L → Action J → Prop} {s : S}
    (h : Reachable E body allowed s w) (himp : ∀ w a, allowed w a → allowed' w a) :
    Reachable E body allowed' s w :=
  Relation.ReflTransGen.mono (fun _ _ ⟨a, ha, hp⟩ => ⟨a, himp _ a ha, hp⟩) _ _ h

/-- A granted lock is compatible with what every other thread holds. -/
theorem compatible_of_grantable {t u : ℕ} {l : L} {m m' : Mode}
    (h : w.grantable t l m = true) (hne : u ≠ t) (hu : u < w.count)
    (hheld : (l, m') ∈ (w.threads u).locks) : m'.compatible m = true := by
  have hall := List.all_eq_true.mp h u (List.mem_range.mpr hu)
  simp only [Bool.or_eq_true, beq_iff_eq, hne, false_or, List.all_eq_true,
    decide_eq_true_eq] at hall
  simpa using hall (l, m') hheld

/-- Replacing a thread by one whose locks it held already, or was granted, keeps the
locks consistent. -/
theorem LocksConsistent.setThread (hw : LocksConsistent w) {t : ℕ}
    {th : Thread J Q R ε α W L} (ht : t < w.count)
    (hlocks : ∀ l m, (l, m) ∈ th.locks →
      (l, m) ∈ (w.threads t).locks ∨ w.grantable t l m = true) :
    LocksConsistent (w.setThread t th) := by
  have hother : ∀ u l m m', u ≠ t → (l, m) ∈ th.locks → (l, m') ∈ (w.threads u).locks →
      m.compatible m' = true := by
    intro u l m m' hne hm hm'
    rcases hlocks l m hm with hold | hgrant
    · exact hw.compatible t u l m m' (Ne.symm hne) hold hm'
    · have hu : u < w.count := by
        by_contra hge
        rw [hw.idle u (by omega)] at hm'
        cases hm'
      rw [Mode.compatible_comm]
      exact compatible_of_grantable hgrant hne hu hm'
  refine ⟨fun u hu => ?_, fun u v l m m' hne hm hm' => ?_⟩
  · rw [setThread_of_ne _ (by simp only [setThread_count] at hu; omega)]
    exact hw.idle u hu
  · by_cases hut : u = t
    · subst u
      rw [setThread_self] at hm
      rw [setThread_of_ne _ (Ne.symm hne)] at hm'
      exact hother v l m m' (Ne.symm hne) hm hm'
    · rw [setThread_of_ne _ hut] at hm
      by_cases hvt : v = t
      · subst v
        rw [setThread_self] at hm'
        rw [Mode.compatible_comm]
        exact hother u l m' m hut hm' hm
      · rw [setThread_of_ne _ hvt] at hm'
        exact hw.compatible u v l m m' hne hm hm'

theorem LocksConsistent.perform (hw : LocksConsistent w) {a : Action J}
    (h : w.perform E body a = some w') : LocksConsistent w' := by
  rcases perform_cases h with ⟨job, -, rfl⟩ |
    ⟨t, job, q, next, log, writes, locks, -, ht, hgrant, rfl⟩ |
    ⟨t, job, b, log, writes, locks, -, ht, rfl⟩ | ⟨t, s, -, ht, rfl⟩
  · have hstep : LocksConsistent { w with count := w.count + 1 } :=
      ⟨fun t ht => hw.idle t (by simp only at ht; omega), hw.compatible⟩
    exact hstep.setThread (by simp) fun l m hm => nomatch hm
  · have hstep : LocksConsistent { w with serial := w.serial + 1 } := ⟨hw.idle, hw.compatible⟩
    refine hstep.setThread (hw.lt_count ht) fun l m hm => ?_
    rcases List.mem_append.mp hm with hold | hnew
    · left
      rw [ht]
      exact hold
    · exact Or.inr (hgrant (l, m) hnew)
  · have hstep : LocksConsistent { w with store := E.applyAll writes w.store } :=
      ⟨hw.idle, hw.compatible⟩
    exact hstep.setThread (hw.lt_count ht) fun l m hm => nomatch hm
  · exact hw.setThread (hw.lt_count ht) fun l m hm => nomatch hm

theorem Disciplined.perform {pre : J → Log R → Q → Prop} {post : J → Log R → α → Prop}
    (hbody : ∀ job, (body job).Conforms (pre job) (post job) [])
    (hw : Disciplined pre post w) {a : Action J} (h : w.perform E body a = some w') :
    Disciplined pre post w' := by
  intro u
  have hu := hw u
  rcases perform_cases h with ⟨job, -, rfl⟩ |
    ⟨t, job, q, next, log, writes, locks, -, ht, -, rfl⟩ |
    ⟨t, job, b, log, writes, locks, -, ht, rfl⟩ | ⟨t, s, -, ht, rfl⟩
  · by_cases hut : u = w.count
    · subst u
      rw [setThread_self]
      exact ⟨hbody job, obeys_nil⟩
    · rwa [setThread_of_ne _ hut]
  · by_cases hut : u = t
    · subst u
      rw [setThread_self]
      rw [ht] at hu
      exact ⟨hu.1.2 _, hu.2.append hu.1.1 _⟩
    · rwa [setThread_of_ne _ hut]
  · by_cases hut : u = t
    · subst u
      rw [setThread_self]
      rw [ht] at hu
      exact hu
    · rwa [setThread_of_ne _ hut]
  · by_cases hut : u = t
    · subst u
      rw [setThread_self]
      trivial
    · rwa [setThread_of_ne _ hut]

theorem Sourced.perform {mayWrite : Q → W → Prop}
    (hexec : ∀ n g q s, ∀ x ∈ (E.exec n g q s).writes, mayWrite q x)
    (hw : Sourced mayWrite w) {a : Action J} (h : w.perform E body a = some w') :
    Sourced mayWrite w' := by
  intro u su hu x hx
  rcases running_cases h hu with hold | ⟨job, -, -, -, rfl⟩ |
    ⟨job, q, next, log, writes, locks, -, -, ht, -, rfl⟩
  · exact hw u su hold x hx
  · cases hx
  · rcases List.mem_append.mp hx with hx | hx
    · obtain ⟨e, he, hmay⟩ := hw _ _ ht x hx
      exact ⟨e, List.mem_append_left _ he, hmay⟩
    · exact ⟨_, List.mem_append_right _ (List.mem_singleton_self _), hexec _ _ _ _ x hx⟩

end World

end Txn
