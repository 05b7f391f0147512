import FocServices.Txn.Interleave

/-!
# One transaction among others

A transaction is verified on its own. Between its statements other transactions may
commit, but only changes that go with the locks it holds. `Safe` is the weakest
precondition of a body under such interference. When every body is safe, every commit of
an interleaved run makes one of the changes that `G` allows, where `G locks s s'` says
what a transaction that holds `locks` may do to the committed store.
-/

namespace Txn

open Program Relation

variable {J Q : Type} {R : Q → Type} {ε α β S W L : Type}

/-- What a transaction has done so far. -/
structure Trail (R : Q → Type) (W L : Type) where
  log : Log R := []
  writes : List W := []
  locks : List (L × Mode) := []

/-- Go on by one answered statement. -/
def Trail.add (tr : Trail R W L) (q : Q) (a : Answer R W L q) : Trail R W L :=
  ⟨tr.log ++ [⟨q, a.reply⟩], tr.writes ++ a.writes, tr.locks ++ a.locks⟩

def Session.trail (s : Session J Q R ε α W L) : Trail R W L := ⟨s.log, s.writes, s.locks⟩

/-- Two transactions may hold these locks at the same time. -/
def Coexist (locks locks' : List (L × Mode)) : Prop :=
  ∀ l m m', (l, m) ∈ locks → (l, m') ∈ locks' → m.compatible m' = true

theorem coexist_nil (locks : List (L × Mode)) : Coexist [] locks := by
  intro l m m' hl
  cases hl

section

variable (G : List (L × Mode) → S → S → Prop)

/-- What other transactions may do to the committed store while `locks` are held. -/
def Disturbed (locks : List (L × Mode)) : S → S → Prop :=
  ReflTransGen fun s s' => ∃ locks', Coexist locks locks' ∧ G locks' s s'

/-- What commits may do to the store. -/
def Evolves : S → S → Prop := ReflTransGen fun s s' => ∃ locks, G locks s s'

end

section

variable {G : List (L × Mode) → S → S → Prop} {locks locks' : List (L × Mode)} {s s' : S}

theorem Disturbed.evolves (h : Disturbed G locks s s') : Evolves G s s' :=
  ReflTransGen.mono (fun _ _ ⟨locks', _, hG⟩ => ⟨locks', hG⟩) _ _ h

theorem Evolves.disturbed (h : Evolves G s s') : Disturbed G [] s s' :=
  ReflTransGen.mono (fun _ _ ⟨locks', hG⟩ => ⟨locks', coexist_nil locks', hG⟩) _ _ h

/-- A property that other transactions keep while `locks` are held. -/
theorem Disturbed.keeps {P : S → Prop} (h : Disturbed G locks s s')
    (hstep : ∀ s s' locks', Coexist locks locks' → G locks' s s' → P s → P s') (hs : P s) :
    P s' := by
  induction h with
  | refl => exact hs
  | tail _ hlast ih =>
    obtain ⟨locks', hcoexist, hG⟩ := hlast
    exact hstep _ _ locks' hcoexist hG ih

end

/-- The weakest precondition of a body that other transactions disturb. -/
def Program.Safe (E : Engine Q R S W L) (G : List (L × Mode) → S → S → Prop)
    (final : Except ε α → Trail R W L → S → Prop) :
    Program Q R ε α → Trail R W L → S → Prop
  | .pure a, tr, s => final (.ok a) tr s
  | .fail e, tr, s => final (.error e) tr s
  | .stmt q next, tr, s => ∀ n grantable s',
    Disturbed G (tr.add q (E.exec n grantable q (E.applyAll tr.writes s))).locks s s' →
      Safe E G final (next (E.exec n grantable q (E.applyAll tr.writes s)).reply)
        (tr.add q (E.exec n grantable q (E.applyAll tr.writes s))) s'

section Safe

variable {E : Engine Q R S W L} {G : List (L × Mode) → S → S → Prop}
  {final final' : Except ε α → Trail R W L → S → Prop} {tr : Trail R W L} {s : S}

theorem safe_bind {p : Program Q R ε β} {f : β → Program Q R ε α} :
    (p >>= f).Safe E G final tr s ↔
      p.Safe E G (fun r tr s => match r with
        | .ok b => (f b).Safe E G final tr s
        | .error e => final (.error e) tr s) tr s := by
  induction p generalizing tr s with
  | pure b => exact Iff.rfl
  | fail e => exact Iff.rfl
  | stmt q next ih =>
    exact forall_congr' fun n => forall_congr' fun grantable => forall_congr' fun s' =>
      imp_congr_right fun _ => ih _

theorem safe_mono {p : Program Q R ε α} (h : p.Safe E G final tr s)
    (himp : ∀ r tr s, final r tr s → final' r tr s) : p.Safe E G final' tr s := by
  induction p generalizing tr s with
  | pure a => exact himp _ _ _ h
  | fail e => exact himp _ _ _ h
  | stmt q next ih => exact fun n grantable s' hs' => ih _ (h n grantable s' hs')

end Safe

/-- The path goes on from another one: its log and its locks include the other's. -/
structure Trail.Extends (tr tr' : Trail R W L) : Prop where
  log : tr.log <+: tr'.log
  locks : tr.locks ⊆ tr'.locks

theorem Trail.Extends.refl (tr : Trail R W L) : tr.Extends tr :=
  ⟨List.prefix_refl _, List.Subset.refl _⟩

theorem Trail.Extends.trans {tr tr' tr'' : Trail R W L} (h : tr.Extends tr')
    (h' : tr'.Extends tr'') : tr.Extends tr'' :=
  ⟨h.log.trans h'.log, List.Subset.trans h.locks h'.locks⟩

theorem Trail.extends_add (tr : Trail R W L) (q : Q) (a : Answer R W L q) :
    tr.Extends (tr.add q a) :=
  ⟨List.prefix_append _ _, List.subset_append_left _ _⟩

/-- Whatever others do next, `P` holds of the committed store and of the store as the
transaction sees it. -/
def Holds (E : Engine Q R S W L) (G : List (L × Mode) → S → S → Prop) (tr : Trail R W L) (s : S)
    (P : S → S → Prop) : Prop :=
  ∀ s', Disturbed G tr.locks s s' → P s' (E.applyAll tr.writes s')

section Holds

variable {E : Engine Q R S W L} {G : List (L × Mode) → S → S → Prop} {tr : Trail R W L} {s s' : S}
  {P P' : S → S → Prop}

theorem Disturbed.mono {locks locks' : List (L × Mode)} (h : Disturbed G locks' s s')
    (hsub : locks ⊆ locks') : Disturbed G locks s s' :=
  ReflTransGen.mono (fun _ _ ⟨other, hcoexist, hG⟩ =>
    ⟨other, fun l m m' hl hl' => hcoexist l m m' (hsub hl) hl', hG⟩) _ _ h

theorem Holds.now (h : Holds E G tr s P) : P s (E.applyAll tr.writes s) := h s .refl

theorem Holds.mono (h : Holds E G tr s P) (himp : ∀ s v, P s v → P' s v) : Holds E G tr s P' :=
  fun s' hs' => himp _ _ (h s' hs')

/-- After a statement the transaction sees its writes on top. -/
theorem Holds.add (h : Holds E G tr s P) {q : Q} {a : Answer R W L q}
    (hs' : Disturbed G (tr.add q a).locks s s') :
    Holds E G (tr.add q a) s' fun s₁ v' => ∃ v, P s₁ v ∧ v' = E.applyAll a.writes v := by
  intro s₁ hs₁
  have hold : Disturbed G tr.locks s s₁ := Disturbed.mono (hs'.trans hs₁) (tr.extends_add q a).locks
  exact ⟨_, h s₁ hold, E.applyAll_append _ _ _⟩

/-- A statement that writes nothing changes nothing. -/
theorem Holds.read (h : Holds E G tr s P) {q : Q} {a : Answer R W L q} (hwrites : a.writes = [])
    (hs' : Disturbed G (tr.add q a).locks s s') : Holds E G (tr.add q a) s' P := by
  refine (h.add hs').mono fun s₁ v' => ?_
  rintro ⟨v, hv, rfl⟩
  rw [hwrites]
  exact hv

end Holds

/-- The end of a body that may commit: the commit is one that `G` allows, and it
establishes `post` for the result, the log, and the stores before and after. -/
def Concludes (E : Engine Q R S W L) (G : List (L × Mode) → S → S → Prop)
    (post : Log R → α → S → S → Prop) : Except ε α → Trail R W L → S → Prop
  | .ok a, tr, s => G tr.locks s (E.applyAll tr.writes s) ∧
      post tr.log a s (E.applyAll tr.writes s)
  | .error _, _, _ => True

namespace World

variable (E : Engine Q R S W L) (G : List (L × Mode) → S → S → Prop)
  (post : J → Log R → α → S → S → Prop)

/-- What is left of the thread, if it is running, ends in `final`. -/
def Guarded (final : J → Except ε α → Trail R W L → S → Prop) (w : World J Q R ε α S W L) (u : ℕ) :
    Prop :=
  ∀ ss, w.threads u = .running ss → ∀ s, Disturbed G ss.locks w.store s →
    ss.rest.Safe E G (final ss.job) ss.trail s

/-- No two threads hold conflicting locks, and every running thread is safe. -/
structure Protected (w : World J Q R ε α S W L) : Prop where
  locks : LocksConsistent w
  safe : ∀ t, Guarded E G (fun job => Concludes E G (post job)) w t

variable {E G post} {body : J → Program Q R ε α}
  {allowed : World J Q R ε α S W L → Action J → Prop} {w w' : World J Q R ε α S W L}

/-- Threads coexist. -/
theorem LocksConsistent.coexist (hw : LocksConsistent w) {t u : ℕ}
    {st su : Session J Q R ε α W L} (ht : w.threads t = .running st)
    (hu : w.threads u = .running su) (hne : t ≠ u) : Coexist st.locks su.locks := by
  intro l m m' hl hl'
  have hlt : (l, m) ∈ (w.threads t).locks := by rw [ht]; exact hl
  have hlu : (l, m') ∈ (w.threads u).locks := by rw [hu]; exact hl'
  exact hw.compatible t u l m m' hne hlt hlu

/-- A thread that commits makes a change that `G` allows. -/
theorem Protected.commit (hw : Protected E G post w) {t : ℕ} {job : J} {a : α} {log : Log R}
    {writes : List W} {locks : List (L × Mode)}
    (ht : w.threads t = .running ⟨job, .pure a, log, writes, locks⟩) :
    G locks w.store (E.applyAll writes w.store) ∧
      post job log a w.store (E.applyAll writes w.store) :=
  hw.safe t _ ht w.store .refl

theorem protected_initial (s : S) :
    Protected E G post (initial s : World J Q R ε α S W L) :=
  ⟨locksConsistent_initial s, fun _ _ h => nomatch h⟩

variable [DecidableEq L]

theorem Protected.store (hw : Protected E G post w) {a : Action J}
    (h : w.perform E body a = some w') : Evolves G w.store w'.store := by
  rcases store_cases h with hsame | ⟨t, job, b, log, writes, locks, ht, -, hstore⟩
  · rw [hsame]
    exact .refl
  · rw [hstore]
    exact .single ⟨locks, (hw.commit ht).1⟩

/-- A thread stays guarded, whoever runs next. -/
theorem Protected.guarded {final : J → Except ε α → Trail R W L → S → Prop}
    (hw : Protected E G post w) {a : Action J} {u : ℕ}
    (hstart : ∀ job s, a = .start job → Evolves G w.store s →
      (body job).Safe E G (final job) {} s)
    (hu : Guarded E G final w u) (h : w.perform E body a = some w') :
    Guarded E G final w' u := by
  intro su hrun s hs
  rcases perform_cases h with ⟨job, hact, rfl⟩ |
    ⟨t, job, q, next, log, writes, locks, -, ht, -, rfl⟩ |
    ⟨t, job, b, log, writes, locks, -, ht, rfl⟩ | ⟨t, st, -, ht, rfl⟩
  · by_cases hut : u = w.count
    · subst hut
      rw [setThread_self] at hrun
      cases hrun
      exact hstart job s hact hs.evolves
    · rw [setThread_of_ne _ hut] at hrun
      exact hu su hrun s hs
  · by_cases hut : u = t
    · subst hut
      rw [setThread_self] at hrun
      cases hrun
      exact hu _ ht w.store .refl w.serial (w.grantable u) s hs
    · rw [setThread_of_ne _ hut] at hrun
      exact hu su hrun s hs
  · by_cases hut : u = t
    · subst hut
      rw [setThread_self] at hrun
      cases hrun
    · rw [setThread_of_ne _ hut] at hrun
      -- the commit is one of the changes that may happen next to the thread's locks
      have hcoexist : Coexist su.locks locks := hw.locks.coexist hrun ht hut
      exact hu su hrun s (.head ⟨locks, hcoexist, (hw.commit ht).1⟩ hs)
  · by_cases hut : u = t
    · subst hut
      rw [setThread_self] at hrun
      cases hrun
    · rw [setThread_of_ne _ hut] at hrun
      exact hu su hrun s hs

theorem Protected.perform
    (hstart : ∀ job s, allowed w (.start job) → Evolves G w.store s →
      (body job).Safe E G (Concludes E G (post job)) {} s)
    (hw : Protected E G post w) {a : Action J} (ha : allowed w a)
    (h : w.perform E body a = some w') : Protected E G post w' :=
  ⟨hw.locks.perform h, fun u =>
    hw.guarded (fun job s hact hs => hstart job s (hact ▸ ha) hs) (hw.safe u) h⟩

section Runs

variable {s₀ : S}
  (hstart : ∀ (w : World J Q R ε α S W L) job s, Evolves G s₀ w.store →
    allowed w (.start job) → Evolves G w.store s →
      (body job).Safe E G (Concludes E G (post job)) {} s)

include hstart

/-- When every body is safe, every thread stays safe, and the store changes by commits
that `G` allows. -/
theorem Reachable.protected (h : Reachable E body allowed s₀ w) :
    Protected E G post w ∧ Evolves G s₀ w.store := by
  refine h.induction (P := fun w => Protected E G post w ∧ Evolves G s₀ w.store)
    ⟨protected_initial s₀, .refl⟩ ?_
  rintro w a w' ⟨hw, hstore⟩ ha hperform
  exact ⟨hw.perform (fun job s hjob hs => hstart w job s hstore hjob hs) ha hperform,
    hstore.trans (hw.store hperform)⟩

/-- From one world of a run to a later one the store changes by commits. -/
theorem Reachable.evolves (h : Reachable E body allowed s₀ w)
    (hlater : ReflTransGen (Step E body allowed) w w') : Evolves G w.store w'.store := by
  induction hlater with
  | refl => exact .refl
  | tail hpath hlast ih =>
    obtain ⟨a, -, hperform⟩ := hlast
    obtain ⟨hprotected, -⟩ := Reachable.protected hstart (ReflTransGen.trans h hpath)
    exact ih.trans (hprotected.store hperform)

/-- A committed thread has established its postcondition, and what happened since are
commits. -/
theorem Reachable.committed (h : Reachable E body allowed s₀ w) {t : ℕ} {job : J} {a : α}
    {log : Log R} (ht : w.threads t = .committed job a log) :
    ∃ s s', Evolves G s₀ s ∧ post job log a s s' ∧ Evolves G s' w.store := by
  induction h generalizing t job a log with
  | refl => cases ht
  | tail hpath hlast ih =>
    obtain ⟨act, -, hperform⟩ := hlast
    obtain ⟨hw, hstore⟩ := Reachable.protected hstart hpath
    rcases committed_cases hperform ht with hold | ⟨writes, locks, -, hrunning, heq⟩
    · obtain ⟨s, s', hs, hpost, hs'⟩ := ih hold
      exact ⟨s, s', hs, hpost, hs'.trans (hw.store hperform)⟩
    · exact ⟨_, _, hstore, (hw.commit hrunning).2, heq ▸ .refl⟩

/-- Of two committed threads one committed first. -/
theorem Reachable.committed_order (h : Reachable E body allowed s₀ w) {t u : ℕ} {job job' : J}
    {a b : α} {log log' : Log R} (ht : w.threads t = .committed job a log)
    (hu : w.threads u = .committed job' b log') (hne : t ≠ u) :
    ∃ s s' r r', Evolves G s₀ s ∧ Evolves G s₀ r ∧ post job log a s s' ∧ post job' log' b r r' ∧
      (Evolves G s' r ∨ Evolves G r' s) := by
  induction h with
  | refl => cases ht
  | tail hpath hlast ih =>
    obtain ⟨act, -, hperform⟩ := hlast
    obtain ⟨hw, hstore⟩ := Reachable.protected hstart hpath
    rcases committed_cases hperform ht with htold | ⟨writes, locks, rfl, htrun, -⟩
    · rcases committed_cases hperform hu with huold | ⟨writes, locks, rfl, hurun, -⟩
      · exact ih htold huold
      · obtain ⟨s, s', hs, hpost, hs'⟩ := Reachable.committed hstart hpath htold
        exact ⟨s, s', _, _, hs, hstore, hpost, (hw.commit hurun).2, Or.inl hs'⟩
    · rcases committed_cases hperform hu with huold | ⟨writes', locks', hact, -, -⟩
      · obtain ⟨r, r', hr, hpost, hr'⟩ := Reachable.committed hstart hpath huold
        exact ⟨_, _, r, r', hstore, hr, (hw.commit htrun).2, hpost, Or.inr hr'⟩
      · exact absurd (Action.commit.inj hact) hne

/-- What has come to hold of the store has come to hold by the commit of some thread. -/
theorem Reachable.exists_committed {P : S → Prop} (h : Reachable E body allowed s₀ w)
    (hfalse : ¬ P s₀) (htrue : P w.store) :
    ∃ t job a log s s', w.threads t = .committed job a log ∧ Evolves G s₀ s ∧
      post job log a s s' ∧ Evolves G s' w.store ∧ ¬ P s ∧ P s' := by
  induction h with
  | refl => exact absurd htrue hfalse
  | @tail v v' hpath hlast ih =>
    obtain ⟨act, -, hperform⟩ := hlast
    obtain ⟨hw, hstore⟩ := Reachable.protected hstart hpath
    by_cases hbefore : P v.store
    · obtain ⟨t, job, a, log, s, s', ht, hs, hpost, hs', hP⟩ := ih hbefore
      exact ⟨t, job, a, log, s, s', committed_perform hw.locks hperform ht, hs, hpost,
        hs'.trans (hw.store hperform), hP⟩
    · rcases store_cases hperform with hsame | ⟨t, job, a, log, writes, locks, ht, hcommitted, heq⟩
      · exact absurd (hsame ▸ htrue) hbefore
      · obtain ⟨-, hpost⟩ := hw.commit ht
        exact ⟨t, job, a, log, v.store, _, hcommitted, hstore, hpost, heq ▸ .refl, hbefore,
          heq ▸ htrue⟩

end Runs

end World

end Txn
