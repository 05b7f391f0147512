import FocServices.Orders.Worlds

/-!
# Races between tasks

Two results about every run of the order service. A transition goes through only while
the errand is the row that it was decided on, so of the transitions decided on one row at
most one is written. An answer of the fence service without active errands stands for as
long as the fence does.
-/

namespace FocServices.Orders

open Txn Relation

section Updates

variable {hash : String → ℤ} {ok own : Tables → Errand → Transition → Prop}
  {locks : List (Lock × Mode)} {s s' : Tables} {e : Errand} {t : Transition}

/-- Rows on which the same transition was decided have the same rank. -/
theorem rank_of_decides {e' : Errand} (he : Regular e) (he' : Regular e') (h : Decides e t)
    (h' : Decides e' t) : e'.rank = e.rank ∧ e'.id = e.id := by
  obtain ⟨ev, actor, input, now, hnext⟩ := h
  obtain ⟨ev', actor', input', now', hnext'⟩ := h'
  have hfor := next_for hnext
  have hfor' := next_for hnext'
  have hkey := hfor'.expectedPendingEditKey.symm.trans hfor.expectedPendingEditKey
  have hversion : e'.version = e.version := hfor'.expectedVersion.symm.trans hfor.expectedVersion
  refine ⟨?_, hfor'.errandID.symm.trans hfor.errandID⟩
  unfold Errand.rank
  rw [hversion, isSome_of_pendingKey he' he hkey]

theorem errandID_of_decides (h : Decides e t) : t.errandID = e.id := by
  obtain ⟨ev, actor, input, now, hnext⟩ := h
  exact (next_for hnext).errandID

theorem Applied.sane (hs : Sane s) (h : Applied hash own locks t s s') : Sane s' := by
  obtain ⟨v, v', e₁, hbefore, happlies, hafter⟩ := h
  exact ((hs.commits hbefore).change happlies.change).commits hafter

/-- Before a transition is written the errand is at most at the row it was decided on. -/
theorem Applied.before (hs : Sane s) (h : Applied hash own locks t s s') (he : Regular e)
    (hdecides : Decides e t) {cur : Errand} (hcur : cur ∈ s.errands) (hid : cur.id = e.id) :
    cur.rank ≤ e.rank := by
  obtain ⟨v, v', e₁, hbefore, happlies, -⟩ := h
  have hv := hs.commits hbefore
  obtain ⟨hrank, hid₁⟩ := rank_of_decides he (hv.keyed.regular e₁ happlies.cur) hdecides
    happlies.decided
  obtain ⟨cur₁, hcur₁, hsucceeds⟩ := hs.succeeds (.single ⟨locks, hbefore⟩) hcur
  obtain rfl := hv.keyed.unique.eq hcur₁ happlies.cur ((hsucceeds.id.trans hid).trans hid₁.symm)
  rcases hsucceeds.rank with rfl | hlt <;> omega

/-- After a transition is written the errand is past the row it was decided on. -/
theorem Applied.after (hs : Sane s) (h : Applied hash own locks t s s') (he : Regular e)
    (hdecides : Decides e t) : ∃ cur ∈ s'.errands, cur.id = e.id ∧ e.rank < cur.rank := by
  obtain ⟨v, v', e₁, hbefore, happlies, hafter⟩ := h
  have hv := hs.commits hbefore
  obtain ⟨hrank, hid₁⟩ := rank_of_decides he (hv.keyed.regular e₁ happlies.cur) hdecides
    happlies.decided
  obtain ⟨row, hrow, herrands⟩ := happlies.errands
  obtain ⟨ev, actor, input, now, hnext⟩ := happlies.decided
  have hst := insertParams_ok hrow
  have hrowID : (e₁.overwrite row).id = e₁.id :=
    hst.id_eq (hv.keyed.regular e₁ happlies.cur).canonical
  have hnew : e₁.rank < (e₁.overwrite row).rank :=
    (next_move hnext).rank (overwrite_storedAs hst rfl)
  have hmem : e₁.overwrite row ∈ v'.errands := herrands ▸ mem_updateRow_self happlies.cur
  -- what else the commit writes comes after it
  obtain ⟨cur, hcur, hsucceeds⟩ :=
    (hv.change happlies.change).succeeds (.single ⟨locks, hafter⟩) hmem
  refine ⟨cur, hcur, (hsucceeds.id.trans hrowID).trans hid₁, ?_⟩
  rcases hsucceeds.rank with rfl | hlt <;> omega

/-- A transition decided on a row is written at most once, before or after another. -/
theorem not_applied_twice {locks' : List (Lock × Mode)} {r r' : Tables} {t' : Transition}
    (hs : Sane s) (h : Applied hash own locks t s s') (hevolves : Evolves (Commits hash ok) s' r)
    (h' : Applied hash own locks' t' r r') (he : Regular e) (hdecides : Decides e t)
    (hdecides' : Decides e t') : False := by
  obtain ⟨cur, hcur, hid, hlt⟩ := h.after hs he hdecides
  have hs' : Sane s' := h.sane hs
  obtain ⟨cur', hcur', hsucceeds⟩ := hs'.succeeds hevolves hcur
  have hle := h'.before (hs'.sane_evolves hevolves) he hdecides' hcur' (hsucceeds.id.trans hid)
  rcases hsucceeds.rank with rfl | hlt' <;> omega

/-- A task that is to write a transition leaves it written. -/
theorem leaves_of_writes {errandID : String → String → String} {task : Task}
    {log : Program.Log Stmt.Reply} {result : TaskResult} (hwrites : task.Writes log t)
    (h : task.Post hash errandID ok log result s s') : task.Leaves hash ok log result s s' := by
  cases task with
  | job job =>
    cases job with
    | apply | claimDue => exact h
    | _ => exact hwrites.elim
  | accept => exact h
  | submit => exact hwrites.elim

theorem leaves_of_asks {errandID : String → String → String} {task : Task}
    {log : Program.Log Stmt.Reply} {result : TaskResult} (hasks : task.Asks)
    (h : task.Post hash errandID ok log result s s') : task.Leaves hash ok log result s s' := by
  cases task with
  | job job =>
    cases job with
    | acquire | inspect => exact h
    | _ => exact hasks.elim
  | _ => exact hasks.elim

end Updates

section Runs

variable (hash : String → ℤ) (sha1 : List UInt8 → Fin 20 → UInt8)

/-- A transition decided on a row that was read at any time of a run passes the
compare-and-swap later only while the stored errand is that row, so it leaves what it
would have left then. Of all transitions decided on one row at most one is written. -/
theorem no_lost_update {w w' : Service} (h : Runs hash (errandID sha1) anyTransition w)
    (hlater : GoesOn hash (errandID sha1) anyTransition w w') {e : Errand}
    (he : e ∈ w.store.errands) :
    (∀ ev actor input now t cur, next e ev actor input now = .ok t → cur ∈ w'.store.errands →
      cur.id = e.id → compareAndSwap cur t = .ok () → cur = e ∧ t.applyTo cur = t.applyTo e) ∧
    ∀ u v task task' result result' log log' t t',
      w'.threads u = .committed task result log → w'.threads v = .committed task' result' log' →
      task.Writes log t → task'.Writes log' t' → Decides e t → Decides e t' → u = v ∧ t = t' := by
  have hadmits := admits_any (canonical_errandID sha1)
  have hstart := @starts_secure hash _ _ hadmits
  have hsane := sane_of_runs hadmits h
  have hregular := hsane.keyed.regular e he
  have h' : Runs hash (errandID sha1) anyTransition w' := ReflTransGen.trans h hlater
  constructor
  · intro ev actor input now t cur hnext hcur hid hcas
    have hsane' := sane_of_runs hadmits h'
    obtain ⟨cur', hcur', hsucceeds⟩ :=
      hsane.succeeds (World.Reachable.evolves hstart h hlater) he
    obtain rfl := hsane'.keyed.unique.eq hcur' hcur (hsucceeds.id.trans hid.symm)
    have heq := hsucceeds.eq_of_compareAndSwap hregular (hsane'.keyed.regular _ hcur)
      ⟨ev, actor, input, now, hnext⟩ hcas
    exact ⟨heq, by rw [heq]⟩
  · intro u v task task' result result' log log' t t' hu hv hwrites hwrites' hdecides hdecides'
    by_cases hne : u = v
    · subst hne
      cases hu.symm.trans hv
      obtain ⟨s, s', -, hpost, -⟩ := World.Reachable.committed hstart h' hu
      have hsame : t.errandID = t'.errandID := by
        rw [errandID_of_decides hdecides, errandID_of_decides hdecides']
      exact ⟨rfl, (leaves_of_writes hwrites hpost).once t t' hwrites hwrites' hsame⟩
    · obtain ⟨s, s', r, r', hs, hr, hpost, hpost', horder⟩ :=
        World.Reachable.committed_order hstart h' hu hv hne
      have hs' := sane_empty.sane_evolves hs
      have hr' := sane_empty.sane_evolves hr
      obtain ⟨locks, happlied⟩ := (leaves_of_writes hwrites hpost).writes t hwrites
      obtain ⟨locks', happlied'⟩ := (leaves_of_writes hwrites' hpost').writes t' hwrites'
      exfalso
      rcases horder with horder | horder
      · exact not_applied_twice hs' happlied horder happlied' hregular hdecides hdecides'
      · exact not_applied_twice hr' happlied' horder happlied hregular hdecides' hdecides

theorem no_lost_update_submitted : ∃ (w : Service) (e : Errand),
    Runs (fun _ => 0) (errandID fun _ _ => 0) anyTransition w ∧ e ∈ w.store.errands ∧
      ∀ ev actor input now t cur, next e ev actor input now = .ok t → cur ∈ w.store.errands →
        cur.id = e.id → compareAndSwap cur t = .ok () → cur = e ∧ t.applyTo cur = t.applyTo e := by
  obtain ⟨w, e, hfree, he⟩ := exists_submitted
  have hrun := @runs_of_freeRuns _ _ anyTransition _ hfree
  exact ⟨w, e, hrun, he, (no_lost_update _ _ hrun .refl he).1⟩

/-- Once an acquire or an inspect has answered that the supplier has no active errands,
no active errand refers to the supplier while the fence is open or committed. -/
theorem fence_answer_stands {w : Service} (h : Runs hash (errandID sha1) anyTransition w) {u : ℕ}
    {task : Task} {answer : FenceAnswer} {log : Program.Log Stmt.Reply}
    (hu : w.threads u = .committed task (.job (.fence answer)) log) (hasks : task.Asks)
    (hactive : answer.hasActiveErrands = false) {f : Fence}
    (hf : w.store.fenceOf answer.operationID = some f)
    (hstate : f.state = .open ∨ f.state = .committed) :
    ∀ e ∈ w.store.errands, ¬ e.Refers answer.supplierID := by
  have hadmits := admits_any (canonical_errandID sha1)
  obtain ⟨s, s', hs, hpost, hlater⟩ :=
    World.Reachable.committed (@starts_secure hash _ _ hadmits) h hu
  have hleaves := leaves_of_asks hasks hpost
  obtain ⟨locks, hcommits⟩ := hleaves.commits
  have hs' : Sane s' := (sane_empty.sane_evolves hs).commits hcommits
  have hwatched : Watched answer.operationID answer.supplierID w.store :=
    (hleaves.watched hasks answer rfl hactive).evolves hs' hlater
  obtain ⟨f', hf', -, hfree⟩ := hwatched
  obtain rfl := Option.some.inj (hf.symm.trans hf')
  apply hfree
  rcases hstate with hstate | hstate <;> rw [hstate] <;> nofun

/-- A fence is acquired for the supplier of the sample errand. -/
def acquireRun : List (Action Task) :=
  .start (.job (.acquire "auth0|admin" "66666666-6666-4666-8666-666666666666"
    sampleErrand.details.supplierID)) :: List.replicate 5 (.advance 0) ++ [.commit 0]

/-- Whether the first task has answered without active errands, and the fence is open. -/
def answersOpen (w : Service) : Bool :=
  match w.threads 0 with
  | .committed (.job (.acquire _ _ _)) (.job (.fence answer)) _ =>
    !answer.hasActiveErrands && (w.store.fenceOf answer.operationID).any (·.state = .open)
  | _ => false

theorem exists_of_answersOpen {w : Service} (h : answersOpen w = true) :
    ∃ task answer log f, w.threads 0 = .committed task (.job (.fence answer)) log ∧ task.Asks ∧
      answer.hasActiveErrands = false ∧ w.store.fenceOf answer.operationID = some f ∧
      f.state = .open := by
  unfold answersOpen at h
  split at h
  · next answer log hthread =>
    rw [Bool.and_eq_true] at h
    obtain ⟨f, hf, hopen⟩ := (Option.any_eq_true _ _).mp h.2
    exact ⟨_, answer, log, f, hthread, trivial, by simpa using h.1, hf, by simpa using hopen⟩
  · cases h

theorem fence_answer_stands_acquired : ∃ (w : Service) (answer : FenceAnswer) (f : Fence),
    Runs (fun _ => 0) (errandID fun _ _ => 0) anyTransition w ∧
      answer.hasActiveErrands = false ∧ w.store.fenceOf answer.operationID = some f ∧
      f.state = .open ∧ ∀ e ∈ w.store.errands, ¬ e.Refers answer.supplierID := by
  obtain ⟨w, hfree, hw⟩ := exists_run (fun _ => 0) (errandID fun _ _ => 0) acquireRun answersOpen
    (by decide)
  have hrun := @runs_of_freeRuns _ _ anyTransition _ hfree
  obtain ⟨task, answer, log, f, hu, hasks, hactive, hf, hopen⟩ := exists_of_answersOpen hw
  exact ⟨w, answer, f, hrun, hactive, hf, hopen,
    fence_answer_stands _ _ hrun hu hasks hactive hf (Or.inl hopen)⟩

end Runs

end FocServices.Orders
