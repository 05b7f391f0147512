import FocServices.Orders.Fencing

/-!
# The order service as it runs

Any number of tasks run interleaved, statement by statement: the transactions with
transitions decided from errands that were read at some earlier time, the handlers, and
the fence service. Every task keeps to the changes that its locks allow, so what was
proved of changes holds of every run. A committed task has left what `Task.Post` says.
-/

namespace FocServices.Orders

open Txn Relation

/-- The order service: the committed tables and all tasks ever started. -/
abbrev Service := World Task Stmt Stmt.Reply StoreError TaskResult Tables Write Lock

/-- Any transition. -/
def anyTransition : Tables → Errand → Transition → Prop := fun _ _ _ => True

/-- The transitions that `ok` allows for errands that exist. -/
def later (ok : Tables → Errand → Transition → Prop) (s : Tables) (e : Errand) (t : Transition) :
    Prop :=
  ok s e t ∧ t.event ≠ .submit

/-- When a task may start: its transitions are decided by `next`, for a new errand, for
an errand as it is stored at this time, or for the errands of a batch, and `ok` allows them. -/
def Task.Starts (ok : Tables → Errand → Transition → Prop) (s : Tables) : Task → Prop
  | .job (.create e t) => Canonical e.id ∧ (∃ actor input now,
      next e .submit actor input now = .ok t) ∧ ∀ s, ok s e t
  | .job (.apply t) => ∃ e ∈ s.errands, Decides e t ∧ ∀ s, ok s e t
  | .job (.claimDue _ _ _ decide) => ∀ e t, decide e = .ok (some t) →
      Decides e t ∧ ∀ s, ok s e t
  | _ => True

/-- Which scheduling decisions may be taken. -/
def Permits (ok : Tables → Errand → Transition → Prop) (w : Service) : Action Task → Prop
  | .start task => task.Starts ok w.store
  | _ => True

/-- The task is to write the transition, by what it has read. -/
def Task.Writes (log : Program.Log Stmt.Reply) (t : Transition) : Task → Prop
  | .job (.apply t') => t = t'
  | .job (.claimDue _ _ _ decide) => Claims decide log t
  | .accept courier _ _ now settings => ∃ id e given history rest, settings = .ok given ∧
      log = ⟨.getErrand id, .ok e⟩ :: ⟨.courierHistory (scanUUID e.id) courier
        (micros (now - given.withdrawalRestriction.window)), .ok history⟩ :: rest ∧
      next e .accept ⟨.courier, courier⟩ (acceptInput given history) now = .ok t
  | _ => False

/-- The task answers with the state of a fence that it has not changed itself. -/
def Task.Asks : Task → Prop
  | .job (.acquire _ _ _) | .job (.inspect _) => True
  | _ => False

/-- What a task that creates no errand leaves. -/
structure Task.Leaves (hash : String → ℤ) (ok : Tables → Errand → Transition → Prop)
    (log : Program.Log Stmt.Reply) (task : Task) (result : TaskResult) (s s' : Tables) : Prop where
  commits : ∃ locks, Commits hash (later ok) locks s s'
  writes : ∀ t, task.Writes log t → ∃ locks, Applied hash (later ok) locks t s s'
  once : ∀ t t', task.Writes log t → task.Writes log t' → t.errandID = t'.errandID → t = t'
  watched : task.Asks → ∀ answer, result = .job (.fence answer) →
    answer.hasActiveErrands = false → Watched answer.operationID answer.supplierID s'

/-- What a committed task has done to the tables. -/
def Task.Post (hash : String → ℤ) (errandID : String → String → String)
    (ok : Tables → Errand → Transition → Prop) (task : Task) (log : Program.Log Stmt.Reply)
    (result : TaskResult) (s s' : Tables) : Prop :=
  match task, result with
  | .submit requesterID key prepared now, .submitted row true => ∃ details t locks,
      prepared = .ok details ∧
      next (submitted (errandID requesterID key) requesterID key details) .submit
        ⟨.requester, requesterID⟩ {} now = .ok t ∧
      Creates hash ok locks (submitted (errandID requesterID key) requesterID key details) t row
        s s'
  | .submit requesterID key _ _, .submitted e false => s' = s ∧ e.requesterID = requesterID ∧
      e.createIdempotencyKey = key ∧ ∃ e' ∈ s.errands, Succeeds e e'
  | .submit _ _ _ _, _ => False
  | .job (.create e t), .job (.created row true) => ∃ locks, Creates hash ok locks e t row s s'
  | .job (.create _ _), _ => s' = s
  | task, result => task.Leaves hash ok log result s s'

/-- What the handlers rely on: derived identifiers are canonical, and `ok` allows what the
handlers decide. -/
structure Admits (errandID : String → String → String)
    (ok : Tables → Errand → Transition → Prop) : Prop where
  canonical : ∀ requesterID key, Canonical (errandID requesterID key)
  submit : ∀ requesterID key details now t,
    next (submitted (errandID requesterID key) requesterID key details) .submit
      ⟨.requester, requesterID⟩ {} now = .ok t →
    ∀ s, ok s (submitted (errandID requesterID key) requesterID key details) t
  accept : ∀ e courier input now t, next e .accept ⟨.courier, courier⟩ input now = .ok t →
    ∀ s, (∀ row ∈ s.transitions, row.errandID = e.id → row.withdrawalOf courier = false) →
      ok s e t

theorem admits_any {errandID : String → String → String}
    (h : ∀ requesterID key, Canonical (errandID requesterID key)) :
    Admits errandID anyTransition :=
  ⟨h, fun _ _ _ _ _ _ _ => trivial, fun _ _ _ _ _ _ _ _ => trivial⟩

section Weaken

variable {hash : String → ℤ} {own ok : Tables → Errand → Transition → Prop}
  {locks : List (Lock × Mode)} {s s' : Tables}

theorem Change.weaken (h : Change hash own locks s s')
    (himp : ∀ s e t, own s e t → ok s e t) : Change hash ok locks s s' := by
  cases h with
  | create e actor input now t row hnext hid hok hrow hnew hkey herrand hcreate hsupplier hopen
      hkeys herrands htransitions houtbox hfences =>
    exact .create e actor input now t row hnext hid (himp _ _ _ hok) hrow hnew hkey herrand hcreate
      hsupplier hopen hkeys herrands htransitions houtbox hfences
  | apply e ev actor input now t row hcur hnext hok hrow herrand hsupplier hkeys herrands
      htransitions houtbox hfences =>
    exact .apply e ev actor input now t row hcur hnext (himp _ _ _ hok) hrow herrand hsupplier
      hkeys herrands htransitions houtbox hfences
  | note row hkey hkind hfresh hlock herrands htransitions houtbox hfences =>
    exact .note row hkey hkind hfresh hlock herrands htransitions houtbox hfences
  | fence operationID supplierID hnew hcanonical hfence hsupplier herrands htransitions houtbox
      hfences =>
    exact .fence operationID supplierID hnew hcanonical hfence hsupplier herrands htransitions
      houtbox hfences
  | close fence state hcur hopen hfence herrands htransitions houtbox hfences =>
    exact .close fence state hcur hopen hfence herrands htransitions houtbox hfences
  | idle herrands htransitions houtbox hfences =>
    exact .idle herrands htransitions houtbox hfences

theorem Commits.weaken (h : Commits hash own locks s s')
    (himp : ∀ s e t, own s e t → ok s e t) : Commits hash ok locks s s' :=
  ReflTransGen.mono (fun _ _ hchange => hchange.weaken himp) _ _ h

theorem Commits.of_later (h : Commits hash (later ok) locks s s') : Commits hash ok locks s s' :=
  h.weaken fun _ _ _ hlater => hlater.1

end Weaken

/-! ## The handlers -/

section Rules

variable {hash : String → ℤ} {ok : Tables → Errand → Transition → Prop}
  {tr : Trail Stmt.Reply Write Lock} {s : Tables} {α : Type}

theorem secure_return {β : Type}
    {final : Except StoreError β → Trail Stmt.Reply Write Lock → Tables → Prop} {p : Tx α}
    {f : α → β}
    (h : Secure hash ok (fun r tr s => final (r.map f) tr s) p tr s) :
    Secure hash ok final (p >>= fun a => .pure (f a)) tr s := by
  rw [Secure, safe_bind]
  refine safe_mono h fun r tr s hr => ?_
  cases r with
  | ok a => exact hr
  | error e => exact hr

/-- Looking an errand up by its identifier. -/
theorem secure_find {final : Except StoreError α → Trail Stmt.Reply Write Lock → Tables → Prop}
    {id : String} {f : Option Errand → Tx α}
    (hP : Ensures hash ok tr s fun s v => v = s ∧ Sane s)
    (hnone : ∀ tr' s', (∀ uuid, scanUUID id = some uuid → ∀ e ∈ s.errands, e.id ≠ uuid) →
      Ensures hash ok tr' s' (fun s v => v = s ∧ Sane s) → Secure hash ok final (f none) tr' s')
    (hsome : ∀ uuid e s', scanUUID id = some uuid → e ∈ s.errands → e.id = uuid →
      Disturbed (Commits hash ok) (tr.add (.getErrand uuid) ⟨.ok e, [], []⟩).locks s s' →
      Secure hash ok final (f (some e)) (tr.add (.getErrand uuid) ⟨.ok e, [], []⟩) s') :
    Secure hash ok final (find id >>= f) tr s := by
  unfold find
  cases huuid : scanUUID id with
  | none =>
    exact hnone tr s (fun uuid h => nomatch huuid.symm.trans h) hP
  | some uuid =>
    refine secure_query fun grantable a ha s₁ hs₁ => ?_
    rcases getErrand_cases grantable uuid _ with ⟨e, he, hid, hanswer⟩ | ⟨hnew, hanswer⟩
    · obtain rfl := ha.symm.trans hanswer
      rw [hP.now.1] at he
      exact hsome uuid e s₁ huuid he hid hs₁
    · obtain rfl := ha.symm.trans hanswer
      rw [hP.now.1] at hnew
      refine hnone _ s₁ (fun uuid' h => ?_) (hP.read rfl hs₁)
      rwa [← Option.some.inj (huuid.symm.trans h)]

theorem secure_get {final : Except StoreError α → Trail Stmt.Reply Write Lock → Tables → Prop}
    {id : String} {f : Errand → Tx α} (hP : Ensures hash ok tr s fun s v => v = s ∧ Sane s)
    (herr : ∀ err tr s, final (.error err) tr s)
    (h : ∀ uuid e s', e ∈ s.errands →
      Disturbed (Commits hash ok) (tr.add (.getErrand uuid) ⟨.ok e, [], []⟩).locks s s' →
      Secure hash ok final (f e) (tr.add (.getErrand uuid) ⟨.ok e, [], []⟩) s') :
    Secure hash ok final (get id >>= f) tr s := by
  rw [Secure, safe_bind]
  unfold get
  exact secure_find hP (fun tr' s' _ _ => herr _ _ _)
    fun uuid e s' _ he _ hs' => h uuid e s' he hs'

theorem eligible_of_next {e : Errand} {courier : String} {input : EventInput} {now : ℤ}
    {t : Transition} (h : next e .accept ⟨.courier, courier⟩ input now = .ok t) :
    courier ≠ "" ∧ courier ≠ e.requesterID ∧ input.previouslyWithdrew = false := by
  obtain ⟨r, t₀, hd⟩ := next_ok h
  have hactor : ∀ r ∈ transitionTable, r.event = .accept → r.actor = .eligibleCourier := by decide
  have hmay := hd.mayAct
  rw [hactor r hd.mem hd.event] at hmay
  simp only [checkActor] at hmay
  split_ifs at hmay with hcourier hown hwithdrew
  exact ⟨fun hempty => hcourier (Or.inr hempty), hown, by simpa using hwithdrew⟩

/-- The errand has moved on since it was read, or the log has no withdrawal of the
courier from it. -/
def Unwithdrawn (e : Errand) (courier : String) (s : Tables) : Prop :=
  ∃ e' ∈ s.errands, Succeeds e e' ∧
    (e' = e → ∀ row ∈ s.transitions, row.errandID = e.id → row.withdrawalOf courier = false)

theorem Unwithdrawn.change {e : Errand} {courier : String} {s' : Tables}
    {locks : List (Lock × Mode)} (hs : Sane s) (h : Change hash ok locks s s')
    (hfree : Unwithdrawn e courier s) : Unwithdrawn e courier s' := by
  obtain ⟨e', he', hsucceeds, hclean⟩ := hfree
  have hsame : s'.errands = s.errands → s'.transitions = s.transitions →
      Unwithdrawn e courier s' := by
    intro herrands htransitions
    rw [Unwithdrawn, herrands, htransitions]
    exact ⟨e', he', hsucceeds, hclean⟩
  -- a row for another errand says nothing about this one
  have hother : ∀ row : TransitionRow, row.errandID ≠ e.id →
      (e' = e → ∀ r ∈ s.transitions ++ [row], r.errandID = e.id →
        r.withdrawalOf courier = false) := by
    intro row hrow heq r hr hid
    rcases List.mem_append.mp hr with hold | hnew
    · exact hclean heq r hold hid
    · obtain rfl := List.mem_singleton.mp hnew
      exact absurd hid hrow
  cases h with
  | create e₁ actor input now t row hnext hid hok hrow hnew hkey herrand hcreate hsupplier hopen
      hkeys herrands htransitions houtbox hfences =>
    have hne : e₁.id ≠ e.id := fun heq => hnew e' he' (hsucceeds.id.trans heq.symm)
    rw [Unwithdrawn, herrands, htransitions]
    exact ⟨e', List.mem_append_left _ he', hsucceeds, hother _ hne⟩
  | apply e₁ ev actor input now t row hcur hnext hok hrow herrand hsupplier hkeys herrands
      htransitions houtbox hfences =>
    have hst := insertParams_ok hrow
    rw [Unwithdrawn, herrands, htransitions]
    by_cases hid : e'.id = e₁.id
    · -- the errand itself moves on
      obtain rfl := hs.keyed.unique.eq he' hcur hid
      have hrank : e'.rank < (e'.overwrite row).rank :=
        (next_move hnext).rank (overwrite_storedAs hst rfl)
      have hafter : Succeeds e' (e'.overwrite row) :=
        ⟨hst.id_eq (hs.keyed.regular e' he').canonical, rfl, rfl, Or.inr hrank⟩
      refine ⟨_, mem_updateRow_self he', hsucceeds.trans hafter, fun heq => ?_⟩
      rw [heq] at hrank
      rcases hsucceeds.rank with rfl | hlt <;> omega
    · have hne : e₁.id ≠ e.id := fun heq => hid (hsucceeds.id.trans heq.symm)
      exact ⟨e', mem_updateRow.mpr ⟨e', he', if_neg hid⟩, hsucceeds, hother _ hne⟩
  | note _ _ _ _ _ herrands htransitions | fence _ _ _ _ _ _ herrands htransitions
  | close _ _ _ _ _ herrands htransitions | idle herrands htransitions =>
    exact hsame herrands htransitions

theorem Unwithdrawn.evolves {e : Errand} {courier : String} {s' : Tables} (hs : Sane s)
    (h : Evolves (Commits hash ok) s s') (hfree : Unwithdrawn e courier s) :
    Unwithdrawn e courier s' :=
  (hs.evolves h (fun _ _ _ hs hchange hfree => hfree.change hs hchange) hfree).2

/-- The accept handler writes the transition it decided over the errand it read, or finds
that the errand is the caller's already. -/
theorem secure_accept {errandID' : String → String → String} (hadmits : Admits errandID' ok)
    {final : Except StoreError Errand → Trail Stmt.Reply Write Lock → Tables → Prop}
    {courier errandID : String} {expectedVersion now : ℤ}
    {settings : Except StoreError SystemSettings}
    (hP : Ensures hash ok {} s fun s v => v = s ∧ Sane s)
    (herr : ∀ err tr s, final (.error err) tr s)
    (hsame : ∀ tr' s' e, tr'.log.length = 1 → Ensures hash ok tr' s' (fun s v => v = s ∧ Sane s) →
      final (.ok e) tr' s')
    (h : ∀ tr' s' stored id e given history rest t, settings = .ok given →
      tr'.log = ⟨.getErrand id, .ok e⟩ :: ⟨.courierHistory (scanUUID e.id) courier
        (micros (now - given.withdrawalRestriction.window)), .ok history⟩ :: rest →
      next e .accept ⟨.courier, courier⟩ (acceptInput given history) now = .ok t →
      Ensures hash ok tr' s' (fun s v => Sane s ∧ Applies hash (later ok) tr'.locks e t s v) →
      final (.ok stored) tr' s') :
    Secure hash ok final (accept courier errandID expectedVersion now settings) {} s := by
  unfold accept
  refine secure_get hP herr fun uuid e s₁ he hs₁ => ?_
  have hsane := hP.now.2
  have hP₁ := hP.read (q := .getErrand uuid) (a := ⟨.ok e, [], []⟩) rfl hs₁
  split
  · exact hsame _ s₁ e rfl hP₁
  rw [Secure, safe_bind]
  unfold eligibility
  refine secure_check (fun err tr s => herr err tr s) fun given hgiven => ?_
  refine secure_query fun grantable a ha s₂ hs₂ => ?_
  subst ha
  obtain ⟨hview₁, hsane₁⟩ := hP₁.now
  have hP₂ := hP₁.read rfl hs₂
  rw [answerTo, hview₁] at hs₂ hP₂ ⊢
  set history := s₁.courierHistory (scanUUID e.id) courier
    (micros (now - given.withdrawalRestriction.window)) with hhistory
  change Secure hash ok final (check ((next e .accept ⟨.courier, courier⟩
    (acceptInput given history) now).mapError StoreError.app) >>= fun t => _) _ s₂
  refine secure_check herr fun t ht => ?_
  have hnext := mapError_eq_ok.mp ht
  split
  · exact herr _ _ _
  -- when the history was read it had no withdrawal
  have hfree₁ : Unwithdrawn e courier s₁ := by
    obtain ⟨e₁, he₁, hsucceeds⟩ := hsane.succeeds hs₁.evolves he
    refine ⟨e₁, he₁, hsucceeds, fun _ row hrow hid => ?_⟩
    have hnone : history.withdrewFromErrand = false := (eligible_of_next hnext).2.2
    rw [hhistory, (hsane.keyed.regular e he).canonical] at hnone
    have hrow' := List.any_eq_false.mp hnone row hrow
    simpa [hid] using hrow'
  refine secure_apply (later ok) (hsane.keyed.regular e he) ⟨_, _, _, _, hnext⟩ ?_ herr ?_
  · intro s₃ h₃
    obtain ⟨hview₃, hsane₃⟩ := hP₂ s₃ h₃
    have hevolves : Evolves (Commits hash ok) s₁ s₃ := Disturbed.evolves (hs₂.trans h₃)
    obtain ⟨e₃, he₃, hsucceeds₃, hclean⟩ := hfree₁.evolves hsane₁ hevolves
    refine ⟨hview₃, hsane₃, ⟨e₃, he₃, hsucceeds₃⟩, fun hmem => ?_⟩
    have heq := hsane₃.keyed.unique.eq he₃ hmem hsucceeds₃.id
    refine ⟨hadmits.accept e courier _ now t hnext s₃ (hclean heq), ?_⟩
    rw [(next_for hnext).event]
    decide
  · intro tr' s' stored hext hP'
    obtain ⟨rest, hrest⟩ := hext.log
    exact h tr' s' stored uuid e given history rest t hgiven hrest.symm hnext hP'

/-- The create handler answers with an errand of the requester and the key that was
stored before, or stores the one it was asked for. -/
theorem secure_submit {errandID : String → String → String} (hadmits : Admits errandID ok)
    {final : Except StoreError (Errand × Bool) → Trail Stmt.Reply Write Lock → Tables → Prop}
    {requesterID key : String} {prepared : Except StoreError Details} {now : ℤ}
    (hP : Ensures hash ok {} s fun s v => v = s ∧ Sane s)
    (herr : ∀ err tr s, final (.error err) tr s)
    (hold : ∀ tr' s' existing, existing.requesterID = requesterID →
      existing.createIdempotencyKey = key → Ensures hash ok tr' s' (fun s v => v = s ∧ Sane s ∧
        ∃ e' ∈ s.errands, Succeeds existing e') → final (.ok (existing, false)) tr' s')
    (hnew : ∀ tr' s' details t row, prepared = .ok details →
      next (submitted (errandID requesterID key) requesterID key details) .submit
        ⟨.requester, requesterID⟩ {} now = .ok t →
      Ensures hash ok tr' s' (fun s v => Sane s ∧ Creates hash ok tr'.locks
        (submitted (errandID requesterID key) requesterID key details) t row s v) →
      final (.ok (row, true)) tr' s') :
    Secure hash ok final (submit (errandID requesterID key) requesterID key prepared now) {} s := by
  unfold submit
  refine secure_find hP ?_ ?_
  · intro tr₁ s₁ _ hP₁
    refine secure_check herr fun details hdetails => ?_
    refine secure_check herr fun t ht => ?_
    have hnext := mapError_eq_ok.mp ht
    refine secure_create ok (hadmits.canonical requesterID key) hnext
      (hadmits.submit requesterID key details now t hnext) hP₁ herr ?_ ?_
    · intro tr' s' existing _ hrequester hkey hP'
      exact hold tr' s' existing hrequester hkey hP'
    · intro tr' s' row _ hP'
      exact hnew tr' s' details t row hdetails hnext hP'
  · intro uuid e s₁ _ he _ hs₁
    have hP₁ := hP.read (q := .getErrand uuid) (a := ⟨.ok e, [], []⟩) rfl hs₁
    change Secure hash ok final (if e.requesterID ≠ requesterID ∨ e.createIdempotencyKey ≠ key
      then _ else _) _ _
    split
    · exact herr _ _ _
    next hsame =>
    rw [not_or, not_not, not_not] at hsame
    refine hold _ s₁ e hsame.1 hsame.2 fun s₂ h₂ => ?_
    obtain ⟨hview₂, hsane₂⟩ := hP₁ s₂ h₂
    exact ⟨hview₂, hsane₂, hP.now.2.succeeds (Disturbed.evolves (hs₁.trans h₂)) he⟩

/-! ## Soundness -/

section Sound

variable {errandID : String → String → String} {task : Task}

/-- A task that creates no errand concludes once its writes are known. -/
theorem concludes_leaves {result : TaskResult}
    (hpost : ∀ log s s', task.Leaves hash ok log result s s' →
      task.Post hash errandID ok log result s s')
    (hP : Ensures hash ok tr s fun s v => Commits hash (later ok) tr.locks s v ∧
      task.Leaves hash ok tr.log result s v) :
    Concludes (engine hash) (Commits hash ok) (task.Post hash errandID ok)
      (.ok result : Except StoreError TaskResult) tr s :=
  ⟨hP.now.1.of_later, hpost _ _ _ hP.now.2⟩

theorem Sane.sane_evolves {s' : Tables} (hs : Sane s) (h : Evolves (Commits hash ok) s s') :
    Sane s' :=
  (hs.evolves (P := fun _ => True) h (fun _ _ _ _ _ _ => trivial) trivial).1

/-- Tables in which the task has started stay sane while it runs. -/
theorem ensures_start (hs : Sane s) : Ensures hash ok {} s fun s v => v = s ∧ Sane s :=
  fun _ h => ⟨rfl, hs.sane_evolves (Disturbed.evolves h)⟩

theorem event_ne_submit {e : Errand} {t : Transition} (he : Regular e) (hdecides : Decides e t) :
    t.event ≠ .submit := by
  obtain ⟨ev, actor, input, now, hnext⟩ := hdecides
  intro hevent
  obtain rfl : ev = .submit := (next_for hnext).event.symm.trans hevent
  exact he.status (status_of_submit hnext)

/-- What an accept writes is determined by what it has read. -/
theorem accept_writes {courier id id' : String} {expectedVersion now : ℤ} {e : Errand}
    {settings : Except StoreError SystemSettings} {given : SystemSettings}
    {history : CourierHistory} {rest log : Program.Log Stmt.Reply} {t t' : Transition}
    (hgiven : settings = .ok given)
    (hlog : log = ⟨.getErrand id, .ok e⟩ :: ⟨.courierHistory (scanUUID e.id) courier
      (micros (now - given.withdrawalRestriction.window)), .ok history⟩ :: rest)
    (hnext : next e .accept ⟨.courier, courier⟩ (acceptInput given history) now = .ok t)
    (hwrites : (Task.accept courier id' expectedVersion now settings).Writes log t') : t' = t := by
  obtain ⟨id₁, e₁, given₁, history₁, rest₁, hgiven₁, hlog₁, hnext₁⟩ := hwrites
  obtain rfl := Except.ok.inj (hgiven.symm.trans hgiven₁)
  obtain ⟨hfirst, htail⟩ := List.cons.inj (hlog.symm.trans hlog₁)
  cases hfirst
  obtain ⟨hsecond, -⟩ := List.cons.inj htail
  simp only [Sigma.mk.injEq, heq_eq_eq, true_and, Except.ok.injEq] at hsecond
  subst hsecond
  exact Except.ok.inj (hnext₁.symm.trans hnext)

theorem secure_job {job : Job} {s₀ : Tables} (hs₀ : Sane s₀)
    (hstarts : (Task.job job).Starts ok s₀) (hevolves : Evolves (Commits hash ok) s₀ s) :
    Secure hash ok
      (Concludes (engine hash) (Commits hash ok) ((Task.job job).Post hash errandID ok))
      ((Task.job job).body errandID) {} s := by
  have hP : Ensures hash ok {} s fun s v => v = s ∧ Sane s :=
    ensures_start (hs₀.sane_evolves hevolves)
  refine secure_return ?_
  cases job with
  | create e t =>
    obtain ⟨hid, ⟨actor, input, now, hnext⟩, hok⟩ := hstarts
    change Secure hash ok _ (create e t >>= fun answer =>
      Program.pure (JobResult.created answer.1 answer.2)) {} s
    refine secure_return (secure_create ok hid hnext hok hP (fun _ _ _ => trivial) ?_ ?_)
    · intro tr' s' existing _ _ _ hP'
      have hview := hP'.now.1
      exact ⟨by rw [hview]; exact .refl, hview⟩
    · intro tr' s' row _ hP'
      obtain ⟨-, hcreates⟩ := hP'.now
      exact ⟨.single hcreates.change, _, hcreates⟩
  | apply t =>
    obtain ⟨e, he, hdecides, hok⟩ := hstarts
    have hregular := hs₀.keyed.regular e he
    refine secure_return (secure_apply (later ok) hregular hdecides ?_ (fun _ _ _ => trivial) ?_)
    · intro s₁ h₁
      obtain ⟨hview, hsane₁⟩ := hP s₁ h₁
      exact ⟨hview, hsane₁, hs₀.succeeds (hevolves.trans h₁.evolves) he,
        fun _ => ⟨hok s₁, event_ne_submit hregular hdecides⟩⟩
    · intro tr' s' stored _ hP'
      refine concludes_leaves (fun _ _ _ h => h) (hP'.mono ?_)
      rintro s v ⟨-, happlies⟩
      refine ⟨.single happlies.change, ⟨_, .single happlies.change⟩, fun t' hwrites => ?_, ?_,
        False.elim⟩
      · obtain rfl : t' = t := hwrites
        exact ⟨_, s, v, e, .refl, happlies, .refl⟩
      · intro t₁ t₂ h₁ h₂ _
        exact h₁.trans h₂.symm
  | claimDue kind now limit decide =>
    refine secure_return (secure_claimDue (later ok) ?_ hP (fun _ _ _ => trivial) ?_)
    · intro e t hdec
      obtain ⟨hdecides, hok⟩ := hstarts e t hdec
      exact ⟨hdecides, fun he s => ⟨hok s, event_ne_submit he hdecides⟩⟩
    · intro tr' s' n hP'
      refine concludes_leaves (fun _ _ _ h => h) (hP'.mono ?_)
      rintro s v ⟨-, hcommits, happlied, honce⟩
      exact ⟨hcommits, ⟨_, hcommits⟩, fun t hwrites => ⟨_, happlied t hwrites⟩, honce, False.elim⟩
  | recordRejection r =>
    refine secure_return (secure_recordRejection (later ok) hP (fun _ _ _ => trivial) ?_)
    intro tr' s' hP'
    exact concludes_leaves (fun _ _ _ h => h)
      (hP'.mono fun s v hcommits => ⟨hcommits, ⟨_, hcommits⟩, fun _ hw => False.elim hw,
        fun _ _ hw => False.elim hw, False.elim⟩)
  | remind kind c now =>
    refine secure_return (secure_insertCurrentReminder (later ok) hP (fun _ _ _ => trivial) ?_)
    intro tr' s' inserted hP'
    exact concludes_leaves (fun _ _ _ h => h)
      (hP'.mono fun s v hcommits => ⟨hcommits, ⟨_, hcommits⟩, fun _ hw => False.elim hw,
        fun _ _ hw => False.elim hw, False.elim⟩)
  | acquire actor operationID supplierID =>
    refine secure_return (secure_acquire (later ok) hP (fun _ _ _ => trivial) ?_)
    intro tr' s' answer hP'
    refine concludes_leaves (fun _ _ _ h => h) (hP'.mono ?_)
    rintro s v ⟨hcommits, hwatched⟩
    refine ⟨hcommits, ⟨_, hcommits⟩, fun _ hw => False.elim hw,
      fun _ _ hw => False.elim hw, fun _ answer' hanswer => ?_⟩
    cases hanswer
    exact hwatched
  | inspect operationID =>
    refine secure_return (secure_inspect (later ok) hP (fun _ _ _ => trivial) ?_)
    intro tr' s' answer hP'
    refine concludes_leaves (fun _ _ _ h => h) (hP'.mono ?_)
    rintro s v ⟨hcommits, hwatched⟩
    refine ⟨hcommits, ⟨_, hcommits⟩, fun _ hw => False.elim hw,
      fun _ _ hw => False.elim hw, fun _ answer' hanswer => ?_⟩
    cases hanswer
    exact hwatched
  | commit actor operationID | release actor operationID =>
    refine secure_return (secure_close (later ok) hP (fun _ _ _ => trivial) ?_)
    intro tr' s' answer hP'
    exact concludes_leaves (fun _ _ _ h => h)
      (hP'.mono fun s v hcommits => ⟨hcommits, ⟨_, hcommits⟩, fun _ hw => False.elim hw,
        fun _ _ hw => False.elim hw, False.elim⟩)

/-- Every task keeps to the changes that its locks allow, and leaves what its
postcondition says. -/
theorem secure_task (hadmits : Admits errandID ok) {s₀ : Tables} (hs₀ : Sane s₀)
    (hstarts : task.Starts ok s₀) (hevolves : Evolves (Commits hash ok) s₀ s) :
    Secure hash ok (Concludes (engine hash) (Commits hash ok) (task.Post hash errandID ok))
      (task.body errandID) {} s := by
  have hP : Ensures hash ok {} s fun s v => v = s ∧ Sane s :=
    ensures_start (hs₀.sane_evolves hevolves)
  cases task with
  | accept courier id expectedVersion now settings =>
    refine secure_return (secure_accept hadmits hP (fun _ _ _ => trivial) ?_ ?_)
    · intro tr' s' e hlog hP'
      refine concludes_leaves (fun _ _ _ h => h) (hP'.mono ?_)
      rintro s v ⟨rfl, -⟩
      have hnone : ∀ t, ¬ (Task.accept courier id expectedVersion now settings).Writes tr'.log t := by
        rintro t ⟨id, e, given, history, rest, -, hlog', -⟩
        rw [hlog'] at hlog
        simp at hlog
      exact ⟨.refl, ⟨[], .refl⟩, fun t hw => absurd hw (hnone t), fun t _ hw => absurd hw (hnone t),
        False.elim⟩
    · intro tr' s' stored id e given history rest t hgiven hlog hnext hP'
      refine concludes_leaves (fun _ _ _ h => h) (hP'.mono ?_)
      rintro s v ⟨-, happlies⟩
      refine ⟨.single happlies.change, ⟨_, .single happlies.change⟩, fun t' hwrites => ?_, ?_,
        False.elim⟩
      · obtain rfl := accept_writes hgiven hlog hnext hwrites
        exact ⟨_, s, v, e, .refl, happlies, .refl⟩
      · intro t₁ t₂ h₁ h₂ _
        exact (accept_writes hgiven hlog hnext h₁).trans (accept_writes hgiven hlog hnext h₂).symm
  | submit requesterID key prepared now =>
    change Secure hash ok _ (submit (errandID requesterID key) requesterID key prepared now >>=
      fun answer => Program.pure (TaskResult.submitted answer.1 answer.2)) {} s
    refine secure_return (secure_submit hadmits hP (fun _ _ _ => trivial) ?_ ?_)
    · intro tr' s' existing hrequester hkey hP'
      obtain ⟨hview, -, hstored⟩ := hP'.now
      refine ⟨by rw [hview]; exact .refl, hview, hrequester, hkey, hstored⟩
    · intro tr' s' details t row hdetails hnext hP'
      obtain ⟨-, hcreates⟩ := hP'.now
      exact ⟨.single hcreates.change, details, t, _, hdetails, hnext, hcreates⟩
  | job job => exact secure_job hs₀ hstarts hevolves

end Sound

end Rules

/-! ## Runs -/

section Runs

variable {hash : String → ℤ} {errandID : String → String → String}
  {ok : Tables → Errand → Transition → Prop} {w w' : Service}

/-- The worlds that a run from empty tables reaches. -/
abbrev Runs (hash : String → ℤ) (errandID : String → String → String)
    (ok : Tables → Errand → Transition → Prop) : Service → Prop :=
  World.Reachable (engine hash) (Task.body errandID) (Permits ok) {}

/-- The worlds that the run may go on to. -/
abbrev GoesOn (hash : String → ℤ) (errandID : String → String → String)
    (ok : Tables → Errand → Transition → Prop) : Service → Service → Prop :=
  ReflTransGen (World.Step (engine hash) (Task.body errandID) (Permits ok))

theorem starts_secure (hadmits : Admits errandID ok) (w : Service) (task : Task) (s : Tables)
    (hw : Evolves (Commits hash ok) {} w.store) (hstarts : Permits ok w (.start task))
    (hs : Evolves (Commits hash ok) w.store s) :
    Secure hash ok (Concludes (engine hash) (Commits hash ok) (task.Post hash errandID ok))
      (task.body errandID) {} s :=
  secure_task hadmits (sane_empty.sane_evolves hw) hstarts hs

theorem evolves_of_runs (hadmits : Admits errandID ok) (h : Runs hash errandID ok w) :
    Evolves (Commits hash ok) {} w.store :=
  (World.Reachable.protected (starts_secure hadmits) h).2

theorem sane_of_runs (hadmits : Admits errandID ok) (h : Runs hash errandID ok w) :
    Sane w.store :=
  sane_empty.sane_evolves (evolves_of_runs hadmits h)

/-- Decisions that need no transition decided beforehand. -/
def startsFree : Action Task → Bool
  | .start (.job (.create _ _)) | .start (.job (.apply _)) | .start (.job (.claimDue _ _ _ _)) =>
    false
  | _ => true

theorem starts_of_startsFree {task : Task} {s : Tables} (h : startsFree (.start task) = true) :
    task.Starts ok s := by
  cases task with
  | job job =>
    cases job with
    | create | apply | claimDue => cases h
    | _ => trivial
  | _ => trivial

/-- The worlds that runs of such decisions reach. -/
abbrev FreeRuns (hash : String → ℤ) (errandID : String → String → String) : Service → Prop :=
  World.Reachable (engine hash) (Task.body errandID) (fun _ a => startsFree a = true) {}

theorem runs_of_freeRuns (h : FreeRuns hash errandID w) : Runs hash errandID ok w := by
  refine h.mono fun w a ha => ?_
  cases a with
  | start task => exact starts_of_startsFree ha
  | _ => trivial

/-- A world that a schedule reaches, from a computation on it. -/
theorem exists_run (hash : String → ℤ) (errandID : String → String → String)
    (schedule : List (Action Task)) (p : Service → Bool)
    (h : ((World.initial {} : Service).performAll (engine hash) (Task.body errandID)
      (fun _ a => startsFree a) schedule).any p = true) :
    ∃ w, FreeRuns hash errandID w ∧ p w = true := by
  obtain ⟨w, hrun, hp⟩ := (Option.any_eq_true _ _).mp h
  exact ⟨w, World.reachable_of_performAll hrun, hp⟩

/-- A request to submit the sample errand. -/
def submitSample : Task :=
  .submit "auth0|requester" "55555555-5555-4555-8555-555555555555" (.ok sampleErrand.details) 0

/-- The sample errand is submitted. -/
def submitRun : List (Action Task) :=
  .start submitSample :: List.replicate 8 (.advance 0) ++ [.commit 0]

/-- A run in which an errand is stored. -/
theorem exists_submitted : ∃ (w : Service) (e : Errand),
    FreeRuns (fun _ => 0) (Orders.errandID fun _ _ => 0) w ∧ e ∈ w.store.errands := by
  obtain ⟨w, hrun, hw⟩ := exists_run (fun _ => 0) (Orders.errandID fun _ _ => 0) submitRun
    (fun w => !w.store.errands.isEmpty) (by decide +kernel)
  obtain ⟨e, he⟩ := List.exists_mem_of_ne_nil w.store.errands (by simpa using hw)
  exact ⟨w, e, hrun, he⟩

end Runs

end FocServices.Orders
