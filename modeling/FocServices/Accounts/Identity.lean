import FocServices.Accounts.Repository
import Mathlib.Data.List.Pairwise

/-!
# The identity of accounts

The statements of any number of calls are executed in any order, any of them may fail
with or without having taken effect, and a call may be lost at any point. Every statement
keeps the unique indexes and what a row says about its identity, and the bootstrap row
changes together with the account it names. A call relies on no more of the others.
-/

namespace FocServices.Accounts

open Txn

variable {texts : Texts} {c : Choice} {t : ℕ} {db db' : Db} {a b : Account}

/-! ## What holds between statements -/

/-- No unique index forbids the two rows together. -/
def Account.Apart (texts : Texts) (a b : Account) : Prop :=
  a.id ≠ b.id ∧ a.clashes texts b = false

theorem Account.Apart.symm (h : a.Apart texts b) : b.Apart texts a := by
  obtain ⟨hid, hclash⟩ := h
  refine ⟨hid.symm, ?_⟩
  simp only [clashes, Bool.or_eq_false_iff, beq_eq_false_iff_ne] at hclash ⊢
  exact ⟨⟨hclash.1.1.symm, hclash.1.2.symm⟩, hclash.2.symm⟩

instance : Std.Symm (Account.Apart texts) := ⟨fun _ _ h => h.symm⟩

theorem violation_eq_none {rows : List Account} :
    violation texts a rows = none ↔ ∀ b ∈ rows, a.Apart texts b := by
  simp only [violation, Account.Apart]
  split
  · next h =>
    obtain ⟨b, hb, hid⟩ := List.any_eq_true.mp h
    simp only [reduceCtorEq, false_iff, not_forall]
    exact ⟨b, hb, fun hapart => hapart.1 (beq_iff_eq.mp hid).symm⟩
  · next hid =>
    split
    · next h =>
      obtain ⟨b, hb, hclash⟩ := List.any_eq_true.mp h
      simp only [reduceCtorEq, false_iff, not_forall]
      exact ⟨b, hb, fun hapart => by simp [hapart.2] at hclash⟩
    · next hclash =>
      simp only [List.any_eq_true, not_exists, not_and, beq_iff_eq] at hid hclash
      simp only [true_iff]
      exact fun b hb => ⟨fun h => hid b hb h.symm, Bool.eq_false_iff.mpr (hclash b hb)⟩

/-- The subjects of the accounts that bootstrap calls have created. -/
def bootstrapped (rows : List Account) : List String :=
  (rows.filter (·.origin.isBootstrap)).map (·.auth0Subject)

/-- The invariant of the tables: the unique indexes, which see the rows of the open
transaction too, and a coordination row that agrees with the accounts. -/
structure Sound (texts : Texts) (db : Db) : Prop where
  apart : (db.accounts ++ db.pending).Pairwise (Account.Apart texts)
  inactive : ∀ a ∈ db.accounts, a.deletedAt.isSome → a.active = false
  recorded : bootstrapped db.accounts = db.bootstrap.bootstrapSubject.toList
  completed : db.bootstrap.completedAt.isSome = db.bootstrap.bootstrapSubject.isSome

theorem sound_empty : Sound texts .empty := ⟨.nil, fun _ h => (nomatch h), rfl, rfl⟩

namespace Sound

theorem eq_or_apart (hs : Sound texts db) (ha : a ∈ db.accounts) (hb : b ∈ db.accounts) :
    a = b ∨ a.Apart texts b := by
  by_cases h : a = b
  · exact Or.inl h
  · exact Or.inr (hs.apart.forall (List.mem_append_left _ ha)
      (List.mem_append_left _ hb) h)

theorem eq_of_id (hs : Sound texts db) (ha : a ∈ db.accounts) (hb : b ∈ db.accounts)
    (h : a.id = b.id) : a = b :=
  (hs.eq_or_apart ha hb).resolve_right fun hapart => hapart.1 h

theorem eq_of_clashes (hs : Sound texts db) (ha : a ∈ db.accounts) (hb : b ∈ db.accounts)
    (h : a.clashes texts b = true) : a = b :=
  (hs.eq_or_apart ha hb).resolve_right fun hapart => by simp [hapart.2] at h

theorem eq_of_subject (hs : Sound texts db) (ha : a ∈ db.accounts) (hb : b ∈ db.accounts)
    (h : a.auth0Subject = b.auth0Subject) : a = b :=
  hs.eq_of_clashes ha hb (by simp [Account.clashes, h])

end Sound

/-- What no statement changes of a row. -/
structure Account.Same (a b : Account) : Prop where
  id : b.id = a.id
  subject : b.auth0Subject = a.auth0Subject
  username : b.username = a.username
  email : b.email = a.email
  origin : b.origin = a.origin

theorem Account.Same.refl (a : Account) : a.Same a := ⟨rfl, rfl, rfl, rfl, rfl⟩

/-- What one statement guarantees: no row disappears, each keeps its identity, a deleted
row stays as it is, and the transaction of another call is not touched. -/
structure Guarantee (t : ℕ) (db db' : Db) : Prop where
  rows : ∀ a ∈ db.accounts, ∃ b ∈ db'.accounts, a.Same b ∧ (a.deletedAt.isSome → b = a)
  boot : ∀ tx, db.boot = some tx → tx.call ≠ t → db'.boot = some tx ∧ db'.bootstrap = db.bootstrap

theorem Guarantee.refl (t : ℕ) (db : Db) : Guarantee t db db :=
  ⟨fun a ha => ⟨a, ha, .refl a, fun _ => rfl⟩, fun _ h _ => ⟨h, rfl⟩⟩

/-- A statement that keeps the invariant and the guarantee. -/
def Keeps (texts : Texts) (t : ℕ) (db db' : Db) : Prop := Sound texts db' ∧ Guarantee t db db'

theorem Sound.keeps (hs : Sound texts db) : Keeps texts t db db := ⟨hs, .refl t db⟩

/-! ## Statements -/

theorem bootstrapped_append (rows rows' : List Account) :
    bootstrapped (rows ++ rows') = bootstrapped rows ++ bootstrapped rows' := by
  simp [bootstrapped]

theorem bootstrapped_updateRow {id : String} {f : Account → Account}
    (hf : ∀ a : Account, a.Same (f a)) (rows : List Account) :
    bootstrapped (updateRow (·.id) id f rows) = bootstrapped rows := by
  induction rows with
  | nil => rfl
  | cons a rows ih =>
    have hone : bootstrapped [if a.id = id then f a else a] = bootstrapped [a] := by
      split
      · simp only [bootstrapped, List.filter_cons, List.filter_nil, (hf a).origin]
        split
        · simp only [List.map_cons, (hf a).subject, List.map_nil]
        · rfl
      · rfl
    calc bootstrapped (updateRow (·.id) id f (a :: rows))
        = bootstrapped [if a.id = id then f a else a] ++ bootstrapped (updateRow (·.id) id f rows) :=
          bootstrapped_append [_] _
      _ = bootstrapped (a :: rows) := by rw [hone, ih, ← bootstrapped_append]; rfl

/-- An update of a row that is not deleted, which leaves its identity alone. -/
theorem Sound.update (hs : Sound texts db) (ha : a ∈ db.accounts) (hlive : a.deletedAt = none)
    {f : Account → Account} (hf : ∀ a : Account, a.Same (f a))
    (hinactive : (f a).deletedAt.isSome → (f a).active = false) :
    Keeps texts t db { db with accounts := updateRow (·.id) a.id f db.accounts } := by
  have hone : ∀ b ∈ db.accounts, b.id = a.id → b = a := fun b hb hid => hs.eq_of_id hb ha hid
  refine ⟨⟨?_, fun b hb => ?_, ?_, hs.completed⟩, ⟨fun b hb => ?_, fun _ h _ => ⟨h, rfl⟩⟩⟩
  · -- the new rows are the images of the old ones under a map that keeps the keys
    have hsame : ∀ b : Account, b.Same (if b.id = a.id then f b else b) := by
      intro b
      split
      · exact hf b
      · exact .refl b
    obtain ⟨haccounts, hpending, hbetween⟩ := List.pairwise_append.mp hs.apart
    refine List.pairwise_append.mpr ⟨?_, hpending, fun b hb p hp => ?_⟩
    · refine List.pairwise_map.mpr (haccounts.imp fun {x y} hxy => ?_)
      simpa only [Account.Apart, Account.clashes, (hsame x).id, (hsame y).id, (hsame x).username,
        (hsame y).username, (hsame x).email, (hsame y).email, (hsame x).subject,
        (hsame y).subject] using hxy
    · obtain ⟨b₀, hb₀, rfl⟩ := mem_updateRow.mp hb
      simpa only [Account.Apart, Account.clashes, (hsame b₀).id, (hsame b₀).username,
        (hsame b₀).email, (hsame b₀).subject] using hbetween b₀ hb₀ p hp
  · obtain ⟨b₀, hb₀, rfl⟩ := mem_updateRow.mp hb
    split
    · next hid =>
      rw [hone b₀ hb₀ hid]
      exact hinactive
    · exact hs.inactive b₀ hb₀
  · exact (bootstrapped_updateRow hf _).trans hs.recorded
  · refine ⟨_, mem_updateRow.mpr ⟨b, hb, rfl⟩, ?_⟩
    split
    · next hid =>
      refine ⟨hf b, fun hdeleted => ?_⟩
      rw [hone b hb hid, hlive] at hdeleted
      cases hdeleted
    · exact ⟨.refl b, fun _ => rfl⟩

theorem Db.tx_eq_some {tx : BootTx} (h : db.tx t = some tx) : db.boot = some tx ∧ tx.call = t := by
  obtain ⟨hboot, hcall⟩ := Option.filter_eq_some_iff.mp h
  exact ⟨hboot, beq_iff_eq.mp hcall⟩

theorem Db.pending_of_boot {tx : BootTx} (h : db.boot = some tx) : db.pending = tx.accounts := by
  simp [pending, h]

/-- The open transaction changes what it has not committed. -/
theorem Sound.inTx (hs : Sound texts db) {tx tx' : BootTx} (htx : db.tx t = some tx)
    (hrows : (db.accounts ++ tx'.accounts).Pairwise (Account.Apart texts)) :
    Keeps texts t db { db with boot := some tx' } := by
  obtain ⟨hboot, hcall⟩ := Db.tx_eq_some htx
  refine ⟨⟨hrows, hs.inactive, hs.recorded, hs.completed⟩,
    (Guarantee.refl t db).rows, fun tx₀ h₀ hne => ?_⟩
  rw [hboot] at h₀
  cases h₀
  exact absurd hcall hne

theorem Sound.inTx_same (hs : Sound texts db) {tx tx' : BootTx} (htx : db.tx t = some tx)
    (hsame : tx'.accounts = tx.accounts) : Keeps texts t db { db with boot := some tx' } := by
  refine hs.inTx htx ?_
  rw [hsame, ← Db.pending_of_boot (Db.tx_eq_some htx).1]
  exact hs.apart

theorem Sound.insert (hs : Sound texts db) (horigin : a.origin.isBootstrap = false)
    (hlive : a.deletedAt = none) (hfresh : ∀ b ∈ db.accounts ++ db.pending, a.Apart texts b) :
    Keeps texts t db { db with accounts := db.accounts ++ [a] } := by
  refine ⟨⟨?_, fun b hb hdeleted => ?_, ?_, hs.completed⟩,
    ⟨fun b hb => ⟨b, List.mem_append_left _ hb, .refl b, fun _ => rfl⟩, fun _ h _ => ⟨h, rfl⟩⟩⟩
  · have hcons : (a :: (db.accounts ++ db.pending)).Pairwise (Account.Apart texts) :=
      List.pairwise_cons.mpr ⟨hfresh, hs.apart⟩
    have hperm : (a :: (db.accounts ++ db.pending)).Perm (db.accounts ++ [a] ++ db.pending) := by
      rw [List.append_assoc, List.singleton_append]
      exact List.perm_middle.symm
    exact hcons.perm hperm fun h => h.symm
  · rcases List.mem_append.mp hb with hb | hb
    · exact hs.inactive b hb hdeleted
    · rw [List.mem_singleton.mp hb, hlive] at hdeleted
      cases hdeleted
  · have hnone : bootstrapped [a] = [] := by simp [bootstrapped, horigin]
    rw [bootstrapped_append, hnone, List.append_nil]
    exact hs.recorded

/-- Every statement but a commit keeps the invariant and the guarantee. -/
theorem Sound.run (hs : Sound texts db) {q : Query} (hq : q ≠ .commit) {reply : q.Reply}
    (h : run texts c t q db = some (reply, db')) : Keeps texts t db db' := by
  cases q with
  | findByAuth0Subject subject =>
    cases Option.some.inj h
    exact hs.keeps
  | insertAuth0 input =>
    simp only [Accounts.run] at h
    split at h
    · cases Option.some.inj h
      exact hs.keeps
    split at h
    · cases Option.some.inj h
      exact hs.keeps
    split at h
    · cases h
    split at h
    · cases Option.some.inj h
      exact hs.keeps
    · next haccounts =>
      split at h
      · cases h
      · next hpending =>
        cases Option.some.inj h
        refine hs.insert rfl rfl fun b hb => ?_
        rcases List.mem_append.mp hb with hb | hb
        · exact violation_eq_none.mp haccounts b hb
        · exact violation_eq_none.mp (Option.not_isSome_iff_eq_none.mp hpending) b hb
  | findByID id =>
    cases Option.some.inj h
    exact hs.keeps
  | updateProfile id patch =>
    simp only [Accounts.run] at h
    split at h
    · cases Option.some.inj h
      exact hs.keeps
    · next a hfind =>
      split at h
      · cases Option.some.inj h
        exact hs.keeps
      · cases Option.some.inj h
        have hwhere := List.find?_some hfind
        simp only [Bool.and_eq_true, beq_iff_eq, Option.isNone_iff_eq_none] at hwhere
        obtain ⟨⟨rfl, hlive⟩, -⟩ := hwhere
        refine hs.update (List.mem_of_find?_eq_some hfind) hlive
          (fun a => ⟨rfl, rfl, rfl, rfl, rfl⟩) fun hdeleted => ?_
        simp only [Account.edit, hlive, Option.isSome_none, Bool.false_eq_true] at hdeleted
  | softDelete id =>
    simp only [Accounts.run] at h
    split at h
    · cases Option.some.inj h
      exact hs.keeps
    · next a hfind =>
      cases Option.some.inj h
      have hwhere := List.find?_some hfind
      simp only [Bool.and_eq_true, beq_iff_eq, Option.isNone_iff_eq_none] at hwhere
      obtain ⟨rfl, hlive⟩ := hwhere
      exact hs.update (List.mem_of_find?_eq_some hfind) hlive
        (fun a => ⟨rfl, rfl, rfl, rfl, rfl⟩) fun _ => rfl
  | userInfo accessToken =>
    cases Option.some.inj h
    exact hs.keeps
  | beginTx =>
    cases Option.some.inj h
    exact hs.keeps
  | lockBootstrap =>
    simp only [Accounts.run] at h
    split at h
    · next hboot =>
      cases Option.some.inj h
      have hpending : db.pending = [] := by simp [Db.pending, hboot]
      refine ⟨⟨?_, hs.inactive, hs.recorded, hs.completed⟩, (Guarantee.refl t db).rows,
        fun tx htx => by rw [hboot] at htx; cases htx⟩
      have happart := hs.apart
      rwa [hpending] at happart
    · cases h
  | bootstrapState =>
    simp only [Accounts.run] at h
    split at h <;> cases Option.some.inj h <;> exact hs.keeps
  | insertSuperAdmin input =>
    simp only [Accounts.run] at h
    split at h
    · cases Option.some.inj h
      exact hs.keeps
    · next tx htx =>
      split at h
      · cases Option.some.inj h
        exact hs.keeps
      split at h
      · cases Option.some.inj h
        exact hs.keeps
      · next hfresh =>
        cases Option.some.inj h
        refine hs.inTx htx ?_
        rw [← List.append_assoc]
        refine List.pairwise_append.mpr ⟨?_, List.pairwise_singleton _ _, fun b hb x hx => ?_⟩
        · rw [← Db.pending_of_boot (Db.tx_eq_some htx).1]
          exact hs.apart
        · rw [List.mem_singleton.mp hx]
          exact (violation_eq_none.mp hfresh b hb).symm
  | recordSubject subject =>
    simp only [Accounts.run] at h
    split at h
    · cases Option.some.inj h
      exact hs.keeps
    · next tx htx =>
      cases Option.some.inj h
      split
      · exact hs.keeps
      · exact hs.inTx_same htx rfl
  | markCompleted =>
    simp only [Accounts.run] at h
    split at h
    · cases Option.some.inj h
      exact hs.keeps
    · next tx htx =>
      split at h
      · cases Option.some.inj h
        exact hs.keeps
      · cases Option.some.inj h
        exact hs.inTx_same htx rfl
  | commit => exact absurd rfl hq

/-- A statement that is executed fails, or has no effect and fails, or is executed. -/
theorem exec_cases {q : Query} {reply : q.Reply} (h : exec texts c t q db = some (reply, db')) :
    run texts c t q db = some (reply, db') ∨
      (∃ e, reply = .error e) ∧ (db' = db ∨ ∃ reply', run texts c t q db = some (reply', db')) := by
  simp only [exec] at h
  split at h
  · exact Or.inl h
  · next f _ =>
    right
    split at h
    · obtain ⟨answer, hanswer, heq⟩ := Option.map_eq_some_iff.mp h
      cases heq
      exact ⟨⟨_, rfl⟩, Or.inr ⟨answer.1, hanswer⟩⟩
    · cases Option.some.inj h
      exact ⟨⟨_, rfl⟩, Or.inl rfl⟩

theorem run_of_exec {q : Query} {v : q.Value} (h : exec texts c t q db = some (.ok v, db')) :
    run texts c t q db = some (.ok v, db') := by
  rcases exec_cases h with h | ⟨⟨e, he⟩, -⟩
  · exact h
  · cases he

theorem Sound.exec (hs : Sound texts db) {q : Query} (hq : q ≠ .commit) {reply : q.Reply}
    (h : exec texts c t q db = some (reply, db')) : Keeps texts t db db' := by
  rcases exec_cases h with h | ⟨-, rfl | ⟨_, h⟩⟩
  · exact hs.run hq h
  · exact hs.keeps
  · exact hs.run hq h

theorem guarantee_rollback (t : ℕ) (db : Db) : Guarantee t db (rollback t db) := by
  unfold rollback
  split
  · next h =>
    obtain ⟨tx, htx⟩ := Option.isSome_iff_exists.mp h
    obtain ⟨hboot, hcall⟩ := Db.tx_eq_some htx
    refine ⟨(Guarantee.refl t db).rows, fun tx₀ h₀ hne => ?_⟩
    rw [hboot] at h₀
    cases h₀
    exact absurd hcall hne
  · exact .refl t db

theorem Sound.rollback (hs : Sound texts db) : Sound texts (rollback t db) := by
  unfold Accounts.rollback
  split
  · refine ⟨?_, hs.inactive, hs.recorded, hs.completed⟩
    exact (List.pairwise_append.mp hs.apart).1.sublist (by simp [Db.pending])
  · exact hs

/-! ## Calls -/

/-- The rest of call `t` keeps the tables sound and ends as `post` says, where the tables
satisfy `P` when its statements are executed. -/
def Assured (texts : Texts) (P : Db → Prop) (t : ℕ) {α : Type} (post : Except Err α → Db → Prop)
    (p : Code α) (db : Db) : Prop :=
  p.Ensures (service texts) (fun db => Sound texts db ∧ P db) Guarantee t post db

/-- Code that does not commit. -/
def NoCommit {α : Type} : Code α → Prop
  | .pure _ | .fail _ => True
  | .stmt q next => q ≠ .commit ∧ ∀ reply, NoCommit (next reply)

section

variable {P : Db → Prop} {α β : Type} {post : Except Err α → Db → Prop}

theorem Assured.mono {post' : Except Err α → Db → Prop} {p : Code α}
    (h : Assured texts P t post p db) (himp : ∀ r db, post r db → post' r db) :
    Assured texts P t post' p db := ensures_mono h himp

theorem Assured.bind {mid : Except Err β → Db → Prop} {p : Code β} {f : β → Code α}
    (h : Assured texts P t mid p db)
    (hok : ∀ b db, mid (.ok b) db → Assured texts P t post (f b) db)
    (herr : ∀ e db, mid (.error e) db → post (.error e) db) :
    Assured texts P t post (p >>= f) db := by
  refine ensures_bind.mpr (ensures_mono h fun r db hr => ?_)
  cases r with
  | ok b => exact hok b db hr
  | error e => exact herr e db hr

variable (hP : ∀ u db db', Guarantee u db db' → P db → P db')

include hP

/-- The rule of a statement that is not a commit. -/
theorem assured_stmt {q : Query} (hq : q ≠ .commit) {next : q.Reply → Code α}
    (h : ∀ c db₁ reply db₂, Meanwhile Guarantee t db db₁ → Sound texts db₁ → P db₁ →
      exec texts c t q db₁ = some (reply, db₂) → Assured texts P t post (next reply) db₂) :
    Assured texts P t post (.stmt q next) db := by
  rintro c db₁ reply db₂ hmeanwhile ⟨hs, hp⟩ hexec
  obtain ⟨hs', hG⟩ := hs.exec hq hexec
  exact ⟨⟨hs', hP t _ _ hG hp⟩, hG, h c db₁ reply db₂ hmeanwhile hs hp hexec⟩

/-- Code that does not commit, whatever it returns. -/
theorem assured_of_noCommit {p : Code α} (h : NoCommit p) :
    Assured texts P t (fun _ _ => True) p db := by
  induction p generalizing db with
  | pure a => trivial
  | fail e => trivial
  | stmt q next ih => exact assured_stmt hP h.1 fun _ _ reply _ _ _ _ _ => ih reply (h.2 reply)

end

theorem NoCommit.bind {α β : Type} {p : Code β} {f : β → Code α} (hp : NoCommit p)
    (hf : ∀ b, NoCommit (f b)) : NoCommit (p >>= f) := by
  induction p with
  | pure b => exact hf b
  | fail e => trivial
  | stmt q next ih => exact ⟨hp.1, fun reply => ih reply (hp.2 reply)⟩

theorem orFail_noCommit {α : Type} {f : RepoError → Err} (reply : Except RepoError α) :
    NoCommit (orFail f reply) := by
  cases reply <;> trivial

theorem ask_noCommit {q : Query} (hq : q ≠ .commit) : NoCommit (ask q) := ⟨hq, fun _ => trivial⟩

theorem findByID_noCommit (id : String) : NoCommit (findByID id) :=
  (orFail_noCommit _).bind fun _ => (ask_noCommit (by simp)).bind fun reply => orFail_noCommit reply

theorem activeAccount_noCommit (id : String) : NoCommit (activeAccount id) := by
  unfold activeAccount
  split
  · trivial
  · refine (findByID_noCommit id).bind fun u => ?_
    split <;> trivial

theorem softDelete_noCommit (id : String) : NoCommit (softDelete id) := by
  refine (orFail_noCommit _).bind fun uuid => (ask_noCommit (by simp)).bind fun reply => ?_
  refine (orFail_noCommit reply).bind fun affected => ?_
  split <;> trivial

theorem deleteAccount_noCommit (id : String) (confirmed : Bool) :
    NoCommit (deleteAccount id confirmed) := by
  unfold deleteAccount
  split
  · trivial
  · exact (activeAccount_noCommit id).bind fun _ => softDelete_noCommit id

/-! ### Accounts of a subject or an id -/

/-- At some moment of the call the tables had a row like this that was not deleted. -/
def Seen (texts : Texts) (P : Db → Prop) (row : Account → Prop) : Prop :=
  ∃ db, Sound texts db ∧ P db ∧ ∃ a ∈ db.accounts, row a ∧ a.deletedAt = none

/-- The account of a subject has this id. -/
def Known (subject id : String) (db : Db) : Prop :=
  ∃ a ∈ db.accounts, a.auth0Subject = subject ∧ a.id = id

/-- A call created the account of a subject. -/
def CreatedBy (subject : String) (t : ℕ) (db : Db) : Prop :=
  ∃ a ∈ db.accounts, a.auth0Subject = subject ∧ a.origin = .provision t

theorem Guarantee.known {u : ℕ} {subject id : String} (hG : Guarantee u db db')
    (h : Known subject id db) : Known subject id db' := by
  obtain ⟨a, ha, hsubject, hid⟩ := h
  obtain ⟨b, hb, hsame, -⟩ := hG.rows a ha
  exact ⟨b, hb, hsame.subject.trans hsubject, hsame.id.trans hid⟩

theorem Guarantee.createdBy {u : ℕ} {subject : String} (hG : Guarantee u db db')
    (h : CreatedBy subject t db) : CreatedBy subject t db' := by
  obtain ⟨a, ha, hsubject, horigin⟩ := h
  obtain ⟨b, hb, hsame, -⟩ := hG.rows a ha
  exact ⟨b, hb, hsame.subject.trans hsubject, hsame.origin.trans horigin⟩

/-- What a successful sign-in of a subject has found or created. -/
structure SignedIn (texts : Texts) (P : Db → Prop) (t : ℕ) (subject id : String) (created : Bool)
    (db : Db) : Prop where
  known : Known subject id db
  creation : created = true → CreatedBy subject t db
  seen : Seen texts P fun a => a.auth0Subject = subject ∧ a.id = id

/-- A query for one row finds a row of the table. -/
theorem scanUser_find {rows : List Account} {p : Account → Bool} {u : User}
    (h : scanUser (rows.find? p) = .ok u) : ∃ a ∈ rows, p a = true ∧ a.toUser = u := by
  unfold scanUser at h
  split at h
  · next a hfind =>
    cases h
    exact ⟨a, List.mem_of_find?_eq_some hfind, List.find?_some hfind, rfl⟩
  · cases h

theorem exec_findByAuth0Subject {subject : String} {u : User}
    (h : exec texts c t (.findByAuth0Subject subject) db = some (.ok u, db')) :
    db' = db ∧ ∃ a ∈ db.accounts, a.auth0Subject = subject ∧ a.deletedAt = none ∧ a.toUser = u := by
  have hrun := run_of_exec h
  simp only [run, Option.some.injEq, Prod.mk.injEq] at hrun
  obtain ⟨hscan, rfl⟩ := hrun
  obtain ⟨a, ha, hp, hu⟩ := scanUser_find hscan
  simp only [Bool.and_eq_true, beq_iff_eq, Option.isNone_iff_eq_none] at hp
  exact ⟨rfl, a, ha, hp.1, hp.2, hu⟩

theorem exec_findByID {id : String} {u : User}
    (h : exec texts c t (.findByID id) db = some (.ok u, db')) :
    ∃ a ∈ db.accounts, a.id = id ∧ a.deletedAt = none ∧ a.toUser = u := by
  have hrun := run_of_exec h
  simp only [run, Option.some.injEq, Prod.mk.injEq] at hrun
  obtain ⟨a, ha, hp, hu⟩ := scanUser_find hrun.1
  simp only [Bool.and_eq_true, beq_iff_eq, Option.isNone_iff_eq_none] at hp
  exact ⟨a, ha, hp.1, hp.2, hu⟩

theorem exec_insertAuth0 {input : CreateAuth0User} {u : User}
    (h : exec texts c t (.insertAuth0 input) db = some (.ok u, db')) :
    ∃ a ∈ db'.accounts, a.auth0Subject = input.subject ∧ a.deletedAt = none ∧ a.toUser = u ∧
      a.origin = .provision t := by
  have hrun := run_of_exec h
  simp only [run] at hrun
  split at hrun
  · cases Option.some.inj hrun
  split at hrun
  · cases Option.some.inj hrun
  split at hrun
  · cases hrun
  split at hrun
  · cases Option.some.inj hrun
  split at hrun
  · cases hrun
  · cases Option.some.inj hrun
    exact ⟨_, List.mem_append_right _ (List.mem_singleton_self _), rfl, rfl, rfl, rfl⟩

theorem exec_updateProfile {id : String} {patch : ProfilePatch} {u : User}
    (h : exec texts c t (.updateProfile id patch) db = some (.ok u, db')) :
    ∃ a ∈ db.accounts, a.id = id ∧ a.deletedAt = none ∧ a.id = u.id := by
  have hrun := run_of_exec h
  simp only [run] at hrun
  split at hrun
  · cases Option.some.inj hrun
  · next a hfind =>
    split at hrun
    · cases Option.some.inj hrun
    · cases Option.some.inj hrun
      have hwhere := List.find?_some hfind
      simp only [Bool.and_eq_true, beq_iff_eq, Option.isNone_iff_eq_none] at hwhere
      exact ⟨a, List.mem_of_find?_eq_some hfind, hwhere.1.1, hwhere.1.2, rfl⟩

theorem provisioned_subject {subject : String} {identity : UserInfo} {input : CreateAuth0User}
    (h : provisioned texts subject identity = .ok input) : input.subject = subject := by
  unfold provisioned at h
  simp only [check_eq_ok] at h
  obtain ⟨-, -, -, hinput⟩ := h
  cases hinput
  rfl

section

variable {P : Db → Prop} (hP : ∀ u db db', Guarantee u db db' → P db → P db')

include hP

theorem createAuth0_assured (input : CreateAuth0User) :
    Assured texts P t (fun r db => ∀ made, r = .ok (.ok made) →
      SignedIn texts P t input.subject made.1.id made.2 db) (createAuth0 input) db := by
  unfold createAuth0 ask
  simp only [Program.call_bind, Program.pure_eq]
  refine assured_stmt hP (by simp) fun c db₁ reply db₂ _ hs₁ hp₁ hexec => ?_
  split
  · next u =>
    rintro made hmade
    cases hmade
    obtain ⟨a, ha, hsubject, hlive, rfl, horigin⟩ := exec_insertAuth0 hexec
    obtain ⟨hs₂, hG⟩ := hs₁.exec (by simp) hexec
    exact ⟨⟨a, ha, hsubject, rfl⟩, fun _ => ⟨a, ha, hsubject, horigin⟩,
      db₂, hs₂, hP t _ _ hG hp₁, a, ha, ⟨hsubject, rfl⟩, hlive⟩
  · refine assured_stmt hP (by simp) fun c db₃ reply db₄ _ hs₃ hp₃ hexec => ?_
    split
    · next u =>
      rintro made hmade
      cases hmade
      obtain ⟨rfl, a, ha, hsubject, hlive, rfl⟩ := exec_findByAuth0Subject hexec
      exact ⟨⟨a, ha, hsubject, rfl⟩, Bool.noConfusion, db₄, hs₃, hp₃, a, ha, ⟨hsubject, rfl⟩, hlive⟩
    · exact fun made h => by cases h
    · exact fun made h => by cases h
  · exact fun made h => by cases h

theorem provision_assured (subject accessToken : String) :
    Assured texts P t (fun r db => ∀ made, r = .ok made →
      SignedIn texts P t subject made.1.id made.2 db) (provision texts subject accessToken) db := by
  unfold provision
  split
  · exact fun made h => by cases h
  unfold ask
  simp only [Program.call_bind]
  refine assured_stmt hP (by simp) fun c db₁ reply db₂ _ hs₁ hp₁ hexec => ?_
  split
  · next u =>
    split
    · rintro made hmade
      cases hmade
      obtain ⟨rfl, a, ha, hsubject, hlive, rfl⟩ := exec_findByAuth0Subject hexec
      exact ⟨⟨a, ha, hsubject, rfl⟩, Bool.noConfusion, db₂, hs₁, hp₁, a, ha, ⟨hsubject, rfl⟩, hlive⟩
    · exact fun made h => by cases h
  · refine assured_stmt hP (by simp) fun c db₃ reply db₄ _ hs₃ hp₃ hexec => ?_
    split
    · exact fun made h => by cases h
    · next identity =>
      cases hinput : provisioned texts subject identity with
      | error e => exact fun made h => by cases h
      | ok input =>
        rw [Program.ofExcept_ok, Program.pure_bind]
        have hsubject : input.subject = subject := provisioned_subject hinput
        refine (createAuth0_assured hP input).bind (fun b db hb => ?_) fun e db _ made h => by cases h
        split
        · exact fun made h => by cases h
        · exact fun made h => by cases h
        · next made =>
          rintro made' hmade'
          cases hmade'
          rw [← hsubject]
          exact hb made rfl
  · exact fun made h => by cases h

theorem requireActiveAccount_assured (subject : String) :
    Assured texts P t (fun r _ => ∀ id, r = .ok id →
      Seen texts P fun a => a.auth0Subject = subject ∧ a.id = id)
      (requireActiveAccount subject) db := by
  unfold requireActiveAccount ask
  simp only [Program.call_bind]
  refine assured_stmt hP (by simp) fun c db₁ reply db₂ _ hs₁ hp₁ hexec => ?_
  split
  · exact fun id h => by cases h
  · exact fun id h => by cases h
  · split
    · rintro id hid
      cases hid
      obtain ⟨-, a, ha, hsubject, hlive, rfl⟩ := exec_findByAuth0Subject hexec
      exact ⟨db₁, hs₁, hp₁, a, ha, ⟨hsubject, rfl⟩, hlive⟩
    · exact fun id h => by cases h

/-- A successful query by id has seen the account that the id names. -/
theorem findByID_assured (id : String) :
    Assured texts P t (fun r _ => ∀ u, r = .ok u →
      Seen texts P fun a => scanUUID id = some a.id ∧ a.id = u.id) (findByID id) db := by
  unfold findByID parseID ask
  cases hid : scanUUID id with
  | none => exact fun u h => by cases h
  | some uuid =>
    simp only [orFail, Program.pure_bind, Program.call_bind]
    refine assured_stmt hP (by simp) fun c db₁ reply db₂ _ hs₁ hp₁ hexec => ?_
    cases reply with
    | error e => exact fun u h => by cases h
    | ok v =>
      rintro u hu
      cases hu
      obtain ⟨a, ha, rfl, hlive, rfl⟩ := exec_findByID hexec
      exact ⟨db₁, hs₁, hp₁, a, ha, ⟨rfl, rfl⟩, hlive⟩

theorem updateProfile_assured (id : String) (patch : ProfilePatch) :
    Assured texts P t (fun r _ => ∀ u, r = .ok u →
      Seen texts P fun a => scanUUID id = some a.id ∧ a.id = u.id) (updateProfile id patch) db := by
  unfold updateProfile parseID ask
  cases hid : scanUUID id with
  | none => exact fun u h => by cases h
  | some uuid =>
    simp only [orFail, Program.pure_bind, Program.call_bind]
    refine assured_stmt hP (by simp) fun c db₁ reply db₂ _ hs₁ hp₁ hexec => ?_
    split
    · refine (findByID_assured hP id).bind (fun existing db _ => ?_) fun e db _ u h => by cases h
      split
      · exact fun u h => by cases h
      · exact fun u h => by cases h
    · exact fun u h => by cases h
    · rintro u hu
      cases hu
      obtain ⟨a, ha, rfl, hlive, hidu⟩ := exec_updateProfile hexec
      exact ⟨db₁, hs₁, hp₁, a, ha, ⟨rfl, hidu⟩, hlive⟩

theorem updateAccount_assured (id : String) (patch : ProfilePatch) :
    Assured texts P t (fun r _ => ∀ p, r = .ok p →
      Seen texts P fun a => scanUUID id = some a.id ∧ a.id = p.id) (updateAccount id patch) db := by
  unfold updateAccount
  split
  · exact fun p h => by cases h
  split
  · exact fun p h => by cases h
  split
  · exact fun p h => by cases h
  have hactive : Assured texts P t (fun _ _ => True) (activeAccount id) db :=
    assured_of_noCommit hP (activeAccount_noCommit id)
  refine hactive.bind (fun _ db _ => ?_) fun e db _ p h => by cases h
  refine (updateProfile_assured hP id patch).bind (fun u db hu => ?_) fun e db _ p h => by cases h
  rintro p hp
  cases hp
  exact hu u rfl

end

/-! ### Bootstrap -/

/-- What the open transaction of call `t` may commit: nothing, or the one account together
with its record. -/
def Ready (t : ℕ) (db : Db) : Prop :=
  ∃ tx, db.boot = some tx ∧ tx.call = t ∧
    (tx.accounts = [] ∧ tx.state = db.bootstrap ∨
      ∃ a now, tx.accounts = [a] ∧ a.origin.isBootstrap = true ∧ a.deletedAt = none ∧
        db.bootstrap.completedAt = none ∧ tx.state = ⟨some now, some a.auth0Subject⟩)

/-- Nothing happens to the transaction of a call while others execute statements. -/
theorem Guarantee.holding {tx : BootTx} (hboot : db.boot = some tx) (hcall : tx.call = t)
    (h : Meanwhile Guarantee t db db') : db'.boot = some tx ∧ db'.bootstrap = db.bootstrap := by
  refine h.keeps (P := fun db' => db'.boot = some tx ∧ db'.bootstrap = db.bootstrap) ?_ ⟨hboot, rfl⟩
  rintro u db₁ db₂ hne hG ⟨hboot₁, hstate₁⟩
  obtain ⟨hboot₂, hstate₂⟩ := hG.boot tx hboot₁ (hcall ▸ hne.symm)
  exact ⟨hboot₂, hstate₂.trans hstate₁⟩

theorem Ready.meanwhile (hready : Ready t db) (h : Meanwhile Guarantee t db db') : Ready t db' := by
  obtain ⟨tx, hboot, hcall, hcases⟩ := hready
  obtain ⟨hboot', hstate'⟩ := Guarantee.holding hboot hcall h
  exact ⟨tx, hboot', hcall, by rwa [hstate']⟩

theorem Db.tx_of_boot {tx : BootTx} (hboot : db.boot = some tx) (hcall : tx.call = t) :
    db.tx t = some tx := by
  simp [Db.tx, hboot, hcall]

theorem Sound.committed (hs : Sound texts db) (hready : Ready t db) {reply : Except RepoError Unit}
    (h : Accounts.run texts c t .commit db = some (reply, db')) : Keeps texts t db db' := by
  obtain ⟨tx, hboot, hcall, hcases⟩ := hready
  simp only [Accounts.run, Db.tx_of_boot hboot hcall] at h
  cases Option.some.inj h
  have hrows : ∀ b ∈ db.accounts, ∃ b' ∈ db.accounts ++ tx.accounts,
      b.Same b' ∧ (b.deletedAt.isSome → b' = b) :=
    fun b hb => ⟨b, List.mem_append_left _ hb, .refl b, fun _ => rfl⟩
  have hown : ∀ tx₀, db.boot = some tx₀ → tx₀.call ≠ t →
      (none : Option BootTx) = some tx₀ ∧ tx.state = db.bootstrap := by
    intro tx₀ h₀ hne
    rw [hboot] at h₀
    cases h₀
    exact absurd hcall hne
  have happart : (db.accounts ++ tx.accounts ++ []).Pairwise (Account.Apart texts) := by
    rw [List.append_nil, ← Db.pending_of_boot hboot]
    exact hs.apart
  rcases hcases with ⟨hnone, hstate⟩ | ⟨a, now, hone, horigin, hlive, hopen, hstate⟩
  · refine ⟨⟨happart, ?_, ?_, ?_⟩, hrows, hown⟩
    · simpa only [hnone, List.append_nil] using hs.inactive
    · simpa only [hnone, List.append_nil, hstate] using hs.recorded
    · simpa only [hstate] using hs.completed
  · refine ⟨⟨happart, fun b hb hdeleted => ?_, ?_, by rw [hstate]; rfl⟩, hrows, hown⟩
    · rcases List.mem_append.mp hb with hb | hb
      · exact hs.inactive b hb hdeleted
      · rw [hone, List.mem_singleton] at hb
        rw [hb, hlive] at hdeleted
        cases hdeleted
    · -- no account was recorded before, so the new one is the only one
      have hfirst : db.bootstrap.bootstrapSubject = none := by
        have hcompleted := hs.completed
        rw [hopen] at hcompleted
        exact Option.not_isSome_iff_eq_none.mp (by simp [← hcompleted])
      have hbefore := hs.recorded
      rw [hfirst] at hbefore
      have hnew : bootstrapped [a] = [a.auth0Subject] := by simp [bootstrapped, horigin]
      simp only [bootstrapped_append, hone, hbefore, hnew, hstate, Option.toList, List.nil_append]

theorem Sound.commit (hs : Sound texts db) (hready : Ready t db) {reply : Except RepoError Unit}
    (h : Accounts.exec texts c t .commit db = some (reply, db')) : Keeps texts t db db' := by
  rcases exec_cases h with h | ⟨-, rfl | ⟨_, h⟩⟩
  · exact hs.committed hready h
  · exact hs.keeps
  · exact hs.committed hready h

theorem exec_lockBootstrap {v : Unit}
    (h : exec texts c t .lockBootstrap db = some (.ok v, db')) :
    db'.boot = some ⟨t, [], db'.bootstrap⟩ := by
  have hrun := run_of_exec h
  simp only [run] at hrun
  split at hrun
  · cases Option.some.inj hrun
    rfl
  · cases hrun

/-- A transaction that has written nothing sees completion and the account together. -/
theorem exec_bootstrapState (hs : Sound texts db) {v : Bool × Bool}
    (hboot : db.boot = some ⟨t, [], db.bootstrap⟩)
    (h : exec texts c t .bootstrapState db = some (.ok v, db')) :
    db' = db ∧ v.1 = db.bootstrap.completedAt.isSome ∧ v.2 = v.1 := by
  have hrun := run_of_exec h
  simp only [run, Db.tx_of_boot hboot rfl, List.append_nil, Option.some.injEq, Prod.mk.injEq,
    Except.ok.injEq] at hrun
  obtain ⟨rfl, rfl⟩ := hrun
  refine ⟨rfl, rfl, ?_⟩
  simp only [hs.completed]
  have hrecorded := hs.recorded
  cases hsubject : db.bootstrap.bootstrapSubject with
  | none => simp
  | some subject =>
    have hmem : subject ∈ bootstrapped db.accounts := by
      rw [hrecorded, hsubject]
      exact List.mem_singleton_self _
    obtain ⟨a, ha, rfl⟩ := List.mem_map.mp hmem
    exact List.any_eq_true.mpr ⟨a, (List.mem_filter.mp ha).1, beq_self_eq_true _⟩

section

variable {tx : BootTx} (hboot : db.boot = some tx) (hcall : tx.call = t)

include hboot hcall

theorem exec_insertSuperAdmin {input : CreateAuth0User} {v : Unit}
    (h : exec texts c t (.insertSuperAdmin input) db = some (.ok v, db')) :
    db'.boot = some { tx with
      accounts := tx.accounts ++ [input.account c.id c.now (.bootstrap t)] } ∧
    db'.bootstrap = db.bootstrap := by
  have hrun := run_of_exec h
  simp only [run, Db.tx_of_boot hboot hcall] at hrun
  split at hrun
  · cases Option.some.inj hrun
  split at hrun
  · cases Option.some.inj hrun
  · cases Option.some.inj hrun
    exact ⟨rfl, rfl⟩

theorem exec_recordSubject {subject : String} {v : Unit} (hopen : tx.state.completedAt = none)
    (h : exec texts c t (.recordSubject subject) db = some (.ok v, db')) :
    db'.boot = some { tx with state := ⟨none, some subject⟩ } ∧ db'.bootstrap = db.bootstrap := by
  have hrun := run_of_exec h
  simp only [run, Db.tx_of_boot hboot hcall, hopen, Option.isSome_none, Bool.false_eq_true,
    if_false] at hrun
  cases Option.some.inj hrun
  exact ⟨rfl, rfl⟩

theorem exec_markCompleted {n : ℕ} (hopen : tx.state.completedAt = none)
    (h : exec texts c t .markCompleted db = some (.ok n, db')) :
    db'.boot = some { tx with state := ⟨some c.now, tx.state.bootstrapSubject⟩ } ∧
    db'.bootstrap = db.bootstrap := by
  have hrun := run_of_exec h
  simp only [run, Db.tx_of_boot hboot hcall, hopen, Option.isSome_none] at hrun
  cases Option.some.inj hrun
  exact ⟨rfl, rfl⟩

end

theorem bootstrapInput_error {input : CreateAuth0User} {e : Err}
    (h : bootstrapInput texts input = .error e) : ∃ field message, e = .validation field message := by
  unfold bootstrapInput at h
  simp only [bind, Except.bind, throw, throwThe, MonadExceptOf.throw] at h
  split_ifs at h
  · cases h
    exact ⟨_, _, rfl⟩
  · cases h
    exact ⟨_, _, rfl⟩
  · cases h
    exact ⟨_, _, rfl⟩
  · cases h

/-- What the callback leaves to be committed, and the error it never returns. -/
def Prepared (t : ℕ) (r : Except Err Unit) (db : Db) : Prop :=
  (r = .ok () → Ready t db) ∧ r ≠ .error .bootstrapRecovery

theorem prepared_error {e : Err} (he : e ≠ .bootstrapRecovery) : Prepared t (.error e) db :=
  ⟨fun h => (nomatch h), fun h => he (Except.error.inj h)⟩

theorem prepared_ok (h : Ready t db) : Prepared t (.ok ()) db := ⟨fun _ => h, fun h => (nomatch h)⟩

section

variable {P : Db → Prop} (hP : ∀ u db db', Guarantee u db db' → P db → P db')

include hP

/-- While no account is recorded, the callback prepares the account together with its record. -/
theorem create_assured (input : CreateAuth0User) (hopen : db.bootstrap.completedAt = none)
    (hboot : db.boot = some ⟨t, [], db.bootstrap⟩) :
    Assured texts P t (Prepared t)
      (do
        createSuperAdmin input
        markCompleted) db := by
  simp only [createSuperAdmin, markCompleted, ask, Program.call_bind, Program.stmt_bind]
  refine assured_stmt hP (by simp) fun c₁ db₁ reply db₂ hmeanwhile _ _ hexec => ?_
  obtain ⟨hboot₁, hstate₁⟩ := Guarantee.holding hboot rfl hmeanwhile
  cases reply with
  | error e => exact prepared_error (by simp)
  | ok v =>
    obtain ⟨hboot₂, hstate₂⟩ := exec_insertSuperAdmin hboot₁ rfl hexec
    refine assured_stmt hP (by simp) fun c₃ db₃ reply db₄ hmeanwhile _ _ hexec => ?_
    obtain ⟨hboot₃, hstate₃⟩ := Guarantee.holding hboot₂ rfl hmeanwhile
    cases reply with
    | error e => exact prepared_error (by simp)
    | ok v =>
      obtain ⟨hboot₄, hstate₄⟩ := exec_recordSubject hboot₃ rfl hopen hexec
      refine assured_stmt hP (by simp) fun c₅ db₅ reply db₆ hmeanwhile _ _ hexec => ?_
      obtain ⟨hboot₅, hstate₅⟩ := Guarantee.holding hboot₄ rfl hmeanwhile
      split
      · obtain ⟨hboot₆, hstate₆⟩ := exec_markCompleted hboot₅ rfl rfl hexec
        have hopen₆ : db₆.bootstrap.completedAt = none := by
          rw [hstate₆, hstate₅, hstate₄, hstate₃, hstate₂, hstate₁]
          exact hopen
        split
        · exact prepared_ok ⟨_, hboot₆, rfl, Or.inr ⟨_, _, rfl, rfl, rfl, hopen₆, rfl⟩⟩
        · exact prepared_error (by simp)
      · exact prepared_error (by simp)

/-- Under the lock the callback prepares the whole record or nothing. -/
theorem bootstrapCallback_assured (input : CreateAuth0User)
    (hboot : db.boot = some ⟨t, [], db.bootstrap⟩) :
    Assured texts P t (Prepared t) (bootstrapCallback texts input) db := by
  unfold bootstrapCallback bootstrapState ask
  simp only [Program.call_bind, Program.stmt_bind]
  refine assured_stmt hP (by simp) fun c db₁ reply db₂ hmeanwhile hs₁ _ hexec => ?_
  obtain ⟨hboot₁, hstate₁⟩ := Guarantee.holding hboot rfl hmeanwhile
  cases reply with
  | error e => exact prepared_error (by simp)
  | ok v =>
    rw [← hstate₁] at hboot₁
    obtain ⟨rfl, hcompleted, hexists⟩ := exec_bootstrapState hs₁ hboot₁ hexec
    simp only [orFail, Program.pure_bind]
    split
    · next hdone =>
      rw [if_pos (by rw [hexists, hdone])]
      exact prepared_ok ⟨_, hboot₁, rfl, Or.inl ⟨rfl, rfl⟩⟩
    · next hdone =>
      rw [if_neg (by rw [hexists]; exact hdone)]
      have hopen : db₂.bootstrap.completedAt = none := by
        rw [hcompleted] at hdone
        exact Option.not_isSome_iff_eq_none.mp hdone
      cases hinput : bootstrapInput texts input with
      | error e =>
        obtain ⟨field, message, rfl⟩ := bootstrapInput_error hinput
        exact prepared_error (by simp)
      | ok input => exact create_assured hP input hopen hboot₁

theorem bootstrapSuperAdmin_assured (input : CreateAuth0User) :
    Assured texts P t (fun r _ => r ≠ .error .bootstrapRecovery)
      (bootstrapSuperAdmin texts input) db := by
  unfold bootstrapSuperAdmin withBootstrapLock ask
  simp only [Program.call_bind]
  refine assured_stmt hP (by simp) fun c db₁ reply db₂ _ _ _ _ => ?_
  cases reply with
  | error e => exact fun h => by cases h
  | ok v =>
    refine assured_stmt hP (by simp) fun c db₃ reply db₄ _ _ _ hexec => ?_
    cases reply with
    | error e => exact fun h => by cases h
    | ok v =>
      refine (bootstrapCallback_assured hP input (exec_lockBootstrap hexec)).bind (fun _ db hprepared => ?_)
        fun e db hprepared => hprepared.2
      rintro c db₅ reply db₆ hmeanwhile ⟨hs₅, hp₅⟩ hexec
      obtain ⟨hs₆, hG⟩ := hs₅.commit ((hprepared.1 rfl).meanwhile hmeanwhile) hexec
      refine ⟨⟨hs₆, hP t _ _ hG hp₅⟩, hG, ?_⟩
      cases reply with
      | error e => exact fun h => by cases h
      | ok v => exact fun h => by cases h

end

/-! ## Runs -/

/-- The account that a call returns. -/
def Outcome.accountID : Outcome → Option String
  | .provisioned profile _ | .updated profile => some profile.id
  | .account id => some id
  | .user u => some u.id
  | .done => none

/-- The accounts that a call asks for, by their subject or by their id. -/
def Job.names (a : Account) : Job → Bool
  | .provision subject _ | .requireActiveAccount subject => a.auth0Subject == subject
  | .updateProfile id _ | .updateAccount id _ => scanUUID id == some a.id
  | .softDelete _ | .deleteAccount _ _ | .bootstrap _ => false

/-- Two accounts that one call asks for have the same subject or the same id. -/
theorem Job.names_common {job : Job} (ha : job.names a = true) (hb : job.names b = true) :
    b.auth0Subject = a.auth0Subject ∨ b.id = a.id := by
  cases job with
  | provision subject _ => exact Or.inl ((beq_iff_eq.mp hb).trans (beq_iff_eq.mp ha).symm)
  | requireActiveAccount subject =>
    exact Or.inl ((beq_iff_eq.mp hb).trans (beq_iff_eq.mp ha).symm)
  | updateProfile id _ =>
    exact Or.inr (Option.some.inj ((beq_iff_eq.mp hb).symm.trans (beq_iff_eq.mp ha)))
  | updateAccount id _ =>
    exact Or.inr (Option.some.inj ((beq_iff_eq.mp hb).symm.trans (beq_iff_eq.mp ha)))
  | softDelete id => cases ha
  | deleteAccount id confirmed => cases ha
  | bootstrap input => cases ha

/-- Jobs that return an account. -/
def Job.returnsAccount : Job → Bool
  | .provision _ _ | .requireActiveAccount _ | .updateProfile _ _ | .updateAccount _ _ => true
  | .softDelete _ | .deleteAccount _ _ | .bootstrap _ => false

/-- How call `t` may end. -/
structure Ends (texts : Texts) (P : Db → Prop) (t : ℕ) (job : Job) (r : Except Err Outcome)
    (db : Db) : Prop where
  signedIn : ∀ subject accessToken profile created, job = .provision subject accessToken →
    r = .ok (.provisioned profile created) →
      Known subject profile.id db ∧ (created = true → CreatedBy subject t db)
  seen : job.returnsAccount = true → ∀ o, r = .ok o →
    Seen texts P fun a => job.names a = true ∧ o.accountID = some a.id
  noRecovery : ∀ input, job = .bootstrap input → r ≠ .error .bootstrapRecovery

section

variable {P : Db → Prop} {job : Job} {r : Except Err Outcome}

theorem ends_error {e : Err} (h : ∀ input, job ≠ .bootstrap input) :
    Ends texts P t job (.error e) db :=
  ⟨fun _ _ _ _ _ hr => (nomatch hr), fun _ _ hr => (nomatch hr), fun input hjob => absurd hjob (h input)⟩

/-- The end of a call that returned an account it has seen. -/
theorem ends_ok {o : Outcome} (h : ∀ input, job ≠ .bootstrap input)
    (hprovision : ∀ subject accessToken, job ≠ .provision subject accessToken)
    (hseen : Seen texts P fun a => job.names a = true ∧ o.accountID = some a.id) :
    Ends texts P t job (.ok o) db := by
  refine ⟨fun subject token _ _ hjob => absurd hjob (hprovision subject token),
    fun _ o' ho' => ?_, fun input hjob => absurd hjob (h input)⟩
  cases ho'
  exact hseen

/-- The end of a call that returns no account. -/
theorem ends_other (h : job.returnsAccount = false)
    (hrecovery : ∀ input, job = .bootstrap input → r ≠ .error .bootstrapRecovery) :
    Ends texts P t job r db := by
  refine ⟨fun _ _ _ _ hjob => ?_, fun hjob => ?_, hrecovery⟩
  · rw [hjob] at h
    cases h
  · rw [h] at hjob
    cases hjob

theorem Ends.guarantee {u : ℕ} (h : Ends texts P t job r db) (hG : Guarantee u db db') :
    Ends texts P t job r db' := by
  refine ⟨fun subject token profile created hjob hr => ?_, h.seen, h.noRecovery⟩
  obtain ⟨hknown, hcreated⟩ := h.signedIn subject token profile created hjob hr
  exact ⟨hG.known hknown, fun hc => hG.createdBy (hcreated hc)⟩

variable (hP : ∀ u db db', Guarantee u db db' → P db → P db')

include hP

/-- Every call keeps the tables sound and ends as described. -/
theorem code_assured (job : Job) : Assured texts P t (Ends texts P t job) (code texts job) db := by
  cases job with
  | provision subject accessToken =>
    refine (provision_assured hP subject accessToken).bind (fun made db h => ?_)
      fun e db _ => ends_error (by simp)
    have hin := h made rfl
    refine ⟨fun subject' token profile created hjob hr => ?_, fun _ o ho => ?_, by simp⟩
    · cases hjob
      cases hr
      exact ⟨hin.known, hin.creation⟩
    · cases ho
      obtain ⟨db₀, hs, hp, a, ha, ⟨hsubject, hid⟩, hlive⟩ := hin.seen
      exact ⟨db₀, hs, hp, a, ha, ⟨beq_iff_eq.mpr hsubject, congrArg some hid.symm⟩, hlive⟩
  | requireActiveAccount subject =>
    refine (requireActiveAccount_assured hP subject).bind (fun id db h => ?_)
      fun e db _ => ends_error (by simp)
    obtain ⟨db₀, hs, hp, a, ha, ⟨hsubject, hid⟩, hlive⟩ := h id rfl
    exact ends_ok (by simp) (by simp)
      ⟨db₀, hs, hp, a, ha, ⟨beq_iff_eq.mpr hsubject, congrArg some hid.symm⟩, hlive⟩
  | updateProfile id patch =>
    refine (updateProfile_assured hP id patch).bind (fun u db h => ?_)
      fun e db _ => ends_error (by simp)
    obtain ⟨db₀, hs, hp, a, ha, ⟨hscan, hid⟩, hlive⟩ := h u rfl
    exact ends_ok (by simp) (by simp)
      ⟨db₀, hs, hp, a, ha, ⟨beq_iff_eq.mpr hscan, congrArg some hid.symm⟩, hlive⟩
  | updateAccount id patch =>
    refine (updateAccount_assured hP id patch).bind (fun u db h => ?_)
      fun e db _ => ends_error (by simp)
    obtain ⟨db₀, hs, hp, a, ha, ⟨hscan, hid⟩, hlive⟩ := h u rfl
    exact ends_ok (by simp) (by simp)
      ⟨db₀, hs, hp, a, ha, ⟨beq_iff_eq.mpr hscan, congrArg some hid.symm⟩, hlive⟩
  | softDelete id =>
    have hbody : NoCommit (code texts (.softDelete id)) :=
      (softDelete_noCommit id).bind fun _ => trivial
    exact (assured_of_noCommit hP hbody).mono fun r db _ => ends_other rfl (by simp)
  | deleteAccount id confirmed =>
    have hbody : NoCommit (code texts (.deleteAccount id confirmed)) :=
      (deleteAccount_noCommit id confirmed).bind fun _ => trivial
    exact (assured_of_noCommit hP hbody).mono fun r db _ => ends_other rfl (by simp)
  | bootstrap input =>
    exact (bootstrapSuperAdmin_assured hP input).bind (fun _ db _ => ends_other rfl (by simp))
      fun e db he => ends_other rfl fun _ _ h => he (congrArg _ (Except.error.inj h))

end

/-- A row of an earlier moment, as it is found now. -/
def Remains (a : Account) (db : Db) : Prop :=
  ∃ b ∈ db.accounts, a.Same b ∧ (a.deletedAt.isSome → b = a)

theorem Guarantee.remains {u : ℕ} (hG : Guarantee u db db') (h : Remains a db) : Remains a db' := by
  obtain ⟨b, hb, hsame, hdeleted⟩ := h
  obtain ⟨b', hb', hsame', hdeleted'⟩ := hG.rows b hb
  refine ⟨b', hb', ⟨hsame'.id.trans hsame.id, hsame'.subject.trans hsame.subject,
    hsame'.username.trans hsame.username, hsame'.email.trans hsame.email,
    hsame'.origin.trans hsame.origin⟩, fun h => ?_⟩
  have hba : b = a := hdeleted h
  rw [hdeleted' (hba ▸ h), hba]

/-- The calls after call `n` end as described, where `P` holds from now on. -/
abbrev Steady (texts : Texts) (P : Db → Prop) (n : ℕ) (w : Calls) : Prop :=
  Traffic.Guarded (service texts) (fun db => Sound texts db ∧ P db) Guarantee
    (fun t job r db => n ≤ t → Ends texts P t job r db) w

abbrev Runs (texts : Texts) (w w' : Calls) : Prop := Traffic.Run (service texts) (code texts) w w'

section

variable {w w' : Calls}

theorem Steady.run {P : Db → Prop} {n : ℕ} (hP : ∀ u db db', Guarantee u db db' → P db → P db')
    (hw : Steady texts P n w) (h : Runs texts w w') : Steady texts P n w' := by
  refine (Traffic.Guarded.run hw (fun t job db _ _ => (code_assured hP job).mono fun _ _ hends _ => hends)
    (fun t job r u db db' _ hG hends hn => (hends hn).guarantee hG) Guarantee.refl
    (fun t db hs => ?_) (fun t job r db hends hn => (hends hn).guarantee (guarantee_rollback t db))
    h).1
  have hG := guarantee_rollback t db
  exact ⟨⟨hs.1.rollback, hP t _ _ hG hs.2⟩, hG⟩

theorem steady_of_run (h : Runs texts (.initial .empty) w) : Steady texts (fun _ => True) 0 w :=
  Steady.run (fun _ _ _ _ _ => trivial) (Traffic.guarded_initial ⟨sound_empty, trivial⟩) h

/-- From any moment on, a row remains, and the calls that start then are described by it. -/
theorem steady_from (h : Runs texts (.initial .empty) w) (h' : Runs texts w w')
    (ha : a ∈ w.store.accounts) : Steady texts (Remains a) w.count w' := by
  have hw := steady_of_run h
  have hstable : ∀ u db db', Guarantee u db db' → Remains a db → Remains a db' :=
    fun _ _ _ hG => hG.remains
  refine Steady.run hstable ⟨hw.fresh, ⟨hw.store.1, a, ha, .refl a, fun _ => rfl⟩,
    fun t job rest hrunning => ?_, fun t job r hended hn => ?_⟩ h'
  · have hbefore : ¬ w.count ≤ t := Nat.not_le.mpr (hw.lt_count hrunning)
    have hrest : Assured texts (fun _ => True) t
        (fun r db => w.count ≤ t → Ends texts (Remains a) t job r db) rest w.store :=
      Assured.mono (hw.running t job rest hrunning) fun r db _ hn => absurd hn hbefore
    exact hrest.strengthen (fun _ hdb => ⟨hdb.1, trivial⟩) fun _ _ _ hG hdb hdb' =>
      ⟨hdb'.1, hG.remains hdb.2⟩
  · rw [hw.fresh t hn] at hended
    cases hended

/-- What holds of the accounts at two moments of a run. -/
structure Identity (texts : Texts) (w w' : Calls) : Prop where
  /-- The row of a subject stays, and there never is another one. -/
  oneRow : ∀ a ∈ w.store.accounts, ∃ b ∈ w'.store.accounts, b.id = a.id ∧
    ∀ b' ∈ w'.store.accounts, b'.auth0Subject = a.auth0Subject → b' = b
  /-- Sign-ins of one subject return one id, and at most one of them reports a creation. -/
  sameAccount : ∀ t u subject accessToken accessToken' profile profile' created created',
    w'.calls t = .ended (.provision subject accessToken) (.ok (.provisioned profile created)) →
    w'.calls u = .ended (.provision subject accessToken') (.ok (.provisioned profile' created')) →
      profile.id = profile'.id ∧ (created = true → created' = true → t = u)
  /-- A deleted account stays deleted and inactive. -/
  staysDeleted : ∀ a ∈ w.store.accounts, a.deletedAt.isSome →
    a.active = false ∧ a ∈ w'.store.accounts ∧ ∀ b ∈ w'.store.accounts, b.id = a.id → b = a
  /-- No call that starts after the deletion succeeds for the subject or the id, or returns
  the account. -/
  refused : ∀ a ∈ w.store.accounts, a.deletedAt.isSome → ∀ t job o, w.count ≤ t →
    job.returnsAccount = true → w'.calls t = .ended job (.ok o) →
      job.names a = false ∧ o.accountID ≠ some a.id
  /-- No other account ever takes the email or the username of a deleted one. -/
  reserved : ∀ a ∈ w.store.accounts, a.deletedAt.isSome → ∀ b ∈ w'.store.accounts, b.id ≠ a.id →
    texts.lower b.email ≠ texts.lower a.email ∧ texts.lower b.username ≠ texts.lower a.username
  /-- Bootstrap calls create at most one account. -/
  oneBootstrap : ∀ a ∈ w.store.accounts, ∀ b ∈ w'.store.accounts, a.origin.isBootstrap = true →
    b.origin.isBootstrap = true → b.id = a.id
  /-- Completion is recorded if and only if the account exists. -/
  completion : w'.store.bootstrap.completedAt.isSome = true ↔
    ∃ a ∈ w'.store.accounts, a.origin.isBootstrap = true ∧
      w'.store.bootstrap.bootstrapSubject = some a.auth0Subject
  /-- No bootstrap ends with a request for recovery. -/
  noRecovery : ∀ t input, w'.calls t ≠ .ended (.bootstrap input) (.error .bootstrapRecovery)

namespace Sound

theorem bootstrap_unique (hs : Sound texts db) (ha : a ∈ db.accounts) (hb : b ∈ db.accounts)
    (hoa : a.origin.isBootstrap = true) (hob : b.origin.isBootstrap = true) : a = b := by
  have hmem : ∀ x ∈ db.accounts, x.origin.isBootstrap = true →
      x.auth0Subject ∈ db.bootstrap.bootstrapSubject.toList := by
    intro x hx hox
    rw [← hs.recorded]
    exact List.mem_map_of_mem (List.mem_filter.mpr ⟨hx, hox⟩)
  have hsa := Option.mem_toList.mp (hmem a ha hoa)
  have hsb := Option.mem_toList.mp (hmem b hb hob)
  exact hs.eq_of_subject ha hb (Option.some.inj (hsa.symm.trans hsb))

theorem completed_iff (hs : Sound texts db) : db.bootstrap.completedAt.isSome = true ↔
    ∃ a ∈ db.accounts, a.origin.isBootstrap = true ∧
      db.bootstrap.bootstrapSubject = some a.auth0Subject := by
  rw [hs.completed]
  refine ⟨fun h => ?_, fun ⟨a, _, _, h⟩ => by rw [h]; rfl⟩
  obtain ⟨subject, hsubject⟩ := Option.isSome_iff_exists.mp h
  have hmem : subject ∈ bootstrapped db.accounts := by
    rw [hs.recorded, hsubject]
    exact List.mem_singleton_self _
  obtain ⟨a, ha, rfl⟩ := List.mem_map.mp hmem
  obtain ⟨ha, horigin⟩ := List.mem_filter.mp ha
  exact ⟨a, ha, horigin, hsubject⟩

end Sound

/-- Nothing has seen a live account with the subject or the id of a deleted one. -/
theorem not_seen {row : Account → Prop} (hdeleted : a.deletedAt.isSome)
    (hrow : ∀ b, row b → b.auth0Subject = a.auth0Subject ∨ b.id = a.id) :
    ¬ Seen texts (Remains a) row := by
  rintro ⟨db, hs, ⟨a', ha', -, hsame⟩, b, hb, hb', hlive⟩
  obtain rfl := hsame hdeleted
  have hba : b = a' := (hrow b hb').elim (hs.eq_of_subject hb ha') (hs.eq_of_id hb ha')
  rw [hba] at hlive
  rw [hlive] at hdeleted
  cases hdeleted

end

/-! ## A run -/

namespace Sample

/-- Text functions for addresses that are in lower case already. -/
def plainTexts : Texts := ⟨fun s => s, fun s => s, some⟩

def choice : Choice where
  fault := none
  id := "0d9a1f7e-52c3-4b8e-9f61-7a2c4e8b1d30"
  now := 0
  profile := ⟨"auth0|a", "a@u.nus.edu", true, "", ""⟩

/-- Two sign-ins of one subject race. The first creates the account, the second finds it,
and then it is deleted. -/
def deletion : List (Traffic.Event Job Choice) :=
  [.start (.provision "auth0|a" "token"), .start (.provision "auth0|a" "token"),
    .advance 0 choice, .advance 1 choice, .advance 0 choice, .advance 1 choice,
    .advance 0 choice, .finish 0, .advance 1 choice, .advance 1 choice, .finish 1,
    .start (.softDelete "0d9a1f7e-52c3-4b8e-9f61-7a2c4e8b1d30"), .advance 2 choice, .finish 2]

/-- The subject signs in again, and a bootstrap for another subject commits. -/
def afterwards : List (Traffic.Event Job Choice) :=
  [.start (.provision "auth0|a" "token"), .start (.bootstrap ⟨"auth0|b", "b", "b@u.nus.edu", ""⟩),
    .advance 3 choice, .advance 3 choice, .advance 3 choice, .advance 3 choice, .finish 3,
    .advance 4 choice, .advance 4 choice, .advance 4 choice,
    .advance 4 { choice with id := "6f1c2b3a-9d4e-4c5f-8a7b-1e2d3c4b5a69" }, .advance 4 choice,
    .advance 4 choice, .advance 4 choice, .finish 4]

end Sample

end FocServices.Accounts
