import Mathlib.Data.Nat.Notation
import Mathlib.Tactic.Common

/-!
# Transaction bodies as programs over statements

A transaction body issues statements one at a time and decides from each reply
what to do next. Keeping the body as a tree of statements and continuations lets
one definition be run in two ways: all at once, as an atomic transaction, and
statement by statement, interleaved with other transactions. Statements, replies,
stores and locks are arbitrary types.
-/

namespace Txn

/-- A body over statements `Q`, where statement `q` is answered by a value of
`R q`. It ends with a result (the transaction commits) or an error (it rolls back). -/
inductive Program (Q : Type) (R : Q → Type) (ε α : Type) where
  | pure (a : α)
  | fail (e : ε)
  | stmt (q : Q) (next : R q → Program Q R ε α)

variable {Q : Type} {R : Q → Type} {ε α β : Type}

/-- A sequence of checks succeeds if its first part does and the rest does after it. -/
theorem bind_eq_ok {x : Except ε α} {f : α → Except ε β} {b : β} :
    (x >>= f) = .ok b ↔ ∃ a, x = .ok a ∧ f a = .ok b := by
  cases x with
  | ok a => simp [bind, Except.bind]
  | error e => simp [bind, Except.bind]

/-- A check that may throw succeeds if its condition is false. -/
theorem check_eq_ok {c : Prop} [Decidable c] {e : ε} {f : α → Except ε β} {x : Except ε β} {b : β} :
    (if c then (throw e : Except ε α) >>= f else x) = .ok b ↔ ¬ c ∧ x = .ok b := by
  by_cases h : c <;> simp [h, bind, Except.bind, throw, throwThe, MonadExceptOf.throw]

theorem mapError_eq_ok {ε' : Type} {f : ε → ε'} {x : Except ε α} {a : α} :
    x.mapError f = .ok a ↔ x = .ok a := by
  cases x <;> simp [Except.mapError]

theorem toOption_eq_some {x : Except ε α} {a : α} : x.toOption = some a ↔ x = .ok a := by
  cases x <;> simp [Except.toOption]

/-- An element of a list that was extended by one is the new one, or was there before. -/
theorem append_singleton_split {l before after : List α} {x a : α}
    (h : l ++ [x] = before ++ a :: after) :
    (after = [] ∧ a = x ∧ before = l) ∨ ∃ rest, after = rest ++ [x] ∧ l = before ++ a :: rest := by
  rcases List.eq_nil_or_concat after with rfl | ⟨rest, y, rfl⟩
  · obtain ⟨rfl, hx⟩ := List.append_inj' h rfl
    exact Or.inl ⟨rfl, (List.cons.inj hx).1.symm, rfl⟩
  · rw [List.concat_eq_append, ← List.cons_append, ← List.append_assoc] at h
    obtain ⟨rfl, hx⟩ := List.append_inj' h rfl
    obtain rfl := (List.cons.inj hx).1
    exact Or.inr ⟨rest, by rw [List.concat_eq_append], rfl⟩

namespace Program

/-- Sequencing. An error ends the whole body. -/
def bind : Program Q R ε α → (α → Program Q R ε β) → Program Q R ε β
  | .pure a, f => f a
  | .fail e, _ => .fail e
  | .stmt q next, f => .stmt q fun r => (next r).bind f

/-- Issue one statement and return its reply. -/
def call (q : Q) : Program Q R ε (R q) := .stmt q .pure

instance : Monad (Program Q R ε) where
  pure := .pure
  bind := bind

@[simp] theorem pure_eq (a : α) : (Pure.pure a : Program Q R ε α) = .pure a := rfl

@[simp] theorem pure_bind (a : α) (f : α → Program Q R ε β) : (Program.pure a >>= f) = f a := rfl

@[simp] theorem fail_bind (e : ε) (f : α → Program Q R ε β) :
    ((Program.fail e : Program Q R ε α) >>= f) = .fail e := rfl

@[simp] theorem stmt_bind (q : Q) (next : R q → Program Q R ε α) (f : α → Program Q R ε β) :
    (Program.stmt q next >>= f) = .stmt q fun r => next r >>= f := rfl

@[simp] theorem call_bind (q : Q) (f : R q → Program Q R ε β) :
    ((call q : Program Q R ε (R q)) >>= f) = .stmt q f := rfl

/-- Continue with the value of a successful reply and fail with its error
otherwise: the `if err != nil { return err }` of the source. -/
def ofExcept : Except ε α → Program Q R ε α
  | .ok a => .pure a
  | .error e => .fail e

@[simp] theorem ofExcept_ok (a : α) : (ofExcept (.ok a) : Program Q R ε α) = .pure a := rfl

@[simp] theorem ofExcept_error (e : ε) : (ofExcept (.error e) : Program Q R ε α) = .fail e := rfl

/-- The outcome of a body whose statements are answered one after another by `replies`, from
number `k` on, and the number of the statement after it. -/
def answered (replies : ℕ → (q : Q) → R q) : Program Q R ε α → ℕ → Except ε α × ℕ
  | .pure a, k => (.ok a, k)
  | .fail e, k => (.error e, k)
  | .stmt q next, k => (next (replies k q)).answered replies (k + 1)

/-- A body that goes on with the result of another one. -/
theorem answered_bind {replies : ℕ → (q : Q) → R q} {p : Program Q R ε α}
    {f : α → Program Q R ε β} {k : ℕ} :
    (p >>= f).answered replies k = match p.answered replies k with
      | (.ok a, l) => (f a).answered replies l
      | (.error e, l) => (.error e, l) := by
  induction p generalizing k with
  | pure a => rfl
  | fail e => rfl
  | stmt q next ih => exact ih _

theorem answered_bind_ok {replies : ℕ → (q : Q) → R q} {p : Program Q R ε α}
    {f : α → Program Q R ε β} {k : ℕ} {b : β} :
    ((p >>= f).answered replies k).1 = .ok b ↔
      ∃ a l, p.answered replies k = (.ok a, l) ∧ ((f a).answered replies l).1 = .ok b := by
  rw [answered_bind]
  obtain ⟨outcome, l⟩ := p.answered replies k
  cases outcome with
  | ok a => simp
  | error e => simp

/-- The statements a body has issued so far, each with its reply, oldest first. -/
abbrev Log (R : Q → Type) := List (Sigma R)

/-- A discipline on the order of statements. Every statement issued after `log` is
allowed by `pre`, and a result returned after `log` is allowed by `post`, whatever
the replies are. -/
def Conforms (pre : Log R → Q → Prop) (post : Log R → α → Prop) :
    Log R → Program Q R ε α → Prop
  | log, .pure a => post log a
  | _, .fail _ => True
  | log, .stmt q next => pre log q ∧ ∀ r, (next r).Conforms pre post (log ++ [⟨q, r⟩])

/-- Every statement of a log was allowed by `pre` when it was issued. -/
def Obeys (pre : Log R → Q → Prop) (log : Log R) : Prop :=
  ∀ l e l', log = l ++ e :: l' → pre l e.1

theorem obeys_nil {pre : Log R → Q → Prop} : Obeys pre [] := by
  intro l e l' h
  simp at h

theorem Obeys.append {pre : Log R → Q → Prop} {log : Log R} (h : Obeys pre log) {q : Q}
    (hq : pre log q) (r : R q) : Obeys pre (log ++ [⟨q, r⟩]) := by
  intro l e l' heq
  rcases append_singleton_split heq with ⟨-, rfl, rfl⟩ | ⟨m, -, hold⟩
  · exact hq
  · exact h l e m hold

/-- A statement in an obedient log was allowed after an earlier part of it. -/
theorem Obeys.of_mem {pre : Log R → Q → Prop} {log : Log R} (h : Obeys pre log) {e : Sigma R}
    (he : e ∈ log) : ∃ l, (∀ x ∈ l, x ∈ log) ∧ pre l e.1 := by
  obtain ⟨l, l', rfl⟩ := List.append_of_mem he
  exact ⟨l, fun x hx => List.mem_append_left _ hx, h l e l' rfl⟩

section Conforms

variable {pre : Log R → Q → Prop} {post : Log R → α → Prop} {log : Log R}

@[simp] theorem conforms_pure {a : α} :
    (Program.pure a : Program Q R ε α).Conforms pre post log ↔ post log a := Iff.rfl

@[simp] theorem conforms_fail {e : ε} :
    (Program.fail e : Program Q R ε α).Conforms pre post log := trivial

@[simp] theorem conforms_stmt {q : Q} {next : R q → Program Q R ε α} :
    (Program.stmt q next).Conforms pre post log ↔
      pre log q ∧ ∀ r, (next r).Conforms pre post (log ++ [⟨q, r⟩]) := Iff.rfl

theorem Conforms.mono {p : Program Q R ε α} {pre' : Log R → Q → Prop}
    (h : p.Conforms pre post log) (himp : ∀ log q, pre log q → pre' log q) :
    p.Conforms pre' post log := by
  induction p generalizing log with
  | pure a => exact h
  | fail e => trivial
  | stmt q next ih => exact ⟨himp log q h.1, fun r => ih r (h.2 r)⟩

/-- A body may be split at any bind: the first part conforms with a
postcondition under which the rest conforms. -/
theorem conforms_bind {p : Program Q R ε β} {f : β → Program Q R ε α}
    {mid : Log R → β → Prop} (hp : p.Conforms pre mid log)
    (hf : ∀ log b, mid log b → (f b).Conforms pre post log) :
    (p >>= f).Conforms pre post log := by
  induction p generalizing log with
  | pure b => exact hf log b hp
  | fail e => trivial
  | stmt q next ih => exact ⟨hp.1, fun r => ih r (hp.2 r)⟩

end Conforms

end Program

/-- Lock modes: shared locks are compatible with each other and with nothing else. -/
inductive Mode where
  | shared
  | exclusive
  deriving DecidableEq, Repr

/-- Whether two transactions may hold these modes on one lock at the same time. -/
def Mode.compatible : Mode → Mode → Bool
  | .shared, .shared => true
  | _, _ => false

theorem Mode.compatible_comm (m m' : Mode) : m.compatible m' = m'.compatible m := by
  cases m <;> cases m' <;> rfl

/-- What executing a statement does: its reply, the writes it adds to the
transaction, and the locks it takes until the transaction ends. -/
structure Answer (R : Q → Type) (W L : Type) (q : Q) where
  reply : R q
  writes : List W
  locks : List (L × Mode)

/-- A database engine. `exec` answers a statement on the store the transaction
sees. It may depend on a serial number no other statement has (for generated keys)
and on which locks are grantable (for statements that skip locked rows). -/
structure Engine (Q : Type) (R : Q → Type) (S W L : Type) where
  apply : W → S → S
  exec : ℕ → (L → Mode → Bool) → (q : Q) → S → Answer R W L q

namespace Engine

variable {S W L : Type} (E : Engine Q R S W L)

/-- Perform a list of writes, oldest first. -/
def applyAll (ws : List W) (s : S) : S := ws.foldl (fun s w => E.apply w s) s

@[simp] theorem applyAll_nil (s : S) : E.applyAll [] s = s := rfl

@[simp] theorem applyAll_cons (w : W) (ws : List W) (s : S) :
    E.applyAll (w :: ws) s = E.applyAll ws (E.apply w s) := rfl

theorem applyAll_append (ws ws' : List W) (s : S) :
    E.applyAll (ws ++ ws') s = E.applyAll ws' (E.applyAll ws s) := by
  simp [applyAll, List.foldl_append]

/-- A property every single write keeps is kept by a list of writes. -/
theorem applyAll_induction {P : S → Prop} {ws : List W}
    (hstep : ∀ w ∈ ws, ∀ s, P s → P (E.apply w s)) {s : S} (hs : P s) :
    P (E.applyAll ws s) := by
  induction ws generalizing s with
  | nil => exact hs
  | cons w ws ih =>
    exact ih (fun w' hw' => hstep w' (List.mem_cons_of_mem _ hw'))
      (hstep w List.mem_cons_self s hs)

/-- The answer to a statement when no other transaction is running. -/
def execAlone (n : ℕ) (q : Q) (s : S) : Answer R W L q := E.exec n (fun _ _ => true) q s

/-- The store after a statement when no other transaction is running. -/
def storeAfter (n : ℕ) (q : Q) (s : S) : S := E.applyAll (E.execAlone n q s).writes s

/-- Run a body to its end with no other transaction in between. -/
def run : Program Q R ε α → S → ℕ → Except ε α × S × ℕ
  | .pure a, s, n => (.ok a, s, n)
  | .fail e, s, n => (.error e, s, n)
  | .stmt q next, s, n => run (next (E.execAlone n q s).reply) (E.storeAfter n q s) (n + 1)

/-- One atomic transaction: a result commits, an error rolls the store back. Serial
numbers are consumed either way. -/
def atomically (p : Program Q R ε α) (s : S) (n : ℕ) : Except ε α × S × ℕ :=
  match E.run p s n with
  | (.ok a, s', n') => (.ok a, s', n')
  | (.error e, _, n') => (.error e, s, n')

/-- Weakest precondition of an undisturbed run: every reply on the way satisfies
`P` and the run ends in `post`. -/
def wp (P : (q : Q) → R q → Prop) (post : Except ε α → S → ℕ → Prop) :
    Program Q R ε α → S → ℕ → Prop
  | .pure a, s, n => post (.ok a) s n
  | .fail e, s, n => post (.error e) s n
  | .stmt q next, s, n =>
    P q (E.execAlone n q s).reply ∧
      wp P post (next (E.execAlone n q s).reply) (E.storeAfter n q s) (n + 1)

/-- Every reply of an undisturbed run satisfies `P`. -/
def AllReplies (P : (q : Q) → R q → Prop) (p : Program Q R ε α) (s : S) (n : ℕ) : Prop :=
  E.wp P (fun _ _ _ => True) p s n

section wp

variable {E} {P : (q : Q) → R q → Prop} {post : Except ε α → S → ℕ → Prop} {s : S} {n : ℕ}

@[simp] theorem wp_pure {a : α} :
    E.wp P post (.pure a) s n ↔ post (.ok a) s n := Iff.rfl

@[simp] theorem wp_fail {e : ε} :
    E.wp P post (.fail e : Program Q R ε α) s n ↔ post (.error e) s n := Iff.rfl

@[simp] theorem wp_stmt {q : Q} {next : R q → Program Q R ε α} :
    E.wp P post (.stmt q next) s n ↔
      P q (E.execAlone n q s).reply ∧
        E.wp P post (next (E.execAlone n q s).reply) (E.storeAfter n q s) (n + 1) := Iff.rfl

/-- The precondition of a sequence is that of its first part, for the
postcondition that the rest goes through. -/
theorem wp_bind {p : Program Q R ε β} {f : β → Program Q R ε α} :
    E.wp P post (p >>= f) s n ↔
      E.wp P (fun r s n => match r with
        | .ok b => E.wp P post (f b) s n
        | .error e => post (.error e) s n) p s n := by
  induction p generalizing s n with
  | pure b => exact Iff.rfl
  | fail e => exact Iff.rfl
  | stmt q next ih => exact and_congr Iff.rfl (ih _)

/-- A weaker postcondition follows. -/
theorem wp_mono {p : Program Q R ε α} {post' : Except ε α → S → ℕ → Prop}
    (h : E.wp P post p s n) (himp : ∀ r s n, post r s n → post' r s n) :
    E.wp P post' p s n := by
  induction p generalizing s n with
  | pure a => exact himp _ _ _ h
  | fail e => exact himp _ _ _ h
  | stmt q next ih => exact ⟨h.1, ih _ h.2⟩

/-- The precondition speaks about the run itself. -/
theorem wp_run {p : Program Q R ε α} (h : E.wp P post p s n) :
    post (E.run p s n).1 (E.run p s n).2.1 (E.run p s n).2.2 := by
  induction p generalizing s n with
  | pure a => exact h
  | fail e => exact h
  | stmt q next ih => exact ih _ h.2

theorem wp_allReplies {p : Program Q R ε α} (h : E.wp P post p s n) : E.AllReplies P p s n :=
  wp_mono h fun _ _ _ _ => trivial

/-- A body that issues only statements that keep an invariant keeps it. -/
theorem wp_invariant {A : Q → Prop} {I : S → Prop}
    (hstep : ∀ q n s, A q → I s → P q (E.execAlone n q s).reply ∧ I (E.storeAfter n q s))
    {p : Program Q R ε α} {log : Program.Log R}
    (hp : p.Conforms (fun _ q => A q) (fun _ _ => True) log) (hs : I s) :
    E.wp P (fun _ s _ => I s) p s n := by
  induction p generalizing s n log with
  | pure a => exact hs
  | fail e => exact hs
  | stmt q next ih =>
    obtain ⟨hreply, hafter⟩ := hstep q n s hp.1 hs
    exact ⟨hreply, ih _ (hp.2 _) hafter⟩

/-- A committed run satisfies its postcondition; a failed one leaves the store alone. -/
theorem wp_atomically {p : Program Q R ε α} (h : E.wp P post p s n) :
    (∃ a, (E.atomically p s n).1 = .ok a ∧
      post (.ok a) (E.atomically p s n).2.1 (E.atomically p s n).2.2) ∨
    (∃ e, (E.atomically p s n).1 = .error e ∧ (E.atomically p s n).2.1 = s) := by
  have hrun := wp_run h
  unfold atomically
  rcases hr : E.run p s n with ⟨result, s', n'⟩
  rw [hr] at hrun
  cases result with
  | ok a => exact Or.inl ⟨a, rfl, hrun⟩
  | error e => exact Or.inr ⟨e, rfl, rfl⟩

/-- What every single write keeps, a transaction keeps. -/
theorem atomically_induction {I : S → Prop} (hwrite : ∀ w s, I s → I (E.apply w s))
    (p : Program Q R ε α) (hs : I s) : I (E.atomically p s n).2.1 := by
  have hrun : I (E.run p s n).2.1 := by
    induction p generalizing s n with
    | pure a => exact hs
    | fail e => exact hs
    | stmt q next ih => exact ih _ (E.applyAll_induction (fun w _ s => hwrite w s) hs)
  unfold atomically
  split
  · next h => rwa [h] at hrun
  · exact hs

/-- A run that cannot fail commits. -/
theorem wp_commits {p : Program Q R ε α} (h : E.wp P post p s n)
    (hok : ∀ e s n, ¬ post (.error e) s n) :
    ∃ a, (E.atomically p s n).1 = .ok a ∧
      post (.ok a) (E.atomically p s n).2.1 (E.atomically p s n).2.2 := by
  have hrun := wp_run h
  unfold atomically
  rcases hr : E.run p s n with ⟨result, s', n'⟩
  rw [hr] at hrun
  cases result with
  | ok a => exact ⟨a, rfl, hrun⟩
  | error e => exact absurd hrun (hok e s' n')

/-- A run consumes serial numbers in order. -/
theorem serial_le_run (E : Engine Q R S W L) (p : Program Q R ε α) (s : S) (n : ℕ) :
    n ≤ (E.run p s n).2.2 := by
  induction p generalizing s n with
  | pure a => exact Nat.le_refl n
  | fail e => exact Nat.le_refl n
  | stmt q next ih => exact Nat.le_trans (Nat.le_succ n) (ih _ _ _)

theorem serial_le_atomically (E : Engine Q R S W L) (p : Program Q R ε α) (s : S) (n : ℕ) :
    n ≤ (E.atomically p s n).2.2 := by
  have hrun := serial_le_run E p s n
  unfold atomically
  split
  · next h => rwa [h] at hrun
  · next h => rwa [h] at hrun

end wp

end Engine

end Txn
