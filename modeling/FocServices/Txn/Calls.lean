import FocServices.Txn.Program
import Mathlib.Logic.Relation
import Mathlib.Logic.Function.Basic

/-!
# Interleaved calls

A call issues statements one at a time, and each takes effect when it is executed.
The statements of any number of calls are executed in any order. What a call may rely
on between two of its statements is what every other call guarantees with each of its
own; the rule at the end turns one such proof for each body into a fact about all runs.
-/

namespace Txn

/-- What the statements of a service do: `exec c t q s` executes statement `q` of call
`t` in state `s`. The environment chooses `c` (a failure, a generated id, the time), and
`none` means that the statement has to wait. `release t s` gives back what call `t`
still holds when it ends. -/
structure Service (Q : Type) (R : Q → Type) (S C : Type) where
  exec : C → ℕ → (q : Q) → S → Option (R q × S)
  release : ℕ → S → S

/-- A call slot. A call is lost when its process dies. -/
inductive Call (J Q : Type) (R : Q → Type) (ε α : Type) where
  | idle
  | running (job : J) (rest : Program Q R ε α)
  | ended (job : J) (result : Except ε α)
  | lost (job : J)

/-- The store and all calls ever started. -/
structure Traffic (J Q : Type) (R : Q → Type) (ε α S : Type) where
  store : S
  count : ℕ
  calls : ℕ → Call J Q R ε α

/-- One scheduling decision. -/
inductive Traffic.Event (J C : Type) where
  | start (job : J)
  | advance (t : ℕ) (c : C)
  | finish (t : ℕ)
  | lose (t : ℕ)

variable {J Q : Type} {R : Q → Type} {ε α β S C : Type}

/-- The outcome of a call whose body has ended. -/
def Program.outcome? : Program Q R ε α → Option (Except ε α)
  | .pure a => some (.ok a)
  | .fail e => some (.error e)
  | .stmt _ _ => none

namespace Traffic

/-- A store on which no call has started. -/
def initial (s : S) : Traffic J Q R ε α S := ⟨s, 0, fun _ => .idle⟩

/-- Replace one call and the store. -/
def update (w : Traffic J Q R ε α S) (t : ℕ) (call : Call J Q R ε α) (s : S) :
    Traffic J Q R ε α S :=
  { w with store := s, calls := Function.update w.calls t call }

section

variable {w : Traffic J Q R ε α S} {t u : ℕ} {call : Call J Q R ε α} {s : S}

@[simp] theorem update_store : (w.update t call s).store = s := rfl

@[simp] theorem update_count : (w.update t call s).count = w.count := rfl

@[simp] theorem update_self : (w.update t call s).calls t = call := by simp [update]

theorem update_of_ne (h : u ≠ t) : (w.update t call s).calls u = w.calls u := by
  simp [update, h]

end

variable (V : Service Q R S C) (body : J → Program Q R ε α)

/-- Take one scheduling decision; `none` means that it cannot be taken now. -/
def perform (w : Traffic J Q R ε α S) : Event J C → Option (Traffic J Q R ε α S)
  | .start job =>
    some ({ w with count := w.count + 1 }.update w.count (.running job (body job)) w.store)
  | .advance t c =>
    match w.calls t with
    | .running job (.stmt q next) =>
      (V.exec c t q w.store).map fun answer =>
        w.update t (.running job (next answer.1)) answer.2
    | _ => none
  | .finish t =>
    match w.calls t with
    | .running job rest =>
      rest.outcome?.map fun result => w.update t (.ended job result) (V.release t w.store)
    | _ => none
  | .lose t =>
    match w.calls t with
    | .running job _ => some (w.update t (.lost job) (V.release t w.store))
    | _ => none

/-- Take scheduling decisions one after another. -/
def performAll (w : Traffic J Q R ε α S) : List (Event J C) → Option (Traffic J Q R ε α S)
  | [] => some w
  | e :: es => (w.perform V body e).bind fun w' => w'.performAll es

/-- Runs from one state to another. -/
def Run (w w' : Traffic J Q R ε α S) : Prop :=
  Relation.ReflTransGen (fun w w' => ∃ e, w.perform V body e = some w') w w'

variable {V body} {w w' : Traffic J Q R ε α S}

theorem run_of_performAll {es : List (Event J C)} (h : w.performAll V body es = some w') :
    Run V body w w' := by
  induction es generalizing w with
  | nil =>
    cases Option.some.inj h
    exact .refl
  | cons e es ih =>
    obtain ⟨v, hv, hrest⟩ := Option.bind_eq_some_iff.mp h
    exact .head ⟨e, hv⟩ (ih hrest)

/-- Everything one decision can do. -/
theorem perform_cases {e : Event J C} (h : w.perform V body e = some w') :
    (∃ job, w' =
      { w with count := w.count + 1 }.update w.count (.running job (body job)) w.store) ∨
    (∃ t c job q next reply s, w.calls t = .running job (.stmt q next) ∧
      V.exec c t q w.store = some (reply, s) ∧ w' = w.update t (.running job (next reply)) s) ∨
    (∃ t job rest result, w.calls t = .running job rest ∧ rest.outcome? = some result ∧
      w' = w.update t (.ended job result) (V.release t w.store)) ∨
    (∃ t job rest, w.calls t = .running job rest ∧
      w' = w.update t (.lost job) (V.release t w.store)) := by
  cases e with
  | start job => exact Or.inl ⟨job, (Option.some.inj h).symm⟩
  | advance t c =>
    refine Or.inr (Or.inl ?_)
    simp only [perform] at h
    split at h
    · next job q next heq =>
      obtain ⟨answer, hanswer, rfl⟩ := Option.map_eq_some_iff.mp h
      exact ⟨t, c, job, q, next, answer.1, answer.2, heq, hanswer, rfl⟩
    · cases h
  | finish t =>
    refine Or.inr (Or.inr (Or.inl ?_))
    simp only [perform] at h
    split at h
    · next job rest heq =>
      obtain ⟨result, hresult, rfl⟩ := Option.map_eq_some_iff.mp h
      exact ⟨t, job, rest, result, heq, hresult, rfl⟩
    · cases h
  | lose t =>
    refine Or.inr (Or.inr (Or.inr ?_))
    simp only [perform] at h
    split at h
    · next job rest heq => exact ⟨t, job, rest, heq, (Option.some.inj h).symm⟩
    · cases h

end Traffic

/-! ## What a call relies on and guarantees -/

/-- What steps of other calls than `t` add up to. -/
def Meanwhile (G : ℕ → S → S → Prop) (t : ℕ) : S → S → Prop :=
  Relation.ReflTransGen fun s s' => ∃ u, u ≠ t ∧ G u s s'

theorem Meanwhile.keeps {G : ℕ → S → S → Prop} {t : ℕ} {P : S → Prop} {s s' : S}
    (h : Meanwhile G t s s') (hstep : ∀ u s s', u ≠ t → G u s s' → P s → P s') (hs : P s) :
    P s' := by
  induction h with
  | refl => exact hs
  | tail _ hlast ih =>
    obtain ⟨u, hne, hG⟩ := hlast
    exact hstep u _ _ hne hG ih

/-- The rest of call `t` keeps the invariant `I`, guarantees `G t` with every statement
and ends with an outcome that satisfies `post`, if every other call guarantees `G`. -/
def Program.Ensures (V : Service Q R S C) (I : S → Prop) (G : ℕ → S → S → Prop) (t : ℕ)
    (post : Except ε α → S → Prop) : Program Q R ε α → S → Prop
  | .pure a, s => post (.ok a) s
  | .fail e, s => post (.error e) s
  | .stmt q next, s => ∀ c s' reply s'', Meanwhile G t s s' → I s' →
      V.exec c t q s' = some (reply, s'') →
        I s'' ∧ G t s' s'' ∧ Ensures V I G t post (next reply) s''

section Ensures

variable {V : Service Q R S C} {I : S → Prop} {G : ℕ → S → S → Prop} {t : ℕ}
  {post post' : Except ε α → S → Prop} {s s' : S}

theorem ensures_bind {p : Program Q R ε β} {f : β → Program Q R ε α} :
    (p >>= f).Ensures V I G t post s ↔
      p.Ensures V I G t (fun r s => match r with
        | .ok b => (f b).Ensures V I G t post s
        | .error e => post (.error e) s) s := by
  induction p generalizing s with
  | pure b => exact Iff.rfl
  | fail e => exact Iff.rfl
  | stmt q next ih =>
    refine forall_congr' fun c => forall_congr' fun s' => forall_congr' fun reply =>
      forall_congr' fun s'' => imp_congr_right fun _ => imp_congr_right fun _ =>
        imp_congr_right fun _ => and_congr_right fun _ => and_congr_right fun _ => ih reply

theorem ensures_mono {p : Program Q R ε α} (h : p.Ensures V I G t post s)
    (himp : ∀ r s, post r s → post' r s) : p.Ensures V I G t post' s := by
  induction p generalizing s with
  | pure a => exact himp _ _ h
  | fail e => exact himp _ _ h
  | stmt q next ih =>
    intro c s' reply s'' hmeanwhile hI hexec
    obtain ⟨hI', hG, hrest⟩ := h c s' reply s'' hmeanwhile hI hexec
    exact ⟨hI', hG, ih reply hrest⟩

/-- What a call ensures does not depend on when its next statement is executed. -/
theorem Program.Ensures.meanwhile {p : Program Q R ε α} (h : p.Ensures V I G t post s)
    (hpost : ∀ r u s s', u ≠ t → G u s s' → post r s → post r s')
    (hmeanwhile : Meanwhile G t s s') : p.Ensures V I G t post s' := by
  cases p with
  | pure a => exact hmeanwhile.keeps (fun u s s' => hpost (.ok a) u s s') h
  | fail e => exact hmeanwhile.keeps (fun u s s' => hpost (.error e) u s s') h
  | stmt q next =>
    intro c s₁ reply s₂ h₁ hI hexec
    exact h c s₁ reply s₂ (hmeanwhile.trans h₁) hI hexec

/-- More may be assumed of the states in which the statements are executed, if every
call's steps keep it. -/
theorem Program.Ensures.strengthen {p : Program Q R ε α} {I' : S → Prop}
    (h : p.Ensures V I G t post s) (himp : ∀ s, I' s → I s)
    (hkeep : ∀ u s s', G u s s' → I' s → I s' → I' s') : p.Ensures V I' G t post s := by
  induction p generalizing s with
  | pure a => exact h
  | fail e => exact h
  | stmt q next ih =>
    intro c s' reply s'' hmeanwhile hI' hexec
    obtain ⟨hI, hG, hrest⟩ := h c s' reply s'' hmeanwhile (himp s' hI') hexec
    exact ⟨hkeep t s' s'' hG hI' hI, hG, ih reply hrest⟩

end Ensures

namespace Traffic

variable (V : Service Q R S C) (I : S → Prop) (G : ℕ → S → S → Prop)
  (post : ℕ → J → Except ε α → S → Prop)

/-- Slots past the count are idle. -/
def Fresh (w : Traffic J Q R ε α S) : Prop := ∀ t, w.count ≤ t → w.calls t = .idle

/-- The invariant holds, and every call ensures its postcondition or has ended with it. -/
structure Guarded (w : Traffic J Q R ε α S) : Prop where
  fresh : w.Fresh
  store : I w.store
  running : ∀ t job rest, w.calls t = .running job rest →
    rest.Ensures V I G t (post t job) w.store
  ended : ∀ t job result, w.calls t = .ended job result → post t job result w.store

variable {V I G post} {body : J → Program Q R ε α} {w w' : Traffic J Q R ε α S}

theorem guarded_initial {s : S} (hs : I s) :
    Guarded V I G post (initial s : Traffic J Q R ε α S) :=
  ⟨fun _ _ => rfl, hs, fun _ _ _ h => (nomatch h), fun _ _ _ h => (nomatch h)⟩

/-- One call moves and guarantees its step; then the others are as before. -/
theorem Guarded.update (hw : Guarded V I G post w) {t : ℕ} {call : Call J Q R ε α} {s : S}
    (ht : t < w.count) (hI : I s) (hG : G t w.store s)
    (hpost : ∀ t job r u s s', u ≠ t → G u s s' → post t job r s → post t job r s')
    (hrunning : ∀ job rest, call = .running job rest → rest.Ensures V I G t (post t job) s)
    (hended : ∀ job result, call = .ended job result → post t job result s) :
    Guarded V I G post (w.update t call s) := by
  refine ⟨fun u hu => ?_, hI, fun u job rest hcall => ?_, fun u job result hcall => ?_⟩
  · rw [update_of_ne (by simp only [update_count] at hu; omega)]
    exact hw.fresh u hu
  · by_cases hut : u = t
    · subst u
      exact hrunning job rest (update_self.symm.trans hcall)
    · rw [update_of_ne hut] at hcall
      exact (hw.running u job rest hcall).meanwhile (hpost u job)
        (.single ⟨t, Ne.symm hut, hG⟩)
  · by_cases hut : u = t
    · subst u
      exact hended job result (update_self.symm.trans hcall)
    · rw [update_of_ne hut] at hcall
      exact hpost u job result t _ _ (Ne.symm hut) hG (hw.ended u job result hcall)

theorem Guarded.lt_count (hw : Guarded V I G post w) {t : ℕ} {job : J} {rest : Program Q R ε α}
    (ht : w.calls t = .running job rest) : t < w.count := by
  by_contra hge
  rw [hw.fresh t (by omega)] at ht
  cases ht

theorem ensures_outcome {t : ℕ} {p : Program Q R ε α} {q : Except ε α → S → Prop} {s : S}
    {result : Except ε α} (h : p.Ensures V I G t q s) (hresult : p.outcome? = some result) :
    q result s := by
  cases p with
  | pure a =>
    cases Option.some.inj hresult
    exact h
  | fail e =>
    cases Option.some.inj hresult
    exact h
  | stmt q next => cases hresult

/-- The rule of interleaved calls: if every body ensures its postcondition, every run
keeps the calls guarded. -/
theorem Guarded.run (hw : Guarded V I G post w)
    (hbody : ∀ t job s, w.count ≤ t → I s → (body job).Ensures V I G t (post t job) s)
    (hpost : ∀ t job r u s s', u ≠ t → G u s s' → post t job r s → post t job r s')
    (hself : ∀ t s, G t s s)
    (hrelease : ∀ t s, I s → I (V.release t s) ∧ G t s (V.release t s))
    (hend : ∀ t job r s, post t job r s → post t job r (V.release t s))
    (h : Run V body w w') : Guarded V I G post w' ∧ w.count ≤ w'.count := by
  induction h with
  | refl => exact ⟨hw, Nat.le_refl _⟩
  | @tail v v' _ hstep ih =>
    obtain ⟨hv, hcount⟩ := ih
    obtain ⟨e, he⟩ := hstep
    rcases perform_cases he with ⟨job, rfl⟩ | ⟨t, c, job, q, next, reply, s, hcall, hexec, rfl⟩ |
      ⟨t, job, rest, result, hcall, hresult, rfl⟩ | ⟨t, job, rest, hcall, rfl⟩
    · have hv' : Guarded V I G post { v with count := v.count + 1 } :=
        ⟨fun t ht => hv.fresh t (by simp only at ht; omega), hv.store, hv.running, hv.ended⟩
      refine ⟨hv'.update (Nat.lt_succ_self _) hv.store (hself _ _) hpost ?_
        (fun _ _ h => nomatch h), Nat.le_succ_of_le hcount⟩
      rintro job' rest' hcall
      cases hcall
      exact hbody v.count job v.store hcount hv.store
    · obtain ⟨hI, hG, hrest⟩ := hv.running t job _ hcall c v.store reply s .refl hv.store hexec
      refine ⟨hv.update (hv.lt_count hcall) hI hG hpost ?_ (fun _ _ h => nomatch h), hcount⟩
      rintro job' rest' hnext
      cases hnext
      exact hrest
    · obtain ⟨hI, hG⟩ := hrelease t v.store hv.store
      refine ⟨hv.update (hv.lt_count hcall) hI hG hpost (fun _ _ h => nomatch h) ?_, hcount⟩
      rintro job' result' hended
      cases hended
      exact hend t job result v.store (ensures_outcome (hv.running t job rest hcall) hresult)
    · obtain ⟨hI, hG⟩ := hrelease t v.store hv.store
      exact ⟨hv.update (hv.lt_count hcall) hI hG hpost (fun _ _ h => nomatch h)
        (fun _ _ h => nomatch h), hcount⟩

end Traffic

end Txn
