import FocServices.Orders.Story

/-!
# Reading while jobs run

A client that reads the tables several times finds them as jobs have left them meanwhile.
`Interleaved` is such a sequence of tables. Deeds are the steps of small stories: a new
errand, or an event on an errand that is there.
-/

namespace FocServices.Orders

open Txn

/-- The tables at successive moments, with any jobs in between. -/
def Interleaved (hash : String → ℤ) (s : ℕ → Tables) : Prop :=
  ∃ past : ℕ → List Tables, (∀ i, Passed hash (s i :: past i)) ∧
    ∀ i, s i :: past i <:+ s (i + 1) :: past (i + 1)

section

variable {hash : String → ℤ} {s : ℕ → Tables}

/-- Earlier tables are among those that were passed. -/
theorem Interleaved.passed (h : Interleaved hash s) {i j : ℕ} (hij : i ≤ j) :
    ∃ past, Passed hash (s j :: past) ∧ s i ∈ s j :: past := by
  obtain ⟨past, hpassed, hgrows⟩ := h
  have hsuffix : s i :: past i <:+ s j :: past j := by
    induction hij with
    | refl => exact List.suffix_rfl
    | step _ ih => exact ih.trans (hgrows _)
  exact ⟨past j, hpassed j, hsuffix.subset List.mem_cons_self⟩

theorem Interleaved.recorded (h : Interleaved hash s) (i : ℕ) : Recorded (s i) := by
  obtain ⟨past, hpassed, -⟩ := h.passed (Nat.le_refl i)
  obtain ⟨_, _, heq, hrecorded, -⟩ := hpassed.recorded
  cases heq
  exact hrecorded

/-- An errand in a terminal status is found unchanged ever after. -/
theorem Interleaved.settled (h : Interleaved hash s) {i j : ℕ} (hij : i ≤ j) {e : Errand}
    (he : e ∈ (s i).errands) (hterminal : e.status.terminal = true) : e ∈ (s j).errands := by
  obtain ⟨past, hpassed, hmem⟩ := h.passed hij
  exact hpassed.settled hmem he hterminal

/-- Nothing need happen in between. -/
theorem Passed.interleaved {s₀ : Tables} {past : List Tables} (h : Passed hash (s₀ :: past)) :
    Interleaved hash fun _ => s₀ :=
  ⟨fun _ => past, fun _ => h, fun _ => List.suffix_rfl⟩

end

/-! ## Stories -/

/-- One step of a story. -/
inductive Deed where
  | submit (id requesterID key : String) (details : Details) (now : ℤ)
  | act (id : String) (ev : Event) (actor : Actor) (input : EventInput) (now : ℤ)

/-- The job of a deed, decided on the tables as they are. -/
def Deed.job (s : Tables) : Deed → Option Job
  | .submit id requesterID key details now =>
    if Canonical id then
      (next (newErrand id requesterID key details) .submit ⟨.requester, requesterID⟩ {} now
        ).toOption.map (.create (newErrand id requesterID key details))
    else none
  | .act id ev actor input now => do
    let e ← s.errands.find? (·.id = id)
    (next e ev actor input now).toOption.map .apply

theorem Deed.founded {s : Tables} {past : List Tables} {deed : Deed} {job : Job}
    (h : deed.job s = some job) : job.Founded (s :: past) := by
  cases deed with
  | submit id requesterID key details now =>
    simp only [Deed.job] at h
    split at h
    case isTrue hid =>
      obtain ⟨t, ht, rfl⟩ := Option.map_eq_some_iff.mp h
      exact ⟨_, _, _, _, rfl, hid, _, _, _, toOption_eq_some.mp ht⟩
    case isFalse => cases h
  | act id ev actor input now =>
    simp only [Deed.job, Option.bind_eq_bind, Option.bind_eq_some_iff] at h
    obtain ⟨e, he, h⟩ := h
    obtain ⟨t, ht, rfl⟩ := Option.map_eq_some_iff.mp h
    exact ⟨s, List.mem_cons_self, e, List.mem_of_find?_eq_some he, _, _, _, _,
      toOption_eq_some.mp ht⟩

/-- The tables that deeds pass through, newest first. -/
def tell (hash : String → ℤ) : List Deed → List Tables → Option (List Tables)
  | [], tables => some tables
  | deed :: deeds, tables => do
    let s ← tables.head?
    let job ← deed.job s
    tell hash deeds (job.perform hash s :: tables)

theorem Passed.tell {hash : String → ℤ} {deeds : List Deed} {tables tables' : List Tables}
    (hpassed : Passed hash tables) (htell : tell hash deeds tables = some tables') :
    Passed hash tables' := by
  induction deeds generalizing tables with
  | nil =>
    cases htell
    exact hpassed
  | cons deed deeds ih =>
    simp only [Orders.tell, Option.bind_eq_bind, Option.bind_eq_some_iff] at htell
    obtain ⟨s, hs, job, hjob, htell⟩ := htell
    obtain ⟨past, rfl⟩ := List.head?_eq_some_iff.mp hs
    exact ih (.perform job hpassed (Deed.founded hjob)) htell

theorem passed_of_tell {hash : String → ℤ} {deeds : List Deed} {s : Tables}
    (h : (tell hash deeds [{}]).bind List.head? = some s) : ∃ past, Passed hash (s :: past) := by
  obtain ⟨tables, htell, hhead⟩ := Option.bind_eq_some_iff.mp h
  obtain ⟨past, rfl⟩ := List.head?_eq_some_iff.mp hhead
  exact ⟨past, Passed.tell .start htell⟩

end FocServices.Orders
