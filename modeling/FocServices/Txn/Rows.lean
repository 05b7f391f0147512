import Mathlib.Algebra.BigOperators.Group.List.Basic
import Mathlib.Data.Int.Notation
import Mathlib.Data.List.Nodup
import Mathlib.Algebra.Group.Int.Defs
import Mathlib.Tactic.Common
import Mathlib.Tactic.Abel

/-!
# Tables as lists of rows

A table is the list of its rows. A unique column is a function on rows that takes
no value twice. The lemmas say how looking a row up, updating it and summing a
column fit together.
-/

namespace Txn

variable {ρ κ : Type} [DecidableEq κ]

/-- `SELECT ... WHERE key = k`, for a unique column. -/
def findRow (key : ρ → κ) (k : κ) (rows : List ρ) : Option ρ := rows.find? fun r => key r = k

/-- `UPDATE ... WHERE key = k`. -/
def updateRow (key : ρ → κ) (k : κ) (f : ρ → ρ) (rows : List ρ) : List ρ :=
  rows.map fun r => if key r = k then f r else r

/-- The column takes no value twice. -/
def UniqueKey (key : ρ → κ) (rows : List ρ) : Prop := (rows.map key).Nodup

/-- What is kept of a list has at most the keys of the list. -/
theorem sublist_filterMap {α β γ : Type} {f : α → Option β} {g : β → γ} {k : α → γ} {l : List α}
    (h : ∀ a ∈ l, ∀ b, f a = some b → g b = k a) :
    ((l.filterMap f).map g).Sublist (l.map k) := by
  induction l with
  | nil => exact .slnil
  | cons a l ih =>
    have ih := ih fun a ha => h a (List.mem_cons_of_mem _ ha)
    cases hf : f a with
    | none =>
      rw [List.filterMap_cons_none hf]
      exact ih.cons _
    | some b =>
      rw [List.filterMap_cons_some hf, List.map_cons, List.map_cons,
        h a List.mem_cons_self b hf]
      exact ih.cons_cons _

section

variable {key : ρ → κ} {k : κ} {f : ρ → ρ} {rows : List ρ}

theorem mem_of_findRow {r : ρ} (h : findRow key k rows = some r) : r ∈ rows ∧ key r = k :=
  ⟨List.mem_of_find?_eq_some h, by simpa using List.find?_some h⟩

theorem findRow_eq_none : findRow key k rows = none ↔ ∀ r ∈ rows, key r ≠ k := by
  simp [findRow]

theorem findRow_isSome : (findRow key k rows).isSome = true ↔ ∃ r ∈ rows, key r = k := by
  simp [findRow]

omit [DecidableEq κ] in
/-- Two rows with the same unique key are one row. -/
theorem UniqueKey.eq (h : UniqueKey key rows) {r r' : ρ} (hr : r ∈ rows) (hr' : r' ∈ rows)
    (hkey : key r = key r') : r = r' :=
  List.inj_on_of_nodup_map h hr hr' hkey

theorem UniqueKey.findRow_eq (h : UniqueKey key rows) {r : ρ} (hr : r ∈ rows) (hk : key r = k) :
    findRow key k rows = some r := by
  cases hfind : findRow key k rows with
  | none => exact absurd hk (findRow_eq_none.mp hfind r hr)
  | some r' =>
    obtain ⟨hr', hk'⟩ := mem_of_findRow hfind
    rw [h.eq hr hr' (hk.trans hk'.symm)]

omit [DecidableEq κ] in
theorem uniqueKey_append_singleton {r : ρ} :
    UniqueKey key (rows ++ [r]) ↔ UniqueKey key rows ∧ ∀ r' ∈ rows, key r' ≠ key r := by
  simp only [UniqueKey, List.map_append, List.map_cons, List.map_nil, List.nodup_append,
    List.nodup_cons, List.not_mem_nil, not_false_eq_true, List.nodup_nil, and_self, true_and,
    List.mem_map, List.mem_singleton, forall_exists_index, and_imp, forall_apply_eq_imp_iff₂,
    forall_eq]

theorem mem_updateRow {r : ρ} :
    r ∈ updateRow key k f rows ↔ ∃ r' ∈ rows, (if key r' = k then f r' else r') = r := by
  simp [updateRow]

/-- After an update of one row by a unique key, a row is the new one or an old one. -/
theorem UniqueKey.mem_updateRow (hu : UniqueKey key rows) {r r' : ρ} (hr : r ∈ rows)
    (h : r' ∈ updateRow key (key r) f rows) : r' = f r ∨ (r' ∈ rows ∧ key r' ≠ key r) := by
  obtain ⟨r₀, hr₀, rfl⟩ := Txn.mem_updateRow.mp h
  split
  · next hid =>
    rw [hu.eq hr₀ hr hid]
    exact Or.inl rfl
  · next hid => exact Or.inr ⟨hr₀, hid⟩

theorem mem_updateRow_self {r : ρ} (hr : r ∈ rows) : f r ∈ updateRow key (key r) f rows :=
  mem_updateRow.mpr ⟨r, hr, if_pos rfl⟩

/-- A column the update does not touch is unchanged. -/
theorem map_updateRow {β : Type} {g : ρ → β} (h : ∀ r, key r = k → g (f r) = g r) :
    (updateRow key k f rows).map g = rows.map g := by
  simp only [updateRow, List.map_map]
  apply List.map_congr_left
  intro r _
  simp only [Function.comp_apply]
  split
  · next hr => exact h r hr
  · rfl

theorem UniqueKey.updateRow {κ' : Type} {key' : ρ → κ'} (hu : UniqueKey key' rows)
    (h : ∀ r, key r = k → key' (f r) = key' r) : UniqueKey key' (updateRow key k f rows) := by
  rw [UniqueKey, map_updateRow h]
  exact hu

/-- Looking a row up after an update finds the updated row. -/
theorem findRow_updateRow {κ' : Type} [DecidableEq κ'] {key' : ρ → κ'} {k' : κ'}
    (h : ∀ r, key r = k → key' (f r) = key' r) :
    findRow key' k' (updateRow key k f rows) =
      (findRow key' k' rows).map fun r => if key r = k then f r else r := by
  have hcomp : (fun r => decide (key' (if key r = k then f r else r) = k')) =
      fun r => decide (key' r = k') := by
    funext r
    by_cases hr : key r = k
    · rw [if_pos hr, h r hr]
    · rw [if_neg hr]
  simp only [findRow, Txn.updateRow, List.find?_map, Function.comp_def, hcomp]

theorem findRow_append_singleton {r : ρ} :
    findRow key k (rows ++ [r]) =
      (findRow key k rows).or (if key r = k then some r else none) := by
  simp only [findRow, List.find?_append, List.find?_cons, List.find?_nil]
  by_cases h : key r = k <;> simp [h]

/-- A sum over the rows that satisfy a condition, as a sum over all rows. -/
theorem sum_filter_map (p : ρ → Bool) (g : ρ → ℤ) (rows : List ρ) :
    ((rows.filter p).map g).sum = (rows.map fun r => if p r then g r else 0).sum := by
  induction rows with
  | nil => rfl
  | cons r rows ih =>
    by_cases hp : p r = true
    · simp [hp, ih]
    · simp [hp, ih]

/-- Updating the row with a unique key changes that row and leaves the others in place. -/
theorem UniqueKey.updateRow_split (h : UniqueKey key rows) {r : ρ} (hr : r ∈ rows)
    (hk : key r = k) :
    ∃ l₁ l₂, rows = l₁ ++ r :: l₂ ∧ Txn.updateRow key k f rows = l₁ ++ f r :: l₂ := by
  obtain ⟨l₁, l₂, rfl⟩ := List.append_of_mem hr
  refine ⟨l₁, l₂, rfl, ?_⟩
  rw [UniqueKey, List.map_append, List.map_cons, List.nodup_middle, List.nodup_cons,
    List.mem_append, not_or] at h
  obtain ⟨⟨hleft, hright⟩, -⟩ := h
  have hsame : ∀ l : List ρ, key r ∉ l.map key → Txn.updateRow key k f l = l := by
    intro l hl
    have hid : ∀ x ∈ l, (if key x = k then f x else x) = x := by
      intro x hx
      refine if_neg fun hxk => hl ?_
      rw [hk, ← hxk]
      exact List.mem_map_of_mem hx
    rw [Txn.updateRow, List.map_congr_left hid, List.map_id']
  have happend : Txn.updateRow key k f (l₁ ++ r :: l₂) =
      Txn.updateRow key k f l₁ ++ f r :: Txn.updateRow key k f l₂ := by
    simp [Txn.updateRow, hk]
  rw [happend, hsame l₁ hleft, hsame l₂ hright]

/-- Updating the row with a unique key changes the sum of a column by the change in
that row. -/
theorem sum_updateRow (g : ρ → ℤ) (h : UniqueKey key rows) {r : ρ} (hr : r ∈ rows)
    (hk : key r = k) :
    ((updateRow key k f rows).map g).sum = (rows.map g).sum + (g (f r) - g r) := by
  obtain ⟨l₁, l₂, hrows, hupdate⟩ := h.updateRow_split (f := f) hr hk
  rw [hupdate, hrows]
  simp only [List.map_append, List.map_cons, List.sum_append, List.sum_cons]
  abel

/-- Updating the row with a unique key so that it no longer counts. -/
theorem countP_updateRow {p : ρ → Bool} (h : UniqueKey key rows) {r : ρ} (hr : r ∈ rows)
    (hk : key r = k) (hp : p r = true) (hf : p (f r) = false) :
    (updateRow key k f rows).countP p + 1 = rows.countP p := by
  obtain ⟨l₁, l₂, hrows, hupdate⟩ := h.updateRow_split (f := f) hr hk
  rw [hupdate, hrows]
  simp only [List.countP_append, List.countP_cons, hp, hf, if_true, Bool.false_eq_true, if_false]
  omega

/-- Summing a column group by group, over groups that cover every row once, is
summing it over the table. -/
theorem sum_by_group {groups : List κ} (hgroups : groups.Nodup) (g : ρ → ℤ)
    (hcover : ∀ r ∈ rows, key r ∈ groups) :
    (groups.map fun k => ((rows.filter fun r => key r = k).map g).sum).sum =
      (rows.map g).sum := by
  induction rows with
  | nil => simp
  | cons r rows ih =>
    have hsplit : (groups.map fun k => (((r :: rows).filter fun r => key r = k).map g).sum) =
        groups.map fun k => (if key r = k then g r else 0) +
          ((rows.filter fun r => key r = k).map g).sum := by
      apply List.map_congr_left
      intro k _
      by_cases h : key r = k <;> simp [h]
    have hone : (groups.map fun k => if key r = k then g r else 0).sum = g r := by
      have hr := hcover r List.mem_cons_self
      clear hsplit ih hcover
      induction groups with
      | nil => simp at hr
      | cons k groups ih =>
        rw [List.nodup_cons] at hgroups
        rw [List.map_cons, List.sum_cons]
        by_cases h : key r = k
        · have hzero : (groups.map fun k => if key r = k then g r else 0) =
              groups.map fun _ => 0 := by
            apply List.map_congr_left
            intro k' hk'
            refine if_neg fun h' => hgroups.1 ?_
            rw [← h, h']
            exact hk'
          rw [hzero, if_pos h]
          simp
        · rw [if_neg h, zero_add]
          exact ih hgroups.2 ((List.mem_cons.mp hr).resolve_left h)
    rw [hsplit, List.sum_map_add, hone, ih fun r hr => hcover r (List.mem_cons_of_mem _ hr),
      List.map_cons, List.sum_cons]

end

end Txn
