import FocServices.Paging.Keyset
import Mathlib.Data.List.Dedup

/-!
# Counts and leading rows

A ranking counts how often each value occurs, orders the counts and shows the leading ones.
Where it is put together from several rankings, each of them may be cut first.
-/

namespace FocServices.Paging

variable {α K : Type}

/-- Each value that occurs, with the number of its occurrences. -/
def tally [DecidableEq α] (values : List α) : List (α × ℕ) :=
  values.dedup.map fun x => (x, values.count x)

theorem mem_tally [DecidableEq α] {values : List α} {x : α} {n : ℕ} :
    (x, n) ∈ tally values ↔ x ∈ values ∧ values.count x = n := by
  simp [tally]

theorem tally_nodup [DecidableEq α] (values : List α) :
    ((tally values).map Prod.fst).Nodup := by
  have hfst : (tally values).map Prod.fst = values.dedup := by
    simp [tally, Function.comp_def]
  rw [hfst]
  exact values.nodup_dedup

/-- The first rows of a merge come from the first rows of its parts. -/
theorem take_merge (le : α → α → Bool) {k i j : ℕ} (hi : k ≤ i) (hj : k ≤ j) (l m : List α) :
    ((l.take i).merge (m.take j) le).take k = (l.merge m le).take k := by
  induction k generalizing i j l m with
  | zero => simp
  | succ k ih =>
    obtain ⟨i, rfl⟩ := Nat.exists_eq_succ_of_ne_zero (by omega : i ≠ 0)
    obtain ⟨j, rfl⟩ := Nat.exists_eq_succ_of_ne_zero (by omega : j ≠ 0)
    cases l with
    | nil => rw [List.take_nil, List.nil_merge, List.nil_merge, List.take_take, Nat.min_eq_left hj]
    | cons x l =>
      cases m with
      | nil =>
        rw [List.take_nil, List.merge_right, List.merge_right, List.take_take,
          Nat.min_eq_left hi]
      | cons y m =>
        have hleft := @ih i (j + 1) (by omega) (by omega) l (y :: m)
        have hright := @ih (i + 1) j (by omega) (by omega) (x :: l) m
        simp only [List.take_succ_cons, List.cons_merge_cons] at hleft hright ⊢
        split
        · rw [List.take_succ_cons, List.take_succ_cons, hleft]
        · rw [List.take_succ_cons, List.take_succ_cons, hright]

section Order

variable [LinearOrder K] {key : α → K}

/-- Ordering all rows of two ordered lists merges them. -/
theorem rest_append {l m : List α} (hl : l.Pairwise fun x y => key x < key y)
    (hm : m.Pairwise fun x y => key x < key y) (hkeys : ((l ++ m).map key).Nodup) :
    rest key none (l ++ m) = l.merge m fun x y => key x ≤ key y := by
  have hall : (l ++ m).filter (fun x => After none (key x)) = l ++ m :=
    List.filter_eq_self.mpr fun x _ => decide_eq_true (after_none (key x))
  have hperm : (rest key none (l ++ m)).Perm (l.merge m fun x y => key x ≤ key y) := by
    rw [rest, hall]
    exact (List.perm_insertionSort _ _).trans (List.merge_perm_append _).symm
  have htotal : Std.Total fun x y => key x ≤ key y := ⟨fun x y => le_total (key x) (key y)⟩
  have htrans : IsTrans α fun x y => key x ≤ key y := ⟨fun _ _ _ h h' => le_trans h h'⟩
  have hmerged : (l.merge m fun x y => key x ≤ key y).Pairwise fun x y => key x ≤ key y :=
    (hl.imp le_of_lt).merge (hm.imp le_of_lt)
  refine hperm.eq_of_pairwise (fun x y hx hy hxy hyx => ?_)
    ((rest_increasing none hkeys).imp le_of_lt) hmerged
  exact List.inj_on_of_nodup_map hkeys (mem_rest.mp hx).1 (mem_rest.mp (hperm.mem_iff.mpr hy)).1
    (le_antisymm hxy hyx)

/-- The first rows of two ordered lists together are found among the first rows of each. -/
theorem take_rest_append {l m : List α} (hl : l.Pairwise fun x y => key x < key y)
    (hm : m.Pairwise fun x y => key x < key y) (hkeys : ((l ++ m).map key).Nodup) (k : ℕ) :
    (rest key none (l.take k ++ m.take k)).take k = (rest key none (l ++ m)).take k := by
  have hsub : (l.take k ++ m.take k).Sublist (l ++ m) :=
    (List.take_sublist k l).append (List.take_sublist k m)
  rw [rest_append hl hm hkeys, rest_append (hl.sublist (List.take_sublist k l))
    (hm.sublist (List.take_sublist k m)) (hkeys.sublist (hsub.map key)), take_merge _ le_rfl le_rfl]

end Order

end FocServices.Paging
