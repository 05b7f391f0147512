import Mathlib.Data.List.Forall2
import Mathlib.Data.List.Nodup
import Mathlib.Data.List.Sort
import Mathlib.Order.Defs.LinearOrder
import Mathlib.Tactic.Common

/-!
# Keyset pages

A client reads a list page by page. Each page starts after a position, shows rows in the
order of their keys, and names the position of its last row when more rows may follow. The
rows change between two pages, so a page is described by two sets: the rows it must show if
they lie in its range, and the rows it may show at all. The results are about the whole scan.
-/

namespace FocServices.Paging

/-- The rows of one page, and the position that the next page starts after, if there is one. -/
structure Page (α K : Type) where
  items : List α
  next : Option K

variable {α β K C ε : Type}

/-- One page of rows that are already in order, of which one more than the limit was read to
see whether another page follows. -/
def cut (key : α → K) (limit : ℕ) (rows : List α) : Page α K where
  items := rows.take limit
  next := if limit < rows.length then rows[limit - 1]?.map key else none

/-- A client that follows the positions it is given until there is none. Request `i` of the
client goes to `request i`. -/
def follow (request : ℕ → Option C → Except ε (Page β C)) :
    ℕ → ℕ → Option C → Option (Except ε (List (Page β C)))
  | 0, _, _ => none
  | fuel + 1, i, p =>
    match request i p with
    | .error err => some (.error err)
    | .ok page =>
      match page.next with
      | none => some (.ok [page])
      | some c => (follow request fuel (i + 1) (some c)).map fun pages => pages.map (page :: ·)

/-- What holds of every answer holds of all that a client was given. -/
theorem follow_forall {request : ℕ → Option C → Except ε (Page β C)} {P : Page β C → Prop}
    (hP : ∀ i p answer, request i p = .ok answer → P answer) {fuel i : ℕ} {p : Option C}
    {answers : List (Page β C)} (h : follow request fuel i p = some (.ok answers)) :
    ∀ answer ∈ answers, P answer := by
  induction fuel generalizing i p answers with
  | zero => cases h
  | succ fuel ih =>
    unfold follow at h
    split at h
    · cases h
    · next answer hanswer =>
      split at h
      · cases h
        exact List.forall_mem_singleton.mpr (hP i p answer hanswer)
      · obtain ⟨later, hlater, hcons⟩ := Option.map_eq_some_iff.mp h
        cases later with
        | error err => cases hcons
        | ok later =>
          cases hcons
          exact List.forall_mem_cons.mpr ⟨hP i p answer hanswer, ih hlater⟩

/-- All rows of a scan, in the order in which they were shown. -/
def rowsOf (pages : List (Page α K)) : List α := pages.flatMap Page.items

@[simp] theorem rowsOf_nil : rowsOf ([] : List (Page α K)) = [] := rfl

@[simp] theorem rowsOf_cons (page : Page α K) (pages : List (Page α K)) :
    rowsOf (page :: pages) = page.items ++ rowsOf pages := rfl

/-- An answer shows the rows of a page, each as `sees` allows, and gives the position of the
next page as a token. -/
structure Renders (sees : α → β → Prop) (token : K → C) (page : Page α K) (answer : Page β C) :
    Prop where
  items : List.Forall₂ sees page.items answer.items
  next : answer.next = page.next.map token

/-- Answers that show pages show all their rows. -/
theorem rowsOf_renders {sees : α → β → Prop} {token : K → C} {pages : List (Page α K)}
    {answers : List (Page β C)} (h : List.Forall₂ (Renders sees token) pages answers) :
    List.Forall₂ sees (rowsOf pages) (rowsOf answers) := by
  induction h with
  | nil => exact .nil
  | cons hpage _ ih => exact List.rel_append hpage.items ih

theorem exists_mem_of_forall₂ {R : α → β → Prop} {l : List α} {m : List β}
    (h : List.Forall₂ R l m) {y : β} (hy : y ∈ m) : ∃ x ∈ l, R x y := by
  obtain ⟨i, hi, rfl⟩ := List.mem_iff_getElem.mp hy
  exact ⟨_, List.getElem_mem (h.length_eq ▸ hi), h.get (h.length_eq ▸ hi) hi⟩

theorem eq_map_of_forall₂ {f : α → β} {l : List α} {m : List β}
    (h : List.Forall₂ (fun x y => y = f x) l m) : m = l.map f := by
  induction h with
  | nil => rfl
  | cons hxy _ ih => rw [List.map_cons, hxy, ih]

/-- Reading one row more than the limit is enough to cut a page. -/
theorem cut_take (key : α → K) (limit : ℕ) (rows : List α) :
    cut key limit (rows.take (limit + 1)) = cut key limit rows := by
  unfold cut
  congr 1
  · simp only [List.take_take]
    congr 1
    omega
  · by_cases hmore : limit < rows.length
    · rw [if_pos hmore, if_pos (by simp only [List.length_take]; omega),
        List.getElem?_take_of_lt (by omega)]
    · rw [if_neg hmore, if_neg (by simp only [List.length_take]; omega)]

section Order

variable [LinearOrder K]

/-- The key lies after the position. Every key lies after the start. -/
def After (p : Option K) (k : K) : Prop := ∀ q, p = some q → q < k

theorem after_none (k : K) : After none k := fun _ h => by cases h

theorem after_some {q k : K} : After (some q) k ↔ q < k :=
  ⟨fun h => h q rfl, fun h _ hq => by cases hq; exact h⟩

instance (p : Option K) (k : K) : Decidable (After p k) :=
  match p with
  | none => isTrue (after_none k)
  | some q => decidable_of_iff (q < k) after_some.symm

theorem After.trans {p : Option K} {k l : K} (h : After p k) (hkl : k < l) : After p l :=
  fun q hq => lt_trans (h q hq) hkl

/-- Rows after a position, ordered by their keys. -/
def rest (key : α → K) (p : Option K) (rows : List α) : List α :=
  (rows.filter fun x => After p (key x)).insertionSort fun x y => key x ≤ key y

theorem mem_rest {key : α → K} {p : Option K} {rows : List α} {x : α} :
    x ∈ rest key p rows ↔ x ∈ rows ∧ After p (key x) := by
  simp [rest]

/-- Sorting rows with different keys orders them strictly. -/
theorem sort_increasing {key : α → K} {rows : List α} (hkeys : (rows.map key).Nodup) :
    (rows.insertionSort fun x y => key x ≤ key y).Pairwise fun x y => key x < key y := by
  have htotal : Std.Total fun x y => key x ≤ key y := ⟨fun x y => le_total (key x) (key y)⟩
  have htrans : IsTrans α fun x y => key x ≤ key y := ⟨fun _ _ _ h h' => le_trans h h'⟩
  have hle := List.pairwise_insertionSort (fun x y => key x ≤ key y) rows
  have hne : (rows.insertionSort fun x y => key x ≤ key y).Pairwise fun x y => key x ≠ key y :=
    List.pairwise_map.mp (((List.perm_insertionSort _ _).map key).nodup_iff.mpr hkeys)
  exact (hle.and hne).imp fun h => lt_of_le_of_ne h.1 h.2

/-- Rows with different keys are strictly ordered. -/
theorem rest_increasing {key : α → K} (p : Option K) {rows : List α}
    (hkeys : (rows.map key).Nodup) :
    (rest key p rows).Pairwise fun x y => key x < key y :=
  sort_increasing (hkeys.sublist (List.filter_sublist.map key))

/-- Strictly ordered lists of the same rows are the same. -/
theorem increasing_ext {key : α → K} {l m : List α} (hl : l.Pairwise fun x y => key x < key y)
    (hm : m.Pairwise fun x y => key x < key y) (h : ∀ x, x ∈ l ↔ x ∈ m) : l = m := by
  have hantisymm : Std.Antisymm fun x y => key x < key y :=
    ⟨fun _ _ h h' => absurd h' (lt_asymm h)⟩
  have hirrefl : Std.Irrefl fun x y => key x < key y := ⟨fun _ => lt_irrefl _⟩
  exact hl.eq_of_mem_iff hm h

/-! ## One page -/

/-- What a page after `p` says about rows that must and rows that may be shown. -/
structure Shows (key : α → K) (must may : α → Prop) (p : Option K) (page : Page α K) : Prop where
  increasing : page.items.Pairwise fun x y => key x < key y
  after : ∀ x ∈ page.items, After p (key x)
  sound : ∀ x ∈ page.items, may x
  next_mem : ∀ q, page.next = some q → ∃ x ∈ page.items, key x = q
  le_next : ∀ q, page.next = some q → ∀ x ∈ page.items, key x ≤ q
  covers : ∀ x, must x → After p (key x) → (∀ q, page.next = some q → key x ≤ q) →
    x ∈ page.items

/-- The next page starts further on. -/
theorem Shows.next_after {key : α → K} {must may : α → Prop} {p : Option K} {page : Page α K}
    (h : Shows key must may p page) {q : K} (hq : page.next = some q) : After p q := by
  obtain ⟨x, hx, rfl⟩ := h.next_mem q hq
  exact h.after x hx

/-- A page cut from ordered rows shows them up to the position it names. -/
theorem cut_shows {key : α → K} {limit : ℕ} (hlimit : 0 < limit) {p : Option K}
    {rows : List α} (hsorted : rows.Pairwise fun x y => key x < key y)
    (hafter : ∀ x ∈ rows, After p (key x)) {must may : α → Prop}
    (hmust : ∀ x, must x → After p (key x) → x ∈ rows) (hmay : ∀ x ∈ rows, may x) :
    Shows key must may p (cut key limit rows) := by
  have hsub : ∀ x ∈ rows.take limit, x ∈ rows := fun x => List.mem_of_mem_take
  -- When more rows follow, the position is the key of the last row shown.
  have hnext : ∀ q, (cut key limit rows).next = some q →
      ∃ h : limit - 1 < rows.length, key (rows.get ⟨limit - 1, h⟩) = q := by
    intro q hq
    simp only [cut] at hq
    split at hq
    case isTrue hmore =>
      rw [List.getElem?_eq_getElem (by omega)] at hq
      exact ⟨by omega, by simpa using hq⟩
    case isFalse => cases hq
  refine ⟨hsorted.sublist (List.take_sublist _ _), fun x hx => hafter x (hsub x hx),
    fun x hx => hmay x (hsub x hx), ?_, ?_, ?_⟩
  · intro q hq
    obtain ⟨hlt, hkey⟩ := hnext q hq
    refine ⟨_, ?_, hkey⟩
    exact List.mem_take_iff_getElem.mpr ⟨limit - 1, by omega, rfl⟩
  · intro q hq x hx
    obtain ⟨hlt, rfl⟩ := hnext q hq
    obtain ⟨j, hj, rfl⟩ := List.mem_take_iff_getElem.mp hx
    rcases Nat.lt_or_ge j (limit - 1) with hlt' | hge
    · exact le_of_lt (List.pairwise_iff_getElem.mp hsorted j (limit - 1) (by omega) hlt hlt')
    · have hj' : j = limit - 1 := by omega
      subst hj'
      exact le_refl _
  · intro x hx hp hle
    obtain ⟨j, hj, rfl⟩ := List.mem_iff_getElem.mp (hmust x hx hp)
    refine List.mem_take_iff_getElem.mpr ⟨j, ?_, rfl⟩
    by_contra hout
    have hmore : limit < rows.length := by omega
    have hq : (cut key limit rows).next = some (key rows[limit - 1]) := by
      simp only [cut, if_pos hmore]
      rw [List.getElem?_eq_getElem (by omega), Option.map_some]
    have hlast := List.pairwise_iff_getElem.mp hsorted (limit - 1) j (by omega) hj (by omega)
    exact absurd (hle _ hq) (not_le_of_gt hlast)

/-! ## A whole scan -/

/-- The pages that a client read from request `i` on, starting after `p`. -/
inductive Scan (key : α → K) (must may : ℕ → α → Prop) :
    ℕ → Option K → List (Page α K) → Prop
  | last {i : ℕ} {p : Option K} {page : Page α K} (hpage : Shows key (must i) (may i) p page)
      (hnext : page.next = none) : Scan key must may i p [page]
  | more {i : ℕ} {p : Option K} {page : Page α K} {q : K} {pages : List (Page α K)}
      (hpage : Shows key (must i) (may i) p page) (hnext : page.next = some q)
      (hrest : Scan key must may (i + 1) (some q) pages) :
      Scan key must may i p (page :: pages)

namespace Scan

variable {key : α → K} {must may : ℕ → α → Prop} {i : ℕ} {p : Option K}
  {pages : List (Page α K)}

theorem after (h : Scan key must may i p pages) : ∀ x ∈ rowsOf pages, After p (key x) := by
  induction h with
  | last hpage hnext =>
    intro x hx
    rw [rowsOf_cons, rowsOf_nil, List.append_nil] at hx
    exact hpage.after x hx
  | more hpage hnext hrest ih =>
    intro x hx
    rw [rowsOf_cons, List.mem_append] at hx
    rcases hx with hx | hx
    · exact hpage.after x hx
    · exact (hpage.next_after hnext).trans (after_some.mp (ih x hx))

/-- The rows of a scan are shown in the order of their keys, and no key twice. -/
theorem increasing (h : Scan key must may i p pages) :
    (rowsOf pages).Pairwise fun x y => key x < key y := by
  induction h with
  | last hpage hnext =>
    rw [rowsOf_cons, rowsOf_nil, List.append_nil]
    exact hpage.increasing
  | more hpage hnext hrest ih =>
    rw [rowsOf_cons]
    refine List.pairwise_append.mpr ⟨hpage.increasing, ih, fun x hx y hy => ?_⟩
    exact lt_of_le_of_lt (hpage.le_next _ hnext x hx) (after_some.mp (hrest.after y hy))

/-- Every row shown was one that the request it was shown for may show. -/
theorem sound (h : Scan key must may i p pages) :
    ∀ x ∈ rowsOf pages, ∃ j, i ≤ j ∧ j < i + pages.length ∧ may j x := by
  induction h with
  | @last i p page hpage hnext =>
    intro x hx
    rw [rowsOf_cons, rowsOf_nil, List.append_nil] at hx
    exact ⟨i, Nat.le_refl i, by simp, hpage.sound x hx⟩
  | @more i p page q pages hpage hnext hrest ih =>
    intro x hx
    rw [rowsOf_cons, List.mem_append] at hx
    rcases hx with hx | hx
    · exact ⟨i, Nat.le_refl i, by simp, hpage.sound x hx⟩
    · obtain ⟨j, hij, hj, hmay⟩ := ih x hx
      exact ⟨j, by omega, by rw [List.length_cons]; omega, hmay⟩

/-- A row that every request must show is shown. -/
theorem covers (h : Scan key must may i p pages) {x : α} (hp : After p (key x))
    (hx : ∀ j, i ≤ j → j < i + pages.length → must j x) : x ∈ rowsOf pages := by
  induction h with
  | @last i p page hpage hnext =>
    rw [rowsOf_cons, rowsOf_nil, List.append_nil]
    refine hpage.covers x (hx i (Nat.le_refl i) (by simp)) hp fun q hq => ?_
    rw [hnext] at hq
    cases hq
  | @more i p page q pages hpage hnext hrest ih =>
    rw [rowsOf_cons, List.mem_append]
    rcases lt_or_ge q (key x) with hlt | hle
    · refine Or.inr (ih (after_some.mpr hlt) fun j hij hj => ?_)
      exact hx j (by omega) (by rw [List.length_cons]; omega)
    · refine Or.inl (hpage.covers x (hx i (Nat.le_refl i) (by simp)) hp fun q' hq' => ?_)
      rw [hnext] at hq'
      cases hq'
      exact hle

/-- Two rows of a scan, the first shown no later than the second. -/
theorem pairwise_of (h : Scan key must may i p pages) {R : α → α → Prop}
    (hR : ∀ j k x y, j ≤ k → may j x → may k y → key x < key y → R x y) :
    (rowsOf pages).Pairwise R := by
  induction h with
  | @last i p page hpage hnext =>
    rw [rowsOf_cons, rowsOf_nil, List.append_nil]
    exact hpage.increasing.imp_of_mem fun hx hy hlt =>
      hR i i _ _ (Nat.le_refl i) (hpage.sound _ hx) (hpage.sound _ hy) hlt
  | @more i p page q pages hpage hnext hrest ih =>
    rw [rowsOf_cons]
    refine List.pairwise_append.mpr ⟨?_, ih, fun x hx y hy => ?_⟩
    · exact hpage.increasing.imp_of_mem fun hx hy hlt =>
        hR i i _ _ (Nat.le_refl i) (hpage.sound _ hx) (hpage.sound _ hy) hlt
    · obtain ⟨k, hik, -, hmay⟩ := hrest.sound y hy
      exact hR i k x y (by omega) (hpage.sound x hx) hmay
        (lt_of_le_of_lt (hpage.le_next _ hnext x hx) (after_some.mp (hrest.after y hy)))

theorem nodup (h : Scan key must may i p pages) : ((rowsOf pages).map key).Nodup :=
  List.pairwise_map.mpr (h.increasing.imp fun hlt => ne_of_lt hlt)

/-- The positions that pages name are those of rows they show. -/
theorem next_mem (h : Scan key must may i p pages) {page : Page α K} (hpage : page ∈ pages)
    {q : K} (hq : page.next = some q) : ∃ x ∈ rowsOf pages, key x = q := by
  induction h with
  | last hshows hnext =>
    rw [List.mem_singleton.mp hpage] at hq
    rw [hnext] at hq
    cases hq
  | more hshows hnext hrest ih =>
    rcases List.mem_cons.mp hpage with rfl | hpage
    · obtain ⟨x, hx, hkey⟩ := hshows.next_mem q hq
      exact ⟨x, List.mem_append_left _ hx, hkey⟩
    · obtain ⟨x, hx, hkey⟩ := ih hpage
      exact ⟨x, List.mem_append_right _ hx, hkey⟩

/-- A row that every request must show is shown once, if no other row shown is like it. -/
theorem filter_eq (h : Scan key must may i p pages) {x : α} (hp : After p (key x))
    (hx : ∀ j, i ≤ j → j < i + pages.length → must j x) {like : α → Bool}
    (hlike : like x = true) (honly : ∀ j y, i ≤ j → j < i + pages.length → may j y →
      like y = true → y = x) : (rowsOf pages).filter like = [x] := by
  have hnodup : ((rowsOf pages).filter like).Nodup := (List.Nodup.of_map key h.nodup).filter _
  refine List.perm_singleton.mp
    ((List.perm_ext_iff_of_nodup hnodup (List.nodup_singleton x)).mpr fun y => ?_)
  rw [List.mem_filter, List.mem_singleton]
  constructor
  · rintro ⟨hy, hliked⟩
    obtain ⟨j, hij, hj, hmay⟩ := h.sound y hy
    exact honly j y hij hj hmay hliked
  · rintro rfl
    exact ⟨h.covers hp hx, hlike⟩

end Scan

/-! ## Requests that serve pages -/

/-- What the requests answer, for a position of an earlier page given as `token`, shows a page
of the rows. `ready` is what is known of such positions. -/
def Serves (key : α → K) (must may : ℕ → α → Prop) (ready : K → Prop) (sees : α → β → Prop)
    (token : K → C) (request : ℕ → Option C → Except ε (Page β C)) : Prop :=
  ∀ i p answer, (∀ q, p = some q → ready q) → request i (p.map token) = .ok answer →
    ∃ page : Page α K, Renders sees token page answer ∧ Shows key (must i) (may i) p page ∧
      ∀ q, page.next = some q → ready q

/-- The requests refuse no position of an earlier page. -/
def Accepts (ready : K → Prop) (token : K → C)
    (request : ℕ → Option C → Except ε (Page β C)) : Prop :=
  ∀ i p, (∀ q, p = some q → ready q) → ∃ answer, request i (p.map token) = .ok answer

section Serves

variable {key : α → K} {must may : ℕ → α → Prop} {ready : K → Prop} {sees : α → β → Prop}
  {token : K → C} {request : ℕ → Option C → Except ε (Page β C)}

/-- A client that gets to the end has read a scan, whatever the rows did meanwhile. -/
theorem Serves.scan (h : Serves key must may ready sees token request) {fuel i : ℕ}
    {p : Option K} (hp : ∀ q, p = some q → ready q) {answers : List (Page β C)}
    (hanswers : follow request fuel i (p.map token) = some (.ok answers)) :
    ∃ pages, List.Forall₂ (Renders sees token) pages answers ∧ Scan key must may i p pages := by
  induction fuel generalizing i p answers with
  | zero => cases hanswers
  | succ fuel ih =>
    unfold follow at hanswers
    cases hanswer : request i (p.map token) with
    | error err =>
      rw [hanswer] at hanswers
      cases hanswers
    | ok answer =>
      rw [hanswer] at hanswers
      obtain ⟨page, hrenders, hshows, hready⟩ := h i p answer hp hanswer
      simp only [hrenders.next] at hanswers
      cases hnext : page.next with
      | none =>
        simp only [hnext, Option.map_none, Option.some.injEq, Except.ok.injEq] at hanswers
        subst hanswers
        exact ⟨[page], .cons hrenders .nil, .last hshows hnext⟩
      | some q =>
        simp only [hnext, Option.map_some] at hanswers
        obtain ⟨later, hlater, hcons⟩ := Option.map_eq_some_iff.mp hanswers
        cases later with
        | error err => cases hcons
        | ok later =>
          cases hcons
          have hq : ∀ q', some q = some q' → ready q' := fun q' hq' =>
            hready q' (hnext.trans hq')
          obtain ⟨pages, hpages, hscan⟩ := ih hq hlater
          exact ⟨page :: pages, .cons hrenders hpages, .more hshows hnext hscan⟩

/-- Without refusals a client that gets to the end has read all pages. -/
theorem Serves.succeeds (h : Serves key must may ready sees token request)
    (haccepts : Accepts ready token request) {fuel i : ℕ} {p : Option K}
    (hp : ∀ q, p = some q → ready q) {result : Except ε (List (Page β C))}
    (hresult : follow request fuel i (p.map token) = some result) :
    ∃ answers, result = .ok answers := by
  induction fuel generalizing i p result with
  | zero => cases hresult
  | succ fuel ih =>
    obtain ⟨answer, hanswer⟩ := haccepts i p hp
    obtain ⟨page, hrenders, -, hready⟩ := h i p answer hp hanswer
    unfold follow at hresult
    rw [hanswer] at hresult
    simp only [hrenders.next] at hresult
    cases hnext : page.next with
    | none =>
      simp only [hnext, Option.map_none, Option.some.injEq] at hresult
      exact ⟨_, hresult.symm⟩
    | some q =>
      simp only [hnext, Option.map_some] at hresult
      obtain ⟨later, hlater, rfl⟩ := Option.map_eq_some_iff.mp hresult
      obtain ⟨answers, rfl⟩ := ih (fun q' hq' => hready q' (hnext.trans hq')) hlater
      exact ⟨_, rfl⟩

/-- A client gets to the end when the rows that were there at one time or another have
finitely many keys. -/
theorem Serves.ends (h : Serves key must may ready sees token request) {pool : List K}
    (hpool : ∀ i x, may i x → key x ∈ pool) {fuel i : ℕ} {p : Option K}
    (hp : ∀ q, p = some q → ready q) (hfuel : (pool.filter fun k => After p k).length < fuel) :
    ∃ result, follow request fuel i (p.map token) = some result := by
  induction fuel generalizing i p with
  | zero => omega
  | succ fuel ih =>
    unfold follow
    cases hanswer : request i (p.map token) with
    | error err => exact ⟨.error err, rfl⟩
    | ok answer =>
      obtain ⟨page, hrenders, hshows, hready⟩ := h i p answer hp hanswer
      simp only [hrenders.next]
      cases hnext : page.next with
      | none => exact ⟨.ok [answer], rfl⟩
      | some q =>
        -- The position itself is a key of the pool that the next page no longer has ahead.
        obtain ⟨x, hx, hkey⟩ := hshows.next_mem q hnext
        have hmem : q ∈ pool.filter fun k => After p k := by
          rw [← hkey]
          exact List.mem_filter.mpr ⟨hpool i x (hshows.sound x hx), by
            simpa using hshows.after x hx⟩
        have hfewer : (pool.filter fun k => After (some q) k).length <
            (pool.filter fun k => After p k).length := by
          have hsub : (pool.filter fun k => After (some q) k) =
              (pool.filter fun k => After p k).filter fun k => After (some q) k := by
            rw [List.filter_filter]
            refine List.filter_congr fun k _ => ?_
            by_cases hk : q < k
            · simp [after_some.mpr hk, (hshows.next_after hnext).trans hk]
            · simp [mt after_some.mp hk]
          rw [hsub]
          refine List.length_filter_lt_length_iff_exists.mpr ⟨q, hmem, ?_⟩
          simp [after_some]
        have hq : ∀ q', some q = some q' → ready q' := fun q' hq' => hready q' (hnext.trans hq')
        obtain ⟨result, hresult⟩ := ih (i := i + 1) hq (by omega)
        simp only [Option.map_some]
        exact ⟨_, by rw [← Option.map_some, hresult]; rfl⟩

/-- A client reads all rows, each once and in order, when they do not change. -/
theorem Serves.enumerates {P : α → Prop}
    (h : Serves key (fun _ => P) (fun _ => P) ready sees token request)
    (haccepts : Accepts ready token request) {rows : List α}
    (hsorted : rows.Pairwise fun x y => key x < key y) (hrows : ∀ x, x ∈ rows ↔ P x) :
    ∃ fuel answers, follow request fuel 0 none = some (.ok answers) ∧
      List.Forall₂ sees rows (rowsOf answers) := by
  have hstart : ∀ q, (none : Option K) = some q → ready q := fun _ hq => by cases hq
  have hpool : ∀ (i : ℕ) x, P x → key x ∈ rows.map key := fun _ x hx =>
    List.mem_map_of_mem ((hrows x).mpr hx)
  obtain ⟨result, hresult⟩ := h.ends hpool (i := 0) hstart (Nat.lt_succ_self _)
  obtain ⟨answers, rfl⟩ := h.succeeds haccepts hstart hresult
  obtain ⟨pages, hrenders, hscan⟩ := h.scan hstart hresult
  have hall : rowsOf pages = rows := by
    refine increasing_ext hscan.increasing hsorted fun x => ?_
    rw [hrows]
    constructor
    · intro hx
      obtain ⟨i, -, -, hmay⟩ := hscan.sound x hx
      exact hmay
    · exact fun hx => hscan.covers (after_none _) fun _ _ _ => hx
  exact ⟨_, answers, hresult, hall ▸ rowsOf_renders hrenders⟩

end Serves

end Order

end FocServices.Paging
