import FocServices.Text

/-!
# UUIDs as the database reads and prints them

`pgtype.UUID` scans UUID arguments and PostgreSQL casts text to `uuid`; both accept
several spellings and print one. A UUID value is identified with its printed form.
-/

namespace FocServices

/-- The canonical text of a UUID given by its 32 digits. -/
def formatUUID (digits : List Char) : String :=
  let ds := digits.map Char.toLower
  .ofList (ds.take 8 ++ ['-'] ++ (ds.drop 8).take 4 ++ ['-'] ++ (ds.drop 12).take 4 ++ ['-'] ++
    (ds.drop 16).take 4 ++ ['-'] ++ ds.drop 20)

/-- Read groups of four hexadecimal digits with an optional hyphen between them. -/
def readGroups : ℕ → List Char → Option (List Char)
  | 0, cs => if cs = [] then some [] else none
  | n + 1, cs =>
    let group := cs.take 4
    if group.length = 4 ∧ group.all isHex then
      let rest := cs.drop 4
      let rest := if 0 < n ∧ rest.head? = some '-' then rest.tail else rest
      (readGroups n rest).map (group ++ ·)
    else none

/-- A UUID argument as `pgtype.UUID` scans it, in canonical text: 32 hexadecimal digits,
or 36 characters of which those between the groups are skipped unread. -/
def scanUUID (s : String) : Option String :=
  let cs := s.toList
  let digits := match cs.length with
    | 36 => cs.take 8 ++ (cs.drop 9).take 4 ++ (cs.drop 14).take 4 ++ (cs.drop 19).take 4 ++
        cs.drop 24
    | 32 => cs
    | _ => []
  if digits.length = 32 ∧ digits.all isHex then some (formatUUID digits) else none

/-- The value of a `uuid` cast in PostgreSQL, in canonical text: eight groups of four
hexadecimal digits with an optional hyphen between groups, all in optional braces. -/
def castUUID (s : String) : Option String :=
  let cs := s.toList
  let inner := if cs.head? = some '\x7b' then
      if cs.getLast? = some '\x7d' then some cs.tail.dropLast else none
    else some cs
  (inner.bind (readGroups 8)).map formatUUID

/-- Text in the form in which PostgreSQL and `pgtype.UUID` print a UUID. -/
def Canonical (s : String) : Prop := scanUUID s = some s

instance (s : String) : Decidable (Canonical s) := inferInstanceAs (Decidable (_ = _))

theorem isHex_toLower {c : Char} (h : isHex c = true) : isHex c.toLower = true :=
  of_isHex (p := fun c => isHex c.toLower) (by decide) h

theorem toLower_toLower {c : Char} (h : isHex c = true) : c.toLower.toLower = c.toLower :=
  of_decide_eq_true (of_isHex (p := fun c => c.toLower.toLower = c.toLower) (by decide) h)

/-- Thirty-two digits cut into the groups of a UUID. -/
theorem split_digits {digits : List Char} (hlen : digits.length = 32) :
    ∃ a b c d e, digits = a ++ b ++ c ++ d ++ e ∧ a.length = 8 ∧ b.length = 4 ∧ c.length = 4 ∧
      d.length = 4 ∧ e.length = 12 := by
  refine ⟨digits.take 8, (digits.drop 8).take 4, (digits.drop 12).take 4, (digits.drop 16).take 4,
    digits.drop 20, ?_, by simp [hlen], by simp [hlen], by simp [hlen], by simp [hlen],
    by simp [hlen]⟩
  have h20 : digits.drop 16 = (digits.drop 16).take 4 ++ digits.drop 20 := by
    rw [← List.drop_drop (i := 4) (j := 16), List.take_append_drop]
  have h16 : digits.drop 12 = (digits.drop 12).take 4 ++ digits.drop 16 := by
    rw [← List.drop_drop (i := 4) (j := 12), List.take_append_drop]
  have h12 : digits.drop 8 = (digits.drop 8).take 4 ++ digits.drop 12 := by
    rw [← List.drop_drop (i := 4) (j := 8), List.take_append_drop]
  conv_lhs => rw [← List.take_append_drop 8 digits, h12, h16, h20]
  simp only [List.append_assoc]

theorem map_toLower {l : List Char} (h : ∀ x ∈ l, isHex x = true) :
    (l.map Char.toLower).map Char.toLower = l.map Char.toLower := by
  rw [List.map_map]
  exact List.map_congr_left fun x hx => toLower_toLower (h x hx)

theorem filter_hyphen {l : List Char} (h : ∀ x ∈ l, isHex x = true) :
    l.filter (· ≠ '-') = l := by
  rw [List.filter_eq_self]
  intro x hx
  rw [decide_eq_true_eq]
  rintro rfl
  exact absurd (h _ hx) (by decide)

section Groups

variable {a b c d e : List Char}

theorem toList_formatUUID (ha : a.length = 8) (hb : b.length = 4) (hc : c.length = 4)
    (hd : d.length = 4) :
    (formatUUID (a ++ b ++ c ++ d ++ e)).toList = a.map Char.toLower ++ ['-'] ++
      b.map Char.toLower ++ ['-'] ++ c.map Char.toLower ++ ['-'] ++ d.map Char.toLower ++ ['-'] ++
      e.map Char.toLower := by
  simp [formatUUID, List.drop_append, ha, hb, hc, hd, List.drop_of_length_le]

/-- Text of 36 characters is scanned without what stands between the groups. -/
theorem scanUUID_groups {s : String} {x y z w : Char} (ha : a.length = 8) (hb : b.length = 4)
    (hc : c.length = 4) (hd : d.length = 4) (he : e.length = 12)
    (hs : s.toList = a ++ [x] ++ b ++ [y] ++ c ++ [z] ++ d ++ [w] ++ e) :
    scanUUID s = if (a ++ b ++ c ++ d ++ e).all isHex then
      some (formatUUID (a ++ b ++ c ++ d ++ e)) else none := by
  have hlen : s.toList.length = 36 := by simp [hs, ha, hb, hc, hd, he]
  simp only [scanUUID, hlen]
  rw [hs]
  simp [List.drop_append, ha, hb, hc, hd, he, List.drop_of_length_le]

end Groups

/-- Text of 36 characters cut at the places of the hyphens. -/
theorem split_text {cs : List Char} (hlen : cs.length = 36) :
    ∃ a x b y c z d w e, cs = a ++ [x] ++ b ++ [y] ++ c ++ [z] ++ d ++ [w] ++ e ∧
      a.length = 8 ∧ b.length = 4 ∧ c.length = 4 ∧ d.length = 4 ∧ e.length = 12 := by
  have hcut : ∀ (n k : ℕ) (l : List Char), l.length = n + 1 + k →
      ∃ a x r, l = a ++ [x] ++ r ∧ a.length = n ∧ r.length = k := by
    intro n k l hl
    have hn : n < l.length := by omega
    refine ⟨l.take n, l[n], l.drop (n + 1), ?_, by simp; omega, by simp; omega⟩
    rw [List.append_assoc, List.singleton_append, ← List.drop_eq_getElem_cons hn,
      List.take_append_drop]
  obtain ⟨a, x, r, rfl, ha, hr⟩ := hcut 8 27 cs hlen
  obtain ⟨b, y, r, rfl, hb, hr⟩ := hcut 4 22 r hr
  obtain ⟨c, z, r, rfl, hc, hr⟩ := hcut 4 17 r hr
  obtain ⟨d, w, e, rfl, hd, he⟩ := hcut 4 12 r hr
  exact ⟨a, x, b, y, c, z, d, w, e, by simp only [List.append_assoc], ha, hb, hc, hd, he⟩

/-- What scanned text is: the digits themselves, or the groups with something between. -/
theorem scanUUID_eq_some {s u : String} (h : scanUUID s = some u) :
    ∃ a b c d e, a.length = 8 ∧ b.length = 4 ∧ c.length = 4 ∧ d.length = 4 ∧ e.length = 12 ∧
      (a ++ b ++ c ++ d ++ e).all isHex = true ∧ u = formatUUID (a ++ b ++ c ++ d ++ e) ∧
      (s.toList = a ++ b ++ c ++ d ++ e ∨
        ∃ x y z w, s.toList = a ++ [x] ++ b ++ [y] ++ c ++ [z] ++ d ++ [w] ++ e) := by
  by_cases h36 : s.toList.length = 36
  · obtain ⟨a, x, b, y, c, z, d, w, e, hs, ha, hb, hc, hd, he⟩ := split_text h36
    rw [scanUUID_groups ha hb hc hd he hs] at h
    split at h
    · next hhex =>
      exact ⟨a, b, c, d, e, ha, hb, hc, hd, he, hhex, (Option.some.inj h).symm,
        Or.inr ⟨x, y, z, w, hs⟩⟩
    · cases h
  · by_cases h32 : s.toList.length = 32
    · simp only [scanUUID, h32, true_and] at h
      obtain ⟨a, b, c, d, e, hs, ha, hb, hc, hd, he⟩ := split_digits h32
      split at h
      · next hhex =>
        rw [hs] at h hhex
        exact ⟨a, b, c, d, e, ha, hb, hc, hd, he, hhex, (Option.some.inj h).symm, Or.inl hs⟩
      · cases h
    · have hnone : scanUUID s = none := by
        simp only [scanUUID]
        split
        · contradiction
        · rfl
      rw [hnone] at h
      cases h

/-- Printed digits scan to themselves. -/
theorem canonical_formatUUID {digits : List Char} (hlen : digits.length = 32)
    (hhex : digits.all isHex = true) : Canonical (formatUUID digits) := by
  obtain ⟨a, b, c, d, e, rfl, ha, hb, hc, hd, he⟩ := split_digits hlen
  have hmap : (a.map Char.toLower ++ b.map Char.toLower ++ c.map Char.toLower ++
      d.map Char.toLower ++ e.map Char.toLower) = (a ++ b ++ c ++ d ++ e).map Char.toLower := by
    simp only [List.map_append]
  rw [List.all_eq_true] at hhex
  have hhex' : ((a ++ b ++ c ++ d ++ e).map Char.toLower).all isHex = true := by
    rw [List.all_eq_true]
    intro x hx
    obtain ⟨y, hy, rfl⟩ := List.mem_map.mp hx
    exact isHex_toLower (hhex y hy)
  rw [Canonical, scanUUID_groups (by simpa using ha) (by simpa using hb) (by simpa using hc)
    (by simpa using hd) (by simpa using he) (toList_formatUUID ha hb hc hd), hmap, if_pos hhex']
  simp only [formatUUID, map_toLower hhex]

/-- Scanning yields canonical text. -/
theorem canonical_of_scanUUID {s u : String} (h : scanUUID s = some u) : Canonical u := by
  obtain ⟨a, b, c, d, e, ha, hb, hc, hd, he, hhex, rfl, -⟩ := scanUUID_eq_some h
  exact canonical_formatUUID (by simp [ha, hb, hc, hd, he]) hhex

/-- A group of digits in lower case fits where no hyphen is due. -/
theorem uuidPattern_group {l : List Char} {k : ℕ} (hl : ∀ x ∈ l, isHex x = true)
    (hk : ∀ i, k ≤ i → i < k + l.length → i ∉ [8, 13, 18, 23]) :
    (((l.map Char.toLower).zipIdx k).all fun (c, i) =>
      if i ∈ [8, 13, 18, 23] then c == '-' else isHex c) = true := by
  rw [List.all_eq_true]
  rintro ⟨x, i⟩ hx
  have hmem := List.mem_zipIdx hx
  rw [List.length_map] at hmem
  dsimp only
  rw [if_neg (hk i hmem.1 hmem.2.1)]
  have hx' : x ∈ l.map Char.toLower := by
    rw [hmem.2.2]
    exact List.getElem_mem _
  obtain ⟨y, hy, rfl⟩ := List.mem_map.mp hx'
  exact isHex_toLower (hl y hy)

/-- Canonical text is a UUID in lower case. -/
theorem uuidPattern_of_canonical {s : String} (h : Canonical s) :
    uuidPattern s = true ∧ toLower s = s := by
  obtain ⟨a, b, c, d, e, ha, hb, hc, hd, he, hhex, hs, -⟩ := scanUUID_eq_some h
  have hlist := toList_formatUUID (e := e) ha hb hc hd
  rw [← hs] at hlist
  simp only [List.all_append, Bool.and_eq_true, List.all_eq_true] at hhex
  obtain ⟨⟨⟨⟨hha, hhb⟩, hhc⟩, hhd⟩, hhe⟩ := hhex
  constructor
  · simp only [uuidPattern, hlist, List.zipIdx_append, List.all_append, List.length_append,
      List.length_map, List.length_singleton, ha, hb, hc, hd, he, Bool.and_eq_true, beq_iff_eq]
    refine ⟨trivial, ?_⟩
    refine ⟨⟨⟨⟨⟨⟨⟨⟨uuidPattern_group hha ?_, by decide⟩, uuidPattern_group hhb ?_⟩, by decide⟩,
      uuidPattern_group hhc ?_⟩, by decide⟩, uuidPattern_group hhd ?_⟩, by decide⟩,
      uuidPattern_group hhe ?_⟩ <;>
    · intro i hlo hhi
      simp only [List.mem_cons, List.not_mem_nil, or_false]
      omega
  · rw [← String.toList_inj, toLower, String.toList_ofList, hlist]
    simp only [List.map_append, map_toLower hha, map_toLower hhb, map_toLower hhc,
      map_toLower hhd, map_toLower hhe]
    rfl

/-- The digits of a cast are the text without its hyphens. -/
theorem readGroups_eq {n : ℕ} {cs ds : List Char} (h : readGroups n cs = some ds) :
    ds = cs.filter (· ≠ '-') ∧ ds.length = 4 * n := by
  induction n generalizing cs ds with
  | zero =>
    unfold readGroups at h
    split at h
    · next hnil =>
      cases h
      simp [hnil]
    · cases h
  | succ n ih =>
    unfold readGroups at h
    dsimp only at h
    split at h
    · next hgroup =>
      obtain ⟨rest, hrest, rfl⟩ := Option.map_eq_some_iff.mp h
      obtain ⟨hds, hlen⟩ := ih hrest
      have hkeep : (cs.take 4).filter (· ≠ '-') = cs.take 4 :=
        filter_hyphen fun x hx => List.all_eq_true.mp hgroup.2 x hx
      have hrest' : rest = (cs.drop 4).filter (· ≠ '-') := by
        rw [hds]
        split
        · next hdash =>
          obtain ⟨tail, htail⟩ := List.head?_eq_some_iff.mp hdash.2
          rw [htail]
          simp
        · rfl
      constructor
      · conv_rhs => rw [← List.take_append_drop 4 cs, List.filter_append, hkeep, ← hrest']
      · rw [List.length_append, hgroup.1, hlen]
        omega
    · cases h

/-- Where both read a UUID, the scan and the cast agree. -/
theorem scanUUID_eq_castUUID {s u v : String} (hu : scanUUID s = some u)
    (hv : castUUID s = some v) : u = v := by
  obtain ⟨a, b, c, d, e, ha, hb, hc, hd, he, hhex, rfl, hs⟩ := scanUUID_eq_some hu
  -- a scanned text starts with a digit, so the cast sees no braces
  have hhead : s.toList.head? ≠ some '\x7b' := by
    obtain ⟨x, a', rfl⟩ : ∃ x a', a = x :: a' := List.exists_cons_of_length_eq_add_one ha
    have hx : isHex x = true := List.all_eq_true.mp hhex x (by simp)
    have hhead : s.toList.head? = some x := by
      rcases hs with hs | ⟨_, _, _, _, hs⟩ <;> simp [hs]
    rw [hhead]
    rintro ⟨⟩
    exact absurd hx (by decide)
  simp only [castUUID, if_neg hhead, Option.bind_some, Option.map_eq_some_iff] at hv
  obtain ⟨ds, hread, rfl⟩ := hv
  obtain ⟨hds, hlen⟩ := readGroups_eq hread
  congr 1
  simp only [List.all_append, Bool.and_eq_true, List.all_eq_true] at hhex
  obtain ⟨⟨⟨⟨hha, hhb⟩, hhc⟩, hhd⟩, hhe⟩ := hhex
  rcases hs with hs | ⟨x, y, z, w, hs⟩
  · rw [hds, hs]
    simp only [List.filter_append, filter_hyphen hha, filter_hyphen hhb, filter_hyphen hhc,
      filter_hyphen hhd, filter_hyphen hhe]
  · -- the digits alone fill the cast, so what stands between the groups is dropped
    have hparts : ds = a ++ [x].filter (· ≠ '-') ++ b ++ [y].filter (· ≠ '-') ++ c ++
        [z].filter (· ≠ '-') ++ d ++ [w].filter (· ≠ '-') ++ e := by
      rw [hds, hs]
      simp only [List.filter_append, filter_hyphen hha, filter_hyphen hhb, filter_hyphen hhc,
        filter_hyphen hhd, filter_hyphen hhe]
    have hsum := congrArg List.length hparts
    simp only [List.length_append, ha, hb, hc, hd, he, hlen] at hsum
    have hnil : ∀ t : Char, ([t].filter (· ≠ '-')).length = 0 → [t].filter (· ≠ '-') = [] :=
      fun _ h => List.length_eq_zero_iff.mp h
    rw [hparts, hnil x (by omega), hnil y (by omega), hnil z (by omega), hnil w (by omega)]
    simp only [List.append_nil]

end FocServices
