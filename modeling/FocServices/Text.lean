import Mathlib.Data.Nat.Notation
import Mathlib.Data.Int.Notation
import Mathlib.Data.Nat.Digits.Defs
import Mathlib.Tactic.Common

/-!
# Text functions of the Go standard library

The few functions on text the services rely on: trimming, character classes,
decimal formatting, and the textual form of UUIDs.
-/

namespace FocServices

/-- `unicode.IsSpace`. -/
def isSpace (c : Char) : Bool :=
  (0x09 ≤ c.toNat && c.toNat ≤ 0x0d) || c.toNat == 0x20 || c.toNat == 0x85 || c.toNat == 0xa0 ||
  c.toNat == 0x1680 || (0x2000 ≤ c.toNat && c.toNat ≤ 0x200a) || c.toNat == 0x2028 ||
  c.toNat == 0x2029 || c.toNat == 0x202f || c.toNat == 0x205f || c.toNat == 0x3000

/-- `unicode.IsControl`. -/
def isControl (c : Char) : Bool := c.toNat < 0x20 || (0x7f ≤ c.toNat && c.toNat < 0xa0)

/-- `strings.TrimSpace`. -/
def trimSpace (s : String) : String :=
  .ofList ((s.toList.dropWhile isSpace).reverse.dropWhile isSpace).reverse

/-- `strings.ToLower` on ASCII text, which is all it is used on. -/
def toLower (s : String) : String := .ofList (s.toList.map Char.toLower)

/-- `[0-9a-f]` in either letter case. -/
def isHex (c : Char) : Bool := c ∈ "0123456789abcdefABCDEF".toList

/-- Text of the form 8-4-4-4-12 over hexadecimal digits, in either letter case. -/
def uuidPattern (s : String) : Bool :=
  s.toList.length == 36 && s.toList.zipIdx.all fun (c, i) =>
    if i ∈ [8, 13, 18, 23] then c == '-' else isHex c

theorem length_of_uuidPattern {s : String} (h : uuidPattern s = true) : s.toList.length = 36 := by
  simp only [uuidPattern, Bool.and_eq_true, beq_iff_eq] at h
  exact h.1

@[simp] theorem length_toLower (s : String) : (toLower s).toList.length = s.toList.length := by
  simp [toLower]

theorem mem_uuid_chars {s : String} (h : uuidPattern s = true) {c : Char} (hc : c ∈ s.toList) :
    c = '-' ∨ isHex c = true := by
  simp only [uuidPattern, Bool.and_eq_true, List.all_eq_true] at h
  obtain ⟨i, hi, rfl⟩ := List.mem_iff_getElem.mp hc
  have hmem : (s.toList[i], i) ∈ s.toList.zipIdx :=
    List.mem_iff_getElem.mpr ⟨i, by simpa using hi, by simp⟩
  have hall := h.2 _ hmem
  split at hall
  · exact Or.inl (by simpa using hall)
  · exact Or.inr hall

/-- A UUID contains no colon, so it can be told from what follows it in a key. -/
theorem colon_notMem_uuid {s : String} (h : uuidPattern s = true) : ':' ∉ s.toList := by
  intro hc
  rcases mem_uuid_chars h hc with hdash | hhex
  · exact absurd hdash (by decide)
  · exact absurd hhex (by decide)

/-- Decimal notation is injective. -/
theorem repr_injective {m n : ℕ} (h : m.repr = n.repr) : m = n := by
  have hlist : Nat.toDigits 10 m = Nat.toDigits 10 n := by
    rw [← Nat.toList_repr, ← Nat.toList_repr, h]
  rw [← @Nat.ofDigitChars_ten_toDigits m, hlist, Nat.ofDigitChars_ten_toDigits]

/-- `%d` of non-negative numbers is injective. -/
theorem toString_int_injective {m n : ℤ} (hm : 0 ≤ m) (hn : 0 ≤ n)
    (h : toString m = toString n) : m = n := by
  rw [Int.toString_eq_repr, Int.toString_eq_repr, Int.repr_eq_if, Int.repr_eq_if,
    if_pos hm, if_pos hn] at h
  have := repr_injective h
  omega

/-! ## Sizes in bytes -/

/-- Text of one-byte characters has as many bytes as characters. -/
theorem utf8ByteSize_of_ascii {s : String} (h : ∀ c ∈ s.toList, c.utf8Size = 1) :
    s.utf8ByteSize = s.toList.length := by
  have hlist : ∀ l : List Char, (∀ c ∈ l, c.utf8Size = 1) →
      (String.ofList l).utf8ByteSize = l.length := by
    intro l
    induction l with
    | nil => exact fun _ => rfl
    | cons c l ih =>
      intro h
      rw [String.ofList_cons, String.utf8ByteSize_append, String.utf8ByteSize_singleton,
        h c List.mem_cons_self, ih fun c hc => h c (List.mem_cons_of_mem _ hc), List.length_cons]
      omega
  have hs := hlist s.toList h
  rwa [String.ofList_toList] at hs

/-- What holds of the twenty-two characters holds of every hexadecimal digit. -/
theorem of_isHex {p : Char → Bool} (hall : "0123456789abcdefABCDEF".toList.all p = true) {c : Char}
    (h : isHex c = true) : p c = true :=
  List.all_eq_true.mp hall c (of_decide_eq_true h)

theorem utf8ByteSize_uuid {s : String} (h : uuidPattern s = true) : s.utf8ByteSize = 36 := by
  rw [utf8ByteSize_of_ascii, length_of_uuidPattern h]
  intro c hc
  rcases mem_uuid_chars h hc with rfl | hc
  · rfl
  · exact of_decide_eq_true (of_isHex (p := fun c => c.utf8Size = 1) (by decide) hc)

/-- The decimal notation of a number below a power of ten. -/
theorem utf8ByteSize_repr_le {n k : ℕ} (hk : 0 < k) (h : n < 10 ^ k) : n.repr.utf8ByteSize ≤ k := by
  have hdigit : ∀ c ∈ n.repr.toList, c.utf8Size = 1 := by
    intro c hc
    rw [Nat.toList_repr] at hc
    have hd := Nat.isDigit_of_mem_toDigits (by decide) (by decide) hc
    simp only [Char.isDigit, ge_iff_le, Bool.and_eq_true, decide_eq_true_eq] at hd
    rw [Char.utf8Size_eq_one_iff]
    exact UInt32.le_trans hd.2 (by decide)
  rw [utf8ByteSize_of_ascii hdigit, Nat.toList_repr]
  exact Nat.toDigits_length 10 n k hk h

end FocServices
