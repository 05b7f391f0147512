import Mathlib.Algebra.Group.Int.Defs
import FocServices.Orders.Store

/-!
# Query strings of the errand lists

The lists read `limit` and `cursor` from the query string of a request. A cursor is text that
holds a time in JSON, which has times of the years 0 to 9999 only.
-/

namespace FocServices.Orders

/-- `url.Values`: names with their values, in the order sent. -/
abbrev Values := List (String × String)

/-- `strconv.Atoi`. -/
def atoi (s : String) : Option ℤ :=
  let (negative, digits) := match s.toList with
    | '-' :: digits => (true, digits)
    | '+' :: digits => (false, digits)
    | digits => (false, digits)
  if digits ≠ [] ∧ digits.all Char.isDigit then
    let n : ℤ := digits.foldl (fun n c => 10 * n + (c.toNat - '0'.toNat : ℕ)) 0
    let value := if negative then -n else n
    if -2 ^ 63 ≤ value ∧ value < 2 ^ 63 then some value else none
  else none

def defaultPageSize : ℕ := 25

def maxPageSize : ℕ := 100

def maxCursorLength : ℕ := 512

def invalidArgument (message : String) : StoreError := appErr .invalidArgument message

/-- `opsrepo.invalid`. -/
def opsInvalid (message : String) : StoreError := .wrapped message (.ops .invalidArgument)

/-- The page size of a list request. -/
def parseLimit (values : Values) : Except StoreError ℕ :=
  match values.lookup "limit" with
  | none => .ok defaultPageSize
  | some text =>
    match atoi text with
    | some limit =>
      if limit < 1 ∨ maxPageSize < limit then
        .error (invalidArgument "limit must be between 1 and 100")
      else .ok limit.toNat
    | none => .error (invalidArgument "limit must be between 1 and 100")

theorem parseLimit_bounds {values : Values} {limit : ℕ} (h : parseLimit values = .ok limit) :
    0 < limit ∧ limit ≤ maxPageSize := by
  unfold parseLimit at h
  split at h
  · cases h
    decide
  · split at h
    · split at h
      · cases h
      · cases h
        omega
    · cases h

/-- `json.Marshal` has text for the time: its year is one of 0 to 9999. -/
def JSONTime (t : ℤ) : Prop := -62167219200000000000 ≤ t ∧ t < 253402300800000000000

instance (t : ℤ) : Decidable (JSONTime t) := inferInstanceAs (Decidable (_ ∧ _))

/-- Cursors as text for URLs: JSON in base 64. Legal cursors are read back as they were, and
their text is as long as the lists accept. -/
structure CursorText (γ : Type) (legal : γ → Prop) where
  encode : γ → String
  decode : String → Option γ
  decode_encode : ∀ c, legal c → decode (encode c) = some c
  encode_fits : ∀ c, legal c → encode c ≠ "" ∧ (encode c).utf8ByteSize ≤ maxCursorLength

/-! ## Samples -/

namespace Sample

/-- An identifier, a mark and a time as text. -/
def stamp (mark : Char) (id : String) (t : ℤ) : String :=
  .ofList (id.toList ++ mark :: Nat.toDigits 10 (t + 62167219200000000000).toNat)

def readStamp (s : String) : Option (Char × String × ℤ) :=
  match s.toList.drop 36 with
  | [] => none
  | mark :: digits => some (mark, .ofList (s.toList.take 36),
      Nat.ofDigitChars 10 digits 0 - 62167219200000000000)

variable {mark : Char} {id : String} {t : ℤ}

theorem readStamp_stamp (htime : JSONTime t) (hid : uuidPattern id = true) :
    readStamp (stamp mark id t) = some (mark, id, t) := by
  have hlen := length_of_uuidPattern hid
  have hback : ((t + 62167219200000000000).toNat : ℤ) - 62167219200000000000 = t := by
    have := htime.1
    omega
  simp only [readStamp, stamp, String.toList_ofList, ← hlen, List.drop_left, List.take_left,
    Nat.ofDigitChars_ten_toDigits, String.ofList_toList, hback]

theorem stamp_fits (hmark : mark.utf8Size = 1) (htime : JSONTime t)
    (hid : uuidPattern id = true) :
    stamp mark id t ≠ "" ∧ (stamp mark id t).utf8ByteSize ≤ maxCursorLength := by
  have hlen := length_of_uuidPattern hid
  constructor
  · intro h
    have := congrArg (fun s : String => s.toList.length) h
    simp [stamp, hlen] at this
  · have hsplit : stamp mark id t = id ++ String.singleton mark ++
        (t + 62167219200000000000).toNat.repr := by
      apply String.toList_injective
      simp [stamp, Nat.toList_repr]
    have hrepr : (t + 62167219200000000000).toNat.repr.utf8ByteSize ≤ 21 := by
      refine utf8ByteSize_repr_le (by decide) ?_
      have := htime.1
      have := htime.2
      omega
    rw [hsplit, String.utf8ByteSize_append, String.utf8ByteSize_append, utf8ByteSize_uuid hid,
      String.utf8ByteSize_singleton, hmark]
    exact Nat.le_trans (Nat.add_le_add_left hrepr _) (by decide)

end Sample

end FocServices.Orders
