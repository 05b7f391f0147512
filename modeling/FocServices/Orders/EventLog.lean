import FocServices.Orders.ReviewQueue
import Mathlib.Data.Prod.Lex
import Mathlib.Order.OrderDual

/-!
# The event log

An admin reads the log of transitions, newest first, with any combination of filters. One of
four queries is chosen by the filters that are given; each reads another index and applies the
remaining filters to its rows. The query by user finds the rows of a courier through the
accepts of the courier. The zero time stands for a time that is not given.
-/

namespace FocServices.Orders

open Paging Txn

/-! ## Rows and filters -/

/-- `opsrepo.Transition`: a row of the log with its identifier. -/
structure LogEntry where
  id : ℤ
  row : TransitionRow
  deriving DecidableEq

/-- `number` gives the identifier of the row that was stored at a place in the table;
identifiers need not be in the order of storing. -/
def Tables.entries (number : ℕ → ℤ) (s : Tables) : List LogEntry :=
  s.transitions.zipIdx.map fun (row, place) => ⟨number place, row⟩

structure TransitionCursor where
  time : ℤ
  id : ℤ
  deriving DecidableEq

/-- `opsrepo.TransitionFilter`. -/
structure TransitionFilter where
  errandID : String := ""
  userID : String := ""
  toStatus : String := ""
  fromTime : ℤ := zeroTime
  toTime : ℤ := zeroTime
  before : Option TransitionCursor := none
  limit : ℕ

/-- `errand.Statuses`. -/
def statuses : List Status :=
  [.pendingReservation, .open, .assigned, .pickedUp, .delivered, .reviewRequired, .rejected,
    .cancelled, .expired, .completed, .refunded]

/-- `Status.Valid` of the text of a status. -/
def validStatus (text : String) : Bool := statuses.any fun status => status.text = text

/-- `text`: an empty string is passed as `NULL`. -/
def nullable (text : String) : Option String := if text = "" then none else some text

/-- A `timestamptz` parameter. -/
inductive Timestamp where
  | null
  | negativeInfinity
  | finite (time : ℤ)
  | infinity

def timestamp (time : ℤ) : Timestamp := if time = zeroTime then .null else .finite (micros time)

def lowerBound (time : ℤ) : Timestamp :=
  if time = zeroTime then .negativeInfinity else timestamp time

def upperBound (time : ℤ) : Timestamp := if time = zeroTime then .infinity else timestamp time

/-- The bounds that each of the queries has. -/
structure Bounds where
  fromAt : Timestamp
  toAt : Timestamp
  cursorAt : Timestamp
  cursorID : ℤ

/-- `at >= from_at`. -/
def Timestamp.notAfter (at_ : ℤ) : Timestamp → Bool
  | .null | .infinity => false
  | .negativeInfinity => true
  | .finite time => time ≤ at_

/-- `at < to_at`. -/
def Timestamp.isAfter (at_ : ℤ) : Timestamp → Bool
  | .null | .negativeInfinity => false
  | .infinity => true
  | .finite time => at_ < time

/-- `(at, id) < (cursor_at, cursor_id)`. -/
def Timestamp.follows (at_ id cursorID : ℤ) : Timestamp → Bool
  | .null | .negativeInfinity => false
  | .infinity => true
  | .finite time => at_ < time ∨ at_ = time ∧ id < cursorID

def Bounds.keeps (b : Bounds) (x : LogEntry) : Bool :=
  b.fromAt.notAfter x.row.atTime && b.toAt.isAfter x.row.atTime &&
    b.cursorAt.follows x.row.atTime x.id b.cursorID

/-- The default position of the cursor comes after every row. -/
def TransitionFilter.bounds (f : TransitionFilter) : Bounds where
  fromAt := lowerBound f.fromTime
  toAt := upperBound f.toTime
  cursorAt := match f.before with
    | none => upperBound zeroTime
    | some c => timestamp c.time
  cursorID := match f.before with
    | none => 2 ^ 63 - 1
    | some c => c.id

/-! ## Queries -/

/-- `ORDER BY at DESC, id DESC`. -/
def LogEntry.place (x : LogEntry) : (ℤ ×ₗ ℤ)ᵒᵈ := .toDual (toLex (x.row.atTime, x.id))

/-- The newest rows that a query selects. -/
def newest (rows : List LogEntry) (limit : ℕ) : List LogEntry :=
  (rest LogEntry.place none rows).take limit

section Queries

variable (number : ℕ → ℤ) (s : Tables) (b : Bounds)

def matchesStatus (toStatus : Option String) (row : TransitionRow) : Bool :=
  toStatus.isNone || some row.target.text = toStatus

def Tables.requested (userID errandID : String) : Bool :=
  s.errands.any fun e => e.id = errandID && e.requesterID = userID

def Tables.listTransitionsByErrand (errandID : String) (toStatus userID : Option String)
    (limit : ℕ) : List LogEntry :=
  newest ((s.entries number).filter fun x =>
    x.row.errandID = errandID && b.keeps x && matchesStatus toStatus x.row &&
      userID.all fun user => x.row.actorID = user || x.row.courierID = user ||
        s.requested user x.row.errandID) limit

/-- The identifiers of the rows of a user: those that the user caused, those of errands that
the user requested, and those that name the user as courier, of errands that the user
accepted. -/
def Tables.transitionsOf (userID : String) : List ℤ :=
  ((s.entries number).filter fun a => a.row.actorID = userID).map LogEntry.id ++
  ((s.errands.filter fun e => e.requesterID = userID).flatMap fun e =>
    (s.entries number).filter fun r => r.row.errandID = e.id).map LogEntry.id ++
  ((s.entries number).filter fun c => c.row.courierID = userID ∧ c.row.errandID ∈
    ((s.entries number).filter fun x => x.row.actorID = userID ∧ x.row.event = .accept).map
      fun x => x.row.errandID).map LogEntry.id

def Tables.listTransitionsByUser (userID : String) (toStatus : Option String) (limit : ℕ) :
    List LogEntry :=
  newest ((s.entries number).filter fun t =>
    t.id ∈ s.transitionsOf number userID && b.keeps t && matchesStatus toStatus t.row) limit

def Tables.listTransitionsByType (toStatus : String) (limit : ℕ) : List LogEntry :=
  newest ((s.entries number).filter fun t => t.row.target.text = toStatus && b.keeps t) limit

def Tables.listTransitionsByTime (limit : ℕ) : List LogEntry :=
  newest ((s.entries number).filter b.keeps) limit

/-- `Repository.ListTransitions`. -/
def Tables.listTransitions (f : TransitionFilter) : Except StoreError (List LogEntry) :=
  if f.limit = 0 ∨ opsMaxPageSize < f.limit then
    .error (opsInvalid "limit must be between 1 and 200")
  else if f.toStatus ≠ "" ∧ validStatus f.toStatus = false then
    .error (opsInvalid (quote f.toStatus ++ " is not an errand status"))
  else if f.errandID ≠ "" then
    match scanUUID f.errandID with
    | none => .error (opsInvalid "errandId is not a UUID")
    | some errandID =>
      .ok (s.listTransitionsByErrand number f.bounds errandID (nullable f.toStatus)
        (nullable f.userID) f.limit)
  else if f.userID ≠ "" then
    .ok (s.listTransitionsByUser number f.bounds f.userID (nullable f.toStatus) f.limit)
  else if f.toStatus ≠ "" then
    .ok (s.listTransitionsByType number f.bounds f.toStatus f.limit)
  else .ok (s.listTransitionsByTime number f.bounds f.limit)

/-- The cursor of a page that ends with the row. -/
def LogEntry.cursor (x : LogEntry) : TransitionCursor := ⟨x.row.atTime, x.id⟩

/-- `EventService.List`. -/
def Tables.listEvents (q : TransitionFilter) : Except StoreError (Page LogEntry TransitionCursor) :=
  if q.limit < 1 ∨ maxPageSize < q.limit then
    .error (invalidArgument "limit must be between 1 and 100")
  else do
    let rows ← (s.listTransitions number { q with limit := q.limit + 1 }).mapError
      (.wrapped "list transitions")
    return cut LogEntry.cursor q.limit rows

/-- A request for the page after a cursor, or for the first page. -/
def Tables.askEvents (q : TransitionFilter) (_ : ℕ) :
    Option TransitionCursor → Except StoreError (Page LogEntry TransitionCursor)
  | none => s.listEvents number q
  | some c => s.listEvents number { q with before := some c }

end Queries

/-! ## What is selected -/

/-- The user requested the errand of the row, caused the transition or is recorded as the
courier. -/
def TransitionRow.Concerns (s : Tables) (user : String) (row : TransitionRow) : Prop :=
  (∃ e ∈ s.errands, e.id = row.errandID ∧ e.requesterID = user) ∨ row.actorID = user ∨
    row.courierID = user

/-- The row meets all conditions that are given. Times are compared in microseconds, and no
row comes after a cursor without a time. -/
structure TransitionFilter.Selects (s : Tables) (f : TransitionFilter) (x : LogEntry) : Prop where
  errand : f.errandID ≠ "" → scanUUID f.errandID = some x.row.errandID
  user : f.userID ≠ "" → x.row.Concerns s f.userID
  status : f.toStatus ≠ "" → x.row.target.text = f.toStatus
  notBefore : f.fromTime ≠ zeroTime → micros f.fromTime ≤ x.row.atTime
  before : f.toTime ≠ zeroTime → x.row.atTime < micros f.toTime
  cursor : ∀ c, f.before = some c → c.time ≠ zeroTime ∧
    (x.row.atTime < micros c.time ∨ x.row.atTime = micros c.time ∧ x.id < c.id)

/-- The filter is accepted with a limit up to `max`. -/
structure TransitionFilter.Valid (max : ℕ) (f : TransitionFilter) : Prop where
  errand : f.errandID ≠ "" → (scanUUID f.errandID).isSome = true
  status : f.toStatus ≠ "" → validStatus f.toStatus = true
  limit : 0 < f.limit ∧ f.limit ≤ max

section

variable {number : ℕ → ℤ} {s : Tables} {f : TransitionFilter} {x : LogEntry}

theorem mem_entries : x ∈ s.entries number →  x.row ∈ s.transitions := by
  simp only [Tables.entries, List.mem_map, Prod.exists]
  rintro ⟨row, place, hmem, rfl⟩
  exact List.fst_mem_of_mem_zipIdx hmem

theorem exists_entry {row : TransitionRow} (h : row ∈ s.transitions) :
    ∃ x ∈ s.entries number, x.row = row := by
  obtain ⟨place, hlt, rfl⟩ := List.mem_iff_getElem.mp h
  refine ⟨⟨number place, _⟩, List.mem_map.mpr ⟨(_, place), ?_, rfl⟩, rfl⟩
  exact List.mem_zipIdx_iff_getElem?.mpr (List.getElem?_eq_getElem hlt)

theorem entries_ids (hnumber : Function.Injective number) (s : Tables) :
    ((s.entries number).map LogEntry.id).Nodup := by
  have hids : (s.entries number).map LogEntry.id =
      (s.transitions.zipIdx.map Prod.snd).map number := by
    rw [Tables.entries, List.map_map, List.map_map]
    rfl
  rw [hids, List.zipIdx_map_snd]
  exact (List.nodup_range').map hnumber

theorem entries_places (hnumber : Function.Injective number) (s : Tables) :
    ((s.entries number).map LogEntry.place).Nodup := by
  refine List.Nodup.of_map (fun k => (ofLex (OrderDual.ofDual k)).2) ?_
  rw [List.map_map]
  exact entries_ids hnumber s

theorem keeps_iff : f.bounds.keeps x = true ↔
    (f.fromTime ≠ zeroTime → micros f.fromTime ≤ x.row.atTime) ∧
    (f.toTime ≠ zeroTime → x.row.atTime < micros f.toTime) ∧
    ∀ c, f.before = some c → c.time ≠ zeroTime ∧
      (x.row.atTime < micros c.time ∨ x.row.atTime = micros c.time ∧ x.id < c.id) := by
  have hfrom : (lowerBound f.fromTime).notAfter x.row.atTime = true ↔
      (f.fromTime ≠ zeroTime → micros f.fromTime ≤ x.row.atTime) := by
    by_cases h : f.fromTime = zeroTime <;> simp [lowerBound, timestamp, h, Timestamp.notAfter]
  have hto : (upperBound f.toTime).isAfter x.row.atTime = true ↔
      (f.toTime ≠ zeroTime → x.row.atTime < micros f.toTime) := by
    by_cases h : f.toTime = zeroTime <;> simp [upperBound, timestamp, h, Timestamp.isAfter]
  have hcursor : f.bounds.cursorAt.follows x.row.atTime x.id f.bounds.cursorID = true ↔
      ∀ c, f.before = some c → c.time ≠ zeroTime ∧
        (x.row.atTime < micros c.time ∨ x.row.atTime = micros c.time ∧ x.id < c.id) := by
    cases hbefore : f.before with
    | none => simp [TransitionFilter.bounds, hbefore, upperBound, Timestamp.follows]
    | some c =>
      by_cases h : c.time = zeroTime <;>
        simp [TransitionFilter.bounds, hbefore, timestamp, h, Timestamp.follows]
  rw [Bounds.keeps, Bool.and_eq_true, Bool.and_eq_true, hcursor, and_assoc]
  exact and_congr hfrom (and_congr hto Iff.rfl)

theorem matchesStatus_iff {row : TransitionRow} {text : String} :
    matchesStatus (nullable text) row = true ↔ (text ≠ "" → row.target.text = text) := by
  by_cases h : text = "" <;> simp [matchesStatus, nullable, h]

theorem requested_iff {user errandID : String} : s.requested user errandID = true ↔
    ∃ e ∈ s.errands, e.id = errandID ∧ e.requesterID = user := by
  simp [Tables.requested]

theorem userOf_iff {row : TransitionRow} {user : String} :
    ((nullable user).all fun user => row.actorID = user || row.courierID = user ||
      s.requested user row.errandID) = true ↔ (user ≠ "" → row.Concerns s user) := by
  by_cases h : user = "" <;>
    simp [nullable, h, TransitionRow.Concerns, requested_iff, or_comm, or_assoc]

theorem Recorded.micros_atTime (hs : Recorded s) {row : TransitionRow}
    (hrow : row ∈ s.transitions) : micros row.atTime = row.atTime := by
  obtain ⟨e, he, hid⟩ : ∃ e ∈ s.errands, e.id = row.errandID := by
    simpa [Tables.hasErrand] using hs.logged row hrow
  exact (hs.lived e he).micros_atTime row (List.mem_filter.mpr ⟨hrow, by simp [hid]⟩)

/-- A recorded courier has accepted the errand. -/
theorem Recorded.courier_accepted (hs : Recorded s) {row : TransitionRow}
    (hrow : row ∈ s.transitions) (hcourier : row.courierID ≠ "") :
    ∃ accept ∈ s.transitions, accept.errandID = row.errandID ∧ accept.event = .accept ∧
      accept.actorID = row.courierID := by
  obtain ⟨e, he, hid⟩ : ∃ e ∈ s.errands, e.id = row.errandID := by
    simpa [Tables.hasErrand] using hs.logged row hrow
  have hmem : row ∈ s.logOf e.id := List.mem_filter.mpr ⟨hrow, by simp [hid]⟩
  obtain ⟨accept, haccept, hevent, hactor⟩ :=
    (hs.lived e he).couriers row.courierID hcourier (.inr ⟨row, hmem, rfl⟩)
  obtain ⟨hin, hsame⟩ := List.mem_filter.mp haccept
  exact ⟨accept, hin, (of_decide_eq_true hsame).trans hid, hevent, hactor⟩

/-- The rows that the query by user finds are those that concern the user. -/
theorem mem_transitionsOf (hs : Recorded s) (hnumber : Function.Injective number) {user : String}
    (huser : user ≠ "") (hx : x ∈ s.entries number) :
    x.id ∈ s.transitionsOf number user ↔ x.row.Concerns s user := by
  have hself : ∀ y ∈ s.entries number, y.id = x.id → y = x := fun y hy hid =>
    List.inj_on_of_nodup_map (entries_ids hnumber s) hy hx hid
  simp only [Tables.transitionsOf, List.mem_append, List.mem_map, List.mem_filter,
    List.mem_flatMap, decide_eq_true_eq]
  constructor
  · rintro ((⟨a, ⟨ha, hactor⟩, hid⟩ | ⟨r, ⟨e, ⟨he, hrequester⟩, hr, herrand⟩, hid⟩) |
      ⟨c, ⟨hc, hcourier, -⟩, hid⟩)
    · rw [hself a ha hid] at hactor
      exact .inr (.inl hactor)
    · rw [hself r hr hid] at herrand
      exact .inl ⟨e, he, herrand.symm, hrequester⟩
    · rw [hself c hc hid] at hcourier
      exact .inr (.inr hcourier)
  · rintro (⟨e, he, hid, hrequester⟩ | hactor | hcourier)
    · exact .inl (.inr ⟨x, ⟨e, ⟨he, hrequester⟩, hx, hid.symm⟩, rfl⟩)
    · exact .inl (.inl ⟨x, ⟨hx, hactor⟩, rfl⟩)
    · obtain ⟨accept, haccept, herrand, hevent, hactor⟩ :=
        hs.courier_accepted (mem_entries hx) (by rw [hcourier]; exact huser)
      obtain ⟨y, hy, rfl⟩ := @exists_entry number s _ haccept
      exact .inr ⟨x, ⟨hx, hcourier, y, ⟨hy, hactor.trans hcourier, hevent⟩, herrand⟩, rfl⟩

/-- Whichever query is chosen, it selects the rows that meet the conditions. -/
theorem listTransitions_eq (hs : Recorded s) (hnumber : Function.Injective number)
    (hf : f.Valid opsMaxPageSize) :
    ∃ keeps : LogEntry → Bool, (∀ x ∈ s.entries number, keeps x = true ↔ f.Selects s x) ∧
      s.listTransitions number f = .ok (newest ((s.entries number).filter keeps) f.limit) := by
  have hlimit : ¬ (f.limit = 0 ∨ opsMaxPageSize < f.limit) := by
    have := hf.limit
    omega
  have hstatus : ¬ (f.toStatus ≠ "" ∧ validStatus f.toStatus = false) := by
    rintro ⟨hgiven, hinvalid⟩
    rw [hf.status hgiven] at hinvalid
    cases hinvalid
  unfold Tables.listTransitions
  rw [if_neg hlimit, if_neg hstatus]
  split
  case isTrue herrand =>
    obtain ⟨errandID, hscan⟩ := Option.isSome_iff_exists.mp (hf.errand herrand)
    rw [hscan]
    refine ⟨_, fun x hx => ?_, rfl⟩
    simp only [Bool.and_eq_true, decide_eq_true_eq, keeps_iff, matchesStatus_iff, userOf_iff]
    constructor
    · rintro ⟨⟨⟨rfl, hfrom, hto, hcursor⟩, htype⟩, huser⟩
      exact ⟨fun _ => hscan, huser, htype, hfrom, hto, hcursor⟩
    · rintro ⟨hsame, huser, htype, hfrom, hto, hcursor⟩
      exact ⟨⟨⟨(Option.some.inj (hscan.symm.trans (hsame herrand))).symm, hfrom, hto, hcursor⟩,
        htype⟩, huser⟩
  case isFalse herrand =>
    split
    case isTrue huser =>
      refine ⟨_, fun x hx => ?_, rfl⟩
      simp only [Bool.and_eq_true, decide_eq_true_eq, keeps_iff, matchesStatus_iff,
        mem_transitionsOf hs hnumber huser hx]
      constructor
      · rintro ⟨⟨hconcerns, hfrom, hto, hcursor⟩, htype⟩
        exact ⟨fun h => absurd h herrand, fun _ => hconcerns, htype, hfrom, hto, hcursor⟩
      · rintro ⟨-, hconcerns, htype, hfrom, hto, hcursor⟩
        exact ⟨⟨hconcerns huser, hfrom, hto, hcursor⟩, htype⟩
    case isFalse huser =>
      split
      case isTrue htype =>
        refine ⟨_, fun x hx => ?_, rfl⟩
        simp only [Bool.and_eq_true, decide_eq_true_eq, keeps_iff]
        constructor
        · rintro ⟨hsame, hfrom, hto, hcursor⟩
          exact ⟨fun h => absurd h herrand, fun h => absurd h huser, fun _ => hsame, hfrom, hto,
            hcursor⟩
        · rintro ⟨-, -, hsame, hfrom, hto, hcursor⟩
          exact ⟨hsame htype, hfrom, hto, hcursor⟩
      case isFalse htype =>
        refine ⟨_, fun x hx => keeps_iff.trans ?_, rfl⟩
        constructor
        · rintro ⟨hfrom, hto, hcursor⟩
          exact ⟨fun h => absurd h herrand, fun h => absurd h huser, fun h => absurd h htype,
            hfrom, hto, hcursor⟩
        · rintro ⟨-, -, -, hfrom, hto, hcursor⟩
          exact ⟨hfrom, hto, hcursor⟩

/-! ## Pages -/

/-- The cursor that stands for a place. -/
def cursorAt (place : (ℤ ×ₗ ℤ)ᵒᵈ) : TransitionCursor :=
  ⟨(ofLex (OrderDual.ofDual place)).1, (ofLex (OrderDual.ofDual place)).2⟩

theorem place_lt {x y : LogEntry} : x.place < y.place ↔
    y.row.atTime < x.row.atTime ∨ y.row.atTime = x.row.atTime ∧ y.id < x.id :=
  OrderDual.toDual_lt_toDual.trans Prod.Lex.lt_iff

/-- All selected rows in order, and the page that is cut from them. -/
theorem listEvents_eq (hs : Recorded s) (hnumber : Function.Injective number)
    (hf : f.Valid maxPageSize) :
    ∃ rows : List LogEntry, rows.Pairwise (fun x y => x.place < y.place) ∧
      (∀ x, x ∈ rows ↔ x ∈ s.entries number ∧ f.Selects s x) ∧
      s.listEvents number f = .ok (cut LogEntry.cursor f.limit rows) := by
  obtain ⟨keeps, hkeeps, hlist⟩ := @listTransitions_eq number s { f with limit := f.limit + 1 } hs
    hnumber ⟨hf.errand, hf.status, Nat.succ_pos _, by
      have := hf.limit
      simp only [maxPageSize, opsMaxPageSize] at this ⊢
      omega⟩
  refine ⟨rest LogEntry.place none ((s.entries number).filter keeps),
    rest_increasing none ((entries_places hnumber s).sublist (List.filter_sublist.map _)),
    fun x => ?_, ?_⟩
  · rw [mem_rest, List.mem_filter]
    constructor
    · rintro ⟨⟨hx, hkept⟩, -⟩
      obtain ⟨herrand, huser, hstatus, hfrom, hto, hcursor⟩ := (hkeeps x hx).mp hkept
      exact ⟨hx, herrand, huser, hstatus, hfrom, hto, hcursor⟩
    · rintro ⟨hx, herrand, huser, hstatus, hfrom, hto, hcursor⟩
      exact ⟨⟨hx, (hkeeps x hx).mpr ⟨herrand, huser, hstatus, hfrom, hto, hcursor⟩⟩, after_none _⟩
  · unfold Tables.listEvents
    rw [if_neg (by have := hf.limit; omega), hlist]
    change Except.ok (cut LogEntry.cursor f.limit (List.take (f.limit + 1) _)) = _
    rw [cut_take]

/-- Positions that requests with the filter give out. -/
def Issued (number : ℕ → ℤ) (s : Tables) (f : TransitionFilter) (place : (ℤ ×ₗ ℤ)ᵒᵈ) : Prop :=
  ∃ x ∈ s.entries number, f.Selects s x ∧ x.place = place

/-- The rows after a place that was given out are those that the filter selects with the
cursor of the place. -/
theorem selects_cursor (hs : Recorded s) (hdated : ∀ row ∈ s.transitions, row.atTime ≠ zeroTime)
    {y : LogEntry} (hy : y ∈ s.entries number) (hselected : f.Selects s y) :
    { f with before := some y.cursor }.Selects s x ↔ f.Selects s x ∧ y.place < x.place := by
  have hnonzero := hdated y.row (mem_entries hy)
  have hmicros : micros y.row.atTime = y.row.atTime := hs.micros_atTime (mem_entries hy)
  rw [place_lt]
  constructor
  · rintro ⟨herrand, huser, hstatus, hfrom, hto, hcursor⟩
    obtain ⟨-, hbefore⟩ := hcursor y.cursor rfl
    simp only [LogEntry.cursor, hmicros] at hbefore
    refine ⟨⟨herrand, huser, hstatus, hfrom, hto, fun c hc => ?_⟩, hbefore⟩
    obtain ⟨hc0, hlt⟩ := hselected.cursor c hc
    exact ⟨hc0, by omega⟩
  · rintro ⟨⟨herrand, huser, hstatus, hfrom, hto, -⟩, hbefore⟩
    refine ⟨herrand, huser, hstatus, hfrom, hto, ?_⟩
    rintro c hc
    cases hc
    simp only [LogEntry.cursor, hmicros]
    exact ⟨hnonzero, hbefore⟩

theorem cut_cursor (limit : ℕ) (rows : List LogEntry) :
    Renders Eq cursorAt (cut LogEntry.place limit rows) (cut LogEntry.cursor limit rows) := by
  refine ⟨List.forall₂_same.mpr fun _ _ => rfl, ?_⟩
  simp only [cut]
  split
  · rw [Option.map_map]
    rfl
  · rfl

/-- Each request is answered with a page of the selected rows. -/
theorem askEvents_shows (hs : Recorded s) (hnumber : Function.Injective number)
    (hdated : ∀ row ∈ s.transitions, row.atTime ≠ zeroTime) (hf : f.Valid maxPageSize) (i : ℕ)
    {p : Option (ℤ ×ₗ ℤ)ᵒᵈ} (hp : ∀ q, p = some q → Issued number s f q) :
    ∃ rows : List LogEntry,
      s.askEvents number f i (p.map cursorAt) = .ok (cut LogEntry.cursor f.limit rows) ∧
      Shows LogEntry.place (fun x => x ∈ s.entries number ∧ f.Selects s x)
        (fun x => x ∈ s.entries number ∧ f.Selects s x) p (cut LogEntry.place f.limit rows) := by
  cases p with
  | none =>
    obtain ⟨rows, hsorted, hrows, hlist⟩ := listEvents_eq hs hnumber hf
    exact ⟨rows, hlist, cut_shows hf.limit.1 hsorted (fun _ _ => after_none _)
      (fun x hx _ => (hrows x).mpr hx) fun x hx => (hrows x).mp hx⟩
  | some q =>
    obtain ⟨y, hy, hselected, rfl⟩ := hp q rfl
    obtain ⟨rows, hsorted, hrows, hlist⟩ := @listEvents_eq number s
      { f with before := some y.cursor } hs hnumber ⟨hf.errand, hf.status, hf.limit⟩
    have hafter : ∀ x, x ∈ rows ↔ (x ∈ s.entries number ∧ f.Selects s x) ∧ y.place < x.place :=
      fun x => by rw [hrows x, selects_cursor hs hdated hy hselected, and_assoc]
    refine ⟨rows, hlist, cut_shows hf.limit.1 hsorted (fun x hx => ?_) (fun x hx hlt => ?_)
      fun x hx => ?_⟩
    · exact after_some.mpr ((hafter x).mp hx).2
    · exact (hafter x).mpr ⟨hx, after_some.mp hlt⟩
    · exact ((hafter x).mp hx).1

theorem askEvents_serves (hs : Recorded s) (hnumber : Function.Injective number)
    (hdated : ∀ row ∈ s.transitions, row.atTime ≠ zeroTime) (hf : f.Valid maxPageSize) :
    Serves LogEntry.place (fun _ x => x ∈ s.entries number ∧ f.Selects s x)
      (fun _ x => x ∈ s.entries number ∧ f.Selects s x) (Issued number s f) Eq cursorAt
      (s.askEvents number f) := by
  intro i p answer hp hanswer
  obtain ⟨rows, hrows, hshows⟩ := askEvents_shows hs hnumber hdated hf i hp
  rw [hrows] at hanswer
  cases hanswer
  refine ⟨_, cut_cursor _ _, hshows, fun q hq => ?_⟩
  obtain ⟨x, hx, hplace⟩ := hshows.next_mem q hq
  obtain ⟨hmem, hselected⟩ := hshows.sound x hx
  exact ⟨x, hmem, hselected, hplace⟩

end

namespace Sample

def submission : List Deed :=
  [.submit "00000000-0000-4000-8000-000000000001" "auth0|requester" "first" sampleErrand.details 0]

/-- The rows from half a microsecond after the submission on. -/
def lateFilter : TransitionFilter := { fromTime := 500, limit := 1 }

def listsEarly (s : Tables) : Bool :=
  match s.listTransitions (fun place => place) lateFilter with
  | .ok [x] => x.row.atTime < lateFilter.fromTime
  | _ => false

theorem listsEarly_row {s : Tables} (h : listsEarly s = true) :
    ∃ x, s.listTransitions (fun place => place) lateFilter = .ok [x] ∧
      x.row.atTime < lateFilter.fromTime := by
  unfold listsEarly at h
  split at h
  · next x hlist => exact ⟨x, hlist, of_decide_eq_true h⟩
  · cases h

theorem reads_submission :
    ((tell (fun _ => 0) submission [{}]).bind List.head?).any listsEarly = true := by
  decide

theorem lateFilter_valid : lateFilter.Valid opsMaxPageSize :=
  ⟨fun h => absurd rfl h, fun h => absurd rfl h, by decide⟩

end Sample

end FocServices.Orders
