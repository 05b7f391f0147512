import FocServices.Orders.Queries
import FocServices.Orders.Routes
import FocServices.Paging.Keyset
import Mathlib.Data.Prod.Lex
import Mathlib.Data.String.Basic
import Mathlib.Data.ZMod.Defs
import Mathlib.Order.Compare

/-!
# The list of open errands

`GET /errands/open` filters the views of all open errands for its query, orders them by
distance, deadline and ID, and cuts one page. The set of views may be another one at the next
page, and the clock goes on. Distances are an arbitrary linear order with a zero. What the
list takes from the libraries of the language (number formats, the digest of the filters, the
encoding of cursors) is an argument.
-/

namespace FocServices.Orders

open Paging Txn

/-- The position of a courier or of a pickup. -/
structure Point where
  lat : ℚ
  lng : ℚ
  deriving DecidableEq

/-- `position`: where an item sorts. -/
@[ext] structure Position (D : Type) where
  distance : D
  deadline : ℤ
  id : String
  deriving DecidableEq

/-- `cursor`: the next cursor before it is encoded. -/
structure Cursor (D : Type) where
  filters : String
  after : Position D

/-- `listQuery`. -/
structure ListQuery (D : Type) where
  supplierID : String
  at_ : Option Point
  limit : ℕ
  after : Option (Position D)

structure Candidate (D : Type) where
  view : OpenErrandView
  pos : Position D

/-- `openItem`. -/
structure OpenItem (D : Type) where
  fields : OpenErrandView
  groupKey : String
  distanceMeters : Option D

/-- `openPage`. -/
structure OpenPage (D : Type) where
  items : List (OpenItem D)
  nextCursor : String

/-- What a client reads of a page: an empty cursor is left out. -/
def OpenPage.read {D : Type} (page : OpenPage D) : Page (OpenItem D) String where
  items := page.items
  next := if page.nextCursor = "" then none else some page.nextCursor

def groupWindow : ℤ := 15 * minute

section Positions

variable {D : Type}

namespace Position

def key (p : Position D) : D ×ₗ (ℤ ×ₗ String) := toLex (p.distance, toLex (p.deadline, p.id))

theorem key_injective : Function.Injective (key : Position D → D ×ₗ (ℤ ×ₗ String)) := by
  intro a b h
  simp only [key, EmbeddingLike.apply_eq_iff_eq, Prod.mk.injEq] at h
  exact Position.ext h.1 h.2.1 h.2.2

end Position

variable [LinearOrder D]

def comparePositions (a b : Position D) : Ordering :=
  (cmp a.distance b.distance).then ((cmp a.deadline b.deadline).then (cmp a.id b.id))

namespace Position

instance : LinearOrder (Position D) := LinearOrder.lift' key key_injective

theorem lt_iff {a b : Position D} : a < b ↔ a.distance < b.distance ∨
    a.distance = b.distance ∧ (a.deadline < b.deadline ∨
      a.deadline = b.deadline ∧ a.id < b.id) :=
  Prod.Lex.toLex_lt_toLex.trans (or_congr_right (and_congr_right fun _ =>
    Prod.Lex.toLex_lt_toLex))

end Position

theorem comparePositions_gt {a b : Position D} : comparePositions a b = .gt ↔ b < a := by
  rw [Position.lt_iff, comparePositions, Ordering.then_eq_gt, Ordering.then_eq_gt,
    cmp_eq_gt_iff, cmp_eq_eq_iff, cmp_eq_gt_iff, cmp_eq_eq_iff, cmp_eq_gt_iff,
    @eq_comm _ a.distance, @eq_comm _ a.deadline]

theorem comparePositions_ne_gt {a b : Position D} : comparePositions a b ≠ .gt ↔ a ≤ b := by
  rw [Ne, comparePositions_gt, not_lt]

end Positions

/-- What the list takes from its libraries. -/
structure Formats (D : Type) [LinearOrder D] [Zero D] where
  /-- `strconv.ParseFloat`, for text that gives a finite number. -/
  parseFloat : String → Option ℚ
  /-- `strconv.FormatFloat`. -/
  formatFloat : ℚ → String
  /-- The text of a time to the minute. -/
  formatMinute : ℤ → String
  /-- The start of the SHA-256 hash of a text, in hexadecimal digits. -/
  digest : String → String
  distance : Point → Point → D
  distance_nonneg : ∀ a b, 0 ≤ distance a b
  cursors : CursorText (Cursor D) fun c => (∃ text, c.filters = digest text) ∧
    JSONTime c.after.deadline ∧ uuidPattern c.after.id = true

namespace Formats

variable {D : Type} [LinearOrder D] [Zero D] (F : Formats D)

/-- The digest that binds a cursor to `supplierId`, `lat` and `lng`. -/
def filters (q : ListQuery D) : String :=
  F.digest (q.supplierID ++ match q.at_ with
    | none => ""
    | some p => "\x00" ++ F.formatFloat p.lat ++ "\x00" ++ F.formatFloat p.lng)

/-- A time without JSON text leaves nothing to encode. -/
def encodeCursor (filters : String) (after : Position D) : String :=
  if JSONTime after.deadline then F.cursors.encode ⟨filters, after⟩ else ""

def decodeCursor (s filters : String) : Option (Position D) :=
  if s = "" ∨ maxCursorLength < s.utf8ByteSize then none
  else
    match F.cursors.decode s with
    | none => none
    | some c =>
      if c.filters ≠ filters ∨ c.after.id = "" ∨ c.after.deadline = zeroTime ∨
          c.after.distance < 0 then none
      else some c.after

def coordinate (s : String) (limit : ℚ) : Option ℚ :=
  match F.parseFloat s with
  | none => none
  | some v => if v < -limit ∨ limit < v then none else some v

def parseSupplier (values : Values) : Except StoreError String :=
  match values.lookup "supplierId" with
  | none => .ok ""
  | some id =>
    if uuidPattern id then .ok (toLower id)
    else .error (invalidArgument "supplierId must be a UUID")

def parsePoint (values : Values) : Except StoreError (Option Point) :=
  match values.lookup "lat", values.lookup "lng" with
  | none, none => .ok none
  | some lat, some lng =>
    match F.coordinate lat 90 with
    | none => .error (invalidArgument "lat must be a number from -90 to 90")
    | some lat =>
      match F.coordinate lng 180 with
      | none => .error (invalidArgument "lng must be a number from -180 to 180")
      | some lng => .ok (some ⟨lat, lng⟩)
  | _, _ => .error (invalidArgument "lat and lng must be sent together")

/-- The part of `parseListQuery` that reads the cursor. -/
def parseCursor (values : Values) (q : ListQuery D) : Except StoreError (ListQuery D) :=
  match values.lookup "cursor" with
  | none => .ok q
  | some text =>
    match F.decodeCursor text (F.filters q) with
    | none => .error (invalidArgument "cursor is invalid or was issued for other filters")
    | some after => .ok { q with after := some after }

def parseListQuery (values : Values) : Except StoreError (ListQuery D) := do
  let supplierID ← parseSupplier values
  let point ← F.parsePoint values
  let limit ← parseLimit values
  F.parseCursor values ⟨supplierID, point, limit, none⟩

/-- A view with its position for the query. -/
def candidate (q : ListQuery D) (v : OpenErrandView) : Candidate D where
  view := v
  pos := {
    distance := match q.at_ with
      | none => 0
      | some p => F.distance p ⟨v.pickup.latitude, v.pickup.longitude⟩
    deadline := v.acceptanceDeadline
    id := v.errandID }

/-- The candidate that a view is at a time, if it is one. -/
def considers (q : ListQuery D) (now : ℤ) (v : OpenErrandView) : Option (Candidate D) :=
  if ¬ now < v.acceptanceDeadline ∨ q.supplierID ≠ "" ∧ v.supplierID ≠ q.supplierID then none
  else
    match q.after with
    | none => some (F.candidate q v)
    | some after =>
      if comparePositions (F.candidate q v).pos after ≠ .gt then none
      else some (F.candidate q v)

def groupKey (v : OpenErrandView) : String :=
  v.supplierID ++ ":" ++ F.formatMinute (v.createdAt - v.createdAt % groupWindow)

def item (q : ListQuery D) (c : Candidate D) : OpenItem D where
  fields := c.view
  groupKey := F.groupKey c.view
  distanceMeters := if q.at_.isSome then some c.pos.distance else none

/-- `page`: filters, orders and cuts the views for the query at a time. -/
def page (views : List OpenErrandView) (q : ListQuery D) (now : ℤ) : OpenPage D :=
  let candidates := (views.filterMap (F.considers q now)).insertionSort fun a b =>
    comparePositions a.pos b.pos ≠ .gt
  { items := (candidates.take q.limit).map (F.item q)
    nextCursor :=
      if q.limit < candidates.length then
        match candidates[q.limit - 1]? with
        | some c => F.encodeCursor (F.filters q) c.pos
        | none => ""
      else "" }

/-- Request `i` of a client that sends `values` with the cursor it was given: the set of views
and the clock are the request's own. -/
def ask (values : Values) (views : ℕ → List OpenErrandView) (now : ℕ → ℤ) (i : ℕ)
    (cursor : Option String) : Except StoreError (Page (OpenItem D) String) := do
  let q ← F.parseListQuery (match cursor with
    | none => values
    | some c => ("cursor", c) :: values)
  return (F.page (views i) q (now i)).read

end Formats

/-! ## Cursors -/

/-- A position that a cursor can carry. -/
structure Position.Ready {D : Type} [LinearOrder D] [Zero D] (p : Position D) : Prop where
  json : JSONTime p.deadline
  nonzero : p.deadline ≠ zeroTime
  uuid : uuidPattern p.id = true
  nonneg : 0 ≤ p.distance

/-- A set of views with distinct UUIDs, whose deadlines a cursor can carry. -/
structure Listed (views : List OpenErrandView) : Prop where
  distinct : (views.map (·.errandID)).Nodup
  uuid : ∀ v ∈ views, uuidPattern v.errandID = true
  json : ∀ v ∈ views, JSONTime v.acceptanceDeadline
  nonzero : ∀ v ∈ views, v.acceptanceDeadline ≠ zeroTime

/-- A view passes the filter of a query. -/
def ListQuery.Matches {D : Type} (q : ListQuery D) (v : OpenErrandView) : Prop :=
  q.supplierID = "" ∨ v.supplierID = q.supplierID

/-- Where an item of a page sorts. -/
def OpenItem.position {D : Type} [Zero D] (x : OpenItem D) : Position D where
  distance := x.distanceMeters.getD 0
  deadline := x.fields.acceptanceDeadline
  id := x.fields.errandID

section Paging

variable {D : Type} [LinearOrder D] [Zero D] {F : Formats D} {values : Values}
  {q : ListQuery D}

theorem ne_empty_of_uuid {s : String} (h : uuidPattern s = true) : s ≠ "" := by
  rintro rfl
  exact absurd h (by decide)

theorem candidate_position (v : OpenErrandView) :
    (F.item q (F.candidate q v)).position = (F.candidate q v).pos := by
  unfold Formats.item OpenItem.position Formats.candidate
  cases q.at_ <;> rfl

theorem Listed.ready {views : List OpenErrandView} (h : Listed views) {v : OpenErrandView}
    (hv : v ∈ views) : (F.candidate q v).pos.Ready where
  json := h.json v hv
  nonzero := h.nonzero v hv
  uuid := h.uuid v hv
  nonneg := by
    unfold Formats.candidate
    cases q.at_ with
    | none => exact le_refl _
    | some p => exact F.distance_nonneg _ _

/-- The list reads back the cursors that it issued for the same filters. -/
theorem decodeCursor_encodeCursor {p : Position D} (hp : p.Ready) :
    F.encodeCursor (F.filters q) p ≠ "" ∧
      F.decodeCursor (F.encodeCursor (F.filters q) p) (F.filters q) = some p := by
  have hlegal : (∃ text, F.filters q = F.digest text) ∧ JSONTime p.deadline ∧
      uuidPattern p.id = true := ⟨⟨_, rfl⟩, hp.json, hp.uuid⟩
  obtain ⟨hne, hsize⟩ := F.cursors.encode_fits ⟨F.filters q, p⟩ hlegal
  have hencode : F.encodeCursor (F.filters q) p = F.cursors.encode ⟨F.filters q, p⟩ := by
    rw [Formats.encodeCursor, if_pos hp.json]
  refine ⟨fun h => hne (hencode.symm.trans h), ?_⟩
  rw [hencode]
  unfold Formats.decodeCursor
  have hdecode := F.cursors.decode_encode ⟨F.filters q, p⟩ hlegal
  rw [if_neg (not_or.mpr ⟨hne, Nat.not_lt.mpr hsize⟩), hdecode]
  simp only
  rw [if_neg]
  simp only [ne_eq, not_true_eq_false, false_or, not_or, not_lt]
  exact ⟨ne_empty_of_uuid hp.uuid, hp.nonzero, hp.nonneg⟩

/-- Adding a cursor to a query changes nothing but where the page starts. -/
theorem parseListQuery_cursor (hq : F.parseListQuery values = .ok q)
    (hfirst : values.lookup "cursor" = none) {p : Position D} (hp : p.Ready) :
    F.parseListQuery (("cursor", F.encodeCursor (F.filters q) p) :: values) =
      .ok { q with after := some p } := by
  unfold Formats.parseListQuery at hq ⊢
  obtain ⟨supplierID, hsupplier, hq⟩ := bind_eq_ok.mp hq
  obtain ⟨point, hpoint, hq⟩ := bind_eq_ok.mp hq
  obtain ⟨limit, hlimit, hq⟩ := bind_eq_ok.mp hq
  have hplain : q = ⟨supplierID, point, limit, none⟩ := by
    simp only [Formats.parseCursor, hfirst, Except.ok.injEq] at hq
    exact hq.symm
  have hkeep : ∀ name, name ≠ "cursor" → ∀ c,
      List.lookup name (("cursor", c) :: values) = values.lookup name := by
    intro name hname c
    rw [List.lookup_cons, beq_false_of_ne hname]
  have hsupplier' : Formats.parseSupplier (("cursor", F.encodeCursor (F.filters q) p) :: values) =
      .ok supplierID := by
    rw [← hsupplier, Formats.parseSupplier, Formats.parseSupplier, hkeep _ (by decide)]
  have hpoint' : F.parsePoint (("cursor", F.encodeCursor (F.filters q) p) :: values) =
      .ok point := by
    rw [← hpoint, Formats.parsePoint, Formats.parsePoint, hkeep _ (by decide),
      hkeep _ (by decide)]
  have hlimit' : parseLimit (("cursor", F.encodeCursor (F.filters q) p) :: values) =
      .ok limit := by
    rw [← hlimit, parseLimit, parseLimit, hkeep _ (by decide)]
  refine bind_eq_ok.mpr ⟨_, hsupplier', bind_eq_ok.mpr ⟨_, hpoint', bind_eq_ok.mpr
    ⟨_, hlimit', ?_⟩⟩⟩
  rw [← hplain]
  unfold Formats.parseCursor
  rw [List.lookup_cons, beq_self_eq_true]
  simp only
  rw [(decodeCursor_encodeCursor hp).2]

/-! ## One page -/

/-- The candidates of a query at a time, wherever the page starts. -/
def Shown (F : Formats D) (q : ListQuery D) (views : List OpenErrandView) (now : ℤ)
    (c : Candidate D) : Prop :=
  ∃ v ∈ views, q.Matches v ∧ now < v.acceptanceDeadline ∧ c = F.candidate q v

theorem considers_eq_some {now : ℤ} {v : OpenErrandView} {p : Option (Position D)}
    {c : Candidate D} : F.considers { q with after := p } now v = some c ↔
      q.Matches v ∧ now < v.acceptanceDeadline ∧ c = F.candidate q v ∧ After p c.pos := by
  have hcandidate : F.candidate { q with after := p } v = F.candidate q v := rfl
  have hguard : ¬ (¬ now < v.acceptanceDeadline ∨ q.supplierID ≠ "" ∧ v.supplierID ≠ q.supplierID) ↔
      q.Matches v ∧ now < v.acceptanceDeadline := by
    unfold ListQuery.Matches
    tauto
  unfold Formats.considers
  rw [hcandidate]
  by_cases hkeep : q.Matches v ∧ now < v.acceptanceDeadline
  · rw [if_neg (hguard.mpr hkeep)]
    cases p with
    | none =>
      simp only [Option.some.injEq, hkeep, true_and]
      exact ⟨fun h => ⟨h.symm, after_none _⟩, fun h => h.1.symm⟩
    | some p =>
      simp only [hkeep, true_and, comparePositions_ne_gt, after_some]
      by_cases hle : (F.candidate q v).pos ≤ p
      · rw [if_pos hle]
        refine ⟨fun h => (by cases h), ?_⟩
        rintro ⟨rfl, hlt⟩
        exact absurd hle (not_le_of_gt hlt)
      · rw [if_neg hle, Option.some.injEq]
        refine ⟨?_, fun h => h.1.symm⟩
        rintro rfl
        exact ⟨rfl, lt_of_not_ge hle⟩
  · rw [if_pos (by_contra fun h => hkeep (hguard.mp h))]
    refine ⟨fun h => (by cases h), fun h => absurd ⟨h.1, h.2.1⟩ hkeep⟩

/-- Distinct views have distinct positions. -/
theorem Listed.distinct_positions {views : List OpenErrandView} (h : Listed views)
    (p : Option (Position D)) (now : ℤ) :
    ((views.filterMap (F.considers { q with after := p } now)).map (·.pos)).Nodup := by
  have hids : ((views.filterMap (F.considers { q with after := p } now)).map
      (·.view.errandID)).Nodup := by
    have hsub : ∀ l : List OpenErrandView, List.Sublist
        ((l.filterMap (F.considers { q with after := p } now)).map (·.view.errandID))
        (l.map (·.errandID)) := by
      intro l
      induction l with
      | nil => exact List.Sublist.refl _
      | cons v l ih =>
        rw [List.filterMap_cons]
        split
        case h_1 => exact ih.cons _
        case h_2 c hc =>
          obtain ⟨-, -, rfl, -⟩ := considers_eq_some.mp hc
          exact ih.cons_cons _
    exact h.distinct.sublist (hsub views)
  refine List.pairwise_map.mpr ((List.pairwise_map.mp hids).imp_of_mem ?_)
  intro a b ha hb hne heq
  obtain ⟨v, -, hv⟩ := List.mem_filterMap.mp ha
  obtain ⟨w, -, hw⟩ := List.mem_filterMap.mp hb
  obtain ⟨-, -, rfl, -⟩ := considers_eq_some.mp hv
  obtain ⟨-, -, rfl, -⟩ := considers_eq_some.mp hw
  exact hne (congrArg Position.id heq)

/-- A page is cut from the candidates after the position, in their order. -/
theorem page_shows {views : List OpenErrandView} (h : Listed views) (hlimit : 0 < q.limit)
    (p : Option (Position D)) (now : ℤ) :
    ∃ page : Page (Candidate D) (Position D),
      Renders (fun c x => x = F.item q c) (F.encodeCursor (F.filters q)) page
        (F.page views { q with after := p } now).read ∧
      Shows Candidate.pos (Shown F q views now) (Shown F q views now) p page ∧
      ∀ r, page.next = some r → r.Ready := by
  set rows := (views.filterMap (F.considers { q with after := p } now)).insertionSort fun a b =>
    a.pos ≤ b.pos with hrows
  have hmem : ∀ c, c ∈ rows ↔ Shown F q views now c ∧ After p c.pos := by
    intro c
    rw [hrows, List.mem_insertionSort, List.mem_filterMap]
    constructor
    · rintro ⟨v, hv, hc⟩
      obtain ⟨hmatch, hnow, rfl, hafter⟩ := considers_eq_some.mp hc
      exact ⟨⟨v, hv, hmatch, hnow, rfl⟩, hafter⟩
    · rintro ⟨⟨v, hv, hmatch, hnow, rfl⟩, hafter⟩
      exact ⟨v, hv, considers_eq_some.mpr ⟨hmatch, hnow, rfl, hafter⟩⟩
  have hshows : Shows Candidate.pos (Shown F q views now) (Shown F q views now) p
      (cut Candidate.pos q.limit rows) :=
    cut_shows hlimit (sort_increasing (h.distinct_positions p now))
      (fun c hc => ((hmem c).mp hc).2) (fun c hc hafter => (hmem c).mpr ⟨hc, hafter⟩)
      (fun c hc => ((hmem c).mp hc).1)
  have hready : ∀ c ∈ rows, c.pos.Ready := by
    intro c hc
    obtain ⟨⟨v, hv, -, -, rfl⟩, -⟩ := (hmem c).mp hc
    exact h.ready hv
  refine ⟨cut Candidate.pos q.limit rows, ?_, hshows, ?_⟩
  · have hsort : (views.filterMap (F.considers { q with after := p } now)).insertionSort
        (fun a b => comparePositions a.pos b.pos ≠ .gt) = rows := by
      simp only [hrows, comparePositions_ne_gt]
    have hfilters : F.filters { q with after := p } = F.filters q := rfl
    simp only [Formats.page, hsort, OpenPage.read, hfilters]
    refine ⟨List.forall₂_map_right_iff.mpr (List.forall₂_same.mpr fun _ _ => rfl), ?_⟩
    simp only [cut]
    split
    case isTrue hmore =>
      have hlast : q.limit - 1 < rows.length := by omega
      rw [List.getElem?_eq_getElem hlast]
      simp only [Option.map_some]
      rw [if_neg (decodeCursor_encodeCursor (hready _ (List.getElem_mem hlast))).1]
    case isFalse => rfl
  · intro r hr
    obtain ⟨c, hc, rfl⟩ := hshows.next_mem r hr
    exact hready c (List.mem_of_mem_take hc)

/-! ## The whole list -/

theorem parseListQuery_plain (hq : F.parseListQuery values = .ok q)
    (hfirst : values.lookup "cursor" = none) : q.after = none ∧ 0 < q.limit := by
  unfold Formats.parseListQuery at hq
  obtain ⟨supplierID, -, hq⟩ := bind_eq_ok.mp hq
  obtain ⟨point, -, hq⟩ := bind_eq_ok.mp hq
  obtain ⟨limit, hlimit, hq⟩ := bind_eq_ok.mp hq
  simp only [Formats.parseCursor, hfirst, Except.ok.injEq] at hq
  rw [← hq]
  exact ⟨rfl, (parseLimit_bounds hlimit).1⟩

variable {views : ℕ → List OpenErrandView} {now : ℕ → ℤ}

/-- A request with a cursor of the list is answered with the page after its position. -/
theorem ask_eq (hq : F.parseListQuery values = .ok q) (hfirst : values.lookup "cursor" = none)
    {i : ℕ} {p : Option (Position D)} (hp : ∀ r, p = some r → r.Ready) :
    F.ask values views now i (p.map (F.encodeCursor (F.filters q))) =
      .ok (F.page (views i) { q with after := p } (now i)).read := by
  cases p with
  | none =>
    have hsame : q = { q with after := none } := by rw [← (parseListQuery_plain hq hfirst).1]
    exact bind_eq_ok.mpr ⟨_, hsame ▸ hq, rfl⟩
  | some p => exact bind_eq_ok.mpr ⟨_, parseListQuery_cursor hq hfirst (hp p rfl), rfl⟩

/-- The requests of a client serve the candidates of their own sets and times. -/
theorem ask_serves (hq : F.parseListQuery values = .ok q)
    (hfirst : values.lookup "cursor" = none) (hviews : ∀ i, Listed (views i)) :
    Serves Candidate.pos (fun i => Shown F q (views i) (now i))
      (fun i => Shown F q (views i) (now i)) Position.Ready (fun c x => x = F.item q c)
      (F.encodeCursor (F.filters q)) (F.ask values views now) := by
  intro i p answer hp hanswer
  rw [ask_eq hq hfirst hp, Except.ok.injEq] at hanswer
  rw [← hanswer]
  exact page_shows (hviews i) (parseListQuery_plain hq hfirst).2 p (now i)

/-- What the pages are that a client was given for its query. -/
structure Enumerated (F : Formats D) (values : Values) (q : ListQuery D)
    (views : ℕ → List OpenErrandView) (now : ℕ → ℤ) (pages : List (Page (OpenItem D) String)) :
    Prop where
  /-- Every cursor is accepted with the same filters. -/
  accepted : ∀ page ∈ pages, ∀ cursor, page.next = some cursor → ∃ after,
    F.parseListQuery (("cursor", cursor) :: values) = .ok { q with after := some after }
  increasing : (rowsOf pages).Pairwise fun x y => x.position < y.position
  /-- Only views that match and are still open to acceptance are shown. -/
  sound : ∀ x ∈ rowsOf pages, ∃ i < pages.length, ∃ v ∈ views i,
    q.Matches v ∧ now i < v.acceptanceDeadline ∧ x = F.item q (F.candidate q v)
  /-- No errand is shown twice while the set stays the same. -/
  distinct : (∀ i, views i = views 0) → ((rowsOf pages).map (·.fields.errandID)).Nodup
  /-- A view that is in all sets used and whose deadline is after the last request is shown,
  and nothing else is shown of its errand. -/
  once : ∀ v, (∀ i < pages.length, v ∈ views i) → q.Matches v →
    now (pages.length - 1) < v.acceptanceDeadline →
    (rowsOf pages).filter (·.fields.errandID = v.errandID) = [F.item q (F.candidate q v)]

theorem Enumerated.of_scan (hq : F.parseListQuery values = .ok q)
    (hfirst : values.lookup "cursor" = none) (hnow : ∀ i j, i ≤ j → now i ≤ now j)
    (hviews : ∀ i, Listed (views i)) {pages : List (Page (Candidate D) (Position D))}
    {answers : List (Page (OpenItem D) String)}
    (hrenders : List.Forall₂ (Renders (fun c x => x = F.item q c) (F.encodeCursor (F.filters q)))
      pages answers)
    (hscan : Scan Candidate.pos (fun i => Shown F q (views i) (now i))
      (fun i => Shown F q (views i) (now i)) 0 none pages) :
    Enumerated F values q views now answers := by
  have hrows : rowsOf answers = (rowsOf pages).map (F.item q) :=
    eq_map_of_forall₂ (rowsOf_renders hrenders)
  have hlength : pages.length = answers.length := hrenders.length_eq
  have hshown : ∀ c ∈ rowsOf pages, ∃ i < pages.length, ∃ v ∈ views i,
      q.Matches v ∧ now i < v.acceptanceDeadline ∧ c = F.candidate q v := by
    intro c hc
    obtain ⟨i, -, hi, v, hv, hmatch, hopen, rfl⟩ := hscan.sound c hc
    exact ⟨i, by omega, v, hv, hmatch, hopen, rfl⟩
  refine ⟨?_, ?_, ?_, ?_, ?_⟩
  · intro page hpage cursor hcursor
    obtain ⟨page', hmem, hrender⟩ := exists_mem_of_forall₂ hrenders hpage
    obtain ⟨p, hp, rfl⟩ := Option.map_eq_some_iff.mp (hrender.next.symm.trans hcursor)
    obtain ⟨c, hc, rfl⟩ := hscan.next_mem hmem hp
    obtain ⟨i, -, v, hv, -, -, rfl⟩ := hshown c hc
    exact ⟨_, parseListQuery_cursor hq hfirst ((hviews i).ready hv)⟩
  · rw [hrows]
    refine List.pairwise_map.mpr (hscan.increasing.imp_of_mem fun ha hb hlt => ?_)
    obtain ⟨-, -, v, -, -, -, rfl⟩ := hshown _ ha
    obtain ⟨-, -, w, -, -, -, rfl⟩ := hshown _ hb
    rw [candidate_position, candidate_position]
    exact hlt
  · rw [hrows]
    intro x hx
    obtain ⟨c, hc, rfl⟩ := List.mem_map.mp hx
    obtain ⟨i, hi, v, hv, hmatch, hopen, rfl⟩ := hshown c hc
    exact ⟨i, by omega, v, hv, hmatch, hopen, rfl⟩
  · intro hsame
    rw [hrows, List.map_map]
    refine List.pairwise_map.mpr (hscan.increasing.imp_of_mem fun ha hb hlt heq => ?_)
    obtain ⟨i, -, v, hv, -, -, rfl⟩ := hshown _ ha
    obtain ⟨j, -, w, hw, -, -, rfl⟩ := hshown _ hb
    rw [hsame] at hv hw
    have hvw : v = w := List.inj_on_of_nodup_map (hviews 0).distinct hv hw heq
    exact absurd hlt (by rw [hvw]; exact lt_irrefl _)
  · intro v hv hmatch hopen
    rw [← hlength] at hv hopen
    rw [hrows, List.filter_map, hscan.filter_eq (after_none (F.candidate q v).pos) ?_ ?_ ?_]
    · rfl
    · intro j _ hj
      have hlast := hnow j (pages.length - 1) (by omega)
      exact ⟨v, hv j (by omega), hmatch, by omega, rfl⟩
    · exact decide_eq_true rfl
    · rintro j c - hj ⟨w, hw, -, -, rfl⟩ hid
      have hwv : w = v := List.inj_on_of_nodup_map (hviews j).distinct hw (hv j (by omega))
        (of_decide_eq_true hid)
      rw [hwv]

/-- Following the cursors of the open list: it ends if there are finitely many views, every
cursor is accepted, and the pages together are the list. -/
theorem open_paging (hq : F.parseListQuery values = .ok q)
    (hfirst : values.lookup "cursor" = none) (hnow : ∀ i j, i ≤ j → now i ≤ now j)
    (hviews : ∀ i, Listed (views i)) :
    ((∃ all, ∀ i, views i ⊆ all) → ∃ fuel pages,
      follow (F.ask values views now) fuel 0 none = some (.ok pages)) ∧
    ∀ fuel result, follow (F.ask values views now) fuel 0 none = some result →
      ∃ pages, result = .ok pages ∧ Enumerated F values q views now pages := by
  have hserves := @ask_serves D _ _ F values q views now hq hfirst hviews
  have haccepts : Accepts Position.Ready (F.encodeCursor (F.filters q))
      (F.ask values views now) := fun i p hp => ⟨_, ask_eq hq hfirst hp⟩
  have hstart : ∀ p : Position D, none = some p → p.Ready := fun _ h => by cases h
  refine ⟨?_, ?_⟩
  · rintro ⟨all, hall⟩
    have hpool : ∀ i c, Shown F q (views i) (now i) c →
        c.pos ∈ all.map fun v => (F.candidate q v).pos := by
      rintro i c ⟨v, hv, -, -, rfl⟩
      exact List.mem_map_of_mem (hall i hv)
    obtain ⟨result, hresult⟩ := hserves.ends hpool (i := 0) hstart (Nat.lt_succ_self _)
    obtain ⟨pages, rfl⟩ := hserves.succeeds haccepts hstart hresult
    exact ⟨_, _, hresult⟩
  · intro fuel result hresult
    obtain ⟨answers, rfl⟩ := hserves.succeeds haccepts hstart hresult
    obtain ⟨pages, hrenders, hscan⟩ := hserves.scan hstart hresult
    exact ⟨_, rfl, Enumerated.of_scan hq hfirst hnow hviews hrenders hscan⟩

end Paging

/-! ## Samples -/

namespace Sample

/-- The mark of a distance. -/
def markOf (d : Fin 2) : Char := if d = 0 then '0' else '1'

def distanceOf (mark : Char) : Fin 2 := if mark = '0' then 0 else 1

theorem distanceOf_markOf : ∀ d, distanceOf (markOf d) = d := by decide

theorem utf8Size_markOf : ∀ d, (markOf d).utf8Size = 1 := by decide

def formats : Formats (Fin 2) where
  parseFloat _ := none
  formatFloat _ := ""
  formatMinute _ := ""
  digest _ := ""
  distance a b := if a = b then 0 else 1
  distance_nonneg _ _ := Fin.zero_le _
  cursors := {
    encode := fun c => stamp (markOf c.after.distance) c.after.id c.after.deadline
    decode := fun s => (readStamp s).map fun r => ⟨"", distanceOf r.1, r.2.2, r.2.1⟩
    decode_encode := fun c ⟨⟨_, hfilters⟩, htime, hid⟩ => by
      obtain ⟨filters, distance, deadline, id⟩ := c
      cases hfilters
      rw [readStamp_stamp htime hid, Option.map_some]
      simp only [distanceOf_markOf]
    encode_fits := fun c ⟨_, htime, hid⟩ => stamp_fits (utf8Size_markOf _) htime hid }

/-- An open errand with this deadline. -/
def viewOf (id : String) (deadline : ℤ) : OpenErrandView where
  errandID := id
  version := 2
  supplierID := ""
  supplierVersionID := ""
  pickup := {}
  deliveryBuilding := ⟨"", ""⟩
  deliveryDetail := ""
  items := .absent
  reward := 1
  createdAt := 0
  acceptanceDeadline := deadline

def first : OpenErrandView := viewOf "00000000-0000-4000-8000-000000000001" (60 * minute)

def second : OpenErrandView := viewOf "00000000-0000-4000-8000-000000000002" (30 * minute)

end Sample

/-- Two open errands on two pages. -/
theorem open_paging_two : ∃ fuel pages,
    follow (Sample.formats.ask [("limit", "1")] (fun _ => [Sample.first, Sample.second])
      (fun i => i)) fuel 0 none = some (.ok pages) ∧
    Enumerated Sample.formats [("limit", "1")] ⟨"", none, 1, none⟩
      (fun _ => [Sample.first, Sample.second]) (fun i => i) pages := by
  have hlisted : Listed [Sample.first, Sample.second] :=
    ⟨by decide, by decide, by decide, by decide⟩
  obtain ⟨hends, hpages⟩ := @open_paging _ _ _ Sample.formats [("limit", "1")]
    ⟨"", none, 1, none⟩ (fun _ => [Sample.first, Sample.second]) (fun i => i) rfl
    (by decide) (fun i j h => Int.ofNat_le.mpr h) (fun _ => hlisted)
  obtain ⟨fuel, pages, hfollow⟩ := hends ⟨_, fun _ => List.Subset.refl _⟩
  obtain ⟨pages', heq, henumerated⟩ := hpages fuel _ hfollow
  cases heq
  exact ⟨fuel, pages, hfollow, henumerated⟩

/-- A deadline after the year 9999 has no cursor, so the list ends there. -/
theorem late_view_lost :
    (follow (Sample.formats.ask [("limit", "1")]
      (fun _ => [Sample.viewOf "00000000-0000-4000-8000-000000000001" 253402300800000000000,
        Sample.viewOf "00000000-0000-4000-8000-000000000002" 253402300800000000000])
      (fun _ => 0)) 1 0 none).map (Except.map fun pages =>
        (rowsOf pages).map (·.fields.errandID)) =
      some (.ok ["00000000-0000-4000-8000-000000000001"]) := by
  rfl

end FocServices.Orders
