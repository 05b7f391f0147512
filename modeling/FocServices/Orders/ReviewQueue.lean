import FocServices.Orders.Passages
import FocServices.Orders.Queries
import FocServices.Orders.Routes
import FocServices.Paging.Keyset
import Mathlib.Algebra.Order.Group.Int

/-!
# The queue of open reviews

An admin lists the open reviews, oldest first. The store has no filter by reason, so `List`
reads batches of open reviews and keeps the matching ones, and reads the errand of each once
more. Reviews are opened and resolved between any two of its calls.
-/

namespace FocServices.Orders

open Paging Txn

/-- `opsrepo.OpenReview`: the part that `List` shows. -/
structure OpenReview where
  id : ℤ
  errandID : String
  reason : Option ReviewReason
  reporterID : String
  note : String
  createdAt : ℤ
  deriving DecidableEq

/-- The open reviews with their errands. `number` gives the identifier of the review that was
stored at a place in the table; identifiers need not be in the order of storing. -/
def Tables.openReviews (number : ℕ → ℤ) (s : Tables) : List OpenReview :=
  s.reviews.zipIdx.filterMap fun (r, place) =>
    if r.resolution.isNone ∧ s.hasErrand r.errandID then
      some ⟨number place, r.errandID, r.reason, r.reporterID, r.note, r.createdAt⟩
    else none

def opsMaxPageSize : ℕ := 200

/-- `Repository.ListOpenReviews`. -/
def Tables.listOpenReviews (number : ℕ → ℤ) (s : Tables) (afterID : ℤ) (limit : ℕ) :
    Except StoreError (List OpenReview) :=
  if limit = 0 ∨ opsMaxPageSize < limit then
    .error (opsInvalid "limit must be between 1 and 200")
  else
    .ok ((rest OpenReview.id (if 0 < afterID then some afterID else none)
      (s.openReviews number)).take limit)

/-- What the service calls. -/
inductive ReviewCall where
  | listOpenReviews (afterID : ℤ) (limit : ℕ)
  | get (id : String)
  | getVersion (id : String)

@[reducible] def ReviewCall.Reply : ReviewCall → Type
  | .listOpenReviews _ _ => Except StoreError (List OpenReview)
  | .get _ => Except StoreError Errand
  | .getVersion _ => Except StoreError SupplierVersion

abbrev ReviewService := Program ReviewCall ReviewCall.Reply StoreError

/-- `review.Review` of an open review. -/
structure ShownReview where
  reason : Option ReviewReason
  reporterID : String
  note : String
  createdAt : ℤ
  deriving DecidableEq

def openReview (r : OpenReview) : ShownReview where
  reason := r.reason
  reporterID := r.reporterID
  note := r.note
  createdAt := r.createdAt

structure AdminErrand where
  errand : Errand
  pickup : SupplierVersion
  review : ShownReview

/-- `review.ListQuery`. -/
structure ReviewQuery where
  reason : Option ReviewReason
  after : ℤ
  limit : ℕ

/-- `review.Page`. -/
structure ReviewPage where
  items : List AdminErrand
  next : ℤ

namespace ReviewService

def call (q : ReviewCall) : ReviewService q.Reply := Program.call q

def pickup (e : Errand) : ReviewService SupplierVersion := do
  match ← call (.getVersion e.details.supplierVersionID) with
  | .ok version => return version
  | .error err =>
    if err.hasCode [.dependencyUnavailable] then .fail err
    else .fail (.wrapped ("read supplier version of errand " ++ e.id) err)

/-- The item of a review, if its errand is still in review, and the versions known then. -/
def listItem (r : OpenReview) (versions : Pickups) :
    ReviewService (Option AdminErrand × Pickups) := do
  match ← call (.get r.errandID) with
  | .error err => .fail (.wrapped ("read errand " ++ r.errandID) err)
  | .ok current =>
    if current.status ≠ .reviewRequired then return (none, versions)
    else
      match versions.lookup current.details.supplierVersionID with
      | some version => return (some ⟨current, version, openReview r⟩, versions)
      | none => do
        let version ← pickup current
        return (some ⟨current, version, openReview r⟩,
          (current.details.supplierVersionID, version) :: versions)

/-- The variables of `List`'s loop. -/
structure Progress where
  after : ℤ
  items : List AdminErrand
  last : ℤ
  versions : Pickups

/-- The reviews of one batch: the loop goes on, or the page is full and one more was found. -/
def readBatch (q : ReviewQuery) : List OpenReview → Progress →
    ReviewService (Progress ⊕ ReviewPage)
  | [], st => return .inl st
  | r :: batch, st =>
    let st := { st with after := r.id }
    if q.reason.isSome ∧ r.reason ≠ q.reason then readBatch q batch st
    else if st.items.length = q.limit then return .inr ⟨st.items, st.last⟩
    else do
      let (item, versions) ← listItem r st.versions
      match item with
      | none => readBatch q batch { st with versions := versions }
      | some item =>
        readBatch q batch
          { st with items := st.items ++ [item], last := r.id, versions := versions }

/-- The batches, up to `fuel` of them. -/
def readBatches (q : ReviewQuery) : ℕ → Progress → ReviewService (Option ReviewPage)
  | 0, _ => return none
  | fuel + 1, st => do
    match ← call (.listOpenReviews st.after (q.limit + 1)) with
    | .error err => .fail (.wrapped "list open reviews" err)
    | .ok batch =>
      match ← readBatch q batch st with
      | .inr page => return some page
      | .inl st =>
        if batch.length < q.limit + 1 then return some ⟨st.items, 0⟩
        else readBatches q fuel st

/-- `Service.List`, up to `fuel` batches. -/
def list (q : ReviewQuery) (fuel : ℕ) : ReviewService (Option ReviewPage) :=
  if q.limit < 1 ∨ 100 < q.limit then
    .fail (appErr .invalidArgument "limit must be between 1 and 100")
  else readBatches q fuel ⟨q.after, [], 0, []⟩

/-- Request `i` of a client that goes on where the page before says; no further page follows
a zero. -/
def ask (reason : Option ReviewReason) (limit fuel : ℕ)
    (replies : ℕ → ℕ → (q : ReviewCall) → q.Reply) (i : ℕ) (after : Option ℤ) :
    Except StoreError (Page AdminErrand ℤ) :=
  match ((list ⟨reason, after.getD 0, limit⟩ fuel).answered (replies i) 0).1 with
  | .error err => .error err
  | .ok none => .error (.internal "List has not returned")
  | .ok (some page) => .ok ⟨page.items, if page.next = 0 then none else some page.next⟩

end ReviewService

/-! ## What the calls answer -/

section

variable (hash : String → ℤ) (number : ℕ → ℤ) (s : ℕ → Tables)
  (replies : ℕ → (q : ReviewCall) → q.Reply)

/-- Call `k` is answered on the tables `s k`, or fails. The supplier service answers as it
likes. -/
structure Truthful : Prop where
  list : ∀ k afterID limit reviews, replies k (.listOpenReviews afterID limit) = .ok reviews →
    (s k).listOpenReviews number afterID limit = .ok reviews
  get : ∀ k id e, replies k (.get id) = .ok e →
    ((engine hash).atomically (get id) (s k) 0).1 = .ok e

/-- A review with the reason is open at all moments. -/
def StaysOpen (reason : Option ReviewReason) (r : OpenReview) : Prop :=
  (reason.isSome → r.reason = reason) ∧ ∀ k, r ∈ (s k).openReviews number

/-- A review with the reason is open at some moment. -/
def WasOpen (reason : Option ReviewReason) (r : OpenReview) : Prop :=
  (reason.isSome → r.reason = reason) ∧ ∃ k, r ∈ (s k).openReviews number

end

/-- The item shows the review, with its errand in review. -/
def ShowsReview (r : OpenReview) (item : AdminErrand) : Prop :=
  item.errand.id = r.errandID ∧ item.errand.status = .reviewRequired ∧
    item.review = openReview r

section Reviews

variable {number : ℕ → ℤ} {s : Tables} {r : OpenReview}

theorem mem_openReviews : r ∈ s.openReviews number ↔ ∃ place review,
    s.reviews[place]? = some review ∧ review.resolution = none ∧
      s.hasErrand review.errandID = true ∧
      r = ⟨number place, review.errandID, review.reason, review.reporterID, review.note,
        review.createdAt⟩ := by
  simp only [Tables.openReviews, List.mem_filterMap, Prod.exists, List.mem_zipIdx_iff_getElem?]
  constructor
  · rintro ⟨review, place, hplace, h⟩
    split at h
    case isTrue hopen =>
      cases h
      exact ⟨place, review, hplace, Option.isNone_iff_eq_none.mp hopen.1, hopen.2, rfl⟩
    case isFalse => cases h
  · rintro ⟨place, review, hplace, hopen, herrand, rfl⟩
    exact ⟨review, place, hplace, if_pos ⟨by rw [hopen]; rfl, herrand⟩⟩

/-- Open reviews have different identifiers. -/
theorem openReviews_distinct (hnumber : Function.Injective number) :
    ((s.openReviews number).map OpenReview.id).Nodup := by
  have hsub : ((s.openReviews number).map OpenReview.id).Sublist
      ((s.reviews.zipIdx.map Prod.snd).map number) := by
    unfold Tables.openReviews
    rw [List.map_map]
    generalize s.reviews.zipIdx = rows
    induction rows with
    | nil => exact List.Sublist.refl _
    | cons row rows ih =>
      rw [List.filterMap_cons, List.map_cons]
      by_cases hopen : row.1.resolution.isNone ∧ s.hasErrand row.1.errandID
      · simp only [if_pos hopen]
        exact ih.cons_cons _
      · simp only [if_neg hopen]
        exact ih.cons _
  refine List.Nodup.sublist hsub (List.Nodup.map hnumber ?_)
  rw [List.zipIdx_map_snd]
  exact List.nodup_range'

/-- The errand of an open review is in review. -/
theorem Recorded.in_review (hs : Recorded s) (hr : r ∈ s.openReviews number) {e : Errand}
    (he : e ∈ s.errands) (hid : e.id = r.errandID) : e.status = .reviewRequired := by
  obtain ⟨place, review, hplace, hopen, -, rfl⟩ := mem_openReviews.mp hr
  refine (hs.told he).opened.mp ⟨review, ?_, hopen⟩
  exact List.mem_filter.mpr ⟨List.mem_of_getElem? hplace, decide_eq_true hid.symm⟩

theorem Recorded.canonical_review (hs : Recorded s) (hr : r ∈ s.openReviews number) :
    Canonical r.errandID := by
  obtain ⟨place, review, -, -, herrand, rfl⟩ := mem_openReviews.mp hr
  obtain ⟨e, he, hid⟩ := List.any_eq_true.mp herrand
  have := (hs.keyed.regular e he).canonical
  rwa [of_decide_eq_true hid] at this

end Reviews

/-! ## The loops -/

open ReviewService (Progress listItem readBatch readBatches)

section Loops

variable {hash : String → ℤ} {number : ℕ → ℤ} {s : ℕ → Tables}
  {replies : ℕ → (q : ReviewCall) → q.Reply} {reason : Option ReviewReason} {limit : ℕ}
  {p : Option ℤ}

/-- A review is shown if its errand is in review, which it is while the review is open. -/
theorem listItem_answered (htruth : Truthful hash number s replies) (hs : ∀ k, Recorded (s k))
    {r : OpenReview} (hr : WasOpen number s reason r) {versions versions' : Pickups}
    {item : Option AdminErrand} {k l : ℕ}
    (h : (listItem r versions).answered replies k = (.ok (item, versions'), l)) :
    (∀ x, item = some x → ShowsReview r x) ∧
      (item = none → ¬ StaysOpen number s reason r) := by
  obtain ⟨k₀, hk₀⟩ := hr.2
  have hcanonical := (hs k₀).canonical_review hk₀
  simp only [listItem, ReviewService.call, Program.call_bind, Program.answered] at h
  cases hreply : replies k (.get r.errandID) with
  | error err =>
    rw [hreply] at h
    cases h
  | ok e =>
    rw [hreply] at h
    obtain ⟨he, hscan⟩ := get_found (htruth.get k _ e hreply)
    have hid : e.id = r.errandID := Option.some.inj (hscan.symm.trans hcanonical)
    simp only at h
    split at h
    · next hstatus =>
      cases h
      refine ⟨fun x hx => (by cases hx), fun _ hopen => hstatus ?_⟩
      exact (hs k).in_review (hopen.2 k) he hid
    · next hstatus =>
      have hshown : ∀ version, ShowsReview r ⟨e, version, openReview r⟩ := fun version =>
        ⟨hid, not_not.mp hstatus, rfl⟩
      split at h
      · cases h
        exact ⟨fun x hx => by cases hx; exact hshown _, fun hnone => by cases hnone⟩
      · rw [Program.answered_bind] at h
        split at h
        · cases h
          exact ⟨fun x hx => by cases hx; exact hshown _, fun hnone => by cases hnone⟩
        · cases h

/-- What the loop has gathered: the matching reviews after `p`, up to where it has come. -/
structure Gathered (number : ℕ → ℤ) (s : ℕ → Tables) (reason : Option ReviewReason) (limit : ℕ)
    (p : Option ℤ) (st : Progress) (acc : List OpenReview) : Prop where
  items : List.Forall₂ ShowsReview acc st.items
  increasing : acc.Pairwise fun r r' => r.id < r'.id
  start : ∀ q, p = some q → q ≤ st.after
  after : ∀ r ∈ acc, After p r.id
  sound : ∀ r ∈ acc, WasOpen number s reason r
  upto : ∀ r ∈ acc, r.id ≤ st.after
  last : ∀ r ∈ acc, r.id ≤ st.last
  last_mem : acc ≠ [] → ∃ r ∈ acc, r.id = st.last
  few : acc.length ≤ limit
  covers : ∀ r, StaysOpen number s reason r → After p r.id → r.id ≤ st.after → r ∈ acc

/-- A batch read at one moment, of which the loop has come up to `after`. -/
structure Ahead (number : ℕ → ℤ) (s : ℕ → Tables) (reason : Option ReviewReason) (after : ℤ)
    (batch : List OpenReview) : Prop where
  increasing : batch.Pairwise fun r r' => r.id < r'.id
  beyond : ∀ r ∈ batch, after < r.id
  sound : ∀ r ∈ batch, ∃ k, r ∈ (s k).openReviews number
  covers : ∀ r, StaysOpen number s reason r → after < r.id → (∃ r' ∈ batch, r.id ≤ r'.id) →
    r ∈ batch

variable {st : Progress} {acc batch : List OpenReview} {r : OpenReview}

theorem Ahead.tail {after : ℤ} (h : Ahead number s reason after (r :: batch)) :
    Ahead number s reason r.id batch := by
  obtain ⟨hfirst, hrest⟩ := List.pairwise_cons.mp h.increasing
  refine ⟨hrest, hfirst, fun r' hr' => h.sound r' (List.mem_cons_of_mem _ hr'), ?_⟩
  rintro x hx hlt ⟨r', hr', hle⟩
  have hbeyond := h.beyond r List.mem_cons_self
  rcases List.mem_cons.mp (h.covers x hx (by omega) ⟨r', List.mem_cons_of_mem _ hr', hle⟩)
    with rfl | hmem
  · omega
  · exact hmem

/-- Whatever stays open and comes next in line is next in the batch. -/
theorem Ahead.next {after : ℤ} (h : Ahead number s reason after (r :: batch)) {x : OpenReview}
    (hx : StaysOpen number s reason x) (hlt : after < x.id) (hle : x.id ≤ r.id) : x = r := by
  obtain ⟨hfirst, -⟩ := List.pairwise_cons.mp h.increasing
  rcases List.mem_cons.mp (h.covers x hx hlt ⟨r, List.mem_cons_self, hle⟩) with rfl | hmem
  · rfl
  · have := hfirst x hmem
    omega

/-- A review that need not be shown is passed over. -/
theorem Gathered.pass (h : Gathered number s reason limit p st acc)
    (ha : Ahead number s reason st.after (r :: batch)) (hr : ¬ StaysOpen number s reason r)
    (versions : Pickups) :
    Gathered number s reason limit p { st with after := r.id, versions := versions } acc := by
  have hbeyond := ha.beyond r List.mem_cons_self
  refine ⟨h.items, h.increasing, fun q hq => ?_, h.after, h.sound, fun x hx => ?_, h.last,
    h.last_mem, h.few, fun x hx hp hle => ?_⟩
  · have := h.start q hq
    change q ≤ r.id
    omega
  · have := h.upto x hx
    change x.id ≤ r.id
    omega
  · by_cases hold : x.id ≤ st.after
    · exact h.covers x hx hp hold
    · obtain rfl := ha.next hx (by omega) hle
      exact absurd hx hr

/-- A review is shown while there is room. -/
theorem Gathered.take (h : Gathered number s reason limit p st acc)
    (ha : Ahead number s reason st.after (r :: batch)) (hr : WasOpen number s reason r)
    {item : AdminErrand} (hitem : ShowsReview r item) (hroom : st.items.length ≠ limit)
    (versions : Pickups) :
    Gathered number s reason limit p
      { after := r.id, items := st.items ++ [item], last := r.id, versions := versions }
      (acc ++ [r]) := by
  have hbeyond := ha.beyond r List.mem_cons_self
  have hlength := h.items.length_eq
  have hfew := h.few
  have hupto : ∀ x ∈ acc, x.id < r.id := fun x hx => by
    have := h.upto x hx
    omega
  have hall : ∀ x ∈ acc ++ [r], x.id ≤ r.id := by
    intro x hx
    rcases List.mem_append.mp hx with hold | hnew
    · exact Int.le_of_lt (hupto x hold)
    · rw [List.mem_singleton.mp hnew]
  refine ⟨List.rel_append h.items (.cons hitem .nil), ?_, fun q hq => ?_, ?_, ?_, hall, hall,
    fun _ => ⟨r, by simp, rfl⟩, ?_, fun x hx hp hle => ?_⟩
  · refine List.pairwise_append.mpr ⟨h.increasing, List.pairwise_singleton _ _, ?_⟩
    intro x hx y hy
    rw [List.mem_singleton.mp hy]
    exact hupto x hx
  · have := h.start q hq
    change q ≤ r.id
    omega
  · intro x hx
    rcases List.mem_append.mp hx with hold | hnew
    · exact h.after x hold
    · rw [List.mem_singleton.mp hnew]
      intro q hq
      have := h.start q hq
      omega
  · intro x hx
    rcases List.mem_append.mp hx with hold | hnew
    · exact h.sound x hold
    · rw [List.mem_singleton.mp hnew]
      exact hr
  · rw [List.length_append, List.length_singleton]
    omega
  · by_cases hold : x.id ≤ st.after
    · exact List.mem_append_left _ (h.covers x hx hp hold)
    · obtain rfl := ha.next hx (by omega) hle
      simp

/-- What one batch adds. -/
theorem readBatch_answered (htruth : Truthful hash number s replies)
    (hs : ∀ k, Recorded (s k)) {start : ℤ} {k l : ℕ} {result : Progress ⊕ ReviewPage}
    (hg : Gathered number s reason limit p st acc) (ha : Ahead number s reason st.after batch)
    (h : (readBatch ⟨reason, start, limit⟩ batch st).answered replies k = (.ok result, l)) :
    ∃ st' acc', Gathered number s reason limit p st' acc' ∧
      (result = .inl st' ∧ st.after ≤ st'.after ∧ (∀ r ∈ batch, r.id ≤ st'.after) ∨
        result = .inr ⟨st'.items, st'.last⟩ ∧ acc'.length = limit) := by
  induction batch generalizing st acc k with
  | nil =>
    cases h
    exact ⟨st, acc, hg, Or.inl ⟨rfl, Int.le_refl _, fun r hr => absurd hr List.not_mem_nil⟩⟩
  | cons r batch ih =>
    have hbeyond := ha.beyond r List.mem_cons_self
    -- the rest of the batch goes on from this review
    have hrest : ∀ {st' acc' k}, Gathered number s reason limit p st' acc' → st'.after = r.id →
        (readBatch ⟨reason, start, limit⟩ batch st').answered replies k = (.ok result, l) →
        ∃ st'' acc'', Gathered number s reason limit p st'' acc'' ∧
          (result = .inl st'' ∧ st.after ≤ st''.after ∧
              (∀ r' ∈ r :: batch, r'.id ≤ st''.after) ∨
            result = .inr ⟨st''.items, st''.last⟩ ∧ acc''.length = limit) := by
      intro st' acc' k hg' hafter h'
      obtain ⟨st'', acc'', hg'', hresult⟩ := ih hg' (hafter ▸ ha.tail) h'
      refine ⟨st'', acc'', hg'', hresult.imp_left fun ⟨hinl, hle, hall⟩ => ⟨hinl, ?_, ?_⟩⟩
      · omega
      · exact List.forall_mem_cons.mpr ⟨by omega, hall⟩
    unfold readBatch at h
    simp only at h
    split at h
    · next hother =>
      refine hrest (hg.pass ha (fun hopen => hother.2 (hopen.1 hother.1)) st.versions) rfl h
    · next hmatch =>
      have hopen : WasOpen number s reason r :=
        ⟨fun hsome => not_not.mp fun hne => hmatch ⟨hsome, hne⟩,
          ha.sound r List.mem_cons_self⟩
      split at h
      · next hfull =>
        cases h
        exact ⟨st, acc, hg, Or.inr ⟨rfl, hg.items.length_eq.trans hfull⟩⟩
      · next hroom =>
        rw [Program.answered_bind] at h
        split at h
        · next answer l' hitem =>
          obtain ⟨item, versions⟩ := answer
          obtain ⟨hsome, hnone⟩ := listItem_answered htruth hs hopen hitem
          cases item with
          | none => exact hrest (hg.pass ha (hnone rfl) versions) rfl h
          | some item => exact hrest (hg.take ha hopen (hsome item rfl) hroom versions) rfl h
        · cases h

/-- A batch is read from where the loop has come. -/
theorem ahead_of_batch (htruth : Truthful hash number s replies)
    (hnumber : Function.Injective number) (hpositive : ∀ place, 0 < number place) {k n : ℕ}
    {after : ℤ} (hreply : replies k (.listOpenReviews after n) = .ok batch) :
    Ahead number s reason after batch ∧ (batch.length < n →
      ∀ r, StaysOpen number s reason r → after < r.id → r ∈ batch) := by
  have hlist := htruth.list k after n batch hreply
  unfold Tables.listOpenReviews at hlist
  split at hlist
  · cases hlist
  have hbatch := Except.ok.inj hlist
  set rows := rest OpenReview.id (if 0 < after then some after else none)
    ((s k).openReviews number) with hrows
  have hmem : ∀ r, r ∈ rows ↔ r ∈ (s k).openReviews number ∧ after < r.id := by
    intro r
    rw [hrows, mem_rest]
    refine and_congr_right fun hr => ?_
    obtain ⟨place, review, -, -, -, rfl⟩ := mem_openReviews.mp hr
    have := hpositive place
    split
    · exact after_some
    · exact ⟨fun _ => by dsimp only; omega, fun _ => after_none _⟩
  have hincreasing : rows.Pairwise fun r r' => r.id < r'.id :=
    rest_increasing _ (openReviews_distinct hnumber)
  rw [← hbatch]
  refine ⟨⟨hincreasing.sublist (List.take_sublist _ _), fun r hr => ?_, fun r hr => ?_, ?_⟩, ?_⟩
  · exact ((hmem r).mp (List.mem_of_mem_take hr)).2
  · exact ⟨k, ((hmem r).mp (List.mem_of_mem_take hr)).1⟩
  · rintro r hr hlt ⟨r', hr', hle⟩
    obtain ⟨i, hi, rfl⟩ := List.mem_iff_getElem.mp ((hmem r).mpr ⟨hr.2 k, hlt⟩)
    obtain ⟨j, hj, rfl⟩ := List.mem_take_iff_getElem.mp hr'
    refine List.mem_take_iff_getElem.mpr ⟨i, ?_, rfl⟩
    by_contra hout
    have := List.pairwise_iff_getElem.mp hincreasing j i (by omega) hi (by omega)
    omega
  · intro hshort r hr hlt
    rw [List.length_take] at hshort
    rw [List.take_of_length_le (by omega)]
    exact (hmem r).mpr ⟨hr.2 k, hlt⟩

/-- What the loop returns is a page of the reviews after its start. -/
theorem readBatches_answered (htruth : Truthful hash number s replies)
    (hs : ∀ k, Recorded (s k)) (hnumber : Function.Injective number)
    (hpositive : ∀ place, 0 < number place) (hlimit : 0 < limit) {start : ℤ} {fuel k l : ℕ}
    {page : ReviewPage} (hg : Gathered number s reason limit p st acc)
    (h : (readBatches ⟨reason, start, limit⟩ fuel st).answered replies k =
      (.ok (some page), l)) :
    ∃ shown, List.Forall₂ ShowsReview shown page.items ∧ shown.length ≤ limit ∧
      Shows OpenReview.id (StaysOpen number s reason) (WasOpen number s reason) p
        ⟨shown, if page.next = 0 then none else some page.next⟩ := by
  induction fuel generalizing st acc k with
  | zero => cases h
  | succ fuel ih =>
    simp only [readBatches, ReviewService.call, Program.call_bind, Program.answered] at h
    cases hreply : replies k (.listOpenReviews st.after (limit + 1)) with
    | error err =>
      rw [hreply] at h
      cases h
    | ok batch =>
      rw [hreply] at h
      obtain ⟨ha, hcomplete⟩ :=
        @ahead_of_batch hash number s replies reason batch htruth hnumber hpositive _ _ _ hreply
      simp only [Program.answered_bind] at h
      split at h
      · next result l' hresult =>
        obtain ⟨st', acc', hg', hcase⟩ := readBatch_answered htruth hs hg ha hresult
        rcases hcase with ⟨rfl, hle, hall⟩ | ⟨rfl, hfull⟩
        · simp only at h
          split at h
          · next hshort =>
            cases h
            refine ⟨acc', hg'.items, hg'.few, hg'.increasing, hg'.after, hg'.sound, ?_, ?_, ?_⟩
            · intro q hq
              cases hq
            · intro q hq
              cases hq
            · intro r hr hp _
              refine hg'.covers r hr hp ?_
              by_cases hold : r.id ≤ st.after
              · omega
              · exact hall r (hcomplete hshort r hr (by omega))
          · exact ih hg' h
        · cases h
          have hsome : acc' ≠ [] := by
            rintro rfl
            rw [List.length_nil] at hfull
            omega
          obtain ⟨r, hr, hlast⟩ := hg'.last_mem hsome
          have hnonzero : st'.last ≠ 0 := by
            obtain ⟨k', hopen⟩ := (hg'.sound r hr).2
            obtain ⟨place, review, -, -, -, rfl⟩ := mem_openReviews.mp hopen
            have := hpositive place
            dsimp only at hlast
            omega
          refine ⟨acc', hg'.items, hg'.few, hg'.increasing, hg'.after, hg'.sound, ?_, ?_, ?_⟩
          · intro q hq
            simp only [if_neg hnonzero, Option.some.injEq] at hq
            exact ⟨r, hr, hlast.trans hq⟩
          · intro q hq r' hr'
            simp only [if_neg hnonzero, Option.some.injEq] at hq
            rw [← hq]
            exact hg'.last r' hr'
          · intro r' hr' hp hbefore
            have hle := hbefore st'.last (by rw [if_neg hnonzero])
            have := hg'.upto r hr
            exact hg'.covers r' hr' hp (by omega)
      · cases h

/-- The loop has returned after as many batches as there are reviews ahead, and one more. -/
theorem readBatches_returns (htruth : Truthful hash number s replies)
    (hs : ∀ k, Recorded (s k)) (hnumber : Function.Injective number)
    (hpositive : ∀ place, 0 < number place) {pool : List ℤ}
    (hpool : ∀ k, ∀ r ∈ (s k).openReviews number, r.id ∈ pool) {start : ℤ} {fuel k : ℕ}
    (hg : Gathered number s reason limit p st acc)
    (hfuel : (pool.filter fun id => st.after < id).length < fuel) :
    ((readBatches ⟨reason, start, limit⟩ fuel st).answered replies k).1 ≠ .ok none := by
  induction fuel generalizing st acc k with
  | zero => omega
  | succ fuel ih =>
    simp only [readBatches, ReviewService.call, Program.call_bind, Program.answered]
    cases hreply : replies k (.listOpenReviews st.after (limit + 1)) with
    | error err => exact fun h => by cases h
    | ok batch =>
      obtain ⟨ha, -⟩ :=
        @ahead_of_batch hash number s replies reason batch htruth hnumber hpositive _ _ _ hreply
      simp only [Program.answered_bind]
      split
      · next result l' hresult =>
        obtain ⟨st', acc', hg', hcase⟩ := readBatch_answered htruth hs hg ha hresult
        rcases hcase with ⟨rfl, hle, hall⟩ | ⟨rfl, -⟩
        · simp only
          split
          · exact fun h => by cases h
          · next hfull =>
            refine ih hg' ?_
            -- a full batch has a review that is ahead no longer
            obtain ⟨r, hr⟩ : ∃ r, r ∈ batch := List.exists_mem_of_length_pos (by omega)
            have hlt := ha.beyond r hr
            have hupto := hall r hr
            obtain ⟨k', hopen⟩ := ha.sound r hr
            have hsub : (pool.filter fun id => st'.after < id) =
                (pool.filter fun id => st.after < id).filter fun id => st'.after < id := by
              rw [List.filter_filter]
              refine List.filter_congr fun id _ => ?_
              by_cases hid : st'.after < id
              · simp only [hid, decide_true, Bool.true_and]
                exact (decide_eq_true (by omega)).symm
              · simp [hid]
            have hfewer : (pool.filter fun id => st'.after < id).length <
                (pool.filter fun id => st.after < id).length := by
              rw [hsub]
              refine List.length_filter_lt_length_iff_exists.mpr
                ⟨r.id, List.mem_filter.mpr ⟨hpool k' r hopen, decide_eq_true hlt⟩, ?_⟩
              simp only [decide_eq_true_eq]
              omega
            omega
        · exact fun h => by cases h
      · exact fun h => by cases h

/-- The loop starts with nothing gathered. -/
theorem gathered_start (hpositive : ∀ place, 0 < number place) (p : Option ℤ) :
    Gathered number s reason limit p ⟨p.getD 0, [], 0, []⟩ [] := by
  refine ⟨.nil, .nil, ?_, by simp, by simp, by simp, by simp, by simp, Nat.zero_le _, ?_⟩
  · rintro q rfl
    exact Int.le_refl q
  · intro r hr hp hle
    obtain ⟨place, review, -, -, -, rfl⟩ := mem_openReviews.mp (hr.2 0)
    have := hpositive place
    cases p with
    | none =>
      simp only [Option.getD_none] at hle
      omega
    | some q =>
      have hlt := after_some.mp hp
      simp only [Option.getD_some] at hle hlt
      omega

end Loops

/-! ## Paging -/

section Paging

variable {hash : String → ℤ} {number : ℕ → ℤ} {s : ℕ → ℕ → Tables}
  {replies : ℕ → ℕ → (q : ReviewCall) → q.Reply} {reason : Option ReviewReason}
  {limit fuel : ℕ}

theorem list_eq (hlimit : 1 ≤ limit ∧ limit ≤ 100) (p : Option ℤ) :
    ReviewService.list ⟨reason, p.getD 0, limit⟩ fuel =
      readBatches ⟨reason, p.getD 0, limit⟩ fuel ⟨p.getD 0, [], 0, []⟩ := by
  rw [ReviewService.list, if_neg (by dsimp only; omega)]

/-- What a call answers, before its zero is read. -/
theorem ask_ok {i : ℕ} {p : Option ℤ} {answer : Page AdminErrand ℤ}
    (h : ReviewService.ask reason limit fuel replies i p = .ok answer) :
    ∃ page : ReviewPage, ((ReviewService.list ⟨reason, p.getD 0, limit⟩ fuel).answered
        (replies i) 0).1 = .ok (some page) ∧
      answer = ⟨page.items, if page.next = 0 then none else some page.next⟩ := by
  unfold ReviewService.ask at h
  split at h
  · cases h
  · cases h
  · next page hpage => exact ⟨page, hpage, (Except.ok.inj h).symm⟩

/-- The calls of a client serve the reviews that stay open during each. -/
theorem ask_reviews (hs : ∀ i k, Recorded (s i k))
    (htruth : ∀ i, Truthful hash number (s i) (replies i)) (hnumber : Function.Injective number)
    (hpositive : ∀ place, 0 < number place) (hlimit : 1 ≤ limit ∧ limit ≤ 100) :
    Serves OpenReview.id (fun i => StaysOpen number (s i) reason)
      (fun i => WasOpen number (s i) reason) (fun _ => True) ShowsReview id
      (ReviewService.ask reason limit fuel replies) := by
  intro i p answer _ hanswer
  rw [Option.map_id] at hanswer
  obtain ⟨page, hpage, rfl⟩ := ask_ok hanswer
  rw [id_eq, list_eq hlimit] at hpage
  obtain ⟨shown, hitems, -, hshows⟩ := readBatches_answered (htruth i) (hs i) hnumber hpositive
    (by omega) (gathered_start hpositive p) (Prod.ext hpage rfl)
  exact ⟨_, ⟨hitems, by simp⟩, hshows, fun _ _ => trivial⟩

end Paging

namespace Sample

/-- An errand whose courier reports an issue. -/
def reported : List Deed :=
  let id := "00000000-0000-4000-8000-000000000001"
  [.submit id "auth0|requester" "first" sampleErrand.details 0,
    .act id .reservationConfirmed systemActor {} 0,
    .act id .accept ⟨.courier, "auth0|courier"⟩ { deadlines := defaultDeadlineSettings } 0,
    .act id .pickUp ⟨.courier, "auth0|courier"⟩ {} 0,
    .act id .reportIssue ⟨.courier, "auth0|courier"⟩ { reason := "lost" } 0]

/-- The answers of tables that do not change. -/
def reviewReplies (s : Tables) (_ _ : ℕ) : (q : ReviewCall) → q.Reply
  | .listOpenReviews afterID limit => s.listOpenReviews (fun place => place + 1) afterID limit
  | .get id => ((engine fun _ => 0).atomically (get id) s 0).1
  | .getVersion _ => .ok {}

theorem truthful_reviewReplies (s : Tables) (i : ℕ) :
    Truthful (fun _ => 0) (fun place => place + 1) (fun _ => s) (reviewReplies s i) :=
  ⟨fun _ _ _ _ h => h, fun _ _ _ h => h⟩

def showsReported (s : Tables) : Bool :=
  (follow (ReviewService.ask none 1 2 (reviewReplies s)) 1 0 none).any fun
    | .ok answers => (rowsOf answers).length = 1
    | .error _ => false

theorem reads_reported :
    ((tell (fun _ => 0) reported [{}]).bind List.head?).any showsReported = true := by
  decide +kernel

end Sample

end FocServices.Orders
