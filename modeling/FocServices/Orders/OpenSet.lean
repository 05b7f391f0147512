import FocServices.Orders.MyErrands
import FocServices.Orders.Openings

/-!
# Loading the set of open errands

A load reads all open errands page by page, ordered by their acceptance deadlines, and turns
them into views. An edit may give an errand another deadline between two pages. An errand that
was read and moves on behind the cursor is read again.
-/

namespace FocServices.Orders

open Paging Txn

/-! ## Pages of open errands -/

/-- `errand.OpenQuery`. -/
structure OpenQuery where
  supplierID : String := ""
  now : ℤ
  after : Option OpenCursor
  limit : ℕ

/-- `ORDER BY acceptance_deadline, id`. -/
def openPlace (e : Errand) : ℤ ×ₗ String := toLex (e.details.acceptanceDeadline, e.id)

def cursorOf (place : ℤ ×ₗ String) : OpenCursor := ⟨(ofLex place).1, (ofLex place).2⟩

/-- The place that a page starts after. A deadline at the zero time is passed as `NULL`, and
the page then starts at the beginning. -/
def openStart : Option OpenCursor → Except StoreError (Option (ℤ ×ₗ String))
  | none => .ok none
  | some c => do
    let id ← parseUUID "cursor" c.id
    return if c.acceptanceDeadline = zeroTime then none
      else some (toLex (micros c.acceptanceDeadline, id))

namespace Tables

/-- The open errands that can be accepted at a time. -/
def openAt (s : Tables) (now : ℤ) : List Errand :=
  s.errands.filter fun e => e.status = .open ∧ now ≠ zeroTime ∧
    micros now < e.details.acceptanceDeadline

/-- The rows of `ListOpen`. -/
def openPage (s : Tables) (q : OpenQuery) (supplier : Option String) :
    Except StoreError (Page Errand OpenCursor) := do
  let start ← openStart q.after
  let rows := rest openPlace start ((s.openAt q.now).filter fun e =>
    supplier.all fun id => e.details.supplierID = id)
  return cut (fun e => cursorOf (openPlace e)) q.limit (rows.take (q.limit + 1))

/-- `Store.ListOpen`. A supplier that is not a UUID matches nothing. -/
def listOpen (s : Tables) (q : OpenQuery) : Except StoreError (Page Errand OpenCursor) := do
  checkLimit q.limit
  if q.supplierID = "" then s.openPage q none
  else match scanUUID q.supplierID with
    | none => return ⟨[], none⟩
    | some id => s.openPage q (some id)

end Tables

/-! ## Loading -/

namespace Browse

variable (buildingName : RawMessage → String)

/-- `openSet.load`. -/
def load (now : ℤ) (fuel : ℕ) : Handler (List OpenErrandView) := do
  let errands ← loadErrands now fuel none
  openViews buildingName [] errands

end Browse

section Load

variable {replies : ℕ → (q : Call) → q.Reply} {now : ℤ} {buildingName : RawMessage → String}

/-- The answers to the requests for pages. -/
def pageReply (replies : ℕ → (q : Call) → q.Reply) (now : ℤ) (k : ℕ) (p : Option OpenCursor) :
    Except StoreError (Page Errand OpenCursor) :=
  (replies k (.listOpen now p)).map fun answer => ⟨answer.1, answer.2⟩

/-- A load reads pages as a client does that follows their cursors. -/
theorem loadErrands_answered {fuel k : ℕ} {after : Option OpenCursor} :
    ((Browse.loadErrands now fuel after).answered replies k).1 =
      match follow (pageReply replies now) fuel k after with
      | none => .error (.internal "context deadline exceeded")
      | some pages => pages.map rowsOf := by
  induction fuel generalizing k after with
  | zero => rfl
  | succ fuel ih =>
    unfold Browse.loadErrands follow
    change ((orAnswer (replies k (.listOpen now after)) >>= fun answer => _).answered replies
      (k + 1)).1 = _
    cases hreply : replies k (.listOpen now after) with
    | error err =>
      have hpage : pageReply replies now k after = .error err := by
        rw [pageReply, hreply]
        rfl
      rw [hpage]
      rfl
    | ok answer =>
      obtain ⟨items, next⟩ := answer
      have hpage : pageReply replies now k after = .ok ⟨items, next⟩ := by
        rw [pageReply, hreply]
        rfl
      rw [hpage]
      cases next with
      | none => exact congrArg Except.ok (List.append_nil items).symm
      | some cursor =>
        change (((Browse.loadErrands now fuel (some cursor)) >>= fun more =>
          Program.pure (items ++ more)).answered replies (k + 1)).1 = _
        have hrest := @ih (k + 1) (some cursor)
        rw [Program.answered_bind]
        revert hrest
        obtain ⟨outcome, l⟩ := (Browse.loadErrands now fuel (some cursor)).answered replies (k + 1)
        rintro rfl
        simp only
        cases follow (pageReply replies now) fuel (k + 1) (some cursor) with
        | none => rfl
        | some pages =>
          cases pages with
          | error err => rfl
          | ok pages => rfl

/-- Each view is of another errand of the list. -/
theorem openViews_sublist {known : List (String × Option SupplierVersion)} {errands : List Errand}
    {k : ℕ} {views : List OpenErrandView}
    (h : ((Browse.openViews buildingName known errands).answered replies k).1 = .ok views) :
    (views.map OpenErrandView.errandID).Sublist (errands.map Errand.id) := by
  induction errands generalizing known k views with
  | nil =>
    cases h
    exact List.Sublist.refl _
  | cons e errands ih =>
    have hshown : ∀ {known k version views},
        (((Browse.openViews buildingName known errands) >>= fun views =>
          Program.pure (openViewOf buildingName e version :: views)).answered replies k).1 =
            .ok views →
        (views.map OpenErrandView.errandID).Sublist ((e :: errands).map Errand.id) := by
      intro known k version views h
      obtain ⟨rest, l, hrest, hviews⟩ := Program.answered_bind_ok.mp h
      cases hviews
      exact (ih (congrArg Prod.fst hrest)).cons_cons _
    unfold Browse.openViews at h
    simp only at h
    split at h
    · exact (ih h).cons _
    · exact hshown h
    · rw [call, Program.call_bind, Program.answered] at h
      split at h
      · exact hshown h
      · split at h
        · exact (ih h).cons _
        · cases h

/-- With a supplier service that knows every version all errands are shown. -/
theorem openViews_known (hversions : ∀ k id, ∃ version, replies k (.getVersion id) = .ok version)
    {known : List (String × Option SupplierVersion)} (hknown : ∀ p ∈ known, p.2 ≠ none)
    (errands : List Errand) (k : ℕ) :
    ∃ views, ((Browse.openViews buildingName known errands).answered replies k).1 = .ok views ∧
      views.map OpenErrandView.errandID = errands.map Errand.id := by
  induction errands generalizing known k with
  | nil => exact ⟨[], rfl, rfl⟩
  | cons e errands ih =>
    have hshown : ∀ {known k version}, (∀ p ∈ known, p.2 ≠ none) → ∃ views,
        (((Browse.openViews buildingName known errands) >>= fun views =>
          Program.pure (openViewOf buildingName e version :: views)).answered replies k).1 =
            .ok views ∧
        views.map OpenErrandView.errandID = (e :: errands).map Errand.id := by
      intro known k version hknown
      obtain ⟨views, hviews, hids⟩ := ih hknown k
      refine ⟨openViewOf buildingName e version :: views,
        Program.answered_bind_ok.mpr ⟨views, _, Prod.ext hviews rfl, rfl⟩, ?_⟩
      rw [List.map_cons, List.map_cons, hids]
      rfl
    unfold Browse.openViews
    simp only
    split
    · next hlookup =>
      obtain ⟨before, after, rfl, -⟩ := List.lookup_eq_some_iff.mp hlookup
      exact absurd rfl (hknown _ (List.mem_append_right _ List.mem_cons_self))
    · exact hshown hknown
    · rw [call, Program.call_bind, Program.answered]
      obtain ⟨version, hversion⟩ := hversions k e.details.supplierVersionID
      rw [hversion]
      exact hshown fun p hp => by
        rcases List.mem_cons.mp hp with rfl | hp
        · exact Option.some_ne_none _
        · exact hknown p hp

end Load

/-! ## What the pages show -/

/-- The store answers page `k` from the tables as they are then, or fails. -/
def Reads (σ : ℕ → Tables) (replies : ℕ → (q : Call) → q.Reply) : Prop :=
  ∀ k now after answer, replies k (.listOpen now after) = .ok answer →
    ∃ page, (σ k).listOpen { now := now, after := after, limit := maxListLimit } = .ok page ∧
      answer = (page.items, page.next)

/-- No errand has a later deadline at a page than it had at an earlier page. -/
def NotPostponed (σ : ℕ → Tables) (now : ℤ) : Prop :=
  ∀ i j, i ≤ j → ∀ e ∈ (σ i).openAt now, ∀ e' ∈ (σ j).openAt now, e.id = e'.id →
    e'.details.acceptanceDeadline ≤ e.details.acceptanceDeadline

/-- What is known of the places of open errands. -/
structure Placed (now : ℤ) (place : ℤ ×ₗ String) : Prop where
  deadline : micros now < (ofLex place).1
  micros : micros (ofLex place).1 = (ofLex place).1
  id : Canonical (ofLex place).2

section Distinct

variable {hash : String → ℤ} {σ : ℕ → Tables} {now : ℤ} {replies : ℕ → (q : Call) → q.Reply}
  {s : Tables}

theorem mem_openAt {e : Errand} : e ∈ s.openAt now ↔ e ∈ s.errands ∧ e.status = .open ∧
    now ≠ zeroTime ∧ micros now < e.details.acceptanceDeadline := by
  simp [Tables.openAt]

theorem Recorded.placed (hs : Recorded s) {e : Errand} (he : e ∈ s.openAt now) :
    Placed now (openPlace e) := by
  obtain ⟨he, -, -, hdeadline⟩ := mem_openAt.mp he
  exact ⟨hdeadline, (hs.lived e he).micros_acceptanceDeadline, (hs.lived e he).regular.2.1⟩

theorem openPlaces_nodup (hs : Recorded s) : ((s.openAt now).map openPlace).Nodup := by
  refine List.Nodup.of_map (fun place => (ofLex place).2) ?_
  rw [List.map_map]
  exact hs.keyed.unique.sublist (List.filter_sublist.map _)

/-- A cursor of an earlier page starts the page at its place. -/
theorem openStart_cursorOf (hnow : zeroTime ≤ now) {p : Option (ℤ ×ₗ String)}
    (hp : ∀ place, p = some place → Placed now place) :
    openStart (p.map cursorOf) = .ok p := by
  cases p with
  | none => rfl
  | some place =>
    obtain ⟨hdeadline, hmicros, hid⟩ := hp place rfl
    have hnonzero : (ofLex place).1 ≠ zeroTime := by
      simp only [Orders.micros, zeroTime] at hdeadline hnow ⊢
      omega
    simp only [Option.map_some, openStart, cursorOf]
    rw [parseUUID_eq_ok.mpr hid]
    change Except.ok (if _ then none else some (toLex (Orders.micros (ofLex place).1, _))) = _
    rw [if_neg hnonzero, hmicros]
    rfl

theorem listOpen_eq (s : Tables) (hnow : zeroTime ≤ now) {p : Option (ℤ ×ₗ String)}
    (hp : ∀ place, p = some place → Placed now place) :
    s.listOpen { now := now, after := p.map cursorOf, limit := maxListLimit } =
      .ok (cut (fun e => cursorOf (openPlace e)) maxListLimit
        (rest openPlace p (s.openAt now))) := by
  have hall : ((s.openAt now).filter fun e => (none : Option String).all fun id =>
      e.details.supplierID = id) = s.openAt now :=
    List.filter_eq_self.mpr fun _ _ => rfl
  have hpage : s.openPage { now := now, after := p.map cursorOf, limit := maxListLimit } none =
      .ok (cut (fun e => cursorOf (openPlace e)) maxListLimit
        (rest openPlace p (s.openAt now))) := by
    rw [Tables.openPage, openStart_cursorOf hnow hp]
    change Except.ok (cut _ maxListLimit (List.take (maxListLimit + 1) _)) = _
    rw [cut_take, hall]
  exact hpage

theorem listOpen_shows (hs : Recorded s) (p : Option (ℤ ×ₗ String)) :
    Shows openPlace (· ∈ s.openAt now) (· ∈ s.openAt now) p
      (cut openPlace maxListLimit (rest openPlace p (s.openAt now))) :=
  cut_shows (by decide) (rest_increasing p (openPlaces_nodup hs)) (fun x hx => (mem_rest.mp hx).2)
    (fun x hx hlt => mem_rest.mpr ⟨hx, hlt⟩) fun x hx => (mem_rest.mp hx).1

theorem cut_cursorOf (limit : ℕ) (rows : List Errand) :
    Renders Eq cursorOf (cut openPlace limit rows)
      (cut (fun e => cursorOf (openPlace e)) limit rows) := by
  refine ⟨List.forall₂_same.mpr fun _ _ => rfl, ?_⟩
  simp only [cut]
  split
  · rw [Option.map_map]
    rfl
  · rfl

theorem Reads.serves (hreads : Reads σ replies) (hσ : Interleaved hash σ)
    (hnow : zeroTime ≤ now) :
    Serves openPlace (fun i e => e ∈ (σ i).openAt now) (fun i e => e ∈ (σ i).openAt now)
      (Placed now) Eq cursorOf (pageReply replies now) := by
  intro i p answer hp hanswer
  unfold pageReply at hanswer
  cases hreply : replies i (.listOpen now (p.map cursorOf)) with
  | error err =>
    rw [hreply] at hanswer
    cases hanswer
  | ok reply =>
    rw [hreply] at hanswer
    cases hanswer
    obtain ⟨page, hpage, rfl⟩ := hreads i now _ _ hreply
    obtain rfl := Except.ok.inj (hpage.symm.trans (listOpen_eq (σ i) hnow hp))
    have hshows := @listOpen_shows now _ (hσ.recorded i) p
    refine ⟨_, cut_cursorOf _ _, hshows, fun place hplace => ?_⟩
    obtain ⟨e, he, rfl⟩ := hshows.next_mem place hplace
    exact (hσ.recorded i).placed (hshows.sound e he)

end Distinct

/-! ## More open errands than a page holds -/

namespace Sample

/-- The details with a deadline an hour later. -/
def postponed : Details := { sampleErrand.details with acceptanceDeadline := 10800000000000 }

/-- An edit that gives an errand another hour. -/
theorem exists_postponed {s : Tables} {past : List Tables} (h : Passed (fun _ => 0) (s :: past))
    {e : Errand} (he : e ∈ s.errands) (hopened : Opened e) :
    ∃ s' e', Passed (fun _ => 0) (s' :: s :: past) ∧ e' ∈ s'.errands ∧ e'.id = e.id ∧
      e'.status = .open ∧ e'.details = postponed := by
  have hvalid : validateDetails postponed 0 (postponed.acceptanceDeadline ≠
      e.details.acceptanceDeadline) = .ok () := by
    rw [hopened.details]
    exact toOption_eq_some.mp (by decide)
  obtain ⟨t, ht, hversion, htarget, hchanged, hnone⟩ := next_edit hopened.status hopened.pendingEdit
    (by rw [hopened.requesterID]; decide) hvalid (by rw [hopened.details]; rfl)
  have hdetails : (t.applyTo e).details = postponed :=
    congrArg (fun d => Option.getD d e.details) hchanged
  have hsample : Stored sampleErrand := stored_sample rfl (by decide)
  have hstored : Stored (t.applyTo e) := by
    refine ⟨?_, ?_, ?_, ?_, ?_, ?_⟩
    · rw [hdetails]; exact hsample.supplierID
    · rw [hdetails]; exact hsample.supplierVersionID
    · rw [hdetails]; exact hsample.deliveryBuildingID
    · rw [hdetails]; exact hsample.reward
    · change t.newVersion ≤ _
      rw [hversion, hopened.version]
      decide
    · rw [hdetails]; exact hsample.snapshot
  obtain ⟨row, hrow, happlied⟩ := h.applied he ht
    (fun target htarget => by
      simp [editTargetSupplier, hchanged, hopened.details, postponed] at htarget)
    hstored hnone
  refine ⟨_, e.overwrite row, happlied, mem_updateRow_self he, hrow.id, hrow.status.trans htarget,
    ?_⟩
  change row.details = _
  rw [hrow.details, hdetails]
  rfl

/-- The tables before and after the first page. -/
def tablesAt (s s' : Tables) (k : ℕ) : Tables := if k = 0 then s else s'

/-- A store that reads the tables, and a supplier service that knows every version. -/
def openReplies (s s' : Tables) (k : ℕ) : (q : Call) → q.Reply
  | .listOpen now after =>
    ((tablesAt s s' k).listOpen { now := now, after := after, limit := maxListLimit }).map
      fun page => (page.items, page.next)
  | .getVersion _ => .ok {}
  | .get _ | .apply _ | .courierHistory _ _ _ | .settings | .recordRejection _ =>
    .error (.internal "")
  | .cached => none
  | .cache _ => ()

theorem reads_openReplies (s s' : Tables) : Reads (tablesAt s s') (openReplies s s') := by
  intro k now after answer h
  simp only [openReplies] at h
  cases hpage : (tablesAt s s' k).listOpen
      { now := now, after := after, limit := maxListLimit } with
  | error err =>
    rw [hpage] at h
    cases h
  | ok page =>
    rw [hpage] at h
    cases h
    exact ⟨page, rfl, rfl⟩

theorem interleaved_tablesAt {s s' : Tables} {past : List Tables}
    (h : Passed (fun _ => 0) (s :: past)) (h' : Passed (fun _ => 0) (s' :: s :: past)) :
    Interleaved (fun _ => 0) (tablesAt s s') := by
  refine ⟨fun k => if k = 0 then past else s :: past, fun k => ?_, fun k => ?_⟩
  · cases k with
    | zero => exact h
    | succ k => exact h'
  · cases k with
    | zero => exact List.suffix_cons _ _
    | succ k => exact List.suffix_rfl

theorem pageReply_openReplies (s s' : Tables) (now : ℤ) (k : ℕ) (p : Option OpenCursor) :
    pageReply (openReplies s s') now k p =
      (tablesAt s s' k).listOpen { now := now, after := p, limit := maxListLimit } := by
  simp only [pageReply, openReplies]
  cases (tablesAt s s' k).listOpen { now := now, after := p, limit := maxListLimit } <;> rfl

theorem accepts_openReplies (s s' : Tables) :
    Accepts (Placed 0) cursorOf (pageReply (openReplies s s') 0) := by
  intro k p hp
  rw [pageReply_openReplies]
  exact ⟨_, listOpen_eq (tablesAt s s' k) (by decide) hp⟩

/-- The tables with 501 open errands, more than a page holds. -/
theorem exists_two_pages : ∃ s past, Passed (fun _ => 0) (s :: past) ∧
    (∀ e ∈ s.openAt 0, e ∈ s.errands ∧ Opened e) ∧
    (rest openPlace none (s.openAt 0)).length = 501 := by
  obtain ⟨s, past, hpassed, -, hids, hopened⟩ := exists_open (n := 501) (by decide)
  have hall : s.openAt 0 = s.errands := by
    refine List.filter_eq_self.mpr fun e he => decide_eq_true ?_
    rw [(hopened e he).status, (hopened e he).details]
    decide
  have hcount : s.errands.length = 501 := by
    rw [← List.length_map Errand.id, hids]
    simp
  refine ⟨s, past, hpassed, fun e he => ?_, ?_⟩
  · rw [hall] at he
    exact ⟨he, hopened e he⟩
  · rw [rest, List.length_insertionSort, List.filter_eq_self.mpr fun _ _ =>
      decide_eq_true (after_none _), hall, hcount]

/-- What a load returns when the supplier service knows every version. -/
theorem load_views {s s' : Tables} {fuel : ℕ} {pages : List (Page Errand OpenCursor)}
    (h : follow (pageReply (openReplies s s') 0) fuel 0 none = some (.ok pages)) :
    ∃ views, ((Browse.load (fun _ => "") 0 fuel).answered (openReplies s s') 0).1 = .ok views ∧
      views.map OpenErrandView.errandID = (rowsOf pages).map Errand.id := by
  have hload := @loadErrands_answered (openReplies s s') 0 fuel 0 none
  rw [h] at hload
  obtain ⟨views, hviews, hshown⟩ := @openViews_known (openReplies s s') (fun _ => "")
    (fun _ _ => ⟨{}, rfl⟩) [] (fun _ h => by cases h) (rowsOf pages)
    ((Browse.loadErrands 0 fuel none).answered (openReplies s s') 0).2
  exact ⟨views, Program.answered_bind_ok.mpr ⟨_, _, Prod.ext hload rfl, hviews⟩, hshown⟩

section Twice

variable {s s' : Tables} {past : List Tables} {e e' : Errand}

/-- The first of two pages. -/
theorem first_page (hlength : (rest openPlace none (s.openAt 0)).length = 501)
    (hlast : (rest openPlace none (s.openAt 0))[499]? = some e) :
    pageReply (openReplies s s') 0 0 none =
      .ok ⟨(rest openPlace none (s.openAt 0)).take 500, some (cursorOf (openPlace e))⟩ := by
  have hpage := @listOpen_eq 0 s (by decide) none fun _ h => by cases h
  have hcut : cut (fun e => cursorOf (openPlace e)) maxListLimit
      (rest openPlace none (s.openAt 0)) =
        ⟨(rest openPlace none (s.openAt 0)).take 500, some (cursorOf (openPlace e))⟩ := by
    rw [cut, if_pos (by rw [hlength]; decide)]
    change Page.mk _ (Option.map _ ((rest openPlace none (s.openAt 0))[499]?)) = _
    rw [hlast]
    rfl
  rw [hcut] at hpage
  rw [pageReply_openReplies]
  exact hpage

/-- The pages after an open errand show it again with its later deadline. -/
theorem shown_again (hpassed : Passed (fun _ => 0) (s :: past))
    (hpassed' : Passed (fun _ => 0) (s' :: s :: past)) (he : e ∈ s.openAt 0) (hopen : Opened e)
    (he' : e' ∈ s'.errands) (hstatus : e'.status = .open) (hdetails : e'.details = postponed) :
    ∃ fuel answers, follow (pageReply (openReplies s s') 0) fuel 1 (some (cursorOf (openPlace e))) =
        some (.ok answers) ∧ e' ∈ rowsOf answers := by
  have hσ := interleaved_tablesAt hpassed hpassed'
  have hserves := (reads_openReplies s s').serves hσ (by decide : zeroTime ≤ 0)
  have hplaced : ∀ q, some (openPlace e) = some q → Placed 0 q := by
    rintro q hq
    cases hq
    exact (hσ.recorded 0).placed he
  have hpool : ∀ i x, x ∈ (tablesAt s s' i).openAt 0 →
      openPlace x ∈ (s.openAt 0 ++ s'.openAt 0).map openPlace := by
    intro i x hx
    refine List.mem_map_of_mem (List.mem_append.mpr ?_)
    cases i with
    | zero => exact .inl hx
    | succ i => exact .inr hx
  obtain ⟨result, hresult⟩ := hserves.ends hpool (i := 1) hplaced (Nat.lt_succ_self _)
  obtain ⟨answers, rfl⟩ := hserves.succeeds (accepts_openReplies s s') hplaced hresult
  obtain ⟨pages, hrenders, hscan⟩ := hserves.scan hplaced hresult
  refine ⟨_, answers, hresult, ?_⟩
  have hrows := rowsOf_renders hrenders
  rw [List.forall₂_eq_eq_eq] at hrows
  rw [← hrows]
  refine hscan.covers (after_some.mpr (Prod.Lex.lt_iff.mpr (.inl ?_))) fun i hi _ => ?_
  · change e.details.acceptanceDeadline < e'.details.acceptanceDeadline
    rw [hopen.details, hdetails]
    decide
  · obtain ⟨i, rfl⟩ := Nat.exists_eq_add_of_le' hi
    refine mem_openAt.mpr ⟨he', hstatus, by decide, ?_⟩
    rw [hdetails]
    decide

end Twice

end Sample

end FocServices.Orders
