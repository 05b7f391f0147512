import FocServices.Orders.Passages
import FocServices.Orders.Queries
import FocServices.Orders.Routes
import FocServices.Paging.Keyset
import Mathlib.Data.Prod.Lex
import Mathlib.Data.String.Basic
import Mathlib.Order.OrderDual

/-!
# The errand lists of a user

`GET /me/errands/requested`, `delivering` and `history` page through the errands of their
caller, newest first, while jobs change the errands. A cursor names the list that issued it.
Terminal errands keep their place in the history, so that its pages fit together.
-/

namespace FocServices.Orders

open Paging Txn

def maxListLimit : ℕ := 500

def checkLimit (limit : ℕ) : Except StoreError Unit :=
  if limit < 1 ∨ maxListLimit < limit then
    .error (appErr .invalidArgument "limit must be between 1 and 500")
  else .ok ()

/-- `errand.HistoryRole`. -/
inductive HistoryRole where
  | any
  | requester
  | courier
  deriving DecidableEq, Repr

/-- `errand.UserListCursor`: the time and the identifier of an errand in a list. -/
@[ext] structure UserListCursor where
  time : ℤ
  id : String
  deriving DecidableEq, Repr

namespace UserListCursor

def key (c : UserListCursor) : (ℤ ×ₗ String)ᵒᵈ := OrderDual.toDual (toLex (c.time, c.id))

theorem key_injective : Function.Injective key := by
  intro a b h
  simp only [key, EmbeddingLike.apply_eq_iff_eq, Prod.mk.injEq] at h
  exact UserListCursor.ext h.1 h.2

/-- The lists are ordered newest first. -/
instance : LinearOrder UserListCursor := LinearOrder.lift' key key_injective

end UserListCursor

/-- `errand.UserListQuery`. -/
structure UserListQuery where
  userID : String
  role : HistoryRole
  after : Option UserListCursor
  limit : ℕ

/-- The place of an errand in a list that is ordered by one of its times. -/
def placeBy (time : Errand → ℤ) (e : Errand) : UserListCursor := ⟨time e, e.id⟩

/-- The place that a page starts after, as arguments of the query. -/
def startOf : Option UserListCursor → Except StoreError (Option UserListCursor)
  | none => .ok none
  | some c => do
    let id ← parseUUID "cursor" c.id
    return some ⟨micros c.time, id⟩

/-- `listUser`: one page of the rows that the list's query selects. -/
def listUser (time : Errand → ℤ) (selected : List Errand) (q : UserListQuery) :
    Except StoreError (Page Errand UserListCursor) := do
  checkLimit q.limit
  let after ← startOf q.after
  let rows := (rest (placeBy time) after selected).take (q.limit + 1)
  return cut (placeBy time) q.limit rows

namespace Tables

/-- A user is the courier of an errand; the column is `NULL` while there is none. -/
def courierIs (user : String) (e : Errand) : Bool := e.courierID ≠ "" && e.courierID == user

def listRequested (s : Tables) (q : UserListQuery) :
    Except StoreError (Page Errand UserListCursor) :=
  listUser (·.createdAt) (s.errands.filter fun e => e.requesterID = q.userID ∧ e.status.active) q

def listDelivering (s : Tables) (q : UserListQuery) :
    Except StoreError (Page Errand UserListCursor) :=
  listUser (·.updatedAt) (s.errands.filter fun e => courierIs q.userID e ∧ e.status.active) q

/-- All that the history of a user holds in a role. -/
def history (s : Tables) (role : HistoryRole) (user : String) : List Errand :=
  s.errands.filter fun e =>
    (role = .any ∧ (e.requesterID = user ∨ courierIs user e) ∨
      role = .requester ∧ e.requesterID = user ∨ role = .courier ∧ courierIs user e) ∧
      e.status.terminal

def listHistory (s : Tables) (q : UserListQuery) :
    Except StoreError (Page Errand UserListCursor) :=
  listUser (·.updatedAt) (s.history q.role q.userID) q

end Tables

/-- `mine.cursor`. -/
structure MineCursor where
  list : String
  time : ℤ
  id : String

/-- `mine.list`: one of the caller's lists. -/
structure UserList where
  name : String
  role : HistoryRole := .any
  load : Tables → UserListQuery → Except StoreError (Page Errand UserListCursor)
  view : Errand → String → Pickups → View

section Lists

variable (buildingName : RawMessage → String)

def requestedList : UserList where
  name := "requested"
  load := Tables.listRequested
  view e _ pickups := .requester (requesterView buildingName e pickups)

def deliveringList : UserList where
  name := "delivering"
  load := Tables.listDelivering
  view e _ pickups := .courier (courierView buildingName e pickups)

def historyList : UserList where
  name := "history"
  load := Tables.listHistory
  view e caller pickups :=
    if e.requesterID = caller then .requester (requesterView buildingName e pickups)
    else .courier (courierView buildingName e pickups)

def requesterHistoryList : UserList where
  name := "history:REQUESTER"
  role := .requester
  load := Tables.listHistory
  view := (requestedList buildingName).view

def courierHistoryList : UserList where
  name := "history:COURIER"
  role := .courier
  load := Tables.listHistory
  view := (deliveringList buildingName).view

/-- The names of the five lists. -/
def listNames : List String :=
  ["requested", "delivering", "history", "history:REQUESTER", "history:COURIER"]

end Lists

def parseRole (values : Values) : Except StoreError HistoryRole :=
  match values.lookup "role" with
  | none => .ok .any
  | some "REQUESTER" => .ok .requester
  | some "COURIER" => .ok .courier
  | some _ => .error (invalidArgument "role must be REQUESTER or COURIER")

/-- `LoadPickups` for the errands of a page. -/
def loadPickupsOf : List Errand → Pickups → Handler Pickups
  | [], pickups => return pickups
  | e :: es, pickups => do
    let pickups ← loadVersions e.id (e.details.supplierVersionID ::
      (e.pendingEdit.map fun p => p.details.supplierVersionID).toList) pickups
    loadPickupsOf es pickups

/-- The text of the cursors of the lists. -/
abbrev MineCursors := CursorText MineCursor fun c =>
  c.list ∈ listNames ∧ JSONTime c.time ∧ uuidPattern c.id = true

section Requests

variable (F : MineCursors) (buildingName : RawMessage → String)

namespace MineCursors

/-- A time without JSON text leaves nothing to encode. -/
def encodeCursor (name : String) (after : UserListCursor) : String :=
  if JSONTime after.time then F.encode ⟨name, after.time, after.id⟩ else ""

def decodeCursor (s name : String) : Option UserListCursor :=
  if s = "" ∨ maxCursorLength < s.utf8ByteSize then none
  else
    match F.decode s with
    | none => none
    | some c =>
      if c.list ≠ name ∨ c.time = zeroTime ∨ uuidPattern c.id = false then none
      else some ⟨c.time, toLower c.id⟩

/-- `parseQuery`: the limit, and where the page starts. -/
def parseQuery (values : Values) (name : String) :
    Except StoreError (ℕ × Option UserListCursor) := do
  let limit ← parseLimit values
  match values.lookup "cursor" with
  | none => return (limit, none)
  | some text =>
    match F.decodeCursor text name with
    | none => throw (invalidArgument "cursor is invalid or was issued for another list")
    | some after => return (limit, some after)

/-- What the handler answers with the page that it has read. -/
def respond (l : UserList) (caller : String) (p : Page Errand UserListCursor) :
    Handler (Page View String) := do
  let pickups ← loadPickupsOf p.items []
  return {
    items := p.items.map fun e => l.view e caller pickups
    -- an empty cursor is left out
    next := (p.next.map (F.encodeCursor l.name)).filter (· ≠ "") }

/-- `Handler.list`. The store is read once; `replies` is what the supplier service answers
then. -/
def list (l : UserList) (caller : String) (values : Values) (s : Tables)
    (replies : ℕ → (q : Call) → q.Reply) : Except StoreError (Page View String) := do
  callerOf caller
  let (limit, after) ← F.parseQuery values l.name
  let p ← l.load s ⟨caller, l.role, after, limit⟩
  ((F.respond l caller p).answered replies 0).1

/-- The list that pages through the history in a role. -/
def historyOf : HistoryRole → UserList
  | .requester => requesterHistoryList buildingName
  | .courier => courierHistoryList buildingName
  | .any => historyList buildingName

/-- `Handler.history`. -/
def history (caller : String) (values : Values) (s : Tables)
    (replies : ℕ → (q : Call) → q.Reply) : Except StoreError (Page View String) := do
  let role ← parseRole values
  F.list (historyOf buildingName role) caller values s replies

/-- Request `i` of a client that sends `values` with the cursor it was given. -/
def ask (caller : String) (values : Values) (s : ℕ → Tables)
    (replies : ℕ → ℕ → (q : Call) → q.Reply) (i : ℕ) (cursor : Option String) :
    Except StoreError (Page View String) :=
  F.history buildingName caller (match cursor with
    | none => values
    | some c => ("cursor", c) :: values) (s i) (replies i)

end MineCursors

end Requests

/-! ## Cursors -/

/-- A place that a cursor can carry. -/
structure UserListCursor.Ready (c : UserListCursor) : Prop where
  json : JSONTime c.time
  nonzero : c.time ≠ zeroTime
  exact : micros c.time = c.time
  canonical : Canonical c.id

section Cursors

variable {F : MineCursors} {c : UserListCursor} {name : String}

theorem encodeCursor_ne (hc : c.Ready) (hname : name ∈ listNames) :
    F.encodeCursor name c ≠ "" := by
  rw [MineCursors.encodeCursor, if_pos hc.json]
  exact (F.encode_fits ⟨name, c.time, c.id⟩
    ⟨hname, hc.json, (uuidPattern_of_canonical hc.canonical).1⟩).1

/-- A cursor is accepted by the list that issued it, and by no other. -/
theorem decodeCursor_issued (hc : c.Ready) (hname : name ∈ listNames) (name' : String) :
    F.decodeCursor (F.encodeCursor name c) name' = if name' = name then some c else none := by
  obtain ⟨hpattern, hlower⟩ := uuidPattern_of_canonical hc.canonical
  have hlegal : name ∈ listNames ∧ JSONTime c.time ∧ uuidPattern c.id = true :=
    ⟨hname, hc.json, hpattern⟩
  obtain ⟨hne, hsize⟩ := F.encode_fits ⟨name, c.time, c.id⟩ hlegal
  have hdecode := F.decode_encode ⟨name, c.time, c.id⟩ hlegal
  rw [MineCursors.encodeCursor, if_pos hc.json, MineCursors.decodeCursor,
    if_neg (not_or.mpr ⟨hne, Nat.not_lt.mpr hsize⟩), hdecode]
  by_cases hsame : name' = name
  · subst hsame
    simp only [ne_eq, not_true_eq_false, hc.nonzero, hpattern, hlower, if_true]
    rfl
  · rw [if_neg hsame]
    simp only
    rw [if_pos (Or.inl (Ne.symm hsame))]

end Cursors

/-! ## One page -/

section Pages

variable {F : MineCursors} {buildingName : RawMessage → String}

/-- A page of a list shows the selected errands after its start. -/
theorem listUser_shows {time : Errand → ℤ} {selected : List Errand}
    (hids : (selected.map Errand.id).Nodup) {q : UserListQuery} (hpos : 0 < q.limit)
    (hmax : q.limit ≤ maxListLimit) (hafter : ∀ c, q.after = some c → c.Ready) :
    ∃ page, listUser time selected q = .ok page ∧
      Shows (placeBy time) (· ∈ selected) (· ∈ selected) q.after page := by
  have hkeys : (selected.map (placeBy time)).Nodup := by
    refine List.pairwise_map.mpr ((List.pairwise_map.mp hids).imp fun hne heq => hne ?_)
    exact congrArg UserListCursor.id heq
  refine ⟨cut (placeBy time) q.limit (rest (placeBy time) q.after selected), ?_, ?_⟩
  · unfold listUser
    refine bind_eq_ok.mpr ⟨(), ?_, bind_eq_ok.mpr ⟨q.after, ?_, ?_⟩⟩
    · rw [checkLimit, if_neg (by omega)]
    · cases hsome : q.after with
      | none => rfl
      | some c =>
        have hready := hafter c hsome
        refine bind_eq_ok.mpr ⟨c.id, ?_, ?_⟩
        · rw [parseUUID, (hready.canonical : scanUUID c.id = some c.id)]
        · rw [hready.exact]
          rfl
    · change Except.ok (cut (placeBy time) q.limit
        ((rest (placeBy time) q.after selected).take (q.limit + 1))) = _
      rw [cut_take]
  · exact cut_shows hpos (rest_increasing q.after hkeys) (fun e he => (mem_rest.mp he).2)
      (fun e he hp => mem_rest.mpr ⟨he, hp⟩) (fun e he => (mem_rest.mp he).1)

/-- What an answer is made of. -/
theorem respond_ok {l : UserList} {caller : String} {p : Page Errand UserListCursor}
    {replies : ℕ → (q : Call) → q.Reply} {answer : Page View String}
    (h : ((F.respond l caller p).answered replies 0).1 = .ok answer) :
    ∃ pickups, answer.items = p.items.map (fun e => l.view e caller pickups) ∧
      answer.next = (p.next.map (F.encodeCursor l.name)).filter (· ≠ "") := by
  obtain ⟨pickups, k, -, h⟩ := Program.answered_bind_ok.mp h
  cases h
  exact ⟨pickups, rfl, rfl⟩

/-- The versions are loaded if the supplier service gives them. -/
theorem loadVersions_answered {replies : ℕ → (q : Call) → q.Reply}
    (hgate : ∀ k id, ∃ version, replies k (.getVersion id) = .ok version) (errandID : String)
    (ids : List String) (pickups : Pickups) (k : ℕ) :
    ∃ loaded l, (loadVersions errandID ids pickups).answered replies k = (.ok loaded, l) := by
  induction ids generalizing pickups k with
  | nil => exact ⟨pickups, k, rfl⟩
  | cons id ids ih =>
    unfold loadVersions
    split
    · exact ih pickups k
    · obtain ⟨version, hversion⟩ := hgate k id
      obtain ⟨loaded, l, hloaded⟩ := ih ((id, version) :: pickups) (k + 1)
      refine ⟨loaded, l, ?_⟩
      change Program.answered replies (Program.stmt (.getVersion id) _) k = _
      unfold Program.answered
      rw [hversion]
      exact hloaded

theorem loadPickupsOf_answered {replies : ℕ → (q : Call) → q.Reply}
    (hgate : ∀ k id, ∃ version, replies k (.getVersion id) = .ok version) (es : List Errand)
    (pickups : Pickups) (k : ℕ) :
    ∃ loaded l, (loadPickupsOf es pickups).answered replies k = (.ok loaded, l) := by
  induction es generalizing pickups k with
  | nil => exact ⟨pickups, k, rfl⟩
  | cons e es ih =>
    unfold loadPickupsOf
    obtain ⟨loaded, l, hloaded⟩ := loadVersions_answered hgate e.id _ pickups k
    obtain ⟨loaded', l', hloaded'⟩ := ih loaded l
    refine ⟨loaded', l', ?_⟩
    rw [Program.answered_bind, hloaded]
    exact hloaded'

end Pages

/-! ## Histories -/

/-- A user requested an errand or delivers it, never both. -/
theorem Recorded.history_roles {s : Tables} (hs : Recorded s) (user : String) :
    (∀ e, e ∈ s.history .any user ↔ e ∈ s.history .requester user ∨ e ∈ s.history .courier user) ∧
      ∀ e, ¬ (e ∈ s.history .requester user ∧ e ∈ s.history .courier user) := by
  refine ⟨fun e => ?_, ?_⟩
  · simp [Tables.history]
    tauto
  · rintro e ⟨hrequester, hcourier⟩
    simp only [Tables.history, List.mem_filter, reduceCtorEq, false_and, true_and, false_or,
      or_false, decide_eq_true_eq, Tables.courierIs, Bool.and_eq_true, beq_iff_eq] at hrequester hcourier
    obtain ⟨he, hown, -⟩ := hrequester
    obtain ⟨-, ⟨hsome, hdelivers⟩, -⟩ := hcourier
    have hwell := ((hs.lived e he).regular.1).courier
    split at hwell
    · exact hwell.2.1 (hdelivers.trans hown.symm)
    · exact hsome hwell.1

section Following

variable {F : MineCursors} {buildingName : RawMessage → String} {hash : String → ℤ}
  {s : ℕ → Tables} {caller : String} {values : Values} {role : HistoryRole} {limit : ℕ}
  {replies : ℕ → ℕ → (q : Call) → q.Reply}

theorem history_subset (s : Tables) (role : HistoryRole) (user : String) :
    s.history role user ⊆ s.errands := fun _ he => (List.mem_filter.mp he).1

theorem terminal_of_history {s : Tables} {e : Errand} (he : e ∈ s.history role caller) :
    e.status.terminal = true := by
  have := (List.mem_filter.mp he).2
  simp only [decide_eq_true_eq] at this
  exact this.2

/-- What is in the history stays there. -/
theorem Interleaved.history (hs : Interleaved hash s) {i j : ℕ} (hij : i ≤ j) {e : Errand}
    (he : e ∈ (s i).history role caller) : e ∈ (s j).history role caller :=
  List.mem_filter.mpr ⟨hs.settled hij (history_subset _ _ _ he) (terminal_of_history he),
    (List.mem_filter.mp he).2⟩

/-- The times at which the errands of a history were settled can be carried by cursors. -/
def Datable (role : HistoryRole) (caller : String) (s : Tables) : Prop :=
  ∀ e ∈ s.history role caller, JSONTime e.updatedAt ∧ e.updatedAt ≠ zeroTime

theorem Recorded.ready {s : Tables} (hs : Recorded s) (htimes : Datable role caller s)
    {e : Errand} (he : e ∈ s.history role caller) : (placeBy (·.updatedAt) e).Ready := by
  have hlived := hs.lived e (history_subset _ _ _ he)
  exact ⟨(htimes e he).1, (htimes e he).2, hlived.micros_updatedAt, hlived.regular.2.1⟩

open MineCursors in
theorem historyOf_list (role : HistoryRole) : (historyOf buildingName role).role = role ∧
    (historyOf buildingName role).load = Tables.listHistory ∧
    (historyOf buildingName role).name ∈ listNames := by
  cases role <;> exact ⟨rfl, rfl, by simp [historyOf, listNames, historyList,
    requesterHistoryList, courierHistoryList]⟩

theorem parseQuery_issued (hlimit : parseLimit values = .ok limit)
    (hfirst : values.lookup "cursor" = none) {name : String} (hname : name ∈ listNames)
    {p : Option UserListCursor} (hp : ∀ c, p = some c → c.Ready) :
    F.parseQuery (match p.map (F.encodeCursor name) with
      | none => values
      | some c => ("cursor", c) :: values) name = .ok (limit, p) := by
  cases p with
  | none =>
    simp only [Option.map_none, MineCursors.parseQuery, hfirst]
    exact bind_eq_ok.mpr ⟨limit, hlimit, rfl⟩
  | some c =>
    have hsame : parseLimit (("cursor", F.encodeCursor name c) :: values) = .ok limit := by
      rw [← hlimit, parseLimit, parseLimit, List.lookup_cons, beq_false_of_ne (by decide)]
    simp only [Option.map_some, MineCursors.parseQuery]
    refine bind_eq_ok.mpr ⟨limit, hsame, ?_⟩
    rw [List.lookup_cons, beq_self_eq_true]
    simp only
    rw [decodeCursor_issued (hp c rfl) hname, if_pos rfl]
    rfl

/-- A request with a cursor of the history is answered with the page after its place. -/
theorem history_ask (hcaller : caller ≠ "") (hrole : parseRole values = .ok role)
    (hlimit : parseLimit values = .ok limit) (hfirst : values.lookup "cursor" = none) (i : ℕ)
    {p : Option UserListCursor} (hp : ∀ c, p = some c → c.Ready) :
    F.ask buildingName caller values s replies i
        (p.map (F.encodeCursor (MineCursors.historyOf buildingName role).name)) =
      ((s i).listHistory ⟨caller, role, p, limit⟩ >>= fun page =>
        ((F.respond (MineCursors.historyOf buildingName role) caller page).answered
          (replies i) 0).1) := by
  obtain ⟨hlistRole, hload, hname⟩ := @historyOf_list buildingName role
  have hsameRole : parseRole (match p.map (F.encodeCursor
      (MineCursors.historyOf buildingName role).name) with
      | none => values
      | some c => ("cursor", c) :: values) = .ok role := by
    cases p with
    | none => exact hrole
    | some c =>
      simp only [Option.map_some]
      rw [← hrole, parseRole, parseRole, List.lookup_cons, beq_false_of_ne (by decide)]
  unfold MineCursors.ask MineCursors.history
  rw [hsameRole]
  change F.list (MineCursors.historyOf buildingName role) caller _ (s i) (replies i) = _
  unfold MineCursors.list
  rw [parseQuery_issued hlimit hfirst hname hp, callerOf, if_neg hcaller, hlistRole, hload]
  rfl

/-- One page of a history. -/
theorem history_page (hs : Interleaved hash s) (hlimit : parseLimit values = .ok limit) (i : ℕ)
    {p : Option UserListCursor} (hp : ∀ c, p = some c → c.Ready) :
    ∃ page, (s i).listHistory ⟨caller, role, p, limit⟩ = .ok page ∧
      Shows (placeBy (·.updatedAt)) (· ∈ (s i).history role caller)
        (· ∈ (s i).history role caller) p page := by
  have hids : (((s i).history role caller).map Errand.id).Nodup :=
    (hs.recorded i).keyed.unique.sublist (List.filter_sublist.map Errand.id)
  obtain ⟨hpos, hmax⟩ := parseLimit_bounds hlimit
  exact @listUser_shows (·.updatedAt) _ hids ⟨caller, role, p, limit⟩ hpos
    (Nat.le_trans hmax (by decide)) hp

theorem history_serves (hs : Interleaved hash s) (hcaller : caller ≠ "")
    (hrole : parseRole values = .ok role) (hlimit : parseLimit values = .ok limit)
    (hfirst : values.lookup "cursor" = none) (htimes : ∀ i, Datable role caller (s i)) :
    Serves (placeBy (·.updatedAt)) (fun i e => e ∈ (s i).history role caller)
      (fun i e => e ∈ (s i).history role caller) UserListCursor.Ready
      (fun e v => ∃ pickups, v = (MineCursors.historyOf buildingName role).view e caller pickups)
      (F.encodeCursor (MineCursors.historyOf buildingName role).name)
      (F.ask buildingName caller values s replies) := by
  intro i p answer hp hanswer
  rw [history_ask hcaller hrole hlimit hfirst i hp] at hanswer
  obtain ⟨page, hpage, hshows⟩ := history_page hs hlimit i hp
  rw [hpage] at hanswer
  obtain ⟨pickups, hitems, hnext⟩ := respond_ok hanswer
  have hready : ∀ c, page.next = some c → c.Ready := by
    intro c hc
    obtain ⟨e, he, rfl⟩ := hshows.next_mem c hc
    exact (hs.recorded i).ready (htimes i) (hshows.sound e he)
  refine ⟨page, ⟨?_, ?_⟩, hshows, hready⟩
  · rw [hitems]
    exact List.forall₂_map_right_iff.mpr (List.forall₂_same.mpr fun _ _ => ⟨pickups, rfl⟩)
  · rw [hnext]
    cases hsome : page.next with
    | none => rfl
    | some c =>
      have hne := @encodeCursor_ne F c _ (hready c hsome) (@historyOf_list buildingName role).2.2
      simp [hne]

/-- What a client was shown of a history. -/
structure HistoryShown (buildingName : RawMessage → String) (s : ℕ → Tables)
    (role : HistoryRole) (caller : String) (answers : List (Page View String))
    (shown : List Errand) : Prop where
  views : List.Forall₂ (fun e v =>
    ∃ pickups, v = (MineCursors.historyOf buildingName role).view e caller pickups)
    shown (rowsOf answers)
  /-- No errand is shown twice. -/
  distinct : (shown.map Errand.id).Nodup
  /-- Every errand that was in the history before the first page is shown. -/
  complete : ∀ e ∈ (s 0).history role caller, e ∈ shown
  sound : ∀ e ∈ shown, ∃ i < answers.length, e ∈ (s i).history role caller

theorem Interleaved.historyShown (hs : Interleaved hash s) {pages : List (Page Errand UserListCursor)}
    {answers : List (Page View String)} {token : UserListCursor → String}
    (hrenders : List.Forall₂ (Renders (fun e v => ∃ pickups,
      v = (MineCursors.historyOf buildingName role).view e caller pickups) token) pages answers)
    (hscan : Scan (placeBy (·.updatedAt)) (fun i e => e ∈ (s i).history role caller)
      (fun i e => e ∈ (s i).history role caller) 0 none pages) :
    HistoryShown buildingName s role caller answers (rowsOf pages) := by
  refine ⟨rowsOf_renders hrenders, ?_, ?_, ?_⟩
  · refine List.pairwise_map.mpr (hscan.pairwise_of fun i j x y hij hx hy hlt hid => ?_)
    have hlater := hs.history hij hx
    obtain rfl : x = y := (hs.recorded j).keyed.unique.eq (history_subset _ _ _ hlater)
      (history_subset _ _ _ hy) hid
    exact absurd hlt (lt_irrefl _)
  · intro e he
    exact hscan.covers (after_none _) fun i _ _ => hs.history (Nat.zero_le i) he
  · intro e he
    obtain ⟨i, -, hi, hmay⟩ := hscan.sound e he
    exact ⟨i, by rw [← hrenders.length_eq]; omega, hmay⟩

end Following

/-! ## Samples -/

namespace Sample

/-- The mark of a list. -/
def markOfList (name : String) : Char := Char.ofNat (48 + listNames.idxOf name)

def mineCursors : MineCursors where
  encode c := stamp (markOfList c.list) c.id c.time
  decode s := do
    let r ← readStamp s
    let name ← listNames.find? fun name => markOfList name = r.1
    return ⟨name, r.2.2, r.2.1⟩
  decode_encode c := by
    rintro ⟨hname, htime, hid⟩
    have hfind : ∀ name ∈ listNames,
        listNames.find? (fun name' => markOfList name' = markOfList name) = some name := by
      decide
    rw [readStamp_stamp htime hid]
    simp [hfind c.list hname]
  encode_fits c := by
    rintro ⟨hname, htime, hid⟩
    have hsize : ∀ name ∈ listNames, (markOfList name).utf8Size = 1 := by decide
    exact stamp_fits (hsize c.list hname) htime hid

/-- An errand that is rejected at once. -/
def rejection (id key : String) (t : ℤ) : List Deed :=
  [.submit id "auth0|requester" key
      { sampleErrand.details with acceptanceDeadline := t + 60 * minute } t,
    .act id .reservationRefused systemActor {} t]

/-- A supplier service that knows every version; nothing else is asked. -/
def replies (_ _ : ℕ) : (q : Call) → q.Reply
  | .getVersion _ => .ok {}
  | .get _ | .apply _ | .courierHistory _ _ _ | .settings | .recordRejection _
  | .listOpen _ _ => .error (.internal "")
  | .cached => none
  | .cache _ => ()

/-- The history is read on pages of one errand. -/
def pagesOf (s : Tables) (fuel : ℕ) : Option (Except StoreError (List (Page View String))) :=
  follow (mineCursors.ask (fun _ => "") "auth0|requester" [("limit", "1")] (fun _ => s) replies)
    fuel 0 none

def showsOne (s : Tables) : Bool :=
  (pagesOf s 1).any fun
    | .ok answers => (rowsOf answers).length = 1
    | .error _ => false

theorem reads_rejection :
    ((tell (fun _ => 0) (rejection "00000000-0000-4000-8000-000000000001" "first" 0)
      [{}]).bind List.head?).any (fun s =>
        (s.history .any "auth0|requester").length = 1 && (s.history .any "auth0|requester").all
          (fun e => JSONTime e.updatedAt ∧ e.updatedAt ≠ zeroTime) && showsOne s) = true := by
  decide

theorem reads_late :
    ((tell (fun _ => 0)
      (rejection "00000000-0000-4000-8000-000000000001" "first" 253402300800000000000 ++
        rejection "00000000-0000-4000-8000-000000000002" "second" (253402300800000000000 + minute))
      [{}]).bind List.head?).any (fun s =>
        (s.history .any "auth0|requester").length = 2 && showsOne s) = true := by
  decide

theorem pagesOf_of_showsOne {s : Tables} (h : showsOne s = true) :
    ∃ answers, pagesOf s 1 = some (.ok answers) ∧ (rowsOf answers).length = 1 := by
  obtain ⟨result, hresult, hlength⟩ := (Option.any_eq_true _ _).mp h
  cases result with
  | ok answers => exact ⟨answers, hresult, of_decide_eq_true hlength⟩
  | error err => cases hlength

end Sample

end FocServices.Orders
