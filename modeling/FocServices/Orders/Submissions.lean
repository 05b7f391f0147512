import FocServices.Orders.Worlds

/-!
# Submitting an errand

Any number of requests to submit run interleaved with everything else. For each requester
and key at most one errand is ever stored, with the rows of one of the requests, and every
request is answered with it. Once the errand exists a request finds it by its derived
identifier and reads nothing else.
-/

namespace FocServices.Orders

open Txn Relation

/-- A task that creates an errand without a request. -/
def Task.CreatesDirectly : Task → Prop
  | .job (.create _ _) => True
  | _ => False

/-- Errands are created by requests only. -/
def PermitsRequests (w : Service) : Action Task → Prop
  | .start task => task.Starts anyTransition w.store ∧ ¬ task.CreatesDirectly
  | _ => True

theorem permitsRequests_of_startsFree (w : Service) (a : Action Task) (h : startsFree a = true) :
    PermitsRequests w a := by
  cases a with
  | start task =>
    refine ⟨starts_of_startsFree h, fun hdirect => ?_⟩
    cases task with
    | job job =>
      cases job with
      | create => cases h
      | _ => exact hdirect
    | _ => exact hdirect
  | _ => trivial

/-- The creation rows of an errand in the log. -/
def Tables.creations (s : Tables) (id : String) : List TransitionRow :=
  s.transitions.filter fun r => r.errandID = id ∧ r.event = .submit

/-- The reserve commands of an errand in the outbox. -/
def Tables.reserves (s : Tables) (id : String) : List OutboxRow :=
  s.outbox.filter fun r => r.errandID = id ∧ r.kind = .creditReserve

/-- The request of the thread created the errand: the stored rows are those of its
transition. -/
structure CreatedBy (sha1 : List UInt8 → Fin 20 → UInt8) (w : Service) (e : Errand) (u : ℕ) :
    Prop where
  derived : e.id = errandID sha1 e.requesterID e.createIdempotencyKey
  request : ∃ details now t row log,
    w.threads u = .committed (.submit e.requesterID e.createIdempotencyKey (.ok details) now)
      (.submitted row true) log ∧
    next (submitted e.id e.requesterID e.createIdempotencyKey details) .submit
      ⟨.requester, e.requesterID⟩ {} now = .ok t ∧
    w.store.creations e.id =
      [transitionRow e.id (submitted e.id e.requesterID e.createIdempotencyKey details) row t] ∧
    w.store.reserves e.id =
      [creditRow (submitted e.id e.requesterID e.createIdempotencyKey details) t .creditReserve
        "reserve" 0 { amount := details.reward }]

/-! ## Rows of an errand -/

section Rows

variable {hash : String → ℤ} {ok : Tables → Errand → Transition → Prop}
  {locks : List (Lock × Mode)} {s s' : Tables}

/-- Creation rows and reserve commands belong to stored errands. -/
structure Owned (s : Tables) : Prop where
  transitions : ∀ r ∈ s.transitions, ∃ e ∈ s.errands, e.id = r.errandID
  reserves : ∀ r ∈ s.outbox, r.kind = .creditReserve → ∃ e ∈ s.errands, e.id = r.errandID

theorem owned_empty : Owned {} := ⟨by simp, by simp⟩

theorem Move.not_reserve {e : Errand} {input : EventInput} {t : Transition} (hm : Move e input t)
    (hevent : t.event ≠ .submit) : ∀ r ∈ t.outbox, r.kind ≠ .creditReserve := by
  have hnames : ∀ names : List EventName, ∀ r ∈ names.map (eventRow e (t.applyTo e) t),
      r.kind ≠ .creditReserve := by
    intro names r hr
    obtain ⟨name, -, rfl⟩ := List.mem_map.mp hr
    nofun
  cases hm with
  | submit _ _ h => exact absurd h hevent
  | «open» _ _ hy | refuse _ _ hy | edit _ _ _ _ _ _ hy | confirmEdit _ _ _ _ _ hy
  | reopen _ _ hy | proceed _ _ hy =>
    rw [hy.outbox]
    exact hnames _
  | fail _ _ hy | withdraw _ _ _ hy | expire _ _ hy | refund _ _ hy | requestEdit _ _ _ _ _ _ _ hy
  | complete _ hy =>
    rw [hy.outbox, List.forall_mem_append]
    exact ⟨by simp [releaseRow, creditRow], hnames _⟩
  | refuseEdit _ _ _ _ _ hy | accept _ _ _ _ hy =>
    rw [hy.outbox, List.forall_mem_append]
    refine ⟨?_, hnames _⟩
    split <;> simp [revertRow, creditRow]

/-- The rows that a change appends are those of a new errand, or there are no creation
rows and no reserve commands among them. -/
theorem Change.rows (hs : Sane s) (h : Change hash ok locks s s') :
    (∃ e row t, (∀ e' ∈ s.errands, e'.id ≠ e.id) ∧ row ∈ s'.errands ∧ row.id = e.id ∧
      s'.transitions = s.transitions ++ [transitionRow e.id e row t] ∧
      s'.outbox = s.outbox ++ t.outbox ∧ ∀ r ∈ t.outbox, r.errandID = e.id) ∨
    ∃ rows sent, s'.transitions = s.transitions ++ rows ∧ s'.outbox = s.outbox ++ sent ∧
      (∀ r ∈ rows, r.event ≠ .submit ∧ ∃ e ∈ s.errands, e.id = r.errandID) ∧
      ∀ r ∈ sent, r.kind ≠ .creditReserve := by
  have hsame : s'.transitions = s.transitions → s'.outbox = s.outbox → ∃ rows sent,
      s'.transitions = s.transitions ++ rows ∧ s'.outbox = s.outbox ++ sent ∧
      (∀ r ∈ rows, r.event ≠ .submit ∧ ∃ e ∈ s.errands, e.id = r.errandID) ∧
      ∀ r ∈ sent, r.kind ≠ .creditReserve :=
    fun htransitions houtbox => ⟨[], [], by simpa using htransitions, by simpa using houtbox,
      by simp, by simp⟩
  cases h with
  | create e actor input now t row hnext hid hok hrow hnew hkey herrand hcreate hsupplier hopen
      hkeys herrands htransitions houtbox hfences =>
    exact Or.inl ⟨e, row, t, hnew, herrands ▸ List.mem_append_right _ (List.mem_singleton_self _),
      (insertParams_ok hrow).id_eq hid, htransitions, houtbox, (next_move hnext).errandID_rows⟩
  | apply e ev actor input now t row hcur hnext hok hrow herrand hsupplier hkeys herrands
      htransitions houtbox hfences =>
    have hevent := event_ne_submit (hs.keyed.regular e hcur) ⟨ev, actor, input, now, hnext⟩
    refine Or.inr ⟨_, _, htransitions, houtbox, fun r hr => ?_, (next_move hnext).not_reserve hevent⟩
    obtain rfl := List.mem_singleton.mp hr
    exact ⟨hevent, e, hcur, rfl⟩
  | note row _ hkind _ _ _ htransitions houtbox =>
    refine Or.inr ⟨[], [row], by simpa using htransitions, houtbox, by simp, fun r hr => ?_⟩
    obtain rfl := List.mem_singleton.mp hr
    obtain ⟨name, hname⟩ := hkind
    rw [hname]
    nofun
  | fence _ _ _ _ _ _ _ htransitions houtbox | close _ _ _ _ _ _ htransitions houtbox
  | idle _ htransitions houtbox => exact Or.inr (hsame htransitions houtbox)

theorem Owned.change (hs : Sane s) (h : Change hash ok locks s s') (ho : Owned s) : Owned s' := by
  have hkept : ∀ id, (∃ e ∈ s.errands, e.id = id) → ∃ e ∈ s'.errands, e.id = id := by
    rintro id ⟨e, he, hid⟩
    obtain ⟨e', he', hsucceeds⟩ := h.succeeds hs he
    exact ⟨e', he', hsucceeds.id.trans hid⟩
  rcases h.rows hs with ⟨e, row, t, -, hrow, hid, htransitions, houtbox, hrows⟩ |
    ⟨rows, sent, htransitions, houtbox, hrows, hsent⟩
  · refine ⟨?_, ?_⟩
    · rw [htransitions, List.forall_mem_append]
      refine ⟨fun r hr => hkept _ (ho.transitions r hr), fun r hr => ?_⟩
      obtain rfl := List.mem_singleton.mp hr
      exact ⟨row, hrow, hid⟩
    · rw [houtbox, List.forall_mem_append]
      exact ⟨fun r hr hkind => hkept _ (ho.reserves r hr hkind),
        fun r hr _ => ⟨row, hrow, hid.trans (hrows r hr).symm⟩⟩
  · refine ⟨?_, ?_⟩
    · rw [htransitions, List.forall_mem_append]
      exact ⟨fun r hr => hkept _ (ho.transitions r hr), fun r hr => hkept _ (hrows r hr).2⟩
    · rw [houtbox, List.forall_mem_append]
      exact ⟨fun r hr hkind => hkept _ (ho.reserves r hr hkind),
        fun r hr hkind => absurd hkind (hsent r hr)⟩

/-- The rows with which an errand that exists was created do not change. -/
theorem Change.creations (hs : Sane s) (h : Change hash ok locks s s') {e : Errand}
    (he : e ∈ s.errands) :
    s'.creations e.id = s.creations e.id ∧ s'.reserves e.id = s.reserves e.id := by
  unfold Tables.creations Tables.reserves
  rcases h.rows hs with ⟨e₁, row, t, hnew, -, -, htransitions, houtbox, hrows⟩ |
    ⟨rows, sent, htransitions, houtbox, hrows, hsent⟩
  · have hne : e₁.id ≠ e.id := (hnew e he).symm
    rw [htransitions, houtbox, List.filter_append, List.filter_append]
    refine ⟨?_, ?_⟩
    · rw [List.append_right_eq_self, List.filter_eq_nil_iff]
      intro r hr
      obtain rfl := List.mem_singleton.mp hr
      simp [transitionRow, hne]
    · rw [List.append_right_eq_self, List.filter_eq_nil_iff]
      intro r hr
      simp [hrows r hr, hne]
  · rw [htransitions, houtbox, List.filter_append, List.filter_append]
    refine ⟨?_, ?_⟩
    · rw [List.append_right_eq_self, List.filter_eq_nil_iff]
      intro r hr
      simp [(hrows r hr).1]
    · rw [List.append_right_eq_self, List.filter_eq_nil_iff]
      intro r hr
      simp [hsent r hr]

theorem Sane.creations (hs : Sane s) (h : Evolves (Commits hash ok) s s') {e : Errand}
    (he : e ∈ s.errands) :
    s'.creations e.id = s.creations e.id ∧ s'.reserves e.id = s.reserves e.id := by
  have hkept := hs.evolves (P := fun s' => (∃ e' ∈ s'.errands, e'.id = e.id) ∧
    s'.creations e.id = s.creations e.id ∧ s'.reserves e.id = s.reserves e.id) h ?_
    ⟨⟨e, he, rfl⟩, rfl, rfl⟩
  · exact hkept.2.2
  rintro s₁ s₂ locks hs₁ hchange ⟨⟨e₁, he₁, hid⟩, hcreations, hreserves⟩
  obtain ⟨e₂, he₂, hsucceeds⟩ := hchange.succeeds hs₁ he₁
  obtain ⟨hcreations', hreserves'⟩ := hchange.creations hs₁ he₁
  rw [hid] at hcreations' hreserves'
  exact ⟨⟨e₂, he₂, hsucceeds.id.trans hid⟩, hcreations'.trans hcreations,
    hreserves'.trans hreserves⟩

/-- The stored row is the errand that the request describes. -/
theorem Creates.row {id requesterID key : String} {details : Details} {row : Errand}
    {t : Transition} (hid : Canonical id)
    (h : Creates hash ok locks (submitted id requesterID key details) t row s s') :
    row ∈ s'.errands ∧ row.id = id ∧ row.requesterID = requesterID ∧
      row.createIdempotencyKey = key := by
  have hst := insertParams_ok h.stored
  have hkey := insertParams_createKey h.stored
  exact ⟨h.errands ▸ List.mem_append_right _ (List.mem_singleton_self _), hst.id_eq hid,
    hst.requesterID, hkey⟩

/-- A new errand has one creation row and one reserve command. -/
theorem Creates.creations {e row : Errand} {actor : Actor} {input : EventInput} {now : ℤ}
    {t : Transition} (ho : Owned s) (h : Creates hash ok locks e t row s s')
    (hnext : next e .submit actor input now = .ok t) :
    s'.creations e.id = [transitionRow e.id e row t] ∧
      s'.reserves e.id =
        [creditRow e t .creditReserve "reserve" 0 { amount := e.details.reward }] := by
  unfold Tables.creations Tables.reserves
  have hcreations : s.transitions.filter (fun r => r.errandID = e.id ∧ r.event = .submit) = [] := by
    rw [List.filter_eq_nil_iff]
    intro r hr hboth
    obtain ⟨e', he', hid⟩ := ho.transitions r hr
    exact h.newID e' he' (hid.trans (of_decide_eq_true hboth).1)
  have hreserves : s.outbox.filter (fun r => r.errandID = e.id ∧ r.kind = .creditReserve) = [] := by
    rw [List.filter_eq_nil_iff]
    intro r hr hboth
    obtain ⟨hid, hkind⟩ := of_decide_eq_true hboth
    obtain ⟨e', he', hid'⟩ := ho.reserves r hr hkind
    exact h.newID e' he' (hid'.trans hid)
  have hevent : t.event = .submit := (next_for hnext).event
  have hnone : e.status = .none := status_of_submit hnext
  rw [h.transitions, h.outbox, List.filter_append, List.filter_append, hcreations, hreserves]
  refine ⟨by simp [transitionRow, hevent], ?_⟩
  cases next_move hnext with
  | submit _ _ _ _ hyields =>
    rw [hyields.outbox]
    simp [creditRow, eventRow]
  | «open» hstatus | refuse hstatus | fail hstatus | edit _ hstatus | requestEdit _ hstatus
  | confirmEdit _ hstatus | refuseEdit _ hstatus | accept hstatus | withdraw _ hstatus
  | reopen hstatus | expire hstatus | proceed _ hstatus | complete hstatus | refund hstatus =>
    simp [hnone] at hstatus

/-- Transitions of existing errands bring no new requester and key. -/
theorem Commits.createKeys (h : Commits hash (later ok) locks s s') {e' : Errand}
    (he' : e' ∈ s'.errands) : ∃ e ∈ s.errands, e.requesterID = e'.requesterID ∧
      e.createIdempotencyKey = e'.createIdempotencyKey := by
  induction h generalizing e' with
  | refl => exact ⟨e', he', rfl, rfl⟩
  | @tail s₁ s₂ hpath hchange ih =>
    have hsame : s₂.errands = s₁.errands → ∃ e ∈ s.errands, e.requesterID = e'.requesterID ∧
        e.createIdempotencyKey = e'.createIdempotencyKey := fun herrands => ih (herrands ▸ he')
    cases hchange with
    | create e actor input now t row hnext hid hok =>
      exact absurd (next_for hnext).event hok.2
    | apply e ev actor input now t row hcur hnext hok hrow herrand hsupplier hkeys herrands =>
      rw [herrands] at he'
      obtain ⟨e₁, he₁, rfl⟩ := mem_updateRow.mp he'
      obtain ⟨e₀, he₀, hrequester, hkey⟩ := ih he₁
      refine ⟨e₀, he₀, ?_, ?_⟩
      · rw [hrequester]
        split <;> rfl
      · rw [hkey]
        split <;> rfl
    | note _ _ _ _ _ herrands | fence _ _ _ _ _ _ herrands | close _ _ _ _ _ herrands
    | idle herrands => exact hsame herrands

end Rows

/-! ## Requests -/

section Requests

variable {hash : String → ℤ} {sha1 : List UInt8 → Fin 20 → UInt8} {w w' : Service} {e : Errand}

/-- What a committed task of a run in which errands are created by requests has done. -/
def requestPost (hash : String → ℤ) (sha1 : List UInt8 → Fin 20 → UInt8) (task : Task)
    (log : Program.Log Stmt.Reply) (result : TaskResult) (s s' : Tables) : Prop :=
  task.Post hash (errandID sha1) anyTransition log result s s' ∧ ¬ task.CreatesDirectly

theorem requests_secure (w : Service) (task : Task) (s : Tables)
    (hw : Evolves (Commits hash anyTransition) {} w.store)
    (hstarts : PermitsRequests w (.start task))
    (hs : Evolves (Commits hash anyTransition) w.store s) :
    Secure hash anyTransition
      (Concludes (engine hash) (Commits hash anyTransition) (requestPost hash sha1 task))
      (task.body (errandID sha1)) {} s := by
  refine safe_mono (secure_task (admits_any (canonical_errandID sha1))
    (sane_empty.sane_evolves hw) hstarts.1 hs) ?_
  intro r tr s hr
  cases r with
  | ok result => exact ⟨hr.1, hr.2, hstarts.2⟩
  | error err => trivial

theorem owned_evolves {s : Tables} (h : Evolves (Commits hash anyTransition) {} s) : Owned s :=
  (sane_empty.evolves h (fun _ _ _ hs hchange ho => ho.change hs hchange) owned_empty).2

/-- Only a request that answers that it created an errand brings a new requester and key. -/
theorem created_of_post {task : Task} {log : Program.Log Stmt.Reply} {result : TaskResult}
    {s s' : Tables}
    (hpost : task.Post hash (errandID sha1) anyTransition log result s s')
    (hdirect : ¬ task.CreatesDirectly)
    (hnot : ∀ e' ∈ s.errands, ¬ (e'.requesterID = e.requesterID ∧
      e'.createIdempotencyKey = e.createIdempotencyKey))
    (hthen : ∃ e' ∈ s'.errands, e'.requesterID = e.requesterID ∧
      e'.createIdempotencyKey = e.createIdempotencyKey) :
    ∃ details now t row locks,
      task = .submit e.requesterID e.createIdempotencyKey (.ok details) now ∧
      result = .submitted row true ∧
      next (submitted (errandID sha1 e.requesterID e.createIdempotencyKey) e.requesterID
        e.createIdempotencyKey details) .submit ⟨.requester, e.requesterID⟩ {} now = .ok t ∧
      Creates hash anyTransition locks (submitted (errandID sha1 e.requesterID
        e.createIdempotencyKey) e.requesterID e.createIdempotencyKey details) t row s s' := by
  obtain ⟨e', he', hrequester, hkey⟩ := hthen
  have hleaves : task.Leaves hash anyTransition log result s s' → False := by
    intro hleaves
    obtain ⟨locks, hcommits⟩ := hleaves.commits
    obtain ⟨e₀, he₀, hrequester₀, hkey₀⟩ := hcommits.createKeys he'
    exact hnot e₀ he₀ ⟨hrequester₀.trans hrequester, hkey₀.trans hkey⟩
  cases task with
  | job job =>
    cases job with
    | create => exact absurd trivial hdirect
    | _ => exact (hleaves hpost).elim
  | accept => exact (hleaves hpost).elim
  | submit requesterID key prepared now =>
    cases result with
    | job | accepted => exact hpost.elim
    | submitted row created =>
      cases created with
      | false =>
        obtain ⟨rfl, -⟩ := hpost
        exact absurd ⟨hrequester, hkey⟩ (hnot e' he')
      | true =>
        obtain ⟨details, t, locks, rfl, hnext, hcreates⟩ := hpost
        rw [hcreates.errands] at he'
        rcases List.mem_append.mp he' with hold | hnew
        · exact absurd ⟨hrequester, hkey⟩ (hnot e' hold)
        obtain rfl := List.mem_singleton.mp hnew
        obtain ⟨-, -, hrowRequester, hrowKey⟩ := hcreates.row (canonical_errandID sha1 _ _)
        obtain rfl : requesterID = e.requesterID := hrowRequester.symm.trans hrequester
        obtain rfl : key = e.createIdempotencyKey := hrowKey.symm.trans hkey
        exact ⟨details, now, t, e', locks, rfl, rfl, hnext, hcreates⟩

theorem exists_createdBy
    (h : World.Reachable (engine hash) (Task.body (errandID sha1)) PermitsRequests {} w)
    (he : e ∈ w.store.errands) : ∃ u, CreatedBy sha1 w e u := by
  have hevolves := (World.Reachable.protected requests_secure h).2
  have hsane := sane_empty.sane_evolves hevolves
  obtain ⟨u, task, result, log, s, s', hu, hs, ⟨hpost, hdirect⟩, hs', hnot, hthen⟩ :=
    World.Reachable.exists_committed requests_secure (P := fun s => ∃ e' ∈ s.errands,
      e'.requesterID = e.requesterID ∧ e'.createIdempotencyKey = e.createIdempotencyKey) h
      (by simp) ⟨e, he, rfl, rfl⟩
  obtain ⟨details, now, t, row, locks, rfl, rfl, hnext, hcreates⟩ :=
    created_of_post hpost hdirect (fun e' he' hsame => hnot ⟨e', he', hsame⟩) hthen
  obtain ⟨hrow, hrowID, hrowRequester, hrowKey⟩ := hcreates.row (canonical_errandID sha1 _ _)
  have hsane' : Sane s' := (sane_empty.sane_evolves hs).change hcreates.change
  -- the errand of today is the one that was created
  obtain ⟨e₂, he₂, hsucceeds⟩ := hsane'.succeeds hs' hrow
  have hrequester : e₂.requesterID = e.requesterID := hsucceeds.requesterID.trans hrowRequester
  have hkey : e₂.createIdempotencyKey = e.createIdempotencyKey :=
    hsucceeds.createIdempotencyKey.trans hrowKey
  obtain rfl := hsane.createKeys.eq he₂ he (by simp only [hrequester, hkey])
  have hid : e₂.id = errandID sha1 e₂.requesterID e₂.createIdempotencyKey :=
    hsucceeds.id.trans hrowID
  obtain ⟨hcreations, hreserves⟩ := hcreates.creations (owned_evolves hs) hnext
  obtain ⟨hcreations', hreserves'⟩ := hsane'.creations hs' hrow
  rw [hrowID] at hcreations' hreserves'
  refine ⟨u, hid, details, now, t, row, log, hu, ?_⟩
  rw [hid]
  exact ⟨hnext, hcreations'.trans hcreations, hreserves'.trans hreserves⟩

/-- What a request that created an errand has stored. -/
theorem createdBy_creates {task : Task} {row : Errand} {requesterID key : String}
    {prepared : Except StoreError Details} {now : ℤ} {log : Program.Log Stmt.Reply} {s s' : Tables}
    (htask : task = .submit requesterID key prepared now)
    (hpost : requestPost hash sha1 task log (.submitted row true) s s') :
    (∀ e' ∈ s.errands, ¬ (e'.requesterID = requesterID ∧ e'.createIdempotencyKey = key)) ∧
      ∃ locks, Change hash anyTransition locks s s' ∧ row ∈ s'.errands ∧
        row.id = errandID sha1 requesterID key ∧ row.requesterID = requesterID ∧
        row.createIdempotencyKey = key := by
  subst htask
  obtain ⟨⟨details, t, locks, -, -, hcreates⟩, -⟩ := hpost
  exact ⟨hcreates.newKey, locks, hcreates.change, hcreates.row (canonical_errandID sha1 _ _)⟩

/-- Two requests do not both create the errand of one requester and key. -/
theorem not_created_twice {requesterID key : String} {s s' r r' : Tables} {row row' : Errand}
    {prepared prepared' : Except StoreError Details} {now now' : ℤ}
    {log log' : Program.Log Stmt.Reply} (hs : Sane s)
    (hpost : requestPost hash sha1 (.submit requesterID key prepared now) log
      (.submitted row true) s s')
    (hpost' : requestPost hash sha1 (.submit requesterID key prepared' now') log'
      (.submitted row' true) r r')
    (h : Evolves (Commits hash anyTransition) s' r) : False := by
  obtain ⟨-, locks, hchange, hrow, -, hrequester, hkey⟩ := createdBy_creates rfl hpost
  obtain ⟨hnot, -⟩ := createdBy_creates rfl hpost'
  obtain ⟨e', he', hsucceeds⟩ := (hs.change hchange).succeeds h hrow
  exact hnot e' he' ⟨hsucceeds.requesterID.trans hrequester,
    hsucceeds.createIdempotencyKey.trans hkey⟩

/-- The errand that a request answers with is stored. -/
theorem answered_stored {requesterID key : String} {prepared : Except StoreError Details} {now : ℤ}
    {created : Bool} {log : Program.Log Stmt.Reply} {s s' r : Tables} (hs : Sane s)
    (hpost : requestPost hash sha1 (.submit requesterID key prepared now) log
      (.submitted e created) s s')
    (h : Evolves (Commits hash anyTransition) s' r) :
    ∃ stored ∈ r.errands, stored.requesterID = requesterID ∧
      stored.createIdempotencyKey = key ∧ stored.id = e.id := by
  cases created with
  | true =>
    obtain ⟨-, locks, hchange, hrow, -, hrequester, hkey⟩ := createdBy_creates rfl hpost
    obtain ⟨e', he', hsucceeds⟩ := (hs.change hchange).succeeds h hrow
    exact ⟨e', he', hsucceeds.requesterID.trans hrequester,
      hsucceeds.createIdempotencyKey.trans hkey, hsucceeds.id⟩
  | false =>
    obtain ⟨⟨rfl, hrequester, hkey, e₁, he₁, hsucceeds⟩, -⟩ := hpost
    obtain ⟨e', he', hsucceeds'⟩ := hs.succeeds h he₁
    have hboth := hsucceeds.trans hsucceeds'
    exact ⟨e', he', hboth.requesterID.trans hrequester,
      hboth.createIdempotencyKey.trans hkey, hboth.id⟩

/-- A request starts with looking the errand up, and answers with what it finds. -/
theorem submit_body {id : String → String → String} {requesterID key : String}
    (hid : Canonical (id requesterID key)) (prepared : Except StoreError Details) (now : ℤ) :
    ∃ next, (Task.submit requesterID key prepared now).body id =
        .stmt (.getErrand (id requesterID key)) next ∧
      ∀ e : Errand, e.requesterID = requesterID → e.createIdempotencyKey = key →
        next (.ok e) = .pure (.submitted e false) := by
  have hscan : scanUUID (id requesterID key) = some (id requesterID key) := hid
  change ∃ next, (submit (id requesterID key) requesterID key prepared now >>= fun answer =>
    Program.pure (TaskResult.submitted answer.1 answer.2)) = _ ∧ _
  unfold submit find
  rw [hscan]
  refine ⟨_, rfl, fun e hrequester hkey => ?_⟩
  have hsame : ¬ (e.requesterID ≠ requesterID ∨ e.createIdempotencyKey ≠ key) := by
    simp [hrequester, hkey]
  change (if e.requesterID ≠ requesterID ∨ e.createIdempotencyKey ≠ key then _ else
    Program.pure (e, false)) >>= _ = _
  rw [if_neg hsame]
  rfl

/-- The request has not looked the errand up yet, or it is about to answer with it. -/
def Replays (sha1 : List UInt8 → Fin 20 → UInt8) (e : Errand)
    (ss : Session Task Stmt Stmt.Reply StoreError TaskResult Write Lock) : Prop :=
  (ss.rest = ss.job.body (errandID sha1) ∧ ss.writes = []) ∨
    ∃ e', ss.rest = .pure (.submitted e' false) ∧ e'.id = e.id

/-- The lookup of a request finds the errand, and takes no lock. -/
theorem replays_advance {s : Tables} {q : Stmt} {next : q.Reply → Tx TaskResult}
    {prepared : Except StoreError Details} {now : ℤ} (hs : Sane s)
    (he : ∃ e' ∈ s.errands, Succeeds e e')
    (hid : e.id = errandID sha1 e.requesterID e.createIdempotencyKey)
    (hbody : (Task.submit e.requesterID e.createIdempotencyKey prepared now).body (errandID sha1) =
      .stmt q next) (grantable : Lock → Mode → Bool) :
    (exec hash grantable q s).locks = [] ∧
      ∃ e', next (exec hash grantable q s).reply = .pure (.submitted e' false) ∧ e'.id = e.id := by
  obtain ⟨e₁, he₁, hsucceeds⟩ := he
  obtain ⟨next', hsubmit, hfound⟩ := submit_body
    (canonical_errandID sha1 e.requesterID e.createIdempotencyKey) prepared now
  cases hsubmit.symm.trans hbody
  rcases getErrand_cases grantable (errandID sha1 e.requesterID e.createIdempotencyKey) s with
    ⟨e₂, he₂, hid₂, hanswer⟩ | ⟨hnone, -⟩
  · obtain rfl := hs.keyed.unique.eq he₂ he₁ ((hid₂.trans hid.symm).trans hsucceeds.id.symm)
    rw [hanswer]
    exact ⟨rfl, e₂, hfound e₂ hsucceeds.requesterID hsucceeds.createIdempotencyKey, hsucceeds.id⟩
  · exact absurd (hsucceeds.id.trans hid) (hnone e₁ he₁)

section Later

variable {u : ℕ} {prepared : Except StoreError Details} {now : ℤ}
  (h : World.Reachable (engine hash) (Task.body (errandID sha1)) PermitsRequests {} w)
  (hlater : ReflTransGen (World.Step (engine hash) (Task.body (errandID sha1)) PermitsRequests)
    w w') (he : e ∈ w.store.errands)

include h hlater he

/-- The errand is still there, under its derived identifier. -/
theorem later_stored : Sane w'.store ∧ (∃ e' ∈ w'.store.errands, Succeeds e e') ∧
    e.id = errandID sha1 e.requesterID e.createIdempotencyKey := by
  have hsane := sane_empty.sane_evolves (World.Reachable.protected requests_secure h).2
  have hevolves := World.Reachable.evolves requests_secure h hlater
  obtain ⟨u, hcreated⟩ := exists_createdBy h he
  exact ⟨hsane.sane_evolves hevolves, hsane.succeeds hevolves he, hcreated.derived⟩

/-- Requests that start once the errand exists replay it. -/
theorem later_replays (hidle : w.threads u = .idle) :
    (∀ ss, w'.threads u = .running ss →
      ss.job = .submit e.requesterID e.createIdempotencyKey prepared now → Replays sha1 e ss) ∧
    ∀ result log, w'.threads u =
        .committed (.submit e.requesterID e.createIdempotencyKey prepared now) result log →
      ∃ e', result = .submitted e' false ∧ e'.id = e.id := by
  induction hlater with
  | refl =>
    constructor
    · intro ss hrun
      rw [hidle] at hrun
      cases hrun
    · intro result log hcommitted
      rw [hidle] at hcommitted
      cases hcommitted
  | @tail v v' hpath hlast ih =>
    obtain ⟨hrunning, hcommitted⟩ := ih
    obtain ⟨hsane, hstored, hid⟩ := later_stored h hpath he
    obtain ⟨act, -, hperform⟩ := hlast
    constructor
    · intro ss hrun hjob
      rcases World.running_cases hperform hrun with hsame | ⟨job, -, -, -, rfl⟩ |
        ⟨job, q, next, log, writes, locks, -, -, hbefore, -, rfl⟩
      · exact hrunning ss hsame hjob
      · exact Or.inl ⟨rfl, rfl⟩
      · obtain rfl : job = _ := hjob
        rcases hrunning _ hbefore rfl with ⟨hbody, hwrites⟩ | ⟨e', hrest, -⟩
        · obtain rfl : writes = [] := hwrites
          exact Or.inr (replays_advance hsane hstored hid hbody.symm _).2
        · cases hrest
    · intro result log hdone
      rcases World.committed_cases hperform hdone with hsame | ⟨writes, locks, -, hrun, -⟩
      · exact hcommitted result log hsame
      · rcases hrunning _ hrun rfl with ⟨hbody, -⟩ | ⟨e', hrest, hid'⟩
        · obtain ⟨next, hsubmit, -⟩ :=
            submit_body (canonical_errandID sha1 e.requesterID e.createIdempotencyKey) prepared now
          cases hbody.trans hsubmit
        · cases hrest
          exact ⟨e', rfl, hid'⟩

/-- Such a request waits for nobody: after at most one statement it commits, and answers
with the errand. -/
theorem later_answers (hidle : w.threads u = .idle)
    {ss : Session Task Stmt Stmt.Reply StoreError TaskResult Write Lock}
    (hrun : w'.threads u = .running ss)
    (hjob : ss.job = .submit e.requesterID e.createIdempotencyKey prepared now) :
    ∃ v v' e' log,
      (v = w' ∨ w'.perform (engine hash) (Task.body (errandID sha1)) (.advance u) = some v) ∧
      v.perform (engine hash) (Task.body (errandID sha1)) (.commit u) = some v' ∧
      v'.threads u = .committed ss.job (.submitted e' false) log ∧ e'.id = e.id := by
  obtain ⟨hsane, hstored, hid⟩ := later_stored h hlater he
  obtain ⟨job, rest, log, writes, locks⟩ := ss
  obtain rfl : job = _ := hjob
  rcases (later_replays h hlater he hidle).1 _ hrun rfl with ⟨hbody, hwrites⟩ | ⟨e', hrest, hid'⟩
  · obtain rfl : writes = [] := hwrites
    obtain ⟨next, hsubmit, -⟩ := submit_body
      (canonical_errandID sha1 e.requesterID e.createIdempotencyKey) prepared now
    obtain rfl : rest = _ := hbody.trans hsubmit
    obtain ⟨hlocks, e', hrest, hid'⟩ :=
      @replays_advance hash _ _ _ _ _ _ _ hsane hstored hid hsubmit (w'.grantable u)
    have hanswer : next (w'.answer (engine hash) u [] _).reply = .pure (.submitted e' false) := hrest
    have hnowait : (w'.answer (engine hash) u [] _).locks = [] := hlocks
    obtain ⟨v, log', writes', locks', hadvance, hv⟩ := World.exists_advance hrun hnowait
    rw [hanswer] at hv
    obtain ⟨v', hcommit, hv'⟩ := World.exists_commit hv
    exact ⟨v, v', e', log', Or.inr hadvance, hcommit, hv', hid'⟩
  · obtain rfl : rest = _ := hrest
    obtain ⟨v', hcommit, hv'⟩ := World.exists_commit hrun
    exact ⟨w', v', e', log, Or.inl rfl, hcommit, hv', hid'⟩

end Later

/-- For any number of requests to submit, interleaved with transitions and fences: for each
requester and key at most one errand is stored. Exactly one request created it, with one
creation row and one reserve command, which are the rows of that request's transition.
Every request that was answered was answered with the errand of its requester and key.
A request that starts once the errand exists is answered with it, whatever its body gives,
and waits for nobody. -/
theorem submit_once {w : Service}
    (h : World.Reachable (engine hash) (Task.body (errandID sha1)) PermitsRequests {} w) :
    UniqueKey (fun e : Errand => (e.requesterID, e.createIdempotencyKey)) w.store.errands ∧
    (∀ e ∈ w.store.errands, ∃! u, CreatedBy sha1 w e u) ∧
    (∀ u requesterID key prepared now e created log,
      w.threads u = .committed (.submit requesterID key prepared now) (.submitted e created) log →
      ∃ stored ∈ w.store.errands, stored.requesterID = requesterID ∧
        stored.createIdempotencyKey = key ∧ stored.id = e.id) ∧
    ∀ w', ReflTransGen (World.Step (engine hash) (Task.body (errandID sha1)) PermitsRequests) w w' →
      ∀ e ∈ w.store.errands, ∀ u prepared now, w.threads u = .idle →
      (∀ result log, w'.threads u =
          .committed (.submit e.requesterID e.createIdempotencyKey prepared now) result log →
        ∃ e', result = .submitted e' false ∧ e'.id = e.id) ∧
      ∀ ss, w'.threads u = .running ss →
        ss.job = .submit e.requesterID e.createIdempotencyKey prepared now →
        ∃ v v' e' log,
          (v = w' ∨ w'.perform (engine hash) (Task.body (errandID sha1)) (.advance u) = some v) ∧
          v.perform (engine hash) (Task.body (errandID sha1)) (.commit u) = some v' ∧
          v'.threads u = .committed ss.job (.submitted e' false) log ∧ e'.id = e.id := by
  have hsane := sane_empty.sane_evolves (World.Reachable.protected requests_secure h).2
  refine ⟨hsane.createKeys, fun e he => ?_, ?_, fun w' hlater e he u prepared now hidle => ?_⟩
  · obtain ⟨u, hu⟩ := exists_createdBy h he
    refine ⟨u, hu, fun v hv => ?_⟩
    by_contra hne
    obtain ⟨details, now, t, row, log, hthread, -⟩ := hu.request
    obtain ⟨details', now', t', row', log', hthread', -⟩ := hv.request
    obtain ⟨s, s', r, r', hs, hr, hpost, hpost', horder⟩ :=
      World.Reachable.committed_order requests_secure h hthread' hthread hne
    rcases horder with horder | horder
    · exact not_created_twice (sane_empty.sane_evolves hs) hpost hpost' horder
    · exact not_created_twice (sane_empty.sane_evolves hr) hpost' hpost horder
  · intro u requesterID key prepared now e created log hu
    obtain ⟨s, s', hs, hpost, hevolves⟩ := World.Reachable.committed requests_secure h hu
    exact answered_stored (sane_empty.sane_evolves hs) hpost hevolves
  · exact ⟨(later_replays h hlater he hidle).2,
      fun ss hrun hjob => later_answers h hlater he hidle hrun hjob⟩

theorem submit_once_sample : ∃ (w : Service) (e : Errand), e ∈ w.store.errands ∧
    ∃! u, CreatedBy (fun _ _ => 0) w e u := by
  obtain ⟨w, e, hfree, he⟩ := exists_submitted
  exact ⟨w, e, he, (submit_once (hfree.mono permitsRequests_of_startsFree)).2.1 e he⟩

end Requests

end FocServices.Orders
