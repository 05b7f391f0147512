import FocServices.Orders.Handlers
import FocServices.Txn.Rely

/-!
# What a commit does

`Change` lists the changes a transaction of the order service makes when it commits, with
the locks it holds for each. A commit is a sequence of changes. What the locks of another
transaction protect is read off here once: a locked errand, a free key, a supplier
without a fence under the shared lock, and a supplier without errands under the
exclusive one.
-/

namespace FocServices.Orders

open Txn Relation

/-! ## Order in the history of an errand -/

/-- A position that every transition advances: twice the version, and one more while an
edit is pending. -/
def Errand.rank (e : Errand) : ℕ := 2 * e.version + if e.pendingEdit.isSome then 1 else 0

/-- A later row of the same errand. -/
structure Succeeds (e e' : Errand) : Prop where
  id : e'.id = e.id
  requesterID : e'.requesterID = e.requesterID
  createIdempotencyKey : e'.createIdempotencyKey = e.createIdempotencyKey
  rank : e' = e ∨ e.rank < e'.rank

theorem Succeeds.refl (e : Errand) : Succeeds e e := ⟨rfl, rfl, rfl, Or.inl rfl⟩

theorem Succeeds.trans {e e' e'' : Errand} (h : Succeeds e e') (h' : Succeeds e' e'') :
    Succeeds e e'' := by
  refine ⟨h'.id.trans h.id, h'.requesterID.trans h.requesterID,
    h'.createIdempotencyKey.trans h.createIdempotencyKey, ?_⟩
  rcases h'.rank with rfl | hlt
  · exact h.rank
  · rcases h.rank with rfl | hlt'
    · exact Or.inr hlt
    · exact Or.inr (hlt'.trans hlt)

/-- A transition advances the errand. -/
theorem Move.rank {e stored : Errand} {input : EventInput} {t : Transition} (hm : Move e input t)
    (hst : StoredAs (t.applyTo e) stored) : e.rank < stored.rank := by
  have hversion : stored.version = t.newVersion := hst.version
  have hpending := hst.isSome_pendingEdit
  unfold Errand.rank
  rw [hversion, hpending]
  rcases hm.advance with hnew | ⟨hsame, -, hnone, p, hp, -⟩
  · rw [hnew]
    split <;> split <;> omega
  · rw [hsame, hnone, hp]
    simp

/-! ## Suppliers an errand refers to -/

/-- The errand is active and has the supplier in its details or its pending edit, in any
form in which the supplier can be read from the edit. -/
def Errand.Refers (e : Errand) (supplierID : String) : Prop :=
  e.status.active = true ∧ (e.details.supplierID = supplierID ∨
    ∃ p, e.pendingEdit = some p ∧ (scanUUID p.details.supplierID = some supplierID ∨
      castUUID p.details.supplierID = some supplierID))

/-- The supplier that an edit names is the one its fence check is about, and it ends up
in the details or in the pending edit. -/
theorem edit_target {e : Errand} {ev : Event} {actor : Actor} {input : EventInput} {now : ℤ}
    {t : Transition} (hnext : next e ev actor input now = .ok t) (hevent : t.event = .edit) :
    ∃ target, editTargetSupplier e t =
        (if target ≠ "" ∧ target ≠ e.details.supplierID then some target else none) ∧
      (((t.applyTo e).details.supplierID = target ∧ (t.applyTo e).pendingEdit = none) ∨
        ((t.applyTo e).details = e.details ∧
          ∃ p, (t.applyTo e).pendingEdit = some p ∧ p.details.supplierID = target)) := by
  have hev : ev = .edit := (next_for hnext).event.symm.trans hevent
  subst hev
  obtain ⟨r, t₀, hd⟩ := next_ok hnext
  have happlied := hd.applied
  simp only [applyEvent, Rule.transition] at happlied
  split at happlied
  · cases happlied
  next hpending =>
  have hnone : e.pendingEdit = none := by simpa using hpending
  split at happlied
  · cases happlied
  next d hd' =>
  obtain ⟨_, -, happlied⟩ := bind_eq_ok.mp happlied
  refine ⟨d.supplierID, ?_⟩
  split at happlied
  · cases happlied
    rw [hd.result]
    refine ⟨by simp [editTargetSupplier, Transition.dropPendingEdit, hnone], Or.inl ⟨rfl, ?_⟩⟩
    simp [Transition.applyTo, Transition.dropPendingEdit, hnone]
  · cases happlied
    rw [hd.result]
    refine ⟨by simp [editTargetSupplier, Transition.dropPendingEdit, hnone, setTo],
      Or.inr ⟨rfl, ?_⟩⟩
    simp [Transition.applyTo, Transition.dropPendingEdit, hnone]

theorem StoredAs.pendingSupplier {e row : Errand} (h : StoredAs e row) {p : PendingEdit}
    (hp : row.pendingEdit = some p) :
    ∃ q, e.pendingEdit = some q ∧ q.details.supplierID = p.details.supplierID := by
  have hcore := h.pendingEdit
  unfold Errand.pendingCore at hcore
  rw [hp, Option.map_some] at hcore
  obtain ⟨q, hq, hcore⟩ := Option.map_eq_some_iff.mp hcore.symm
  exact ⟨q, hq, (Prod.mk.inj (Prod.mk.inj hcore).2).1⟩

/-- An errand that a transition leaves referring to a supplier did so before, or the
transition is an edit that moves the errand there. -/
theorem refers_of_next {e stored : Errand} {ev : Event} {actor : Actor} {input : EventInput}
    {now : ℤ} {t : Transition} (hnext : next e ev actor input now = .ok t)
    (hsource : e.status ≠ .none) (hst : StoredAs (t.applyTo e) stored)
    (hcanonical : Canonical e.details.supplierID) {supplierID : String}
    (h : stored.Refers supplierID) :
    e.Refers supplierID ∨ ∃ target, editTargetSupplier e t = some target ∧
      (scanUUID target = some supplierID ∨ castUUID target = some supplierID) := by
  obtain ⟨hactive, href⟩ := h
  have hm := next_move hnext
  have hlive : e.status.active = true := by
    simp [Status.active, hsource, hm.status.2]
  -- the supplier the stored row takes from details that the transition kept
  have hkept : (t.applyTo e).details = e.details → stored.details.supplierID = supplierID →
      e.Refers supplierID := by
    intro hdetails hsupplier
    have hscan := hst.supplierID
    rw [hdetails, hsupplier] at hscan
    exact ⟨hlive, Or.inl (Option.some.inj (hcanonical.symm.trans hscan))⟩
  by_cases hevent : t.event = .edit
  · obtain ⟨target, htarget, hafter⟩ := edit_target hnext hevent
    have hmoved : scanUUID target = some supplierID ∨ castUUID target = some supplierID →
        e.Refers supplierID ∨ ∃ target, editTargetSupplier e t = some target ∧
          (scanUUID target = some supplierID ∨ castUUID target = some supplierID) := by
      intro hread
      by_cases hsame : target = e.details.supplierID
      · left
        refine ⟨hlive, Or.inl ?_⟩
        rw [hsame] at hread
        rcases hread with hscan | hcast
        · exact Option.some.inj (hcanonical.symm.trans hscan)
        · exact scanUUID_eq_castUUID hcanonical hcast
      · refine Or.inr ⟨target, htarget.trans (if_pos ⟨?_, hsame⟩), hread⟩
        rintro rfl
        revert hread
        have hscan : scanUUID "" = none := by decide
        have hcast : castUUID "" = none := by decide
        rw [hscan, hcast]
        simp
    rcases hafter with ⟨hdetails, hpending⟩ | ⟨hdetails, p, hp, hsupplier⟩
    · rcases href with hsame | ⟨q, hq, -⟩
      · have hscan := hst.supplierID
        rw [hdetails, hsame] at hscan
        exact hmoved (Or.inl hscan)
      · obtain ⟨p, hp, -⟩ := hst.pendingSupplier hq
        rw [hpending] at hp
        cases hp
    · rcases href with hsame | ⟨q, hq, hread⟩
      · exact Or.inl (hkept hdetails hsame)
      · obtain ⟨p', hp', hsupplier'⟩ := hst.pendingSupplier hq
        obtain rfl := Option.some.inj (hp.symm.trans hp')
        rw [← hsupplier', hsupplier] at hread
        exact hmoved hread
  · left
    rcases href with hsame | ⟨q, hq, hread⟩
    · cases hm with
      | edit d hstatus hev => exact absurd hev hevent
      | confirmEdit p hstatus hev hpending hkey hy =>
        have hscan := hst.supplierID
        rw [hy.details, hsame] at hscan
        exact ⟨hlive, Or.inr ⟨p, hpending, Or.inl hscan⟩⟩
      | submit _ _ _ _ hy | «open» _ _ hy | refuse _ _ hy | fail _ _ hy
      | requestEdit _ _ _ _ _ _ _ hy | refuseEdit _ _ _ _ _ hy | accept _ _ _ _ hy
      | withdraw _ _ _ hy | reopen _ _ hy | expire _ _ hy | proceed _ _ hy | complete _ hy
      | refund _ _ hy => exact hkept hy.details hsame
    · obtain ⟨p, hp, hsupplier⟩ := hst.pendingSupplier hq
      rw [← hsupplier] at hread
      cases hm with
      | requestEdit _ _ hev => exact absurd hev hevent
      | «open» _ _ hy | reopen _ _ hy =>
        rw [hy.pendingEdit] at hp
        exact ⟨hlive, Or.inr ⟨p, hp, hread⟩⟩
      | submit _ _ _ _ hy | refuse _ _ hy | fail _ _ hy | edit _ _ _ _ _ _ hy
      | confirmEdit _ _ _ _ _ hy | refuseEdit _ _ _ _ _ hy | accept _ _ _ _ hy
      | withdraw _ _ _ hy | expire _ _ hy | proceed _ _ hy | complete _ hy | refund _ _ hy =>
        rw [hy.pendingEdit] at hp
        cases hp

/-! ## Changes -/

/-- One change of a transaction that holds `locks`. `ok` says which transitions may be
written in which tables. -/
inductive Change (hash : String → ℤ) (ok : Tables → Errand → Transition → Prop)
    (locks : List (Lock × Mode)) (s s' : Tables) : Prop where
  | create (e : Errand) (actor : Actor) (input : EventInput) (now : ℤ) (t : Transition)
      (row : Errand) (hnext : next e .submit actor input now = .ok t) (hid : Canonical e.id)
      (hok : ok s e t) (hrow : insertParams (t.applyTo e) = .ok row)
      (hnew : ∀ e' ∈ s.errands, e'.id ≠ e.id)
      (hkey : ∀ e' ∈ s.errands, ¬ (e'.requesterID = e.requesterID ∧
        e'.createIdempotencyKey = e.createIdempotencyKey))
      (herrand : (.errand e.id, .exclusive) ∈ locks)
      (hcreate : (.createKey e.requesterID e.createIdempotencyKey, .exclusive) ∈ locks)
      (hsupplier : (.supplier (hash row.details.supplierID), .shared) ∈ locks)
      (hopen : s.fenced row.details.supplierID = false)
      (hkeys : ∀ r ∈ t.outbox, (.outboxKey r.idempotencyKey, .exclusive) ∈ locks)
      (herrands : s'.errands = s.errands ++ [row])
      (htransitions : s'.transitions = s.transitions ++ [transitionRow e.id e row t])
      (houtbox : s'.outbox = s.outbox ++ t.outbox) (hfences : s'.fences = s.fences)
  | apply (e : Errand) (ev : Event) (actor : Actor) (input : EventInput) (now : ℤ)
      (t : Transition) (row : Errand) (hcur : e ∈ s.errands)
      (hnext : next e ev actor input now = .ok t) (hok : ok s e t)
      (hrow : insertParams (t.applyTo e) = .ok row)
      (herrand : (.errand e.id, .exclusive) ∈ locks)
      (hsupplier : ∀ target, editTargetSupplier e t = some target → ∃ id,
        scanUUID target = some id ∧ (.supplier (hash id), .shared) ∈ locks ∧ s.fenced id = false)
      (hkeys : ∀ r ∈ t.outbox, (.outboxKey r.idempotencyKey, .exclusive) ∈ locks)
      (herrands : s'.errands =
        updateRow Errand.id e.id (fun old => old.overwrite row) s.errands)
      (htransitions : s'.transitions =
        s.transitions ++ [transitionRow e.id e (e.overwrite row) t])
      (houtbox : s'.outbox = s.outbox ++ t.outbox) (hfences : s'.fences = s.fences)
  | note (row : OutboxRow) (hkey : NoteKey row.idempotencyKey)
      (hkind : ∃ name, row.kind = .event name)
      (hfresh : ∀ r ∈ s.outbox, r.idempotencyKey ≠ row.idempotencyKey)
      (hlock : (.outboxKey row.idempotencyKey, .exclusive) ∈ locks)
      (herrands : s'.errands = s.errands) (htransitions : s'.transitions = s.transitions)
      (houtbox : s'.outbox = s.outbox ++ [row]) (hfences : s'.fences = s.fences)
  | fence (operationID supplierID : String) (hnew : s.fenceOf operationID = none)
      (hcanonical : Canonical supplierID)
      (hfence : (.fence operationID, .exclusive) ∈ locks)
      (hsupplier : (.supplier (hash supplierID), .exclusive) ∈ locks)
      (herrands : s'.errands = s.errands) (htransitions : s'.transitions = s.transitions)
      (houtbox : s'.outbox = s.outbox)
      (hfences : s'.fences = s.fences ++ [⟨operationID, supplierID, .open⟩])
  | close (fence : Fence) (state : FenceState) (hcur : s.fenceOf fence.operationID = some fence)
      (hopen : fence.state = .open) (hfence : (.fence fence.operationID, .exclusive) ∈ locks)
      (herrands : s'.errands = s.errands) (htransitions : s'.transitions = s.transitions)
      (houtbox : s'.outbox = s.outbox)
      (hfences : s'.fences = updateRow Fence.operationID fence.operationID
        (fun f => { f with state := state }) s.fences)
  | idle (herrands : s'.errands = s.errands) (htransitions : s'.transitions = s.transitions)
      (houtbox : s'.outbox = s.outbox) (hfences : s'.fences = s.fences)

/-- What a transaction that holds `locks` may do when it commits. -/
def Commits (hash : String → ℤ) (ok : Tables → Errand → Transition → Prop)
    (locks : List (Lock × Mode)) : Tables → Tables → Prop :=
  ReflTransGen (Change hash ok locks)

/-- What holds of the committed tables at any time. -/
structure Sane (s : Tables) : Prop where
  keyed : Keyed s
  suppliers : ∀ e ∈ s.errands, Canonical e.details.supplierID
  createKeys : UniqueKey (fun e : Errand => (e.requesterID, e.createIdempotencyKey)) s.errands
  fences : UniqueKey Fence.operationID s.fences
  fenceSuppliers : ∀ f ∈ s.fences, Canonical f.supplierID

theorem sane_empty : Sane {} :=
  ⟨keyed_empty, by simp, by simp [UniqueKey], by simp [UniqueKey], by simp⟩

theorem insertParams_createKey {e row : Errand} (h : insertParams e = .ok row) :
    row.createIdempotencyKey = e.createIdempotencyKey := by
  unfold insertParams at h
  simp only [bind_eq_ok, check_eq_ok] at h
  obtain ⟨_, -, _, -, _, -, _, -, -, _, -, h⟩ := h
  cases h
  rfl

section Changes

variable {hash : String → ℤ} {ok : Tables → Errand → Transition → Prop}
  {locks locks' : List (Lock × Mode)} {s s' : Tables}

theorem Change.mono (h : Change hash ok locks s s') (hsub : locks ⊆ locks') :
    Change hash ok locks' s s' := by
  cases h with
  | create e actor input now t row hnext hid hok hrow hnew hkey herrand hcreate hsupplier hopen
      hkeys herrands htransitions houtbox hfences =>
    exact .create e actor input now t row hnext hid hok hrow hnew hkey (hsub herrand)
      (hsub hcreate) (hsub hsupplier) hopen (fun r hr => hsub (hkeys r hr)) herrands htransitions
      houtbox hfences
  | apply e ev actor input now t row hcur hnext hok hrow herrand hsupplier hkeys herrands
      htransitions houtbox hfences =>
    refine .apply e ev actor input now t row hcur hnext hok hrow (hsub herrand) ?_
      (fun r hr => hsub (hkeys r hr)) herrands htransitions houtbox hfences
    intro target htarget
    obtain ⟨id, hid, hlock, hopen⟩ := hsupplier target htarget
    exact ⟨id, hid, hsub hlock, hopen⟩
  | note row hkey hkind hfresh hlock herrands htransitions houtbox hfences =>
    exact .note row hkey hkind hfresh (hsub hlock) herrands htransitions houtbox hfences
  | fence operationID supplierID hnew hcanonical hfence hsupplier herrands htransitions houtbox hfences =>
    exact .fence operationID supplierID hnew hcanonical (hsub hfence) (hsub hsupplier) herrands
      htransitions houtbox hfences
  | close fence state hcur hopen hfence herrands htransitions houtbox hfences =>
    exact .close fence state hcur hopen (hsub hfence) herrands htransitions houtbox hfences
  | idle herrands htransitions houtbox hfences => exact .idle herrands htransitions houtbox hfences

theorem Commits.mono (h : Commits hash ok locks s s') (hsub : locks ⊆ locks') :
    Commits hash ok locks' s s' :=
  ReflTransGen.mono (fun _ _ hchange => hchange.mono hsub) _ _ h

/-- A change is a step of the errands and the outbox. -/
theorem Change.step (h : Change hash ok locks s s') : Step (fun _ _ _ => True) s s' := by
  cases h with
  | create e actor input now t row hnext hid hok hrow hnew hkey herrand hcreate hsupplier hopen
      hkeys herrands htransitions houtbox hfences =>
    exact .create e actor input now t row hnext hid hrow hnew herrands houtbox
  | apply e ev actor input now t row hcur hnext hok hrow herrand hsupplier hkeys herrands
      htransitions houtbox hfences =>
    exact .apply e ev actor input now t row hcur hnext trivial hrow herrands houtbox
  | note row hkey hkind hfresh hlock herrands htransitions houtbox hfences =>
    exact .note row hkey hkind hfresh herrands houtbox
  | fence operationID supplierID hnew hcanonical hfence hsupplier herrands htransitions houtbox hfences =>
    exact .idle herrands houtbox
  | close fence state hcur hopen hfence herrands htransitions houtbox hfences =>
    exact .idle herrands houtbox
  | idle herrands htransitions houtbox hfences => exact .idle herrands houtbox

theorem Sane.change (hs : Sane s) (h : Change hash ok locks s s') : Sane s' := by
  have hkeyed : Keyed s' := hs.keyed.step h.step
  cases h with
  | create e actor input now t row hnext hid hok hrow hnew hkey herrand hcreate hsupplier hopen
      hkeys herrands htransitions houtbox hfences =>
    have hst := insertParams_ok hrow
    refine ⟨hkeyed, ?_, ?_, hfences ▸ hs.fences, hfences ▸ hs.fenceSuppliers⟩
    · rw [herrands, List.forall_mem_append]
      refine ⟨hs.suppliers, fun e' he' => ?_⟩
      obtain rfl := List.mem_singleton.mp he'
      exact canonical_of_scanUUID hst.supplierID
    · rw [herrands, uniqueKey_append_singleton]
      refine ⟨hs.createKeys, fun e' he' heq => hkey e' he' ?_⟩
      obtain ⟨hrequester, hcreateKey⟩ := Prod.mk.inj heq
      have hrowKey : row.createIdempotencyKey = (t.applyTo e).createIdempotencyKey :=
        insertParams_createKey hrow
      exact ⟨hrequester.trans hst.requesterID, hcreateKey.trans hrowKey⟩
  | apply e ev actor input now t row hcur hnext hok hrow herrand hsupplier hkeys herrands
      htransitions houtbox hfences =>
    have hst := insertParams_ok hrow
    refine ⟨hkeyed, ?_, ?_, hfences ▸ hs.fences, hfences ▸ hs.fenceSuppliers⟩
    · rw [herrands]
      intro e' he'
      rcases hs.keyed.unique.mem_updateRow hcur he' with rfl | ⟨he', -⟩
      · exact canonical_of_scanUUID hst.supplierID
      · exact hs.suppliers e' he'
    · rw [herrands]
      exact hs.createKeys.updateRow fun _ _ => rfl
  | note row hkey hkind hfresh hlock herrands htransitions houtbox hfences =>
    exact ⟨hkeyed, herrands ▸ hs.suppliers, herrands ▸ hs.createKeys, hfences ▸ hs.fences, hfences ▸ hs.fenceSuppliers⟩
  | fence operationID supplierID hnew hcanonical hfence hsupplier herrands htransitions houtbox hfences =>
    refine ⟨hkeyed, herrands ▸ hs.suppliers, herrands ▸ hs.createKeys, ?_, ?_⟩
    · rw [hfences, uniqueKey_append_singleton]
      exact ⟨hs.fences, findRow_eq_none.mp hnew⟩
    · rw [hfences, List.forall_mem_append]
      exact ⟨hs.fenceSuppliers, by simpa using hcanonical⟩
  | close fence state hcur hopen hfence herrands htransitions houtbox hfences =>
    refine ⟨hkeyed, herrands ▸ hs.suppliers, herrands ▸ hs.createKeys, ?_, ?_⟩
    · rw [hfences]
      exact hs.fences.updateRow fun _ _ => rfl
    · intro f hf
      rw [hfences] at hf
      obtain ⟨f₀, hf₀, rfl⟩ := mem_updateRow.mp hf
      split
      · exact hs.fenceSuppliers f₀ hf₀
      · exact hs.fenceSuppliers f₀ hf₀
  | idle herrands htransitions houtbox hfences =>
    exact ⟨hkeyed, herrands ▸ hs.suppliers, herrands ▸ hs.createKeys, hfences ▸ hs.fences, hfences ▸ hs.fenceSuppliers⟩

/-- A property that the changes of other transactions keep in sane tables, while `locks`
are held, is kept by everything that happens meanwhile. -/
theorem Sane.disturbed {P : Tables → Prop} (hs : Sane s)
    (h : Disturbed (Commits hash ok) locks s s')
    (hstep : ∀ s s' locks', Coexist locks locks' → Sane s → Change hash ok locks' s s' →
      P s → P s') (hp : P s) : Sane s' ∧ P s' := by
  refine h.keeps (P := fun s => Sane s ∧ P s) ?_ ⟨hs, hp⟩
  intro s s' locks' hcoexist hcommits hboth
  induction hcommits with
  | refl => exact hboth
  | tail _ hchange ih => exact ⟨ih.1.change hchange, hstep _ _ _ hcoexist ih.1 hchange ih.2⟩

theorem Sane.evolves {P : Tables → Prop} (hs : Sane s) (h : Evolves (Commits hash ok) s s')
    (hstep : ∀ s s' locks, Sane s → Change hash ok locks s s' → P s → P s') (hp : P s) :
    Sane s' ∧ P s' :=
  hs.disturbed h.disturbed (fun s s' locks' _ => hstep s s' locks') hp

/-- Every stored errand has a successor after a change. -/
theorem Change.succeeds (hs : Sane s) (h : Change hash ok locks s s') {e : Errand}
    (he : e ∈ s.errands) : ∃ e' ∈ s'.errands, Succeeds e e' := by
  have hsame : s'.errands = s.errands → ∃ e' ∈ s'.errands, Succeeds e e' :=
    fun h => ⟨e, h ▸ he, .refl e⟩
  cases h with
  | create e₁ actor input now t row hnext hid hok hrow hnew hkey herrand hcreate hsupplier hopen
      hkeys herrands htransitions houtbox hfences =>
    exact ⟨e, herrands ▸ List.mem_append_left _ he, .refl e⟩
  | apply e₁ ev actor input now t row hcur hnext hok hrow herrand hsupplier hkeys herrands
      htransitions houtbox hfences =>
    have hst := insertParams_ok hrow
    rw [herrands]
    by_cases hid : e.id = e₁.id
    · obtain rfl := hs.keyed.unique.eq he hcur hid
      have hrank := (next_move hnext).rank (overwrite_storedAs hst rfl)
      exact ⟨_, mem_updateRow_self he, hst.id_eq (hs.keyed.regular e he).canonical, rfl, rfl,
        Or.inr hrank⟩
    · exact ⟨e, mem_updateRow.mpr ⟨e, he, if_neg hid⟩, .refl e⟩
  | note _ _ _ _ _ herrands | fence _ _ _ _ _ _ herrands | close _ _ _ _ _ herrands
  | idle herrands => exact hsame herrands

/-- Every stored errand has a successor in later tables. -/
theorem Sane.succeeds (hs : Sane s) (h : Evolves (Commits hash ok) s s') {e : Errand}
    (he : e ∈ s.errands) : ∃ e' ∈ s'.errands, Succeeds e e' := by
  refine (hs.evolves (P := fun s => ∃ e' ∈ s.errands, Succeeds e e') h ?_ ⟨e, he, .refl e⟩).2
  rintro s s' locks hs hchange ⟨e', he', hsucceeds⟩
  obtain ⟨e'', he'', hsucceeds'⟩ := hchange.succeeds hs he'
  exact ⟨e'', he'', hsucceeds.trans hsucceeds'⟩

/-! ## What locks protect -/

/-- Only a transaction with the exclusive lock changes an errand. -/
theorem Change.errandOf (hs : Sane s) (h : Change hash ok locks s s') (id : String) :
    s'.errandOf id = s.errandOf id ∨ (.errand id, .exclusive) ∈ locks := by
  unfold Tables.errandOf
  cases h with
  | create e actor input now t row hnext hid hok hrow hnew hkey herrand hcreate hsupplier hopen
      hkeys herrands htransitions houtbox hfences =>
    have hrowID := (insertParams_ok hrow).id_eq hid
    by_cases hsame : e.id = id
    · exact Or.inr (hsame ▸ herrand)
    · left
      rw [herrands, findRow_append_singleton, if_neg (hrowID ▸ hsame), Option.or_none]
  | apply e ev actor input now t row hcur hnext hok hrow herrand hsupplier hkeys herrands
      htransitions houtbox hfences =>
    have hrowID : row.id = e.id :=
      (insertParams_ok hrow).id_eq (hs.keyed.regular e hcur).canonical
    have hkeep : ∀ r : Errand, r.id = e.id → (r.overwrite row).id = r.id :=
      fun r hr => hrowID.trans hr.symm
    by_cases hsame : e.id = id
    · exact Or.inr (hsame ▸ herrand)
    · left
      rw [herrands, findRow_updateRow hkeep]
      cases hfind : findRow Errand.id id s.errands with
      | none => rfl
      | some r =>
        have hr := (mem_of_findRow hfind).2
        rw [Option.map_some, if_neg fun heq => hsame (heq.symm.trans hr)]
  | note _ _ _ _ _ herrands | fence _ _ _ _ _ _ herrands | close _ _ _ _ _ herrands
  | idle herrands => exact Or.inl (by rw [herrands])

/-- A locked errand stays as it is. -/
theorem Sane.locked_errand (hs : Sane s) (h : Disturbed (Commits hash ok) locks s s')
    {id : String} {m : Mode} (hlock : (.errand id, m) ∈ locks) :
    s'.errandOf id = s.errandOf id := by
  refine (hs.disturbed (P := fun s₁ => s₁.errandOf id = s.errandOf id) h ?_ rfl).2
  intro s₁ s₂ locks' hcoexist hs₁ hchange hsame
  rcases hchange.errandOf hs₁ id with heq | hexclusive
  · exact heq.trans hsame
  · have hconflict := hcoexist _ _ _ hlock hexclusive
    cases m <;> cases hconflict

/-- Under a locked key no errand with the key appears. -/
theorem Sane.locked_createKey (hs : Sane s) (h : Disturbed (Commits hash ok) locks s s')
    {requesterID key : String} (hlock : (.createKey requesterID key, .exclusive) ∈ locks)
    (hfree : ∀ e ∈ s.errands, ¬ (e.requesterID = requesterID ∧ e.createIdempotencyKey = key)) :
    ∀ e ∈ s'.errands, ¬ (e.requesterID = requesterID ∧ e.createIdempotencyKey = key) := by
  refine (hs.disturbed (P := fun s => ∀ e ∈ s.errands,
    ¬ (e.requesterID = requesterID ∧ e.createIdempotencyKey = key)) h ?_ hfree).2
  intro s s' locks' hcoexist hs hchange hfree
  cases hchange with
  | create e actor input now t row hnext hid hok hrow hnew hkey herrand hcreate hsupplier hopen
      hkeys herrands htransitions houtbox hfences =>
    rw [herrands, List.forall_mem_append]
    refine ⟨hfree, fun e' he' => ?_⟩
    obtain rfl := List.mem_singleton.mp he'
    rw [(insertParams_ok hrow).requesterID, insertParams_createKey hrow]
    rintro ⟨hrequester, hcreateKey⟩
    have hrequester' : e.requesterID = requesterID := hrequester
    have hcreateKey' : e.createIdempotencyKey = key := hcreateKey
    rw [hrequester', hcreateKey'] at hcreate
    cases hcoexist _ _ _ hlock hcreate
  | apply e ev actor input now t row hcur hnext hok hrow herrand hsupplier hkeys herrands
      htransitions houtbox hfences =>
    rw [herrands]
    intro e' he'
    rcases hs.keyed.unique.mem_updateRow hcur he' with rfl | ⟨he', -⟩
    · exact hfree e hcur
    · exact hfree e' he'
  | note _ _ _ _ _ herrands | fence _ _ _ _ _ _ herrands | close _ _ _ _ _ herrands
  | idle herrands =>
    rw [herrands]
    exact hfree

/-- Under a locked outbox key no row with the key appears. -/
theorem Sane.locked_outboxKey (hs : Sane s) (h : Disturbed (Commits hash ok) locks s s')
    {key : String} (hlock : (.outboxKey key, .exclusive) ∈ locks)
    (hfree : ∀ r ∈ s.outbox, r.idempotencyKey ≠ key) : ∀ r ∈ s'.outbox, r.idempotencyKey ≠ key := by
  refine (hs.disturbed (P := fun s => ∀ r ∈ s.outbox, r.idempotencyKey ≠ key) h ?_ hfree).2
  intro s s' locks' hcoexist hs hchange hfree
  have hother : ∀ r : OutboxRow, (.outboxKey r.idempotencyKey, .exclusive) ∈ locks' →
      r.idempotencyKey ≠ key := by
    rintro r hr rfl
    cases hcoexist _ _ _ hlock hr
  cases hchange with
  | create _ _ _ _ _ _ _ _ _ _ _ _ _ _ _ _ hkeys _ _ houtbox
  | apply _ _ _ _ _ _ _ _ _ _ _ _ _ hkeys _ _ houtbox =>
    rw [houtbox, List.forall_mem_append]
    exact ⟨hfree, fun r hr => hother r (hkeys r hr)⟩
  | note row hkey hkind hfresh hlock' herrands htransitions houtbox hfences =>
    rw [houtbox, List.forall_mem_append]
    refine ⟨hfree, fun r hr => ?_⟩
    obtain rfl := List.mem_singleton.mp hr
    exact hother r hlock'
  | fence _ _ _ _ _ _ _ _ houtbox | close _ _ _ _ _ _ _ houtbox | idle _ _ houtbox =>
    rw [houtbox]
    exact hfree

/-- A supplier without a fence gets one only under its exclusive lock. -/
theorem Change.fenced (hs : Sane s) (h : Change hash ok locks s s') {supplierID : String}
    (hopen : s.fenced supplierID = false) :
    s'.fenced supplierID = false ∨ (.supplier (hash supplierID), .exclusive) ∈ locks := by
  cases h with
  | create _ _ _ _ _ _ _ _ _ _ _ _ _ _ _ _ _ _ _ _ hfences
  | apply _ _ _ _ _ _ _ _ _ _ _ _ _ _ _ _ _ hfences | note _ _ _ _ _ _ _ _ hfences
  | idle _ _ _ hfences =>
    left
    rw [Tables.fenced, hfences]
    exact hopen
  | fence operationID supplierID' hnew hcanonical hfence hsupplier herrands htransitions houtbox hfences =>
    by_cases hsame : supplierID' = supplierID
    · exact Or.inr (hsame ▸ hsupplier)
    · left
      unfold Tables.fenced at hopen ⊢
      rw [hfences, List.any_append, hopen]
      simp [hsame]
  | close fence state hcur hstate hfence herrands htransitions houtbox hfences =>
    left
    unfold Tables.fenced at hopen ⊢
    rw [List.any_eq_false] at hopen ⊢
    have hmem := (mem_of_findRow hcur).1
    have hother : fence.supplierID ≠ supplierID := fun heq =>
      hopen fence hmem (by simp [heq, hstate])
    intro f hf
    rw [hfences] at hf
    rcases hs.fences.mem_updateRow hmem hf with rfl | ⟨hf, -⟩
    · simp [hother]
    · exact hopen f hf

/-- Under the shared lock a supplier without a fence gets none. -/
theorem Sane.locked_open (hs : Sane s) (h : Disturbed (Commits hash ok) locks s s')
    {supplierID : String} (hlock : (.supplier (hash supplierID), .shared) ∈ locks)
    (hopen : s.fenced supplierID = false) : s'.fenced supplierID = false := by
  refine (hs.disturbed (P := fun s => s.fenced supplierID = false) h ?_ hopen).2
  intro s s' locks' hcoexist hs hchange hopen
  rcases hchange.fenced hs hopen with hopen' | hexclusive
  · exact hopen'
  · cases hcoexist _ _ _ hlock hexclusive

/-- A supplier that no errand refers to is taken up only under its shared lock, and while
it has no fence. -/
theorem Change.refers (hs : Sane s) (h : Change hash ok locks s s') {supplierID : String}
    (hfree : ∀ e ∈ s.errands, ¬ e.Refers supplierID) :
    (∀ e ∈ s'.errands, ¬ e.Refers supplierID) ∨
      ((.supplier (hash supplierID), .shared) ∈ locks ∧ s.fenced supplierID = false) := by
  cases h with
  | create e actor input now t row hnext hid hok hrow hnew hkey herrand hcreate hsupplier hopen
      hkeys herrands htransitions houtbox hfences =>
    by_cases href : row.Refers supplierID
    · right
      rcases href.2 with hsame | ⟨q, hq, -⟩
      · exact hsame ▸ ⟨hsupplier, hopen⟩
      · -- a new errand has no pending edit
        obtain ⟨p, hp, -⟩ := (insertParams_ok hrow).pendingSupplier hq
        have hev := (next_for hnext).event
        have hstatus := status_of_submit hnext
        cases next_move hnext with
        | submit _ _ _ _ hy =>
          rw [hy.pendingEdit] at hp
          cases hp
        | «open» h | refuse h | fail h | edit _ h | requestEdit _ h | confirmEdit _ h
        | refuseEdit _ h | accept h | withdraw _ h | reopen h | expire h | refund h =>
          rw [hstatus] at h
          cases h
        | proceed _ h =>
          rw [hstatus] at h
          simp at h
        | complete h =>
          rw [hstatus] at h
          simp at h
    · left
      rw [herrands, List.forall_mem_append]
      refine ⟨hfree, fun e' he' => ?_⟩
      obtain rfl := List.mem_singleton.mp he'
      exact href
  | apply e ev actor input now t row hcur hnext hok hrow herrand hsupplier hkeys herrands
      htransitions houtbox hfences =>
    have hst : StoredAs (t.applyTo e) (e.overwrite row) :=
      overwrite_storedAs (insertParams_ok hrow) rfl
    by_cases href : (e.overwrite row).Refers supplierID
    · right
      rcases refers_of_next hnext (hs.keyed.regular e hcur).status hst (hs.suppliers e hcur) href
        with hbefore | ⟨target, htarget, hread⟩
      · exact absurd hbefore (hfree e hcur)
      · obtain ⟨id, hscan, hlock, hopen⟩ := hsupplier target htarget
        have hsame : id = supplierID := by
          rcases hread with hscan' | hcast
          · exact Option.some.inj (hscan.symm.trans hscan')
          · exact scanUUID_eq_castUUID hscan hcast
        exact hsame ▸ ⟨hlock, hopen⟩
    · left
      rw [herrands]
      intro e' he'
      rcases hs.keyed.unique.mem_updateRow hcur he' with rfl | ⟨he', -⟩
      · exact href
      · exact hfree e' he'
  | note _ _ _ _ _ herrands | fence _ _ _ _ _ _ herrands | close _ _ _ _ _ herrands
  | idle herrands =>
    left
    rw [herrands]
    exact hfree

/-- Under the exclusive lock a supplier that no errand refers to is not taken up. -/
theorem Sane.locked_unused (hs : Sane s) (h : Disturbed (Commits hash ok) locks s s')
    {supplierID : String} (hlock : (.supplier (hash supplierID), .exclusive) ∈ locks)
    (hfree : ∀ e ∈ s.errands, ¬ e.Refers supplierID) :
    ∀ e ∈ s'.errands, ¬ e.Refers supplierID := by
  refine (hs.disturbed (P := fun s => ∀ e ∈ s.errands, ¬ e.Refers supplierID) h ?_ hfree).2
  intro s s' locks' hcoexist hs hchange hfree
  rcases hchange.refers hs hfree with hfree' | ⟨hshared, -⟩
  · exact hfree'
  · cases hcoexist _ _ _ hlock hshared

/-- Only a transaction with the exclusive lock changes a fence: it is new and open, or it
was open and has another state now. -/
theorem Change.fenceOf (h : Change hash ok locks s s') (operationID : String) :
    s'.fenceOf operationID = s.fenceOf operationID ∨
      ((.fence operationID, .exclusive) ∈ locks ∧
        ((s.fenceOf operationID = none ∧ ∃ supplierID,
            s'.fenceOf operationID = some ⟨operationID, supplierID, .open⟩) ∨
          ∃ f state, s.fenceOf operationID = some f ∧ f.state = .open ∧
            s'.fenceOf operationID = some { f with state := state })) := by
  unfold Tables.fenceOf
  cases h with
  | create _ _ _ _ _ _ _ _ _ _ _ _ _ _ _ _ _ _ _ _ hfences
  | apply _ _ _ _ _ _ _ _ _ _ _ _ _ _ _ _ _ hfences | note _ _ _ _ _ _ _ _ hfences
  | idle _ _ _ hfences =>
    left
    rw [hfences]
  | fence operationID' supplierID hnew hcanonical hfence hsupplier herrands htransitions houtbox hfences =>
    rw [hfences, findRow_append_singleton]
    by_cases hsame : operationID' = operationID
    · subst hsame
      rw [Tables.fenceOf] at hnew
      exact Or.inr ⟨hfence, Or.inl ⟨hnew, supplierID, by rw [hnew, if_pos rfl]; rfl⟩⟩
    · left
      rw [if_neg hsame, Option.or_none]
  | close fence state hcur hstate hfence herrands htransitions houtbox hfences =>
    have hkeep : ∀ f : Fence, f.operationID = fence.operationID →
        ({ f with state := state } : Fence).operationID = f.operationID := fun _ _ => rfl
    rw [hfences, findRow_updateRow hkeep]
    by_cases hsame : fence.operationID = operationID
    · subst hsame
      rw [Tables.fenceOf] at hcur
      exact Or.inr ⟨hfence, Or.inr ⟨fence, state, hcur, hstate,
        by rw [hcur, Option.map_some, if_pos rfl]⟩⟩
    · left
      cases hfind : findRow Fence.operationID operationID s.fences with
      | none => rfl
      | some f =>
        have hop := (mem_of_findRow hfind).2
        rw [Option.map_some, if_neg fun heq => hsame (heq.symm.trans hop)]

/-- A locked fence stays as it is. -/
theorem Sane.locked_fence (hs : Sane s) (h : Disturbed (Commits hash ok) locks s s')
    {operationID : String} (hlock : (.fence operationID, .exclusive) ∈ locks) :
    s'.fenceOf operationID = s.fenceOf operationID := by
  refine (hs.disturbed (P := fun s₁ => s₁.fenceOf operationID = s.fenceOf operationID) h ?_ rfl).2
  intro s₁ s₂ locks' hcoexist hs₁ hchange hsame
  rcases hchange.fenceOf operationID with heq | ⟨hexclusive, -⟩
  · exact heq.trans hsame
  · cases hcoexist _ _ _ hlock hexclusive

end Changes

end FocServices.Orders
