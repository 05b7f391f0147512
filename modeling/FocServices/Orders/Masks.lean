import FocServices.Orders.Routes

/-!
# Details that decisions do not depend on

A mask replaces the notes and the contact person of an errand by others. Deciding, applying
and storing a transition commute with it, so that two runs which a mask makes equal show the
same to everybody who does not see what it replaces.
-/

namespace FocServices.Orders

open Txn

/-! ## Masks -/

/-- A replacement of notes and contact persons by others that are as valid. -/
structure Mask where
  notes : String → String := id
  contactName : String → String := id
  contactMobile : String → String := id
  contactName_ok : ∀ s, contactProblem s maxContactName = "" →
    contactProblem (contactName s) maxContactName = ""
  contactMobile_ok : ∀ s, contactProblem s maxContactMobile = "" →
    contactProblem (contactMobile s) maxContactMobile = ""

/-- A column update with its value changed. -/
def Update.map {α β : Type} (f : α → β) (u : Update α) : Update β := ⟨u.set, u.value.map f⟩

namespace Mask

variable (m : Mask)

def details (d : Details) : Details :=
  { d with
    notes := m.notes d.notes
    contactName := m.contactName d.contactName
    contactMobile := m.contactMobile d.contactMobile }

def pendingEdit (p : PendingEdit) : PendingEdit := { p with details := m.details p.details }

def errand (e : Errand) : Errand :=
  { e with details := m.details e.details, pendingEdit := e.pendingEdit.map m.pendingEdit }

def input (i : EventInput) : EventInput := { i with edit := i.edit.map m.details }

/-- The payload of an event has no contact person. -/
def payload : Payload → Payload
  | .event data =>
    .event { data with pendingEdit := data.pendingEdit.map fun d =>
      { d with notes := m.notes d.notes } }
  | p => p

def row (r : OutboxRow) : OutboxRow := { r with payload := m.payload r.payload }

def changes (c : Changes) : Changes :=
  { c with details := c.details.map m.details, pendingEdit := c.pendingEdit.map m.pendingEdit }

def transition (t : Transition) : Transition :=
  { t with changes := m.changes t.changes, outbox := t.outbox.map m.row }

end Mask

/-- A check that succeeds is followed by the same, up to a map of the results. -/
theorem bind_eq_map {ε α β γ : Type} {x : Except ε α} {f : α → Except ε γ} {g : α → Except ε β}
    {k : β → γ} (h : ∀ a, f a = (g a).map k) : (x >>= f) = (x >>= g).map k := by
  cases x with
  | error err => rfl
  | ok a => exact h a

section Commutes

variable {m : Mask} {e row : Errand} {ev : Event} {actor : Actor} {input : EventInput} {now : ℤ}
  {t t₀ : Transition} {r : Rule}

/-! ## Deciding -/

theorem validateDetails_mask {d : Details} {newDeadline : Bool}
    (h : validateDetails d now newDeadline = .ok ()) :
    validateDetails (m.details d) now newDeadline = .ok () := by
  simp only [validateDetails, ite_eq_left_iff, reduceCtorEq, imp_false, not_not,
    List.append_eq_nil_iff] at h ⊢
  obtain ⟨⟨⟨hreward, hname⟩, hmobile⟩, hdeadline⟩ := h
  exact ⟨⟨⟨hreward, m.contactName_ok _ hname⟩, m.contactMobile_ok _ hmobile⟩, hdeadline⟩

theorem chooseRule_mask (rules : List Rule) (failed : Option Guard) :
    chooseRule (m.errand e) now rules failed = chooseRule e now rules failed := by
  induction rules generalizing failed with
  | nil => rfl
  | cons r rules ih =>
    unfold chooseRule
    have hguards : (fun g => !guardHolds g (m.errand e) now) = fun g => !guardHolds g e now := rfl
    rw [hguards]
    split
    · rfl
    · exact ih _

theorem checkActor_mask (rel : Relationship) :
    checkActor rel (m.errand e) actor (m.input input) = checkActor rel e actor input := rfl

@[simp] theorem map_unchanged {α β : Type} (f : α → β) : Update.map f {} = {} := rfl

theorem pendingKey_mask : (m.errand e).pendingKey = e.pendingKey := by
  unfold Errand.pendingKey Mask.errand
  cases e.pendingEdit <;> rfl

theorem isSome_mask : (m.errand e).pendingEdit.isSome = e.pendingEdit.isSome :=
  Option.isSome_map

theorem ruleTransition_mask : r.transition (m.errand e) ev actor (m.input input) now =
    m.transition (r.transition e ev actor input now) := by
  simp only [Rule.transition, Mask.transition, Mask.changes, pendingKey_mask]
  rfl

/-- The pending edit that an answer of the credit service is about. -/
theorem filter_mask (key : String) : (m.errand e).pendingEdit.filter (fun p => p.key = key) =
    (e.pendingEdit.filter fun p => p.key = key).map m.pendingEdit := by
  unfold Mask.errand
  cases e.pendingEdit with
  | none => rfl
  | some p =>
    by_cases hkey : p.key = key
    · simp [Option.filter, hkey, Mask.pendingEdit]
    · simp [Option.filter, hkey, Mask.pendingEdit]

/-- The details that a decision checks are as valid under the mask. -/
structure Mask.Fits (m : Mask) (e : Errand) (ev : Event) (input : EventInput) (now : ℤ) : Prop where
  submit : ev = .submit →
    validateDetails (m.details e.details) now true = validateDetails e.details now true
  edit : ev = .edit → ∀ d, input.edit = some d →
    let newDeadline := decide (d.acceptanceDeadline ≠ e.details.acceptanceDeadline)
    validateDetails (m.details d) now newDeadline = validateDetails d now newDeadline

theorem applyEvent_mask (h : m.Fits e t.event input now) :
    applyEvent (m.transition t) (m.errand e) (m.input input) now =
      (applyEvent t e input now).map m.transition := by
  have hevent : (m.transition t).event = t.event := rfl
  unfold applyEvent
  rw [hevent]
  cases hev : t.event <;> rw [hev] at h
  case submit =>
    have hvalid : validateDetails (m.errand e).details now true =
      validateDetails e.details now true := h.submit rfl
    dsimp only
    rw [hvalid]
    change (if e.id = "" then _ else if e.version ≠ 0 then _ else _) = _
    split
    · rfl
    split
    · rfl
    exact bind_eq_map fun _ => rfl
  case edit =>
    dsimp only
    rw [isSome_mask]
    split
    · rfl
    cases hedit : input.edit with
    | none =>
      have hnone : (m.input input).edit = none := by simp [Mask.input, hedit]
      rw [hnone]
      rfl
    | some d =>
      have hsome : (m.input input).edit = some (m.details d) := by simp [Mask.input, hedit]
      have hvalid : validateDetails (m.details d) now
          (decide ((m.details d).acceptanceDeadline ≠ (m.errand e).details.acceptanceDeadline)) =
          validateDetails d now (decide (d.acceptanceDeadline ≠ e.details.acceptanceDeadline)) :=
        h.edit rfl d hedit
      rw [hsome]
      dsimp only
      rw [hvalid]
      refine bind_eq_map fun _ => ?_
      change (if d.reward = e.details.reward then _ else _) = Except.map _ (ite _ _ _)
      split <;> rfl
  case editConfirmed | editRefused =>
    have hkey : (m.input input).editKey = input.editKey := rfl
    dsimp only
    rw [hkey, filter_mask]
    cases e.pendingEdit.filter fun p => p.key = input.editKey <;> rfl
  case accept | deliver =>
    exact bind_eq_map fun _ => rfl
  all_goals rfl

theorem dropPendingEdit_mask :
    (m.transition t).dropPendingEdit (m.errand e) = m.transition (t.dropPendingEdit e) := by
  unfold Transition.dropPendingEdit Mask.transition Mask.changes Mask.errand
  cases e.pendingEdit with
  | none => rfl
  | some p =>
    by_cases htarget : t.target = .open
    · simp [htarget]
    · simp [htarget, setNull, Update.map]

theorem applyTo_map {α β : Type} (f : α → β) (u : Update α) (current : Option α) :
    (u.map f).applyTo (current.map f) = (u.applyTo current).map f := by
  unfold Update.applyTo Update.map
  split <;> rfl

theorem applyTo_mask : (m.transition t).applyTo (m.errand e) = m.errand (t.applyTo e) := by
  have hdetails : (t.changes.details.map m.details).getD (m.details e.details) =
      m.details (t.changes.details.getD e.details) := by
    cases t.changes.details <;> rfl
  unfold Transition.applyTo Mask.errand
  simp only [Mask.transition, Mask.changes, hdetails, applyTo_map]
  rfl

/-! ## Rows -/

theorem requestedEdit_mask :
    (m.transition t).requestedEdit = t.requestedEdit.map m.pendingEdit := by
  unfold Transition.requestedEdit
  change (if t.event = .edit ∧ t.changes.pendingEdit.set = true then _ else _) = _
  split <;> rfl

theorem effectRows_mask :
    effectRows r (m.errand e) (m.transition t) = (effectRows r e t).map m.row := by
  unfold effectRows
  rw [applyTo_mask]
  cases r.credit <;> rfl

theorem adjustRows_mask : adjustRows (m.errand e) (m.transition t) (m.input input) =
    (adjustRows e t input).map m.row := by
  have hreverts : revertsAdjust (m.errand e) (m.transition t) (m.input input) =
      revertsAdjust e t input := by
    unfold revertsAdjust
    rw [isSome_mask]
    rfl
  unfold adjustRows
  rw [requestedEdit_mask, hreverts]
  cases t.requestedEdit <;> cases revertsAdjust e t input <;> rfl

theorem eventRow_mask {after : Errand} (name : EventName) :
    eventRow (m.errand e) (m.errand after) (m.transition t) name =
      m.row (eventRow e after t name) := by
  unfold eventRow
  rw [requestedEdit_mask, isSome_mask]
  cases t.requestedEdit <;> rfl

theorem outboxRows_mask : outboxRows r (m.errand e) (m.transition t) (m.input input) =
    (outboxRows r e t input).map m.row := by
  unfold outboxRows
  rw [effectRows_mask, adjustRows_mask, applyTo_mask, requestedEdit_mask, Option.isSome_map,
    List.map_append, List.map_append, List.map_map]
  exact congrArg (_ ++ ·) (List.map_congr_left fun name _ => eventRow_mask name)

/-- Deciding commutes with a mask. -/
theorem next_mask (h : m.Fits e ev input now) :
    next (m.errand e) ev actor (m.input input) now =
      (next e ev actor input now).map m.transition := by
  have hstatus : (m.errand e).status = e.status := rfl
  have hreason : (m.input input).reason = input.reason := rfl
  unfold next
  rw [hstatus, hreason]
  by_cases hterminal : e.status.terminal = true
  · rw [if_pos hterminal, if_pos hterminal]
    rfl
  rw [if_neg hterminal, if_neg hterminal]
  split
  · split <;> rfl
  next candidate candidates _ =>
  rw [checkActor_mask, chooseRule_mask]
  refine bind_eq_map fun _ => bind_eq_map fun r => ?_
  split
  · rfl
  have hevent : (r.transition e ev actor input now).event = ev := rfl
  dsimp only
  rw [ruleTransition_mask, applyEvent_mask (hevent ▸ h)]
  cases applyEvent (r.transition e ev actor input now) e input now with
  | error err => rfl
  | ok t₀ =>
    change Except.ok _ = Except.ok _
    rw [dropPendingEdit_mask, outboxRows_mask]
    rfl

/-- A decision that succeeds has checked the details. -/
theorem Mask.fits_of_next (h : next e ev actor input now = .ok t) : m.Fits e ev input now := by
  obtain ⟨r, t₀, hd⟩ := next_ok h
  have happlied := hd.applied
  constructor
  · rintro rfl
    simp only [applyEvent, Rule.transition] at happlied
    split at happlied
    · cases happlied
    split at happlied
    · cases happlied
    obtain ⟨_, hvalid, -⟩ := bind_eq_ok.mp happlied
    rw [hvalid, validateDetails_mask hvalid]
  · rintro rfl d hedit
    simp only [applyEvent, Rule.transition, hedit] at happlied
    split at happlied
    · cases happlied
    obtain ⟨_, hvalid, -⟩ := bind_eq_ok.mp happlied
    dsimp only
    rw [hvalid, validateDetails_mask hvalid]

/-! ## Storing -/

theorem encodePendingEdit_mask (p : Option PendingEdit) :
    encodePendingEdit (p.map m.pendingEdit) =
      (encodePendingEdit p).map (Option.map m.pendingEdit) := by
  cases p with
  | none => rfl
  | some p =>
    have hencode : (m.details p.details).encode = p.details.encode.map m.details := by
      have hsnapshot : (m.details p.details).deliveryBuildingSnapshot =
          p.details.deliveryBuildingSnapshot := rfl
      have hitems : (m.details p.details).items = p.details.items := rfl
      unfold Details.encode
      rw [hsnapshot, hitems]
      cases p.details.deliveryBuildingSnapshot.encode <;> cases p.details.items.encode <;> rfl
    change ((m.details p.details).encode >>= _) = Except.map _ (p.details.encode >>= _)
    rw [hencode]
    cases p.details.encode <;> rfl

/-- Storing commutes with a mask. -/
theorem insertParams_mask : insertParams (m.errand e) = (insertParams e).map m.errand := by
  unfold insertParams
  refine bind_eq_map fun id => bind_eq_map fun supplierID => bind_eq_map fun versionID =>
    bind_eq_map fun buildingID => ?_
  change (if (maxInt32 : ℤ) < e.details.reward ∨ maxInt32 < e.version then _ else _) = _
  split
  · rfl
  · change (encodePendingEdit (e.pendingEdit.map m.pendingEdit) >>= _) = _
    rw [encodePendingEdit_mask]
    cases encodePendingEdit e.pendingEdit <;> rfl

end Commutes

/-! ## Runs -/

/-- An event of a run. -/
structure Occurrence where
  event : Event
  actor : Actor
  input : EventInput := {}
  now : ℤ
  deriving DecidableEq, Repr

/-- One step of a run: the transition, and the errand after it as it was decided, or as it
is then stored. -/
def Errand.advance (stored : Bool) (e : Errand) (o : Occurrence) :
    Except StoreError (Transition × Errand) := do
  let t ← (next e o.event o.actor o.input o.now).mapError StoreError.app
  if stored then
    let row ← insertParams (t.applyTo e)
    return (t, if t.source = .none then row else e.overwrite row)
  else return (t, t.applyTo e)

/-- A run in which every step is accepted. -/
def Errand.trace (stored : Bool) : Errand → List Occurrence →
    Except StoreError (List (Transition × Errand))
  | _, [] => return []
  | e, o :: os => do
    let (t, e') ← e.advance stored o
    let rest ← e'.trace stored os
    return (t, e') :: rest

def Mask.occurrence (m : Mask) (o : Occurrence) : Occurrence := { o with input := m.input o.input }

def Mask.step (m : Mask) (x : Transition × Errand) : Transition × Errand :=
  (m.transition x.1, m.errand x.2)

section Runs

variable {m : Mask} {stored : Bool} {e e₁ e₂ : Errand}

theorem advance_mask {o : Occurrence} {x : Transition × Errand} (h : e.advance stored o = .ok x) :
    (m.errand e).advance stored (m.occurrence o) = .ok (m.step x) := by
  obtain ⟨t, hnext, h⟩ := bind_eq_ok.mp h
  have hdecided := mapError_eq_ok.mp hnext
  have hmasked : next (m.errand e) o.event o.actor (m.input o.input) o.now =
      .ok (m.transition t) := by
    rw [next_mask (Mask.fits_of_next hdecided), hdecided]
    rfl
  refine bind_eq_ok.mpr ⟨m.transition t, mapError_eq_ok.mpr hmasked, ?_⟩
  rw [applyTo_mask, insertParams_mask]
  cases stored with
  | false =>
    cases h
    rfl
  | true =>
    obtain ⟨row, hrow, h⟩ := bind_eq_ok.mp h
    cases h
    rw [hrow]
    change Except.ok (m.transition t, if t.source = .none then _ else _) = _
    unfold Mask.step
    split <;> rfl

theorem trace_mask {os : List Occurrence} {xs : List (Transition × Errand)}
    (h : e.trace stored os = .ok xs) :
    (m.errand e).trace stored (os.map m.occurrence) = .ok (xs.map m.step) := by
  induction os generalizing e xs with
  | nil =>
    cases h
    rfl
  | cons o os ih =>
    obtain ⟨⟨t, e'⟩, hadvance, h⟩ := bind_eq_ok.mp h
    obtain ⟨rest, hrest, h⟩ := bind_eq_ok.mp h
    cases h
    exact bind_eq_ok.mpr ⟨_, advance_mask hadvance, bind_eq_ok.mpr ⟨_, ih hrest, rfl⟩⟩

end Runs

/-! ## Without the contact person -/

def PendingEdit.withoutContact (p : PendingEdit) : PendingEdit :=
  { p with details := p.details.withoutContact }

def Errand.withoutContact (e : Errand) : Errand :=
  { e with
    details := e.details.withoutContact
    pendingEdit := e.pendingEdit.map PendingEdit.withoutContact }

def Occurrence.withoutContact (o : Occurrence) : Occurrence :=
  { o with input := { o.input with edit := o.input.edit.map Details.withoutContact } }

/-- Everybody has the same contact person. -/
def sameContact : Mask where
  contactName _ := "x"
  contactMobile _ := "0"
  contactName_ok := by
    intro _ _
    decide
  contactMobile_ok := by
    intro _ _
    decide

theorem sameContact_withoutContact (e : Errand) :
    sameContact.errand e.withoutContact = sameContact.errand e := by
  unfold Errand.withoutContact Mask.errand
  cases e.pendingEdit <;> rfl

theorem sameContact_occurrence (o : Occurrence) :
    sameContact.occurrence o.withoutContact = sameContact.occurrence o := by
  unfold Occurrence.withoutContact Mask.occurrence Mask.input
  cases o.input.edit <;> rfl

theorem sameContact_row (r : OutboxRow) : sameContact.row r = r := by
  obtain ⟨kind, key, errandID, payload⟩ := r
  cases payload with
  | event data =>
    obtain ⟨_, _, _, _, _, _, _, _, _, _, _, _, _, pendingEdit, _⟩ := data
    cases pendingEdit <;> rfl
  | _ => rfl

/-- What the other services, the couriers and the public get to see of a step. -/
structure SameStep (x y : Transition × Errand) : Prop where
  outbox : x.1.outbox = y.1.outbox
  status : x.2.status = y.2.status
  version : x.2.version = y.2.version
  acceptanceDeadline : x.2.details.acceptanceDeadline = y.2.details.acceptanceDeadline
  pickupDeadline : x.2.pickupDeadline = y.2.pickupDeadline
  deliveryDeadline : x.2.deliveryDeadline = y.2.deliveryDeadline
  deliveredAt : x.2.deliveredAt = y.2.deliveredAt
  verificationDeadline : x.2.verificationDeadline = y.2.verificationDeadline
  openView : ∀ buildingName pickup,
    openViewOf buildingName x.2 pickup = openViewOf buildingName y.2 pickup
  publicView : ∀ buildingName pickups,
    publicView buildingName x.2 pickups = publicView buildingName y.2 pickups

theorem sameStep_of_mask {x y : Transition × Errand}
    (h : sameContact.step x = sameContact.step y) : SameStep x y := by
  obtain ⟨t₁, e₁⟩ := x
  obtain ⟨t₂, e₂⟩ := y
  obtain ⟨ht, he⟩ := Prod.mk.inj h
  have houtbox : ∀ t : Transition, (sameContact.transition t).outbox = t.outbox := fun t => by
    simp [Mask.transition, funext sameContact_row]
  -- none of what is seen tells an errand from its masked one
  refine ⟨?_, (congrArg Errand.status he :), (congrArg Errand.version he :),
    (congrArg (fun e => e.details.acceptanceDeadline) he :), (congrArg Errand.pickupDeadline he :),
    (congrArg Errand.deliveryDeadline he :), (congrArg Errand.deliveredAt he :),
    (congrArg Errand.verificationDeadline he :),
    fun buildingName pickup => (congrArg (openViewOf buildingName · pickup) he :),
    fun buildingName pickups => (congrArg (Orders.publicView buildingName · pickups) he :)⟩
  rw [← houtbox t₁, ht, houtbox t₂]

theorem trace_sameContact {stored : Bool} {e₁ e₂ : Errand} {os₁ os₂ : List Occurrence}
    {xs ys : List (Transition × Errand)} (herrand : e₁.withoutContact = e₂.withoutContact)
    (hos : os₁.map Occurrence.withoutContact = os₂.map Occurrence.withoutContact)
    (hxs : e₁.trace stored os₁ = .ok xs) (hys : e₂.trace stored os₂ = .ok ys) :
    List.Forall₂ SameStep xs ys := by
  have he : sameContact.errand e₁ = sameContact.errand e₂ := by
    rw [← sameContact_withoutContact e₁, herrand, sameContact_withoutContact]
  have hmask : ∀ os : List Occurrence, os.map sameContact.occurrence =
      (os.map Occurrence.withoutContact).map sameContact.occurrence := fun os => by
    rw [List.map_map]
    exact List.map_congr_left fun o _ => (sameContact_occurrence o).symm
  have hsame : xs.map sameContact.step = ys.map sameContact.step := by
    have hxs' := trace_mask (m := sameContact) hxs
    rw [he, hmask, hos, ← hmask, trace_mask hys] at hxs'
    exact (Except.ok.inj hxs').symm
  have hsteps : List.Forall₂ Eq (xs.map sameContact.step) (ys.map sameContact.step) := by
    rw [hsame]
    exact List.forall₂_refl _
  rw [List.forall₂_map_left_iff, List.forall₂_map_right_iff] at hsteps
  exact hsteps.imp fun _ _ => sameStep_of_mask

/-! ## What the views leave out -/

/-- An errand without its requester, its notes and its contact person. -/
def Errand.anonymous (e : Errand) : Errand :=
  let strip := fun d : Details => { d.withoutContact with notes := "" }
  { e with
    requesterID := ""
    details := strip e.details
    pendingEdit := e.pendingEdit.map fun p => { p with details := strip p.details } }

/-- An errand as its courier may see it. -/
def Errand.forCourier (e : Errand) : Errand :=
  { e with
    requesterID := ""
    pendingEdit := none
    details := if e.status ∈ contactStatuses then e.details else e.details.withoutContact }

theorem courierView_forCourier (buildingName : RawMessage → String) (e : Errand)
    (pickups : Pickups) :
    courierView buildingName e.forCourier pickups = courierView buildingName e pickups := by
  unfold Errand.forCourier
  by_cases hstatus : e.status ∈ contactStatuses
  · rw [if_pos hstatus]
    rfl
  · simp only [courierView, fieldsOf, buildingOf, if_neg hstatus, Details.withoutContact]

/-- Two runs of the same events, all accepted, that differ in the contact persons only send
the same rows, and show the same errand to couriers and the public. The open and the public
view leave out the requester, the notes and the contact person; the view of the courier
leaves out the requester, a pending edit and, outside `contactStatuses`, the contact person. -/
theorem contact_unseen :
    (∀ (stored : Bool) (e₁ e₂ : Errand) (os₁ os₂ : List Occurrence)
      (xs ys : List (Transition × Errand)), e₁.withoutContact = e₂.withoutContact →
      os₁.map Occurrence.withoutContact = os₂.map Occurrence.withoutContact →
      e₁.trace stored os₁ = .ok xs → e₂.trace stored os₂ = .ok ys →
        List.Forall₂ SameStep xs ys) ∧
    (∀ (buildingName : RawMessage → String) (e₁ e₂ : Errand), e₁.anonymous = e₂.anonymous →
      (∀ pickup, openViewOf buildingName e₁ pickup = openViewOf buildingName e₂ pickup) ∧
      ∀ pickups, publicView buildingName e₁ pickups = publicView buildingName e₂ pickups) ∧
    ∀ (buildingName : RawMessage → String) (e₁ e₂ : Errand), e₁.forCourier = e₂.forCourier →
      ∀ pickups, courierView buildingName e₁ pickups = courierView buildingName e₂ pickups := by
  refine ⟨fun stored e₁ e₂ os₁ os₂ xs ys => trace_sameContact, fun buildingName e₁ e₂ h => ?_,
    fun buildingName e₁ e₂ h pickups => ?_⟩
  · exact ⟨fun pickup => (congrArg (openViewOf buildingName · pickup) h :),
      fun pickups => (congrArg (publicView buildingName · pickups) h :)⟩
  · rw [← courierView_forCourier, h, courierView_forCourier]

/-- `sampleErrand` with another contact person. -/
def otherContact : Errand :=
  { sampleErrand with
    details := { sampleErrand.details with contactName := "Neighbour", contactMobile := "81234567" } }

/-- An errand is submitted and opened, and its reward is raised. -/
def sampleEdits (d : Details) : List Occurrence :=
  [{ event := .submit, actor := ⟨.requester, "auth0|requester"⟩, now := 0 },
    { event := .reservationConfirmed, actor := systemActor, now := 0 },
    { event := .edit, actor := ⟨.requester, "auth0|requester"⟩, now := 0,
      input := { edit := some { d with reward := 7 } } },
    { event := .editConfirmed, actor := systemActor, now := 0,
      input := { editKey := idempotencyKey sampleErrand.id "adjust" 2 } }]

/-- The edit is published without the contact person, and then installed with it. -/
theorem contact_unseen_edit : ∃ xs ys,
    sampleErrand.trace true (sampleEdits sampleErrand.details) = .ok xs ∧
    otherContact.trace true (sampleEdits otherContact.details) = .ok ys ∧ xs.length = 4 ∧
    List.Forall₂ SameStep xs ys := by
  have hlength : (sampleErrand.trace true (sampleEdits sampleErrand.details)).toOption.map
      List.length = some 4 := by decide
  have hother : (otherContact.trace true (sampleEdits otherContact.details)).toOption.isSome =
      true := by decide
  obtain ⟨xs, hxs, hfour⟩ := Option.map_eq_some_iff.mp hlength
  obtain ⟨ys, hys⟩ := Option.isSome_iff_exists.mp hother
  rw [toOption_eq_some] at hxs hys
  exact ⟨xs, ys, hxs, hys, hfour, contact_unseen.1 true _ _ _ _ xs ys (by decide)
    (by decide) hxs hys⟩

end FocServices.Orders
