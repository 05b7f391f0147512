import FocServices.Orders.Keys
import FocServices.Orders.Moves

/-!
# Steps of the order service

`Step` says what a transaction of the order service does to the stored errands and the
outbox: it creates an errand, applies one transition, adds the row of a rejection or of a
reminder, or does neither. `Keyed` is what the keys and the sequence numbers in the
outbox have to do with the stored errands. Every step keeps it, and with it no
transition emits a row whose key is taken.
-/

namespace FocServices.Orders

open Txn

/-! ## Stored rows -/

/-- The parts of a pending edit that encoding it does not touch. -/
def Errand.pendingCore (e : Errand) : Option (String × String × ℤ) :=
  e.pendingEdit.map fun p => (p.key, p.details.supplierID, p.details.reward)

/-- The row stores the errand. -/
structure StoredAs (e row : Errand) : Prop where
  id : scanUUID e.id = some row.id
  status : row.status = e.status
  version : row.version = e.version
  requesterID : row.requesterID = e.requesterID
  courierID : row.courierID = e.courierID
  supplierID : scanUUID e.details.supplierID = some row.details.supplierID
  reward : row.details.reward = e.details.reward
  pendingEdit : row.pendingCore = e.pendingCore

theorem parseUUID_eq_ok {name value id : String} :
    parseUUID name value = .ok id ↔ scanUUID value = some id := by
  unfold parseUUID
  split <;> simp_all

theorem encode_ok {d d' : Details} (h : d.encode = .ok d') :
    d'.supplierID = d.supplierID ∧ d'.reward = d.reward := by
  unfold Details.encode at h
  split at h
  · cases h
    exact ⟨rfl, rfl⟩
  · cases h

theorem encodePendingEdit_ok {p q : Option PendingEdit} (h : encodePendingEdit p = .ok q) :
    q.map (fun p => (p.key, p.details.supplierID, p.details.reward)) =
      p.map fun p => (p.key, p.details.supplierID, p.details.reward) := by
  cases p with
  | none =>
    cases h
    rfl
  | some p =>
    obtain ⟨d, hd, h⟩ := bind_eq_ok.mp h
    cases h
    obtain ⟨hsupplier, hreward⟩ := encode_ok hd
    simp [hsupplier, hreward]

theorem insertParams_ok {e row : Errand} (h : insertParams e = .ok row) : StoredAs e row := by
  unfold insertParams at h
  simp only [bind_eq_ok, check_eq_ok, parseUUID_eq_ok] at h
  obtain ⟨id, hid, supplierID, hsupplier, _, -, _, -, -, pendingEdit, hpending, h⟩ := h
  cases h
  exact ⟨hid, rfl, rfl, rfl, rfl, hsupplier, rfl, encodePendingEdit_ok hpending⟩

theorem isSome_pendingCore (e : Errand) : e.pendingCore.isSome = e.pendingEdit.isSome := by
  simp [Errand.pendingCore]

section

variable {e row : Errand}

theorem StoredAs.isSome_pendingEdit (h : StoredAs e row) :
    row.pendingEdit.isSome = e.pendingEdit.isSome := by
  rw [← isSome_pendingCore, h.pendingEdit, isSome_pendingCore]

theorem StoredAs.canonical (h : StoredAs e row) : Canonical row.id := canonical_of_scanUUID h.id

theorem StoredAs.id_eq (h : StoredAs e row) (hid : Canonical e.id) : row.id = e.id :=
  (Option.some.inj (hid.symm.trans h.id)).symm

/-- An update keeps the columns that never change, which the row repeats. -/
theorem overwrite_storedAs {old after : Errand} (h : StoredAs after row)
    (hrequester : after.requesterID = old.requesterID) : StoredAs after (old.overwrite row) :=
  ⟨h.id, h.status, h.version, hrequester.symm, h.courierID, h.supplierID, h.reward, h.pendingEdit⟩

end

/-! ## Which keys are taken -/

/-- Whether the outbox may hold a row of the operation and version for an errand in this
state. Rows of the current version exist once the version is reached, but an edit is
requested at a version only while it is pending. -/
def Emitted (e : Errand) (op : String) (v : ℕ) : Prop :=
  if v = 0 then (op = "reserve" ∧ e.status ≠ .none) ∨ e.status.terminal = true
  else v ≤ e.version ∧
    (v = e.version → op ∈ ["adjust", "edit_requested"] → e.pendingEdit.isSome = true)

/-- The errand is as the store keeps errands. -/
structure Regular (e : Errand) : Prop where
  canonical : Canonical e.id
  status : e.status ≠ .none
  version : 0 < e.version
  pendingEdit : ∀ p, e.pendingEdit = some p →
    e.status = .open ∧ p.key = idempotencyKey e.id "adjust" e.version

/-- The sequence number of an adjustment. -/
def OutboxRow.seq (row : OutboxRow) : Option ℤ :=
  match row.kind, row.payload with
  | .creditAdjust, .credit cmd => some cmd.seq
  | _, _ => none

/-- The sequence numbers of the adjustments of an errand, in the order they were sent. -/
def Tables.adjustSeqs (s : Tables) (errandID : String) : List ℤ :=
  (s.outbox.filter fun row => row.errandID = errandID).filterMap OutboxRow.seq

/-- The highest sequence number an errand may have used. -/
def Errand.seqBound (e : Errand) : ℤ :=
  if e.pendingEdit.isSome then adjustSeq e.version else revertSeq e.version

/-- How the outbox goes with the errands. -/
structure Keyed (s : Tables) : Prop where
  unique : UniqueKey Errand.id s.errands
  regular : ∀ e ∈ s.errands, Regular e
  distinct : UniqueKey OutboxRow.idempotencyKey s.outbox
  keys : ∀ row ∈ s.outbox, NoteKey row.idempotencyKey ∨
    ∃ e ∈ s.errands, ∃ op ∈ transitionOperations, ∃ v,
      row.idempotencyKey = idempotencyKey e.id op v ∧ Emitted e op v
  owners : ∀ row ∈ s.outbox, row.seq.isSome → ∃ e ∈ s.errands, e.id = row.errandID
  ascending : ∀ id, (s.adjustSeqs id).Pairwise (· < ·)
  bounded : ∀ e ∈ s.errands, ∀ seq ∈ s.adjustSeqs e.id, seq ≤ e.seqBound

/-! ## The rows of a move -/

/-- The key is free before the transition and taken after it. -/
def Fresh (e after : Errand) (op : String) (v : ℕ) : Prop := ¬ Emitted e op v ∧ Emitted after op v

section

variable {e after : Errand} {op : String}

theorem fresh_version (hversion : after.version = e.version + 1)
    (hop : op ∉ ["adjust", "edit_requested"]) : Fresh e after op (e.version + 1) := by
  unfold Fresh Emitted
  rw [if_neg (Nat.succ_ne_zero _), if_neg (Nat.succ_ne_zero _), hversion]
  exact ⟨fun h => absurd h.1 (by omega), Nat.le_refl _, fun _ h => absurd h hop⟩

theorem fresh_reserve (hstatus : e.status = .none) (hafter : after.status ≠ .none) :
    Fresh e after "reserve" 0 := by
  unfold Fresh Emitted
  rw [if_pos rfl, if_pos rfl, hstatus]
  exact ⟨by simp [Status.terminal], Or.inl ⟨rfl, hafter⟩⟩

theorem fresh_settlement (hstatus : e.status.terminal = false)
    (hafter : after.status.terminal = true) (hop : op ≠ "reserve") : Fresh e after op 0 := by
  unfold Fresh Emitted
  rw [if_pos rfl, if_pos rfl, hstatus]
  exact ⟨by simp [hop], Or.inr hafter⟩

theorem fresh_request (hversion : after.version = e.version) (hpos : 0 < e.version)
    (hpending : e.pendingEdit = none) (hafter : after.pendingEdit.isSome = true)
    (hop : op ∈ ["adjust", "edit_requested"]) : Fresh e after op e.version := by
  unfold Fresh Emitted
  rw [if_neg (by omega), if_neg (by omega), hversion, hpending]
  exact ⟨fun h => absurd (h.2 rfl hop) (by simp), Nat.le_refl _, fun _ _ => hafter⟩

end

/-- The keys of a transition are those of some operations and versions, all fresh and
no two the same. -/
def EmitsFresh (e : Errand) (t : Transition) : Prop :=
  ∃ ops : List (String × ℕ),
    t.outbox.map OutboxRow.idempotencyKey = ops.map (fun p => idempotencyKey e.id p.1 p.2) ∧
      ops.Nodup ∧ ∀ p ∈ ops, p.1 ∈ transitionOperations ∧ Fresh e (t.applyTo e) p.1 p.2

section

variable {e : Errand} {input : EventInput} {t : Transition}

/-- A transition to the next version that sends `credit` under the keys of `ops`. -/
theorem Yields.emitsFresh {target : Status} {details : Details} {courierID : String}
    {pendingEdit : Option PendingEdit} {credit : List OutboxRow} {names : List EventName}
    (hy : Yields e t target (e.version + 1) details courierID pendingEdit credit names)
    (ops : List (String × ℕ))
    (hcredit : credit.map OutboxRow.idempotencyKey =
      ops.map fun p => idempotencyKey e.id p.1 p.2)
    (hops : ∀ p ∈ ops, p.1 ∈ transitionOperations ∧ Fresh e (t.applyTo e) p.1 p.2)
    (hnames : ∀ name ∈ names, name.operation ∈ transitionOperations ∧
      name.operation ∉ ["adjust", "edit_requested"])
    (hnodup : (ops ++ names.map fun name => (name.operation, e.version + 1)).Nodup) :
    EmitsFresh e t := by
  refine ⟨ops ++ names.map fun name => (name.operation, e.version + 1), ?_, hnodup, ?_⟩
  · rw [hy.outbox, List.map_append, List.map_append, hcredit, List.map_map, List.map_map]
    refine congrArg _ (List.map_congr_left fun name _ => ?_)
    simp [eventRow, hy.version]
  · intro p hp
    rcases List.mem_append.mp hp with hp | hp
    · exact hops p hp
    · obtain ⟨name, hname, rfl⟩ := List.mem_map.mp hp
      obtain ⟨hmem, hother⟩ := hnames name hname
      exact ⟨hmem, fresh_version hy.version hother⟩

theorem Yields.emitsFresh_release {target : Status} {details : Details} {courierID : String}
    {pendingEdit : Option PendingEdit} {names : List EventName}
    (hy : Yields e t target (e.version + 1) details courierID pendingEdit [releaseRow e t] names)
    (hstatus : e.status.terminal = false) (htarget : target.terminal = true)
    (hnames : ∀ name ∈ names, name.operation ∈ transitionOperations ∧
      name.operation ∉ ["adjust", "edit_requested"])
    (hnodup : (names.map EventName.operation).Nodup) : EmitsFresh e t := by
  refine hy.emitsFresh [("release", 0)] rfl ?_ hnames ?_
  · intro p hp
    obtain rfl := List.mem_singleton.mp hp
    refine ⟨by decide, fresh_settlement hstatus ?_ (by decide)⟩
    exact (congrArg Status.terminal hy.target).trans htarget
  · rw [List.singleton_append, List.nodup_cons]
    refine ⟨by simp, ?_⟩
    have hcomp : (names.map fun name => (name.operation, e.version + 1)) =
        (names.map EventName.operation).map fun op => (op, e.version + 1) := by
      rw [List.map_map]
      rfl
    rw [hcomp]
    exact hnodup.map fun a b h => (Prod.mk.inj h).1

/-- The revert of a dropped edit, if there is one. -/
theorem Yields.emitsFresh_revert {target : Status} {details : Details} {courierID : String}
    {pendingEdit : Option PendingEdit} {name : EventName} {reverts : Bool}
    (hy : Yields e t target (e.version + 1) details courierID pendingEdit
      (if reverts then [revertRow e t] else []) [name])
    (hname : name.operation ∈ transitionOperations ∧
      name.operation ∉ ["adjust", "edit_requested", "adjust-revert"]) : EmitsFresh e t := by
  have hname' : ∀ name' ∈ [name], name'.operation ∈ transitionOperations ∧
      name'.operation ∉ ["adjust", "edit_requested"] := by
    intro name' h
    obtain rfl := List.mem_singleton.mp h
    exact ⟨hname.1, fun h => hname.2 (by simp at h ⊢; tauto)⟩
  cases reverts with
  | false => exact hy.emitsFresh [] rfl (by simp) hname' (by simp)
  | true =>
    refine hy.emitsFresh [("adjust-revert", e.version + 1)] ?_ ?_ hname' ?_
    · simp [revertRow, creditRow, hy.version]
    · intro p hp
      obtain rfl := List.mem_singleton.mp hp
      have hop : "adjust-revert" ∈ transitionOperations := by decide
      have hother : "adjust-revert" ∉ ["adjust", "edit_requested"] := by decide
      exact ⟨hop, fresh_version hy.version hother⟩
    · have hne : name.operation ≠ "adjust-revert" := fun h => hname.2 (by simp [h])
      simp [hne.symm]

theorem Move.emitsFresh (hm : Move e input t) (hversion : e.status ≠ .none → 0 < e.version) :
    EmitsFresh e t := by
  cases hm with
  | submit hstatus hzero hevent hreward hy =>
    have hone : 1 = e.version + 1 := by omega
    rw [hone] at hy
    refine hy.emitsFresh [("reserve", 0)] rfl ?_ (by decide) (by simp)
    intro p hp
    obtain rfl := List.mem_singleton.mp hp
    refine ⟨by decide, fresh_reserve hstatus ?_⟩
    have hafter : (t.applyTo e).status = .pendingReservation := hy.target
    rw [hafter]
    decide
  | «open» hstatus hevent hy => exact hy.emitsFresh [] rfl (by simp) (by decide) (by simp)
  | refuse hstatus hevent hy => exact hy.emitsFresh [] rfl (by simp) (by decide) (by simp)
  | fail hstatus hevent hy =>
    exact hy.emitsFresh_release (by rw [hstatus]; rfl) rfl (by decide) (by decide)
  | edit d hstatus hevent hpending hreward hpositive hy =>
    exact hy.emitsFresh [] rfl (by simp) (by decide) (by simp)
  | requestEdit p hstatus hevent hpending hreward hpositive hkey hy =>
    have hpos := hversion (by rw [hstatus]; decide)
    have hsome : (t.applyTo e).pendingEdit.isSome = true := by rw [hy.pendingEdit]; rfl
    have hfresh : ∀ op ∈ ["adjust", "edit_requested"], Fresh e (t.applyTo e) op e.version :=
      fun op hop => fresh_request hy.version hpos hpending hsome hop
    refine ⟨[("adjust", e.version), ("edit_requested", e.version)], ?_, by simp, ?_⟩
    · simp [hy.outbox, creditRow, eventRow, hy.version, EventName.operation]
    · simp only [List.forall_mem_cons]
      exact ⟨⟨by decide, hfresh _ (by decide)⟩, ⟨by decide, hfresh _ (by decide)⟩, by simp⟩
  | confirmEdit p hstatus hevent hpending hkey hy =>
    exact hy.emitsFresh [] rfl (by simp) (by decide) (by simp)
  | refuseEdit p hstatus hevent hpending hkey hy => exact hy.emitsFresh_revert (by decide)
  | accept hstatus hevent hactor hother hy => exact hy.emitsFresh_revert (by decide)
  | withdraw names hstatus htarget hy =>
    rcases htarget with ⟨-, htarget, rfl⟩ | ⟨-, htarget, rfl⟩
    all_goals
      exact hy.emitsFresh_release (by rw [hstatus]; rfl) (by rw [htarget]; rfl) (by decide)
        (by decide)
  | reopen hstatus hevent hy => exact hy.emitsFresh [] rfl (by simp) (by decide) (by simp)
  | expire hstatus hevent hy =>
    exact hy.emitsFresh_release (by rw [hstatus]; rfl) rfl (by decide) (by decide)
  | proceed name hstatus hy =>
    refine hy.emitsFresh [] rfl (by simp) ?_ (by simp)
    rcases hstatus with ⟨-, -, -, rfl⟩ | ⟨-, -, -, rfl⟩ | ⟨-, -, -, rfl⟩ | ⟨-, -, -, rfl⟩
    all_goals decide
  | complete hstatus hy =>
    have hlive : e.status.terminal = false := by
      rcases hstatus with ⟨hstatus, -⟩ | ⟨hstatus, -⟩ <;> rw [hstatus] <;> rfl
    refine hy.emitsFresh [("transfer", 0)] rfl ?_ (by decide) (by simp)
    intro p hp
    obtain rfl := List.mem_singleton.mp hp
    refine ⟨by decide, fresh_settlement hlive ?_ (by decide)⟩
    exact congrArg Status.terminal hy.target
  | refund hstatus hevent hy =>
    exact hy.emitsFresh_release (by rw [hstatus]; rfl) rfl (by decide) (by decide)

/-- A transition makes a new version, or requests an edit at the current one. -/
theorem Move.advance (hm : Move e input t) : t.newVersion = e.version + 1 ∨
    (t.newVersion = e.version ∧ e.status = .open ∧ e.pendingEdit = none ∧
      ∃ p, (t.applyTo e).pendingEdit = some p ∧ p.key = idempotencyKey e.id "adjust" e.version) := by
  cases hm with
  | requestEdit p hstatus hevent hpending hreward hpositive hkey hy =>
    exact Or.inr ⟨hy.version, hstatus, hpending, p, hy.pendingEdit, hkey⟩
  | submit hstatus hzero hevent hreward hy => exact Or.inl (by rw [hy.version, hzero])
  | «open» _ _ hy | refuse _ _ hy | fail _ _ hy | edit _ _ _ _ _ _ hy | confirmEdit _ _ _ _ _ hy
  | refuseEdit _ _ _ _ _ hy | accept _ _ _ _ hy | withdraw _ _ _ hy | reopen _ _ hy
  | expire _ _ hy | proceed _ _ hy | complete _ hy | refund _ _ hy => exact Or.inl hy.version

/-- The target of a transition is a stored status, and the source is not terminal. -/
theorem Move.status (hm : Move e input t) : t.target ≠ .none ∧ e.status.terminal = false := by
  cases hm with
  | withdraw names hstatus htarget hy =>
    rcases htarget with ⟨-, htarget, -⟩ | ⟨-, htarget, -⟩ <;> rw [hstatus, htarget] <;> decide
  | proceed name hstatus hy =>
    rcases hstatus with ⟨hs, -, ht, -⟩ | ⟨hs, -, ht, -⟩ | ⟨hs, -, ht, -⟩ | ⟨hs, -, ht, -⟩ <;>
      rw [hs, ht] <;> decide
  | complete hstatus hy =>
    rcases hstatus with ⟨hs, -⟩ | ⟨hs, -⟩ <;> rw [hs, hy.target] <;> decide
  | submit hs _ _ _ hy | «open» hs _ hy | refuse hs _ hy | fail hs _ hy | edit _ hs _ _ _ _ hy
  | requestEdit _ hs _ _ _ _ _ hy | confirmEdit _ hs _ _ _ hy | refuseEdit _ hs _ _ _ hy
  | accept hs _ _ _ hy | reopen hs _ hy | expire hs _ hy | refund hs _ hy =>
    rw [hs, hy.target]
    decide

/-- Only an errand that is open after the transition has a pending edit, and the edit was
requested at its version. -/
theorem Move.pendingEdit (hm : Move e input t)
    (hopen : e.status ≠ .none → e.pendingEdit.isSome → e.status = .open) {p : PendingEdit}
    (hp : (t.applyTo e).pendingEdit = some p) :
    t.target = .open ∧ p.key = idempotencyKey e.id "adjust" t.newVersion := by
  cases hm with
  | requestEdit q hstatus hevent hpending hreward hpositive hkey hy =>
    rw [hy.pendingEdit] at hp
    cases hp
    exact ⟨hy.target, by rw [hkey, hy.version]⟩
  | «open» hstatus _ hy | reopen hstatus _ hy =>
    rw [hy.pendingEdit] at hp
    have hcontra := hopen (by rw [hstatus]; decide) (by rw [hp]; rfl)
    rw [hstatus] at hcontra
    cases hcontra
  | submit _ _ _ _ hy | refuse _ _ hy | fail _ _ hy | edit _ _ _ _ _ _ hy
  | confirmEdit _ _ _ _ _ hy | refuseEdit _ _ _ _ _ hy | accept _ _ _ _ hy | withdraw _ _ _ hy
  | expire _ _ hy | proceed _ _ hy | complete _ hy | refund _ _ hy =>
    rw [hy.pendingEdit] at hp
    cases hp

/-- Keys stay taken. -/
theorem Emitted.move (hm : Move e input t) {op : String} {v : ℕ} (h : Emitted e op v) :
    Emitted (t.applyTo e) op v := by
  obtain ⟨htarget, hlive⟩ := hm.status
  unfold Emitted at h ⊢
  split at h
  · next hv =>
    rw [if_pos hv]
    rcases h with ⟨hop, -⟩ | hterminal
    · exact Or.inl ⟨hop, htarget⟩
    · rw [hlive] at hterminal
      cases hterminal
  · next hv =>
    rw [if_neg hv]
    rcases hm.advance with hnew | ⟨hsame, -, -, p, hp, -⟩
    · have hversion : (t.applyTo e).version = e.version + 1 := hnew
      rw [hversion]
      exact ⟨by omega, fun heq => by omega⟩
    · have hversion : (t.applyTo e).version = e.version := hsame
      rw [hversion, hp]
      exact ⟨h.1, fun _ _ => rfl⟩

/-- Only the adjustments among the credit rows have sequence numbers. -/
theorem Yields.seqs {target : Status} {version : ℕ} {details : Details} {courierID : String}
    {pendingEdit : Option PendingEdit} {credit : List OutboxRow} {names : List EventName}
    (hy : Yields e t target version details courierID pendingEdit credit names) :
    t.outbox.filterMap OutboxRow.seq = credit.filterMap OutboxRow.seq := by
  have hevents : (names.map (eventRow e (t.applyTo e) t)).filterMap OutboxRow.seq = [] := by
    rw [List.filterMap_eq_nil_iff]
    intro row hrow
    obtain ⟨name, -, rfl⟩ := List.mem_map.mp hrow
    rfl
  rw [hy.outbox, List.filterMap_append, hevents, List.append_nil]

/-- The transition sends at most one adjustment, and its number is higher than any that
an errand in the source state may have used. -/
def SendsAscending (e : Errand) (t : Transition) : Prop :=
  e.seqBound ≤ (t.applyTo e).seqBound ∧
    (t.outbox.filterMap OutboxRow.seq = [] ∨
      ∃ seq, t.outbox.filterMap OutboxRow.seq = [seq] ∧ e.seqBound < seq ∧
        seq ≤ (t.applyTo e).seqBound)

theorem seqBound_of_version (hversion : t.newVersion = e.version + 1) :
    e.seqBound < revertSeq t.newVersion ∧
      revertSeq t.newVersion ≤ (t.applyTo e).seqBound := by
  have hafter : (t.applyTo e).version = e.version + 1 := hversion
  unfold Errand.seqBound adjustSeq revertSeq
  rw [hafter, hversion]
  constructor <;> split <;> push_cast <;> omega

theorem Yields.sendsAscending {target : Status} {details : Details} {courierID : String}
    {pendingEdit : Option PendingEdit} {credit : List OutboxRow} {names : List EventName}
    (hy : Yields e t target (e.version + 1) details courierID pendingEdit credit names)
    (hcredit : credit.filterMap OutboxRow.seq = [] ∨
      credit.filterMap OutboxRow.seq = [revertSeq t.newVersion]) : SendsAscending e t := by
  have hbound := seqBound_of_version hy.version
  refine ⟨by omega, ?_⟩
  rw [hy.seqs]
  rcases hcredit with hnone | hrevert
  · exact Or.inl hnone
  · exact Or.inr ⟨_, hrevert, hbound⟩

theorem seqs_revert {reverts : Bool} :
    (if reverts then [revertRow e t] else []).filterMap OutboxRow.seq = [] ∨
      (if reverts then [revertRow e t] else []).filterMap OutboxRow.seq =
        [revertSeq t.newVersion] := by
  cases reverts with
  | false => exact Or.inl rfl
  | true => exact Or.inr rfl

theorem Move.sendsAscending (hm : Move e input t) : SendsAscending e t := by
  cases hm with
  | submit hstatus hzero hevent hreward hy =>
    have hone : 1 = e.version + 1 := by omega
    rw [hone] at hy
    exact hy.sendsAscending (Or.inl rfl)
  | requestEdit p hstatus hevent hpending hreward hpositive hkey hy =>
    have hversion : (t.applyTo e).version = e.version := hy.version
    have hseqs : t.outbox.filterMap OutboxRow.seq = [adjustSeq e.version] := hy.seqs
    have hbefore : e.seqBound = revertSeq e.version := by simp [Errand.seqBound, hpending]
    have hafter : (t.applyTo e).seqBound = adjustSeq e.version := by
      simp [Errand.seqBound, hy.pendingEdit, hversion]
    have hlt : revertSeq e.version < adjustSeq e.version := by
      unfold revertSeq adjustSeq
      omega
    exact ⟨by omega, Or.inr ⟨_, hseqs, by omega, by omega⟩⟩
  | refuseEdit p hstatus hevent hpending hkey hy => exact hy.sendsAscending seqs_revert
  | accept hstatus hevent hactor hother hy => exact hy.sendsAscending seqs_revert
  | «open» _ _ hy | refuse _ _ hy | fail _ _ hy | edit _ _ _ _ _ _ hy | confirmEdit _ _ _ _ _ hy
  | withdraw _ _ _ hy | reopen _ _ hy | expire _ _ hy | proceed _ _ hy | complete _ hy
  | refund _ _ hy => exact hy.sendsAscending (Or.inl rfl)

theorem Yields.errandID_rows {target : Status} {version : ℕ} {details : Details}
    {courierID : String} {pendingEdit : Option PendingEdit} {credit : List OutboxRow}
    {names : List EventName}
    (hy : Yields e t target version details courierID pendingEdit credit names)
    (hcredit : ∀ row ∈ credit, row.errandID = e.id) : ∀ row ∈ t.outbox, row.errandID = e.id := by
  rw [hy.outbox, List.forall_mem_append]
  exact ⟨hcredit, by simp [eventRow]⟩

/-- All rows of a transition are about its errand. -/
theorem Move.errandID_rows (hm : Move e input t) : ∀ row ∈ t.outbox, row.errandID = e.id := by
  have hrevert : ∀ reverts : Bool,
      ∀ row ∈ (if reverts then [revertRow e t] else []), row.errandID = e.id := by
    intro reverts
    cases reverts <;> simp [revertRow, creditRow]
  cases hm with
  | refuseEdit _ _ _ _ _ hy | accept _ _ _ _ hy => exact hy.errandID_rows (hrevert _)
  | submit _ _ _ _ hy | «open» _ _ hy | refuse _ _ hy | fail _ _ hy | edit _ _ _ _ _ _ hy
  | requestEdit _ _ _ _ _ _ _ hy | confirmEdit _ _ _ _ _ hy | withdraw _ _ _ hy | reopen _ _ hy
  | expire _ _ hy | proceed _ _ hy | complete _ hy | refund _ _ hy =>
    exact hy.errandID_rows (by simp [releaseRow, creditRow])

end

/-! ## Steps -/

/-- What a transaction does to the errands and the outbox. `may` says which events can be
raised for an errand. -/
inductive Step (may : Errand → Event → EventInput → Prop) (s s' : Tables) : Prop where
  | create (e : Errand) (actor : Actor) (input : EventInput) (now : ℤ) (t : Transition)
      (row : Errand) (hnext : next e .submit actor input now = .ok t) (hid : Canonical e.id)
      (hrow : insertParams (t.applyTo e) = .ok row) (hnew : ∀ e' ∈ s.errands, e'.id ≠ e.id)
      (herrands : s'.errands = s.errands ++ [row]) (houtbox : s'.outbox = s.outbox ++ t.outbox)
  | apply (e : Errand) (ev : Event) (actor : Actor) (input : EventInput) (now : ℤ)
      (t : Transition) (row : Errand) (hcur : e ∈ s.errands)
      (hnext : next e ev actor input now = .ok t) (hmay : may e ev input)
      (hrow : insertParams (t.applyTo e) = .ok row)
      (herrands : s'.errands =
        updateRow Errand.id e.id (fun old => old.overwrite row) s.errands)
      (houtbox : s'.outbox = s.outbox ++ t.outbox)
  | note (row : OutboxRow) (hkey : NoteKey row.idempotencyKey) (hkind : ∃ name, row.kind = .event name)
      (hfresh : ∀ r ∈ s.outbox, r.idempotencyKey ≠ row.idempotencyKey)
      (herrands : s'.errands = s.errands) (houtbox : s'.outbox = s.outbox ++ [row])
  | idle (herrands : s'.errands = s.errands) (houtbox : s'.outbox = s.outbox)

/-! ## Steps keep the outbox in order -/

section

variable {s s' : Tables} {e row stored : Errand} {input : EventInput} {t : Transition}

theorem StoredAs.emitted (h : StoredAs e row) {op : String} {v : ℕ} :
    Emitted row op v ↔ Emitted e op v := by
  unfold Emitted
  rw [h.status, h.version, h.isSome_pendingEdit]

theorem StoredAs.seqBound (h : StoredAs e row) : row.seqBound = e.seqBound := by
  unfold Errand.seqBound
  rw [h.version, h.isSome_pendingEdit]

/-- The stored errand `e` has been replaced by `stored`, or `e` is new and was stored so. -/
structure Replaces (s s' : Tables) (e stored : Errand) : Prop where
  before : e ∈ s.errands ∨ (e.status = .none ∧ ∀ e' ∈ s.errands, e'.id ≠ e.id)
  canonical : Canonical e.id
  id : stored.id = e.id
  unique : UniqueKey Errand.id s'.errands
  mem : ∀ e', e' ∈ s'.errands ↔ e' = stored ∨ (e' ∈ s.errands ∧ e'.id ≠ e.id)

theorem Keyed.eq_of_id (hk : Keyed s) (hr : Replaces s s' e stored) {e' : Errand}
    (he' : e' ∈ s.errands) (hid : e'.id = e.id) : e' = e := by
  rcases hr.before with he | ⟨-, hnew⟩
  · exact hk.unique.eq he' he hid
  · exact absurd hid (hnew e' he')

/-- Of a stored errand, the invariant knows that it is regular. -/
theorem Keyed.regular_before (hk : Keyed s) (hr : Replaces s s' e stored)
    (hstatus : e.status ≠ .none) : Regular e := by
  rcases hr.before with he | ⟨hnone, -⟩
  · exact hk.regular e he
  · exact absurd hnone hstatus

/-- What a transition leaves behind is regular. -/
theorem Keyed.regular_stored (hk : Keyed s) (hr : Replaces s s' e stored) (hm : Move e input t)
    (hst : StoredAs (t.applyTo e) stored) : Regular stored := by
  have hopen : e.status ≠ .none → e.pendingEdit.isSome → e.status = .open := by
    intro hstatus h
    obtain ⟨p, hp⟩ := Option.isSome_iff_exists.mp h
    exact ((hk.regular_before hr hstatus).pendingEdit p hp).1
  refine ⟨hr.id ▸ hr.canonical, ?_, ?_, ?_⟩
  · rw [hst.status]
    exact hm.status.1
  · have hversion : stored.version = t.newVersion := hst.version
    rcases hm.advance with hnew | ⟨hsame, hstatus, -⟩
    · omega
    · have hpos := (hk.regular_before hr (by rw [hstatus]; decide)).version
      omega
  · intro q hq
    have hcore := hst.pendingEdit
    unfold Errand.pendingCore at hcore
    rw [hq, Option.map_some] at hcore
    obtain ⟨p, hp, hcore⟩ := Option.map_eq_some_iff.mp hcore.symm
    obtain ⟨htarget, hkey⟩ := hm.pendingEdit hopen hp
    have hversion : stored.version = t.newVersion := hst.version
    refine ⟨hst.status.trans htarget, ?_⟩
    rw [← (Prod.mk.inj hcore).1, hkey, hr.id, hversion]

/-- No key of a transition is taken. -/
theorem Keyed.key_free (hk : Keyed s) (hr : Replaces s s' e stored) (hm : Move e input t)
    {new : OutboxRow} (hnew : new ∈ t.outbox) :
    ∀ row ∈ s.outbox, row.idempotencyKey ≠ new.idempotencyKey := by
  intro row hrow heq
  obtain ⟨ops, hkeys, -, hfresh⟩ :=
    hm.emitsFresh fun hstatus => (hk.regular_before hr hstatus).version
  have hmem : new.idempotencyKey ∈ ops.map (fun p => idempotencyKey e.id p.1 p.2) := by
    rw [← hkeys]
    exact List.mem_map_of_mem hnew
  obtain ⟨⟨op, v⟩, hp, hkey⟩ := List.mem_map.mp hmem
  obtain ⟨hop, hfree, -⟩ := hfresh _ hp
  rcases hk.keys row hrow with hnote | ⟨e', he', op', hop', v', hkey', hemitted⟩
  · exact noteKey_ne hnote hr.canonical hop (heq.trans hkey.symm)
  · obtain ⟨hid, rfl, rfl⟩ := idempotencyKey_inj (hk.regular e' he').canonical hr.canonical hop' hop
      (hkey'.symm.trans (heq.trans hkey.symm))
    exact hfree (hk.eq_of_id hr he' hid ▸ hemitted)

theorem EmitsFresh.nodup (h : EmitsFresh e t) (hid : Canonical e.id) :
    (t.outbox.map OutboxRow.idempotencyKey).Nodup := by
  obtain ⟨ops, hkeys, hnodup, hfresh⟩ := h
  rw [hkeys]
  refine hnodup.map_on fun p hp q hq heq => ?_
  obtain ⟨-, hop, hv⟩ := idempotencyKey_inj hid hid (hfresh p hp).1 (hfresh q hq).1 heq
  exact Prod.ext hop hv

theorem adjustSeqs_append {rows : List OutboxRow} (houtbox : s'.outbox = s.outbox ++ rows)
    (id : String) : s'.adjustSeqs id = s.adjustSeqs id ++
      (rows.filter fun row => row.errandID = id).filterMap OutboxRow.seq := by
  simp [Tables.adjustSeqs, houtbox]

/-- The adjustments of other errands stay as they are. -/
theorem adjustSeqs_other {rows : List OutboxRow} (houtbox : s'.outbox = s.outbox ++ rows)
    {id : String} (hrows : ∀ row ∈ rows, row.errandID ≠ id ∨ row.seq = none) :
    s'.adjustSeqs id = s.adjustSeqs id := by
  have hnil : (rows.filter fun row => row.errandID = id).filterMap OutboxRow.seq = [] := by
    rw [List.filterMap_eq_nil_iff]
    intro row hrow
    obtain ⟨hmem, hid⟩ := List.mem_filter.mp hrow
    exact (hrows row hmem).resolve_left (not_not.mpr (by simpa using hid))
  rw [adjustSeqs_append houtbox, hnil, List.append_nil]

theorem mem_adjustSeqs {id : String} {seq : ℤ} :
    seq ∈ s.adjustSeqs id ↔ ∃ row ∈ s.outbox, row.errandID = id ∧ row.seq = some seq := by
  simp [Tables.adjustSeqs, and_assoc]

theorem Keyed.seqs_before (hk : Keyed s) (hr : Replaces s s' e stored) :
    ∀ seq ∈ s.adjustSeqs e.id, seq ≤ e.seqBound := by
  intro seq hseq
  rcases hr.before with he | ⟨-, hnew⟩
  · exact hk.bounded e he seq hseq
  · obtain ⟨row, hrow, hid, hrowSeq⟩ := mem_adjustSeqs.mp hseq
    obtain ⟨e', he', hid'⟩ := hk.owners row hrow (by rw [hrowSeq]; rfl)
    exact absurd (hid'.trans hid) (hnew e' he')

/-- Writing a transition keeps the outbox in order. -/
theorem Keyed.replace (hk : Keyed s) (hr : Replaces s s' e stored) (hm : Move e input t)
    (hst : StoredAs (t.applyTo e) stored) (houtbox : s'.outbox = s.outbox ++ t.outbox) :
    Keyed s' := by
  have hemits := hm.emitsFresh fun hstatus => (hk.regular_before hr hstatus).version
  have hstored : stored ∈ s'.errands := (hr.mem stored).mpr (Or.inl rfl)
  -- an errand of the old tables is still there, or it is the one that was replaced
  have hkept : ∀ e' ∈ s.errands, e' ∈ s'.errands ∨ e' = e := by
    intro e' he'
    by_cases hid : e'.id = e.id
    · exact Or.inr (hk.eq_of_id hr he' hid)
    · exact Or.inl ((hr.mem e').mpr (Or.inr ⟨he', hid⟩))
  obtain ⟨hmono, hsends⟩ := hm.sendsAscending
  have hown : s'.adjustSeqs e.id = s.adjustSeqs e.id ++ t.outbox.filterMap OutboxRow.seq := by
    have hall : (t.outbox.filter fun row => row.errandID = e.id) = t.outbox :=
      List.filter_eq_self.mpr fun row hrow => by simp [hm.errandID_rows row hrow]
    rw [adjustSeqs_append houtbox, hall]
  have hother : ∀ id, id ≠ e.id → s'.adjustSeqs id = s.adjustSeqs id := fun id hid =>
    adjustSeqs_other houtbox fun row hrow =>
      Or.inl fun h => hid (h.symm.trans (hm.errandID_rows row hrow))
  refine ⟨hr.unique, ?_, ?_, ?_, ?_, ?_, ?_⟩
  · intro e' he'
    rcases (hr.mem e').mp he' with rfl | ⟨he', -⟩
    · exact hk.regular_stored hr hm hst
    · exact hk.regular e' he'
  · unfold UniqueKey
    rw [houtbox, List.map_append, List.nodup_append]
    refine ⟨hk.distinct, hemits.nodup hr.canonical, ?_⟩
    intro key hkey key' hkey'
    obtain ⟨row, hrow, rfl⟩ := List.mem_map.mp hkey
    obtain ⟨new, hnew, rfl⟩ := List.mem_map.mp hkey'
    exact hk.key_free hr hm hnew row hrow
  · rw [houtbox, List.forall_mem_append]
    constructor
    · intro row hrow
      rcases hk.keys row hrow with hnote | ⟨e', he', op, hop, v, hkey, hemitted⟩
      · exact Or.inl hnote
      rcases hkept e' he' with he' | rfl
      · exact Or.inr ⟨e', he', op, hop, v, hkey, hemitted⟩
      · exact Or.inr ⟨stored, hstored, op, hop, v, by rw [hr.id, hkey],
          hst.emitted.mpr (hemitted.move hm)⟩
    · intro row hrow
      obtain ⟨ops, hkeys, -, hfresh⟩ := hemits
      have hmem : row.idempotencyKey ∈ ops.map (fun p => idempotencyKey e.id p.1 p.2) := by
        rw [← hkeys]
        exact List.mem_map_of_mem hrow
      obtain ⟨⟨op, v⟩, hp, hkey⟩ := List.mem_map.mp hmem
      obtain ⟨hop, -, hemitted⟩ := hfresh _ hp
      exact Or.inr ⟨stored, hstored, op, hop, v, by rw [hr.id, ← hkey], hst.emitted.mpr hemitted⟩
  · rw [houtbox, List.forall_mem_append]
    constructor
    · intro row hrow hseq
      obtain ⟨e', he', hid⟩ := hk.owners row hrow hseq
      rcases hkept e' he' with he' | rfl
      · exact ⟨e', he', hid⟩
      · exact ⟨stored, hstored, hr.id.trans hid⟩
    · intro row hrow _
      exact ⟨stored, hstored, hr.id.trans (hm.errandID_rows row hrow).symm⟩
  · intro id
    by_cases hid : id = e.id
    · subst hid
      rw [hown]
      rcases hsends with hnone | ⟨seq, hone, hgt, -⟩
      · rw [hnone, List.append_nil]
        exact hk.ascending e.id
      · rw [hone, List.pairwise_append]
        refine ⟨hk.ascending e.id, List.pairwise_singleton _ _, fun a ha b hb => ?_⟩
        obtain rfl := List.mem_singleton.mp hb
        have hle := hk.seqs_before hr a ha
        omega
    · rw [hother id hid]
      exact hk.ascending id
  · intro e' he' seq hseq
    rcases (hr.mem e').mp he' with rfl | ⟨he', hid⟩
    · rw [hr.id, hown] at hseq
      rw [hst.seqBound]
      rcases List.mem_append.mp hseq with hseq | hseq
      · have hle := hk.seqs_before hr seq hseq
        omega
      · rcases hsends with hnone | ⟨seq', hone, -, hle⟩
        · rw [hnone] at hseq
          cases hseq
        · rw [hone] at hseq
          obtain rfl := List.mem_singleton.mp hseq
          exact hle
    · rw [hother e'.id hid] at hseq
      exact hk.bounded e' he' seq hseq

/-- Only a new errand is submitted. -/
theorem status_of_submit {actor : Actor} {now : ℤ}
    (hnext : next e .submit actor input now = .ok t) : e.status = .none := by
  obtain ⟨r, t₀, hd⟩ := next_ok hnext
  have htable : ∀ r ∈ transitionTable, r.event = .submit → r.source = .none := by decide
  rw [← hd.source]
  exact htable r hd.mem hd.event

theorem replaces_create (hk : Keyed s) (hstatus : e.status = .none) (hid : Canonical e.id)
    (hrow : row.id = e.id) (hnew : ∀ e' ∈ s.errands, e'.id ≠ e.id)
    (herrands : s'.errands = s.errands ++ [row]) : Replaces s s' e row := by
  refine ⟨Or.inr ⟨hstatus, hnew⟩, hid, hrow, ?_, ?_⟩
  · rw [herrands, uniqueKey_append_singleton]
    exact ⟨hk.unique, fun e' he' => hrow ▸ hnew e' he'⟩
  · intro e'
    rw [herrands, List.mem_append, List.mem_singleton]
    constructor
    · rintro (he' | rfl)
      · exact Or.inr ⟨he', hnew e' he'⟩
      · exact Or.inl rfl
    · rintro (rfl | ⟨he', -⟩)
      · exact Or.inr rfl
      · exact Or.inl he'

theorem replaces_apply (hk : Keyed s) (he : e ∈ s.errands) (hrow : row.id = e.id)
    (herrands : s'.errands =
      updateRow Errand.id e.id (fun old => old.overwrite row) s.errands) :
    Replaces s s' e (e.overwrite row) := by
  have hkey : ∀ r : Errand, r.id = e.id → (r.overwrite row).id = r.id :=
    fun r hr => hrow.trans hr.symm
  refine ⟨Or.inl he, (hk.regular e he).canonical, hrow, ?_, ?_⟩
  · rw [herrands]
    exact hk.unique.updateRow hkey
  · intro e'
    rw [herrands]
    constructor
    · exact hk.unique.mem_updateRow he
    · rintro (rfl | ⟨he', hid⟩)
      · exact mem_updateRow_self he
      · exact mem_updateRow.mpr ⟨e', he', if_neg hid⟩

/-- Every step keeps the outbox in order. -/
theorem Keyed.step {may : Errand → Event → EventInput → Prop} (hk : Keyed s)
    (hstep : Step may s s') : Keyed s' := by
  cases hstep with
  | create e actor input now t row hnext hid hrow hnew herrands houtbox =>
    have hst := insertParams_ok hrow
    have hr := replaces_create hk (status_of_submit hnext) hid (hst.id_eq hid) hnew herrands
    exact hk.replace hr (next_move hnext) hst houtbox
  | apply e ev actor input now t row hcur hnext hmay hrow herrands houtbox =>
    have hst := insertParams_ok hrow
    have hr := replaces_apply hk hcur (hst.id_eq (hk.regular e hcur).canonical) herrands
    exact hk.replace hr (next_move hnext) (overwrite_storedAs hst rfl) houtbox
  | note row hkey hkind hfresh herrands houtbox =>
    have hseq : row.seq = none := by
      obtain ⟨name, hkind⟩ := hkind
      simp [OutboxRow.seq, hkind]
    have hsame : ∀ id, s'.adjustSeqs id = s.adjustSeqs id := fun id =>
      adjustSeqs_other houtbox (by simp [hseq])
    refine ⟨herrands ▸ hk.unique, herrands ▸ hk.regular, ?_, ?_, ?_, ?_, ?_⟩
    · rw [houtbox, uniqueKey_append_singleton]
      exact ⟨hk.distinct, hfresh⟩
    · rw [houtbox, herrands, List.forall_mem_append]
      exact ⟨hk.keys, by simp [hkey]⟩
    · rw [houtbox, herrands, List.forall_mem_append]
      exact ⟨hk.owners, by simp [hseq]⟩
    · intro id
      rw [hsame]
      exact hk.ascending id
    · intro e he
      rw [hsame]
      exact hk.bounded e (herrands ▸ he)
  | idle herrands houtbox =>
    have hsame : ∀ id, s'.adjustSeqs id = s.adjustSeqs id := by simp [Tables.adjustSeqs, houtbox]
    exact ⟨herrands ▸ hk.unique, herrands ▸ hk.regular, houtbox ▸ hk.distinct,
      by rw [houtbox, herrands]; exact hk.keys, by rw [houtbox, herrands]; exact hk.owners,
      fun id => hsame id ▸ hk.ascending id,
      fun e he => by rw [hsame]; exact hk.bounded e (herrands ▸ he)⟩

theorem keyed_empty : Keyed {} := by
  constructor <;> simp [UniqueKey, Tables.adjustSeqs]

end

end FocServices.Orders
