import FocServices.Orders.Store

/-!
# Idempotency keys

A key is an errand identifier, an operation and a rest, with colons between them. An
identifier in canonical form has no colon and a fixed length, and no operation has a
colon, so a key that starts with such an identifier can be read back in one way only.
-/

namespace FocServices.Orders

/-! ## Reading a key back -/

/-- What may follow an operation in a key: nothing, or a colon and more. -/
def KeyRest (rest : List Char) : Prop := ∀ c ∈ rest.head?, c = ':'

/-- The key is made of an identifier, an operation and a rest. -/
structure Spells (key errandID operation : String) (rest : List Char) : Prop where
  toList : key.toList = errandID.toList ++ ':' :: (operation.toList ++ rest)
  operation : ':' ∉ operation.toList
  rest : KeyRest rest

/-- A text without colons ends where the first colon is. -/
theorem append_rest_inj {op op' rest rest' : List Char} (hop : ':' ∉ op) (hop' : ':' ∉ op')
    (hrest : KeyRest rest) (hrest' : KeyRest rest') (h : op ++ rest = op' ++ rest') :
    op = op' ∧ rest = rest' := by
  induction op generalizing op' with
  | nil =>
    cases op' with
    | nil => exact ⟨rfl, h⟩
    | cons c op' =>
      rw [List.nil_append] at h
      have hc : c = ':' := hrest c (by simp [h])
      exact absurd (hc ▸ List.mem_cons_self) hop'
  | cons c op ih =>
    cases op' with
    | nil =>
      rw [List.nil_append] at h
      have hc : c = ':' := hrest' c (by simp [← h])
      exact absurd (hc ▸ List.mem_cons_self) hop
    | cons c' op' =>
      simp only [List.cons_append, List.cons.injEq] at h
      obtain ⟨rfl, h⟩ := h
      obtain ⟨rfl, rfl⟩ := ih (fun hc => hop (List.mem_cons_of_mem _ hc))
        (fun hc => hop' (List.mem_cons_of_mem _ hc)) h
      exact ⟨rfl, rfl⟩

/-- A text that scans as a UUID has 36 characters, or 32 without separators. -/
theorem length_of_scanUUID {s u : String} (h : scanUUID s = some u) :
    s.toList.length = 36 ∨ s.toList.length = 32 := by
  obtain ⟨a, b, c, d, e, ha, hb, hc, hd, he, -, -, hs⟩ := scanUUID_eq_some h
  rcases hs with hs | ⟨x, y, z, w, hs⟩
  · right
    simp [hs, ha, hb, hc, hd, he]
  · left
    simp [hs, ha, hb, hc, hd, he]

/-- A key of a canonical identifier is spelled in one way. -/
theorem Spells.unique {key a b op op' : String} {rest rest' : List Char} (h : Spells key a op rest)
    (h' : Spells key b op' rest') (ha : Canonical a) (hb : (scanUUID b).isSome) :
    a = b ∧ op = op' ∧ rest = rest' := by
  obtain ⟨u, hu⟩ := Option.isSome_iff_exists.mp hb
  have hpattern := (uuidPattern_of_canonical ha).1
  have hlen := length_of_uuidPattern hpattern
  have heq := h.toList.symm.trans h'.toList
  rcases length_of_scanUUID hu with hlen' | hlen'
  · obtain ⟨hid, hop⟩ := List.append_inj heq (hlen.trans hlen'.symm)
    obtain ⟨hop, hrest⟩ := append_rest_inj h.operation h'.operation h.rest h'.rest
      (List.cons.inj hop).2
    exact ⟨String.toList_injective hid, String.toList_injective hop, hrest⟩
  · -- the colon after the shorter identifier would stand inside the canonical one
    have hcolon : (a.toList ++ ':' :: (op.toList ++ rest))[32]? = some ':' := by
      rw [heq, List.getElem?_append_right (by omega)]
      simp [hlen']
    rw [List.getElem?_append_left (by omega)] at hcolon
    exact absurd (List.mem_of_getElem? hcolon) (colon_notMem_uuid hpattern)

/-! ## The keys of transitions -/

/-- What follows the operation in `idempotencyKey`. -/
def versionRest (version : ℕ) : List Char :=
  if 0 < version then ':' :: (toString version).toList else []

theorem versionRest_injective {v v' : ℕ} (h : versionRest v = versionRest v') : v = v' := by
  unfold versionRest at h
  split at h <;> split at h
  · exact repr_injective (String.toList_injective (List.cons.inj h).2)
  · cases h
  · cases h
  · omega

/-- The operations of transitions: the credit operations and the lifecycle events. -/
def transitionOperations : List String :=
  ["reserve", "adjust", "adjust-revert", "release", "transfer", "placed", "opened", "rejected",
    "edited", "edit_requested", "edit_rejected", "accepted", "cancelled", "withdrawn", "expired",
    "picked_up", "delivered", "review_required", "completed", "refunded"]

theorem colon_notMem_operation : ∀ op ∈ transitionOperations, ':' ∉ op.toList := by
  simp only [transitionOperations, List.forall_mem_cons, String.reduceToList]
  decide

theorem spells_idempotencyKey {errandID operation : String} (version : ℕ)
    (hop : ':' ∉ operation.toList) :
    Spells (idempotencyKey errandID operation version) errandID operation
      (versionRest version) := by
  refine ⟨?_, hop, ?_⟩
  · unfold idempotencyKey versionRest
    split <;> simp
  · intro c hc
    unfold versionRest at hc
    split at hc
    · simpa using hc.symm
    · simp at hc

/-- Different errands, operations or versions have different keys. -/
theorem idempotencyKey_inj {a b op op' : String} {v v' : ℕ} (ha : Canonical a) (hb : Canonical b)
    (hop : op ∈ transitionOperations) (hop' : op' ∈ transitionOperations)
    (h : idempotencyKey a op v = idempotencyKey b op' v') : a = b ∧ op = op' ∧ v = v' := by
  have hspells : Spells (idempotencyKey a op v) a op _ :=
    spells_idempotencyKey v (colon_notMem_operation op hop)
  have hspells' : Spells (idempotencyKey b op' v') b op' _ :=
    spells_idempotencyKey v' (colon_notMem_operation op' hop')
  rw [← h] at hspells'
  obtain ⟨hid, hop, hrest⟩ := hspells.unique hspells' ha (by rw [hb]; rfl)
  exact ⟨hid, hop, versionRest_injective hrest⟩

/-! ## The keys of rejections and reminders -/

/-- The operations in the keys of rejections and reminders. -/
def noteOperations : List String :=
  ["accept-rejected", "cancel-rejected", "pickup-rejected", "verify-reminder", "pickup-reminder"]

/-- A key no transition has: its operation is another one. -/
def NoteKey (key : String) : Prop :=
  ∃ errandID operation rest, (scanUUID errandID).isSome ∧ operation ∈ noteOperations ∧
    Spells key errandID operation rest

theorem noteKey_ne {key errandID operation : String} {version : ℕ} (hkey : NoteKey key)
    (hid : Canonical errandID) (hop : operation ∈ transitionOperations) :
    key ≠ idempotencyKey errandID operation version := by
  rintro rfl
  obtain ⟨id, op, rest, hscan, hnote, hspells⟩ := hkey
  have hspells' : Spells (idempotencyKey errandID operation version) errandID operation _ :=
    spells_idempotencyKey version (colon_notMem_operation _ hop)
  obtain ⟨-, rfl, -⟩ := hspells'.unique hspells hid hscan
  have hdisjoint : ∀ op ∈ noteOperations, op ∉ transitionOperations := by decide
  exact hdisjoint _ hnote hop

theorem colon_notMem_note : ∀ op ∈ noteOperations, ':' ∉ op.toList := by
  simp only [noteOperations, List.forall_mem_cons, String.reduceToList]
  decide

theorem noteKey_rejectionKey {errandID : String} (action : RejectedAction) (requestID : String)
    (hid : (scanUUID errandID).isSome) : NoteKey (rejectionKey errandID action requestID) := by
  have hop : action.text ++ "-rejected" ∈ noteOperations := by
    cases action <;> decide
  refine ⟨errandID, action.text ++ "-rejected", ':' :: requestID.toList, hid, hop, ?_,
    colon_notMem_note _ hop, ?_⟩
  · have hcolon : "-rejected:" = "-rejected" ++ ":" := by decide
    simp [rejectionKey, hcolon]
  · intro c hc
    simpa using hc.symm

theorem noteKey_reminder {errandID : String} (kind : ReminderKind) (version : ℕ)
    (hid : (scanUUID errandID).isSome) :
    NoteKey (idempotencyKey errandID kind.operation version) := by
  have hop : kind.operation ∈ noteOperations := by
    cases kind <;> decide
  exact ⟨errandID, kind.operation, versionRest version, hid, hop,
    spells_idempotencyKey version (colon_notMem_note _ hop)⟩

end FocServices.Orders
