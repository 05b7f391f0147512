import FocServices.Orders.Lifecycle

/-!
# Handlers that read before they write

`POST /errands` and `POST /errands/{errandId}/accept` read the errand, and accepting also
reads the courier's history, in statements of their own before the transaction that
writes. A handler is a body like a transaction: a read takes no lock, so that any number
of commits may come between it and what follows. `Task` is what runs interleaved.
-/

namespace FocServices.Orders

open Txn

/-- `Store.Get`, with `none` for the error that there is no such errand. -/
def find (id : String) : Tx (Option Errand) :=
  match scanUUID id with
  | none => return none
  | some uuid => do
    match ← query (.getErrand uuid) with
    | .error .noRows => return none
    | .error e => .fail (.db e)
    | .ok e => return some e

/-- `Store.Get`. -/
def get (id : String) : Tx Errand := do
  match ← find id with
  | none => .fail (notFound id)
  | some e => return e

theorem getErrand_cases {hash : String → ℤ} (grantable : Lock → Mode → Bool) (id : String) (s : Tables) :
    (∃ e ∈ s.errands, e.id = id ∧ exec hash grantable (.getErrand id) s = ⟨.ok e, [], []⟩) ∨
      (∀ e ∈ s.errands, e.id ≠ id) ∧
        exec hash grantable (.getErrand id) s = ⟨.error .noRows, [], []⟩ := by
  simp only [exec]
  split
  · next e he => exact Or.inl ⟨e, (mem_of_findRow he).1, (mem_of_findRow he).2, rfl⟩
  · next hnone => exact Or.inr ⟨findRow_eq_none.mp hnone, rfl⟩

/-- What a read of an errand finds. -/
theorem get_found {hash : String → ℤ} {id : String} {s : Tables} {e : Errand}
    (hreply : ((engine hash).atomically (get id) s 0).1 = .ok e) :
    e ∈ s.errands ∧ scanUUID id = some e.id := by
  have hspec : (engine hash).wp (fun _ _ => True) (fun r _ _ => ∀ e, r = .ok e →
      e ∈ s.errands ∧ scanUUID id = some e.id) (get id) s 0 := by
    unfold get find
    cases hid : scanUUID id with
    | none =>
      intro _ h
      cases h
    | some uuid =>
      refine ⟨trivial, ?_⟩
      simp only [Engine.storeAfter, Engine.execAlone, engine]
      rcases @getErrand_cases hash (fun _ _ => true) uuid s with
        ⟨e, he, rfl, hanswer⟩ | ⟨-, hanswer⟩
      · rw [hanswer]
        intro _ heq
        cases heq
        exact ⟨he, rfl⟩
      · rw [hanswer]
        intro _ h
        cases h
  rcases Engine.wp_atomically hspec with ⟨_, hok, hpost⟩ | ⟨_, herr, -⟩
  · exact hpost e (hok.symm.trans hreply)
  · rw [herr] at hreply
    cases hreply

/-- `errand.WithdrawalRestriction`; its duration is not read. -/
structure WithdrawalRestriction where
  count : ℤ
  window : ℤ
  deriving DecidableEq, Repr

/-- The settings that accepting reads. -/
structure SystemSettings where
  deadlines : DeadlineSettings
  withdrawalRestriction : WithdrawalRestriction
  deriving DecidableEq, Repr

/-! ## Accepting -/

/-- The input of an accept under these settings by a courier with this history. -/
def acceptInput (settings : SystemSettings) (history : CourierHistory) : EventInput where
  previouslyWithdrew := history.withdrewFromErrand
  restricted := settings.withdrawalRestriction.count ≤ history.withdrawalsSince
  deadlines := settings.deadlines

/-- Reads what an accept depends on. `settings` is what reading the settings gave. -/
def eligibility (settings : Except StoreError SystemSettings) (errandID courier : String)
    (now : ℤ) : Tx EventInput := do
  let settings ← check settings
  let history ← orFail (← query (.courierHistory (scanUUID errandID) courier
    (micros (now - settings.withdrawalRestriction.window))))
  return acceptInput settings history

/-- The errand as an accept of the caller at the version leaves it. -/
def acceptedByCaller (courier : String) (expectedVersion : ℤ) (e : Errand) : Bool :=
  e.status = .assigned && e.courierID = courier && (e.version : ℤ) = expectedVersion + 1

/-- The accept handler up to its answer. What it does about a refusal, a second read and
the event of the rejection, changes no errand and is left out. -/
def accept (courier errandID : String) (expectedVersion now : ℤ)
    (settings : Except StoreError SystemSettings) : Tx Errand := do
  let e ← get errandID
  if acceptedByCaller courier expectedVersion e then return e
  else do
    let input ← eligibility settings e.id courier now
    let t ← check ((next e .accept ⟨.courier, courier⟩ input now).mapError StoreError.app)
    if (e.version : ℤ) ≠ expectedVersion then
      .fail (appErr .errandChanged "the errand has changed; reload it and try again")
    else apply t

/-! ## Submitting -/

/-- The namespace of the names that errand identifiers are derived from. -/
def errandNamespace : List UInt8 :=
  [0x6f, 0x1c, 0x2b, 0x8e, 0x4d, 0x3a, 0x4c, 0x59, 0x9e, 0x0b, 0x2a, 0x7d, 0x5f, 0x8c, 0x1e, 0x43]

/-- `hex.Encode` of one byte. -/
def hexByte (b : UInt8) : List Char :=
  let digit := fun n => "0123456789abcdef".toList.getD n '0'
  [digit (b.toNat / 16), digit (b.toNat % 16)]

/-- The errand's identifier, a name-based UUID of the requester and their key. `sha1` is
the hash, of which nothing is assumed. -/
@[irreducible] def errandID (sha1 : List UInt8 → Fin 20 → UInt8) (requesterID key : String) : String :=
  let digest := sha1 (errandNamespace ++ requesterID.toUTF8.toList ++ [0] ++ key.toUTF8.toList)
  let u : Fin 16 → UInt8 := fun i =>
    let b := digest (i.castLE (by decide))
    if i = 6 then b &&& 0x0f ||| 0x50 else if i = 8 then b &&& 0x3f ||| 0x80 else b
  formatUUID ((List.ofFn u).flatMap hexByte)

theorem isHex_hexByte (b : UInt8) : (hexByte b).all isHex = true := by
  have hdigit : ∀ n, n < 16 → isHex ("0123456789abcdef".toList.getD n '0') = true := by decide
  have hhigh : b.toNat / 16 < 16 := by have := b.toNat_lt; omega
  have hlow : b.toNat % 16 < 16 := by omega
  simp only [hexByte, List.all_cons, hdigit _ hhigh, hdigit _ hlow, List.all_nil, Bool.and_self]

theorem canonical_errandID (sha1 : List UInt8 → Fin 20 → UInt8) (requesterID key : String) :
    Canonical (errandID sha1 requesterID key) := by
  unfold errandID
  apply canonical_formatUUID
  · simp [hexByte]
  · rw [List.all_flatMap, List.all_eq_true]
    intro b _
    exact isHex_hexByte b

/-- The errand that a request to submit describes. -/
def submitted (id requesterID key : String) (details : Details) : Errand where
  id := id
  requesterID := requesterID
  details := details
  createIdempotencyKey := key

/-- The create handler up to its answer: the errand, and whether the request created it.
`id` is derived from the requester and the key. `prepared` is what the body, the building
and the supplier gave, which are read only when the errand does not exist yet. -/
def submit (id requesterID key : String) (prepared : Except StoreError Details) (now : ℤ) :
    Tx (Errand × Bool) := do
  match ← find id with
  | some existing =>
    if existing.requesterID ≠ requesterID ∨ existing.createIdempotencyKey ≠ key then
      .fail (.internal ("create: errand " ++ id ++ " does not belong to this request"))
    else return (existing, false)
  | none => do
    let details ← check prepared
    let e := submitted id requesterID key details
    let t ← check ((next e .submit ⟨.requester, requesterID⟩ {} now).mapError StoreError.app)
    create e t

/-! ## Tasks -/

/-- What runs interleaved with others: the transactions, and the handlers. -/
inductive Task where
  | job (job : Job)
  | accept (courier errandID : String) (expectedVersion now : ℤ)
      (settings : Except StoreError SystemSettings)
  | submit (requesterID key : String) (prepared : Except StoreError Details) (now : ℤ)

/-- What a task answers. -/
inductive TaskResult where
  | job (result : JobResult)
  | accepted (e : Errand)
  | submitted (e : Errand) (created : Bool)
  deriving DecidableEq, Repr

/-- The body of a task; `errandID` derives the identifier of a new errand. -/
def Task.body (errandID : String → String → String) : Task → Tx TaskResult
  | .job j => return .job (← j.body)
  | .accept courier id expectedVersion now settings =>
    return .accepted (← Orders.accept courier id expectedVersion now settings)
  | .submit requesterID key prepared now => do
    let (e, created) ← Orders.submit (errandID requesterID key) requesterID key prepared now
    return .submitted e created

end FocServices.Orders
