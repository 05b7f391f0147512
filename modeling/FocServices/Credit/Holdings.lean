import FocServices.Credit.Runs

/-!
# What the credit service holds for an order

`Holding` is the abstract state of one order in the credit service: nothing, barred by a
release that came first, credits on hold, given back, or paid to a courier. `Holds` says
how the tables represent it, ledger included, and `Serves` is what a command does to it.
Every committed command serves its own order and leaves the other orders alone.
-/

namespace FocServices.Credit

open Txn

/-! ## Holdings -/

/-- The state of an order. An active holding has the sequence number of its last
adjustment; a paid one has the courier's wallet and the amount. -/
inductive Holding where
  | absent
  | barred
  | active (wallet : ℕ) (amount seq : ℤ)
  | released (wallet : ℕ)
  | transferred (wallet courier : ℕ) (paid : ℤ)
  deriving DecidableEq, Repr

/-- Whether the order has a reservation. -/
def Holding.reserved : Holding → Bool
  | .active _ _ _ | .released _ | .transferred _ _ _ => true
  | .absent | .barred => false

/-- Whether the order's credits are on hold or paid. -/
def Holding.payable : Holding → Bool
  | .active _ _ _ | .transferred _ _ _ => true
  | .absent | .barred | .released _ => false

/-- Whether the credits were given back, or the order barred from holding any. -/
def Holding.ended : Holding → Bool
  | .barred | .released _ => true
  | .absent | .active _ _ _ | .transferred _ _ _ => false

/-- Whether the credits were paid. -/
def Holding.paid : Holding → Bool
  | .transferred _ _ _ => true
  | .absent | .barred | .active _ _ _ | .released _ => false

/-- The wallet the credits came from. -/
def Holding.wallet : Holding → Option ℕ
  | .active wallet _ _ | .released wallet | .transferred wallet _ _ => some wallet
  | .absent | .barred => none

/-- The ledger entries of an order. -/
def Tables.entriesOf (s : Tables) (o : String) : List LedgerEntry :=
  s.ledger.filter fun f => f.orderID = some o

/-- The subject of a wallet. -/
def Tables.subjectOf (s : Tables) (walletID : ℕ) : Option String :=
  (findRow Wallet.id walletID s.wallets).map Wallet.auth0Subject

/-- What entries pay to couriers. -/
def paidIn (entries : List LedgerEntry) : ℤ :=
  ((entries.filter fun f => f.type = .transferIn).map LedgerEntry.availableDelta).sum

/-- What entries change a wallet by, available and reserved credits together. -/
def netOn (walletID : ℕ) (entries : List LedgerEntry) : ℤ :=
  ((entries.filter fun f => f.walletID = walletID).map LedgerEntry.net).sum

/-- The reservation and the tombstone of an order in this state. -/
def Holding.Stands (reservation : Option Reservation) (tombstone : Prop) : Holding → Prop
  | .absent => reservation = none ∧ ¬ tombstone
  | .barred => reservation = none ∧ tombstone
  | .active wallet amount seq => ¬ tombstone ∧ ∃ r, reservation = some r ∧ r.status = .active ∧
      r.walletID = wallet ∧ r.amount = amount ∧ r.lastAdjustSeq = seq
  | .released wallet => ¬ tombstone ∧ ∃ r, reservation = some r ∧ r.status = .released ∧
      r.walletID = wallet
  | .transferred wallet _ _ => ¬ tombstone ∧ ∃ r, reservation = some r ∧
      r.status = .transferred ∧ r.walletID = wallet

/-- The ledger entries of an order in this state: they cancel out on the requester's
wallet, until the courier is paid what the requester loses. -/
def Holding.Explains (entries : List LedgerEntry) : Holding → Prop
  | .absent | .barred => entries = []
  | .active wallet _ _ | .released wallet =>
    (∀ f ∈ entries, f.walletID = wallet ∧ f.type ≠ .transferIn) ∧ netOn wallet entries = 0
  | .transferred wallet courier paid =>
    courier ≠ wallet ∧
      (∀ f ∈ entries, (f.walletID = wallet ∧ f.type ≠ .transferIn) ∨
        (f.walletID = courier ∧ f.type = .transferIn)) ∧
      paidIn entries = paid ∧ netOn wallet entries = -paid

/-- The tables represent the order's state. -/
structure Holds (s : Tables) (o : String) (h : Holding) : Prop where
  stands : h.Stands (s.reservationOf o) (o ∈ s.releasedOrders)
  explains : h.Explains (s.entriesOf o)

/-- What a command answers and does, by the state of its order. `subject` names the
owners of wallets. -/
inductive Serves (subject : ℕ → Option String) : Holding → Command → Result → Holding → Prop where
  | reserveBarred {m c} :
      Serves subject .barred (.reserve m c)
        { type := .reservationRefused, code := some .reservationReleased } .barred
  | reserveRefused {m c} (code : Code) :
      Serves subject .absent (.reserve m c)
        { type := .reservationRefused, code := some code } .absent
  | reserved {m c} (wallet : ℕ) (hwallet : subject wallet = some c.requesterSubject) :
      Serves subject .absent (.reserve m c) { type := .reserved, amount := c.amount }
        (.active wallet c.amount 0)
  | reserveAgain {m c} (h : Holding) (amount : ℤ) (hreserved : h.reserved = true) :
      Serves subject h (.reserve m c) { type := .reserved, amount := amount } h
  | adjustRefused {m c} (h : Holding) (code : Code) :
      Serves subject h (.adjust m c)
        { type := .adjustRefused, code := some code, seq := c.seq } h
  | adjustStale {m c} (wallet : ℕ) (amount seq : ℤ) (hstale : c.seq ≤ seq) :
      Serves subject (.active wallet amount seq) (.adjust m c)
        { type := .adjusted, amount := amount, seq := c.seq } (.active wallet amount seq)
  | adjusted {m c} (wallet : ℕ) (amount seq : ℤ) (hnewer : seq < c.seq) :
      Serves subject (.active wallet amount seq) (.adjust m c)
        { type := .adjusted, amount := c.newAmount, seq := c.seq }
        (.active wallet c.newAmount c.seq)
  | releaseFirst {m c} : Serves subject .absent (.release m c) { type := .released } .barred
  | releaseAgain {m c} (h : Holding) (hended : h.ended = true) :
      Serves subject h (.release m c) { type := .released } h
  | released {m c} (wallet : ℕ) (amount seq : ℤ) :
      Serves subject (.active wallet amount seq) (.release m c) { type := .released }
        (.released wallet)
  | releaseFailed {m c} (wallet courier : ℕ) (paid : ℤ) :
      Serves subject (.transferred wallet courier paid) (.release m c)
        { type := .operationFailed, code := some .reservationAlreadyTransferred }
        (.transferred wallet courier paid)
  | transferFailed {m c} (h : Holding) (code : Code)
      (hcode : h.payable = true → code = .insufficientCredits ∨ code = .accountNotFound) :
      Serves subject h (.transfer m c) { type := .operationFailed, code := some code } h
  | transferAgain {m c} (wallet courier : ℕ) (paid : ℤ) :
      Serves subject (.transferred wallet courier paid) (.transfer m c) { type := .transferred }
        (.transferred wallet courier paid)
  | transferred {m c} (wallet : ℕ) (amount seq : ℤ) (courier : ℕ)
      (hcourier : subject courier = some c.courierSubject) :
      Serves subject (.active wallet amount seq) (.transfer m c) { type := .transferred }
        (.transferred wallet courier c.amount)

/-! ## Tables after an effect -/

/-- The effect is about order `o`. -/
def Effect.About (s : Tables) (o : String) : Effect → Prop
  | .none => True
  | .reserve _ _ o' _ | .tombstone o' => o' = o
  | .adjust r _ _ | .release r | .transfer r _ _ => s.reservationOf o = some r

theorem Outcome.about {s : Tables} {o : String} {cmd : Command} {result : Result} {e : Effect}
    (h : Outcome s o cmd result e) : e.About s o := by
  cases h <;> first | trivial | assumption

section

variable {s : Tables} {n : ℕ} {o : String}

theorem entriesOf_apply (e : Effect) (s : Tables) (o : String) :
    (e.apply s).entriesOf o = s.entriesOf o ++ e.entries.filter fun f => f.orderID = some o := by
  simp [Tables.entriesOf]

/-- The entries of an effect belong to its order. -/
theorem Effect.About.entries_order {e : Effect} (h : e.About s o) :
    ∀ f ∈ e.entries, f.orderID = some o := by
  cases e with
  | none | tombstone => simp [Effect.entries]
  | reserve i w o' a =>
    cases h
    simp [Effect.entries]
  | adjust r newAmount seq =>
    have horder := (mem_of_findRow h).2
    by_cases hdelta : newAmount - r.amount = 0 <;> simp [Effect.entries, hdelta, horder]
  | release r =>
    have horder := (mem_of_findRow h).2
    simp [Effect.entries, horder]
  | transfer r courierID amount =>
    have horder := (mem_of_findRow h).2
    by_cases hsurplus : 0 < surplus r amount <;> simp [Effect.entries, hsurplus, horder]

theorem entriesOf_about {e : Effect} (h : e.About s o) :
    (e.apply s).entriesOf o = s.entriesOf o ++ e.entries := by
  rw [entriesOf_apply, List.filter_eq_self.mpr]
  intro f hf
  simp [h.entries_order f hf]

theorem entriesOf_other {e : Effect} (h : e.About s o) {o' : String} (hne : o' ≠ o) :
    (e.apply s).entriesOf o' = s.entriesOf o' := by
  rw [entriesOf_apply, List.filter_eq_nil_iff.mpr, List.append_nil]
  intro f hf
  simp [h.entries_order f hf, Ne.symm hne]

/-- Updating the reservation of an order changes no other order. -/
theorem reservationOf_update (hb : Books s n) {r : Reservation} (hr : s.reservationOf o = some r)
    {f : Reservation → Reservation} {s' : Tables}
    (hs' : s'.reservations = updateRow Reservation.id r.id f s.reservations)
    (hf : ∀ r, (f r).orderID = r.orderID) :
    s'.reservationOf o = some (f r) ∧
      ∀ o', o' ≠ o → s'.reservationOf o' = s.reservationOf o' := by
  have hfind : ∀ o', s'.reservationOf o' =
      (s.reservationOf o').map fun r' => if r'.id = r.id then f r' else r' := by
    intro o'
    rw [Tables.reservationOf, hs', findRow_updateRow fun r _ => hf r]
    rfl
  constructor
  · rw [hfind, hr, Option.map_some, if_pos rfl]
  · intro o' hne
    rw [hfind]
    cases hr' : s.reservationOf o' with
    | none => rfl
    | some r' =>
      obtain ⟨hmem, horder⟩ := mem_of_findRow hr
      obtain ⟨hmem', horder'⟩ := mem_of_findRow hr'
      have hid : r'.id ≠ r.id := by
        intro hid
        obtain rfl := hb.reservationIDs.eq hmem' hmem hid
        exact hne (horder'.symm.trans horder)
      rw [Option.map_some, if_neg hid]

theorem releasedOrders_apply (e : Effect) (s : Tables) :
    (e.apply s).releasedOrders = match e with
      | .tombstone o => s.releasedOrders ++ [o]
      | _ => s.releasedOrders := by
  rw [Effect.apply_eq]
  cases e with
  | adjust r newAmount seq =>
    by_cases h : newAmount - r.amount ≠ 0 <;> simp [Effect.deltas, Effect.orderWrites, Write.apply, h]
  | none | reserve | release | tombstone | transfer => rfl

/-- The reservations after an effect. -/
def Effect.onReservations (rows : List Reservation) : Effect → List Reservation
  | .none | .tombstone _ => rows
  | .reserve i w o a => rows ++ [⟨i, w, o, a, .active, 0⟩]
  | .adjust r newAmount seq => updateRow Reservation.id r.id
      (fun r' => { r' with amount := newAmount, lastAdjustSeq := seq }) rows
  | .release r => updateRow Reservation.id r.id
      (fun r' => { r' with amount := r.amount, status := .released }) rows
  | .transfer r _ _ => updateRow Reservation.id r.id
      (fun r' => { r' with amount := r.amount, status := .transferred }) rows

theorem reservations_apply (e : Effect) (s : Tables) :
    (e.apply s).reservations = e.onReservations s.reservations := by
  rw [Effect.apply_eq]
  cases e with
  | adjust r newAmount seq =>
    by_cases h : newAmount - r.amount ≠ 0 <;>
      simp [Effect.deltas, Effect.orderWrites, Write.apply, Effect.onReservations, h]
  | none | reserve | release | tombstone | transfer => rfl

/-- Changing balances changes no wallet's subject. -/
theorem subjectOf_addDeltas (walletID : ℕ) (a d : ℤ) (s : Tables) :
    ((Write.addDeltas walletID a d).apply s).subjectOf = s.subjectOf := by
  funext id
  change (findRow Wallet.id id (updateRow Wallet.id walletID (fun w => w.addDeltas a d)
    s.wallets)).map Wallet.auth0Subject = s.subjectOf id
  have hid : ∀ w : Wallet, w.id = walletID → (w.addDeltas a d).id = w.id := fun _ _ => rfl
  rw [findRow_updateRow hid, Option.map_map]
  congr 1
  funext w
  simp only [Function.comp_apply]
  split <;> rfl

theorem subjectOf_apply (e : Effect) (s : Tables) : (e.apply s).subjectOf = s.subjectOf := by
  have hledger : ∀ entries, ({ s with ledger := s.ledger ++ entries } : Tables).subjectOf =
      s.subjectOf := fun _ => rfl
  rw [Effect.apply_eq]
  cases e with
  | none | tombstone => rfl
  | reserve i w o a => exact (subjectOf_addDeltas _ _ _ _).trans (hledger _)
  | adjust r newAmount seq =>
    by_cases h : newAmount - r.amount ≠ 0
    · simp only [Effect.deltas, if_pos h]
      exact (subjectOf_addDeltas _ _ _ _).trans (hledger _)
    · simp only [Effect.deltas, if_neg h]
      rfl
  | release r => exact (subjectOf_addDeltas _ _ _ _).trans (hledger _)
  | transfer r courierID amount =>
    exact (subjectOf_addDeltas _ _ _ _).trans ((subjectOf_addDeltas _ _ _ _).trans (hledger _))

/-- An effect leaves other orders alone. -/
theorem Holds.other (hb : Books s n) {e : Effect} (he : e.About s o) {o' : String} (hne : o' ≠ o)
    {h : Holding} (hh : Holds s o' h) : Holds (e.apply s) o' h := by
  have hreservation : (e.apply s).reservationOf o' = s.reservationOf o' := by
    cases e with
    | none | tombstone => rfl
    | reserve i w o₁ a =>
      cases he
      rw [Tables.reservationOf, reservations_apply, Effect.onReservations,
        findRow_append_singleton, if_neg (Ne.symm hne), Option.or_none]
      rfl
    | adjust r newAmount seq =>
      have hafter := reservations_apply (.adjust r newAmount seq) s
      exact (reservationOf_update hb he hafter fun _ => rfl).2 o' hne
    | release r =>
      have hafter := reservations_apply (.release r) s
      exact (reservationOf_update hb he hafter fun _ => rfl).2 o' hne
    | transfer r c a =>
      have hafter := reservations_apply (.transfer r c a) s
      exact (reservationOf_update hb he hafter fun _ => rfl).2 o' hne
  have htombstone : o' ∈ (e.apply s).releasedOrders ↔ o' ∈ s.releasedOrders := by
    rw [releasedOrders_apply]
    cases e with
    | tombstone o₁ =>
      cases he
      simp [hne]
    | none | reserve | adjust | release | transfer => exact Iff.rfl
  refine ⟨?_, ?_⟩
  · rw [hreservation, propext htombstone]
    exact hh.stands
  · rw [entriesOf_other he hne]
    exact hh.explains

/-! ## Outcomes serve their order -/

theorem subjectOf_of_owns (hb : Books s n) {subject : String} {w : Wallet}
    (hw : s.Owns subject w) : s.subjectOf w.id = some subject := by
  rw [Tables.subjectOf, hb.walletIDs.findRow_eq hw.1 rfl, Option.map_some, hw.2]

theorem netOn_append (walletID : ℕ) (l l' : List LedgerEntry) :
    netOn walletID (l ++ l') = netOn walletID l + netOn walletID l' := by
  simp [netOn]

theorem paidIn_append (l l' : List LedgerEntry) : paidIn (l ++ l') = paidIn l + paidIn l' := by
  simp [paidIn]

/-- Entries on one wallet that cancel out can be added. -/
theorem explains_append {wallet : ℕ} {entries new : List LedgerEntry}
    (hold : (∀ f ∈ entries, f.walletID = wallet ∧ f.type ≠ .transferIn) ∧ netOn wallet entries = 0)
    (hnew : ∀ f ∈ new, f.walletID = wallet ∧ f.type ≠ .transferIn)
    (hnet : (new.map LedgerEntry.net).sum = 0) :
    (∀ f ∈ entries ++ new, f.walletID = wallet ∧ f.type ≠ .transferIn) ∧
      netOn wallet (entries ++ new) = 0 := by
  refine ⟨List.forall_mem_append.mpr ⟨hold.1, hnew⟩, ?_⟩
  have hall : (new.filter fun f => f.walletID = wallet) = new :=
    List.filter_eq_self.mpr fun f hf => by simp [(hnew f hf).1]
  rw [netOn_append, hold.2, netOn, hall, hnet, add_zero]

/-- The reservation behind a holding. -/
theorem Holds.of_reservation {h : Holding} (hh : Holds s o h) {r : Reservation}
    (hr : s.reservationOf o = some r) :
    (r.status = .active ∧ h = .active r.walletID r.amount r.lastAdjustSeq) ∨
      (r.status = .released ∧ h = .released r.walletID) ∨
      (r.status = .transferred ∧ ∃ courier paid, h = .transferred r.walletID courier paid) := by
  have hstands := hh.stands
  rw [hr] at hstands
  cases h with
  | absent | barred => cases hstands.1
  | active wallet amount seq =>
    obtain ⟨-, r', ⟨⟩, hstatus, rfl, rfl, rfl⟩ := hstands
    exact Or.inl ⟨hstatus, rfl⟩
  | released wallet =>
    obtain ⟨-, r', ⟨⟩, hstatus, rfl⟩ := hstands
    exact Or.inr (Or.inl ⟨hstatus, rfl⟩)
  | transferred wallet courier paid =>
    obtain ⟨-, r', ⟨⟩, hstatus, rfl⟩ := hstands
    exact Or.inr (Or.inr ⟨hstatus, courier, paid, rfl⟩)

theorem Holds.of_active {h : Holding} (hh : Holds s o h) {r : Reservation}
    (hr : s.reservationOf o = some r) (hactive : r.status = .active) :
    h = .active r.walletID r.amount r.lastAdjustSeq := by
  rcases hh.of_reservation hr with ⟨-, rfl⟩ | ⟨hstatus, -⟩ | ⟨hstatus, -⟩
  · rfl
  · rw [hactive] at hstatus
    cases hstatus
  · rw [hactive] at hstatus
    cases hstatus

/-- Without a reservation an order is absent or barred. -/
theorem Holds.of_none {h : Holding} (hh : Holds s o h) (hr : s.reservationOf o = none) :
    (o ∉ s.releasedOrders ∧ h = .absent) ∨ (o ∈ s.releasedOrders ∧ h = .barred) := by
  have hstands := hh.stands
  rw [hr] at hstands
  cases h with
  | absent => exact Or.inl ⟨hstands.2, rfl⟩
  | barred => exact Or.inr ⟨hstands.2, rfl⟩
  | active _ _ _ | released _ | transferred _ _ _ =>
    obtain ⟨-, r, ⟨⟩, -⟩ := hstands

theorem Holds.of_tombstone {h : Holding} (hh : Holds s o h) (htombstone : o ∈ s.releasedOrders) :
    h = .barred := by
  have hstands := hh.stands
  cases h with
  | barred => rfl
  | absent => exact absurd htombstone hstands.2
  | active _ _ _ | released _ | transferred _ _ _ => exact absurd htombstone hstands.1

theorem Holds.reserve (hh : Holds s o .absent) (i walletID : ℕ) (amount : ℤ) :
    Holds ((Effect.reserve i walletID o amount).apply s) o (.active walletID amount 0) := by
  have hreservation : ((Effect.reserve i walletID o amount).apply s).reservationOf o =
      some ⟨i, walletID, o, amount, .active, 0⟩ := by
    rw [Tables.reservationOf, reservations_apply, Effect.onReservations, findRow_append_singleton,
      if_pos rfl]
    exact congrArg (Option.or · _) hh.stands.1
  refine ⟨⟨?_, _, hreservation, rfl, rfl, rfl, rfl⟩, ?_⟩
  · rw [releasedOrders_apply]
    exact hh.stands.2
  · have habout : (Effect.reserve i walletID o amount).About s o := rfl
    rw [entriesOf_about habout, hh.explains]
    simp [Holding.Explains, Effect.entries, netOn, LedgerEntry.net]

theorem Holds.adjust (hb : Books s n) {r : Reservation} (hr : s.reservationOf o = some r)
    (hh : Holds s o (.active r.walletID r.amount r.lastAdjustSeq)) (hactive : r.status = .active)
    (newAmount seq : ℤ) :
    Holds ((Effect.adjust r newAmount seq).apply s) o (.active r.walletID newAmount seq) := by
  have hafter := reservations_apply (.adjust r newAmount seq) s
  have hreservation := (reservationOf_update hb hr hafter fun _ => rfl).1
  refine ⟨⟨?_, _, hreservation, hactive, rfl, rfl, rfl⟩, ?_⟩
  · rw [releasedOrders_apply]
    exact hh.stands.1
  · have habout : (Effect.adjust r newAmount seq).About s o := hr
    rw [entriesOf_about habout]
    refine explains_append hh.explains ?_ ?_
    · by_cases hdelta : newAmount - r.amount = 0 <;> simp [Effect.entries, hdelta]
    · by_cases hdelta : newAmount - r.amount = 0 <;>
        simp [Effect.entries, hdelta, LedgerEntry.net]

theorem Holds.release (hb : Books s n) {r : Reservation} (hr : s.reservationOf o = some r)
    (hh : Holds s o (.active r.walletID r.amount r.lastAdjustSeq)) :
    Holds ((Effect.release r).apply s) o (.released r.walletID) := by
  have hafter := reservations_apply (.release r) s
  have hreservation := (reservationOf_update hb hr hafter fun _ => rfl).1
  refine ⟨⟨?_, _, hreservation, rfl, rfl⟩, ?_⟩
  · rw [releasedOrders_apply]
    exact hh.stands.1
  · have habout : (Effect.release r).About s o := hr
    rw [entriesOf_about habout]
    exact explains_append hh.explains (by simp [Effect.entries])
      (by simp [Effect.entries, LedgerEntry.net])

/-- What a transfer books: the courier gets what the requester loses. -/
theorem explains_transfer {entries : List LedgerEntry} {r : Reservation} {courier : ℕ}
    {amount : ℤ} (hne : courier ≠ r.walletID)
    (hold : (∀ f ∈ entries, f.walletID = r.walletID ∧ f.type ≠ .transferIn) ∧
      netOn r.walletID entries = 0) :
    (Holding.transferred r.walletID courier amount).Explains
      (entries ++ (Effect.transfer r courier amount).entries) := by
  have hpaid : paidIn entries = 0 := by
    rw [paidIn, List.filter_eq_nil_iff.mpr]
    · rfl
    · intro f hf
      simpa using (hold.1 f hf).2
  refine ⟨hne, List.forall_mem_append.mpr ⟨fun f hf => Or.inl (hold.1 f hf), ?_⟩, ?_, ?_⟩
  · by_cases hsurplus : 0 < surplus r amount <;> simp [Effect.entries, hsurplus]
  · rw [paidIn_append, hpaid]
    by_cases hsurplus : 0 < surplus r amount <;> simp [Effect.entries, hsurplus, paidIn]
  · rw [netOn_append, hold.2]
    by_cases hsurplus : 0 < surplus r amount <;>
      simp [Effect.entries, hsurplus, netOn, hne, LedgerEntry.net, shortfall] <;> omega

theorem Holds.transfer (hb : Books s n) {r : Reservation} (hr : s.reservationOf o = some r)
    (hh : Holds s o (.active r.walletID r.amount r.lastAdjustSeq)) {courier : ℕ}
    (hne : courier ≠ r.walletID) (amount : ℤ) :
    Holds ((Effect.transfer r courier amount).apply s) o
      (.transferred r.walletID courier amount) := by
  have hafter := reservations_apply (.transfer r courier amount) s
  have hreservation := (reservationOf_update hb hr hafter fun _ => rfl).1
  refine ⟨⟨?_, _, hreservation, rfl, rfl⟩, ?_⟩
  · rw [releasedOrders_apply]
    exact hh.stands.1
  · have habout : (Effect.transfer r courier amount).About s o := hr
    rw [entriesOf_about habout]
    exact explains_transfer hne hh.explains

theorem Holds.bar (hh : Holds s o .absent) : Holds ((Effect.tombstone o).apply s) o .barred := by
  have habout : (Effect.tombstone o).About s o := rfl
  refine ⟨⟨hh.stands.1, ?_⟩, ?_⟩
  · rw [releasedOrders_apply]
    simp
  · rw [entriesOf_about habout, hh.explains]
    rfl

/-- A command serves its order: what it answers and does is determined by the order's
holding, and unless the holding changes to another one with credits, no balance
changes. -/
theorem Outcome.serves (hb : Books s n) {cmd : Command} (hvalid : cmd.Valid) {result : Result}
    {e : Effect} {h : Holding} (hh : Holds s o h) (hout : Outcome s o cmd result e) :
    ∃ h', Serves s.subjectOf h cmd result h' ∧ Holds (e.apply s) o h' ∧
      (h' = h ∨ h' = .barred → (e.apply s).wallets = s.wallets) := by
  cases hout with
  | reserveReleased hreleased =>
    obtain rfl := hh.of_tombstone hreleased
    exact ⟨_, .reserveBarred, hh, fun _ => rfl⟩
  | reserveAgain r hnot hr =>
    have hreserved : h.reserved = true := by
      rcases hh.of_reservation hr with ⟨-, rfl⟩ | ⟨-, rfl⟩ | ⟨-, _, _, rfl⟩ <;> rfl
    exact ⟨h, .reserveAgain h r.amount hreserved, hh, fun _ => rfl⟩
  | reserveNoAccount hnot hnone =>
    rcases hh.of_none hnone with ⟨-, rfl⟩ | ⟨hbarred, -⟩
    · exact ⟨_, .reserveRefused _, hh, fun _ => rfl⟩
    · exact absurd hbarred hnot
  | reservePoor hnot hnone =>
    rcases hh.of_none hnone with ⟨-, rfl⟩ | ⟨hbarred, -⟩
    · exact ⟨_, .reserveRefused _, hh, fun _ => rfl⟩
    · exact absurd hbarred hnot
  | reserved i w hnot hnone hw hle =>
    rcases hh.of_none hnone with ⟨-, rfl⟩ | ⟨hbarred, -⟩
    · refine ⟨_, .reserved w.id (subjectOf_of_owns hb hw), hh.reserve i w.id _, ?_⟩
      rintro (hsame | hsame) <;> cases hsame
    · exact absurd hbarred hnot
  | adjustMissing hnone => exact ⟨h, .adjustRefused h _, hh, fun _ => rfl⟩
  | adjustEnded r hr hended => exact ⟨h, .adjustRefused h _, hh, fun _ => rfl⟩
  | adjustStale r hr hactive hstale =>
    obtain rfl := hh.of_active hr hactive
    exact ⟨_, .adjustStale _ _ _ hstale, hh, fun _ => rfl⟩
  | adjustPoor r hr hactive hseq => exact ⟨h, .adjustRefused h _, hh, fun _ => rfl⟩
  | adjusted r w hr hw hid hactive hseq hle =>
    obtain rfl := hh.of_active hr hactive
    refine ⟨_, .adjusted _ _ _ hseq, hh.adjust hb hr hactive _ _, ?_⟩
    rintro (hsame | hsame)
    · have hseq' := (Holding.active.inj hsame).2.2
      omega
    · cases hsame
  | releaseMissing hnone hnot =>
    rcases hh.of_none hnone with ⟨-, rfl⟩ | ⟨hbarred, -⟩
    · exact ⟨_, .releaseFirst, hh.bar, fun _ => rfl⟩
    · exact absurd hbarred hnot
  | releaseTombstoned hnone hold =>
    rcases hh.of_none hnone with ⟨hnot, -⟩ | ⟨-, rfl⟩
    · exact absurd hold hnot
    · exact ⟨_, .releaseAgain _ rfl, hh, fun _ => rfl⟩
  | releaseAgain r hr hreleased =>
    rcases hh.of_reservation hr with ⟨hstatus, -⟩ | ⟨-, rfl⟩ | ⟨hstatus, -⟩
    · rw [hreleased] at hstatus
      cases hstatus
    · exact ⟨_, .releaseAgain _ rfl, hh, fun _ => rfl⟩
    · rw [hreleased] at hstatus
      cases hstatus
  | releaseTransferred r hr htransferred =>
    rcases hh.of_reservation hr with ⟨hstatus, -⟩ | ⟨hstatus, -⟩ | ⟨-, courier, paid, rfl⟩
    · rw [htransferred] at hstatus
      cases hstatus
    · rw [htransferred] at hstatus
      cases hstatus
    · exact ⟨_, .releaseFailed _ _ _, hh, fun _ => rfl⟩
  | released r hr hactive =>
    obtain rfl := hh.of_active hr hactive
    refine ⟨_, .released _ _ _, hh.release hb hr, ?_⟩
    rintro (hsame | hsame) <;> cases hsame
  | transferMissing hnone hnot =>
    rcases hh.of_none hnone with ⟨-, rfl⟩ | ⟨hbarred, -⟩
    · exact ⟨_, .transferFailed _ _ (by simp [Holding.payable]), hh, fun _ => rfl⟩
    · exact absurd hbarred hnot
  | transferTombstoned hnone hold =>
    rcases hh.of_none hnone with ⟨hnot, -⟩ | ⟨-, rfl⟩
    · exact absurd hold hnot
    · exact ⟨_, .transferFailed _ _ (by simp [Holding.payable]), hh, fun _ => rfl⟩
  | transferNoAccount r hr => exact ⟨h, .transferFailed h _ fun _ => Or.inr rfl, hh, fun _ => rfl⟩
  | transferAgain r hr htransferred =>
    rcases hh.of_reservation hr with ⟨hstatus, -⟩ | ⟨hstatus, -⟩ | ⟨-, courier, paid, rfl⟩
    · rw [htransferred] at hstatus
      cases hstatus
    · rw [htransferred] at hstatus
      cases hstatus
    · exact ⟨_, .transferAgain _ _ _, hh, fun _ => rfl⟩
  | transferReleased r hr hreleased =>
    rcases hh.of_reservation hr with ⟨hstatus, -⟩ | ⟨-, rfl⟩ | ⟨hstatus, -⟩
    · rw [hreleased] at hstatus
      cases hstatus
    · exact ⟨_, .transferFailed _ _ (by simp [Holding.payable]), hh, fun _ => rfl⟩
    · rw [hreleased] at hstatus
      cases hstatus
  | transferPoor r hr hactive =>
    exact ⟨h, .transferFailed h _ fun _ => Or.inl rfl, hh, fun _ => rfl⟩
  | transferred r w courier hr hw hid hcourier hactive hle =>
    obtain rfl := hh.of_active hr hactive
    have hne : courier.id ≠ r.walletID := by
      intro hsame
      obtain rfl := hb.walletOf hcourier.1 hw.1 (hsame.trans hid.symm)
      exact hvalid.1 (hcourier.2.symm.trans hw.2)
    refine ⟨_, .transferred _ _ _ _ (subjectOf_of_owns hb hcourier), hh.transfer hb hr hne _, ?_⟩
    rintro (hsame | hsame) <;> cases hsame

end

/-! ## Committed commands -/

/-- The tables differ at most in stored results and in the outbox. -/
structure SameBooks (s s' : Tables) : Prop where
  wallets : s'.wallets = s.wallets
  reservations : s'.reservations = s.reservations
  ledger : s'.ledger = s.ledger
  releasedOrders : s'.releasedOrders = s.releasedOrders

section

variable {s s' : Tables} {n n' : ℕ} {o : String}

theorem Holds.sameBooks (hsame : SameBooks s s') {h : Holding} (hh : Holds s o h) :
    Holds s' o h := by
  obtain ⟨-, hreservations, hledger, hreleased⟩ := hsame
  refine ⟨?_, ?_⟩
  · rw [Tables.reservationOf, hreservations, hreleased]
    exact hh.stands
  · rw [Tables.entriesOf, hledger]
    exact hh.explains

theorem SameBooks.subjectOf (hsame : SameBooks s s') : s'.subjectOf = s.subjectOf := by
  funext id
  rw [Tables.subjectOf, hsame.wallets]
  rfl

theorem sameBooks_recorded (s : Tables) (recorder : Option ℤ) (reply : Reply) (result : Result) :
    SameBooks s (s.recorded recorder reply result) := by
  unfold Tables.recorded Tables.enqueue
  cases recorder with
  | none => exact ⟨rfl, rfl, rfl, rfl⟩
  | some now =>
    dsimp only
    split
    · exact ⟨rfl, rfl, rfl, rfl⟩
    · split <;> exact ⟨rfl, rfl, rfl, rfl⟩

theorem sameBooks_storeResult (s : Tables) (m : String) (result : Result) :
    SameBooks s (s.storeResult m result) := by
  unfold Tables.storeResult
  split <;> exact ⟨rfl, rfl, rfl, rfl⟩

theorem SameBooks.trans {s'' : Tables} (h : SameBooks s s') (h' : SameBooks s' s'') :
    SameBooks s s'' :=
  ⟨h'.wallets.trans h.wallets, h'.reservations.trans h.reservations, h'.ledger.trans h.ledger,
    h'.releasedOrders.trans h.releasedOrders⟩

theorem processed_recorded (s : Tables) (recorder : Option ℤ) (reply : Reply) (result : Result) :
    (s.recorded recorder reply result).processed = s.processed := by
  unfold Tables.recorded Tables.enqueue
  cases recorder with
  | none => rfl
  | some now =>
    dsimp only
    split
    · rfl
    · split <;> rfl

/-- A recorded result is sent; other messages keep their payloads. -/
theorem payload_recorded {recorder : Option ℤ} {reply : Reply} {result : Result} {row : OutboxRow}
    (hrow : row ∈ (s.recorded recorder reply result).outbox) :
    (∃ row₀ ∈ s.outbox, row₀.payload = row.payload) ∨
      ∃ now, row.payload = buildResult reply result now := by
  unfold Tables.recorded Tables.enqueue at hrow
  cases recorder with
  | none => exact Or.inl ⟨row, hrow, rfl⟩
  | some now =>
    dsimp only at hrow
    split at hrow
    · rcases List.mem_append.mp hrow with hrow | hrow
      · exact Or.inl ⟨row, hrow, rfl⟩
      · rw [List.mem_singleton.mp hrow]
        exact Or.inr ⟨now, rfl⟩
    · split at hrow
      · exact Or.inl ⟨row, hrow, rfl⟩
      · obtain ⟨row₀, hrow₀, rfl⟩ := mem_updateRow.mp hrow
        refine Or.inl ⟨row₀, hrow₀, ?_⟩
        split <;> rfl

/-- Only a failure is not stored. -/
theorem resultOf_storeResult {m : String} {result : Result} (hnew : s.resultOf m = none)
    (m' : String) : (s.storeResult m result).resultOf m' =
      if m' = m ∧ result.type ≠ .operationFailed then some result else s.resultOf m' := by
  unfold Tables.storeResult
  by_cases hfailed : result.type = .operationFailed
  · rw [if_pos hfailed, if_neg (by simp [hfailed])]
  · rw [if_neg hfailed]
    by_cases hm : m' = m
    · subst hm
      rw [if_pos ⟨rfl, hfailed⟩, Tables.resultOf, findRow_append_singleton, if_pos rfl]
      have hnone : findRow Prod.fst m' s.processed = none := by
        simpa [Tables.resultOf] using hnew
      rw [hnone]
      rfl
    · rw [if_neg (by simp [hm]), Tables.resultOf, findRow_append_singleton,
        if_neg (Ne.symm hm), Option.or_none]
      rfl

/-- What a committed command about order `o` does: a message seen before changes nothing
and answers what is stored; a new one serves the order's holding. -/
structure Committal (s s' : Tables) (o : String) (cmd : Command) (result : Result) : Prop where
  subjects : s'.subjectOf = s.subjectOf
  others : ∀ o' h, o' ≠ o → Holds s o' h → Holds s' o' h
  serves : ∀ h, Holds s o h →
    (s.resultOf cmd.messageID = some result ∧ Holds s' o h ∧ s'.wallets = s.wallets) ∨
      (s.resultOf cmd.messageID = none ∧ ∃ h', Serves s.subjectOf h cmd result h' ∧ Holds s' o h' ∧
        (h' = h ∨ h' = .barred → s'.wallets = s.wallets))
  results : ∀ m, s'.resultOf m =
    if m = cmd.messageID ∧ result.type ≠ .operationFailed then some result else s.resultOf m
  sent : ∀ row ∈ s'.outbox, (∃ row₀ ∈ s.outbox, row₀.payload = row.payload) ∨
    ∃ now, row.payload = buildResult (cmd.reply o) result now

theorem Execution.committal (hb : Books s n) {recorder : Option ℤ} {cmd : Command}
    {result : Result} (hv : cmd.validate = .ok o)
    (hstored : ∀ m result, s.resultOf m = some result → result.type ≠ .operationFailed)
    (hx : Execution s n n' recorder o cmd result s') : Committal s s' o cmd result := by
  cases hx with
  | replay hold =>
    have hsame := sameBooks_recorded s recorder (cmd.reply o) result
    refine ⟨hsame.subjectOf, fun o' h _ hh => hh.sameBooks hsame,
      fun h hh => Or.inl ⟨hold, hh.sameBooks hsame, hsame.wallets⟩, ?_, fun row => payload_recorded⟩
    intro m
    rw [Tables.resultOf, processed_recorded]
    by_cases hm : m = cmd.messageID
    · subst hm
      rw [if_pos ⟨rfl, hstored _ _ hold⟩]
      exact hold
    · rw [if_neg (by simp [hm])]
      rfl
  | first e hnew hout hfresh =>
    have hstore := sameBooks_storeResult (e.apply s) cmd.messageID result
    have hsame := hstore.trans (sameBooks_recorded _ recorder (cmd.reply o) result)
    have hnew' : (e.apply s).resultOf cmd.messageID = none := by
      rw [Tables.resultOf, Effect.processed_apply]
      exact hnew
    refine ⟨hsame.subjectOf.trans (subjectOf_apply e s), ?_, ?_, ?_, ?_⟩
    · intro o' h hne hh
      exact (hh.other hb hout.about hne).sameBooks hsame
    · intro h hh
      obtain ⟨h', hserves, hh', hwallets⟩ := hout.serves hb (Command.validate_ok hv).2.1 hh
      exact Or.inr ⟨hnew, h', hserves, hh'.sameBooks hsame,
        fun hkeeps => hsame.wallets.trans (hwallets hkeeps)⟩
    · intro m
      rw [Tables.resultOf, processed_recorded]
      refine (resultOf_storeResult hnew' m).trans ?_
      rw [Tables.resultOf, Effect.processed_apply]
      rfl
    · intro row hrow
      rcases payload_recorded hrow with ⟨row₀, hrow₀, hpayload⟩ | hnow
      · refine Or.inl ⟨row₀, ?_, hpayload⟩
        rw [← Effect.outbox_apply e s]
        unfold Tables.storeResult at hrow₀
        split at hrow₀ <;> exact hrow₀
      · exact Or.inr hnow

/-- A stored result stays: a message that was seen before is answered the same again. -/
theorem Committal.result_persists {cmd : Command} {result : Result}
    (hcommits : Committal s s' o cmd result) {h : Holding} (hholds : Holds s o h) {m : String}
    {stored : Result} (hstored : s.resultOf m = some stored) : s'.resultOf m = some stored := by
  rw [hcommits.results]
  split_ifs with hcond
  · rcases hcommits.serves h hholds with ⟨hsame, -⟩ | ⟨hnew, -⟩
    · rw [← hsame, ← hcond.1, hstored]
    · rw [← hcond.1, hstored] at hnew
      cases hnew
  · exact hstored

/-! ## Opening wallets -/

/-- At most wallets and allocations have been added, and balances changed. -/
structure OpensWallets (s s' : Tables) : Prop where
  reservations : s'.reservations = s.reservations
  releasedOrders : s'.releasedOrders = s.releasedOrders
  processed : s'.processed = s.processed
  outbox : s'.outbox = s.outbox
  entries : ∀ o, s'.entriesOf o = s.entriesOf o
  subjects : ∀ id subject, s.subjectOf id = some subject → s'.subjectOf id = some subject

theorem opensWallets_refl (s : Tables) : OpensWallets s s :=
  ⟨rfl, rfl, rfl, rfl, fun _ => rfl, fun _ _ h => h⟩

theorem OpensWallets.trans {s'' : Tables} (h : OpensWallets s s') (h' : OpensWallets s' s'') :
    OpensWallets s s'' :=
  ⟨h'.reservations.trans h.reservations, h'.releasedOrders.trans h.releasedOrders,
    h'.processed.trans h.processed, h'.outbox.trans h.outbox,
    fun o => (h'.entries o).trans (h.entries o),
    fun id subject hs => h'.subjects id subject (h.subjects id subject hs)⟩

theorem Holds.opensWallets (ho : OpensWallets s s') {h : Holding} (hh : Holds s o h) :
    Holds s' o h := by
  refine ⟨?_, ?_⟩
  · rw [Tables.reservationOf, ho.reservations, ho.releasedOrders]
    exact hh.stands
  · rw [ho.entries]
    exact hh.explains

theorem opensWallets_exec {hash : String → ℤ} {q : Stmt} (hq : q.opensWallet = true) (k : ℕ)
    (s : Tables) : OpensWallets s ((engine hash).storeAfter k q s) := by
  change OpensWallets s ((engine hash).applyAll (exec hash k q s).writes s)
  cases q with
  | insertWalletIfAbsent ownerID subject =>
    simp only [exec]
    split
    · exact opensWallets_refl s
    split
    · exact opensWallets_refl s
    split
    · exact opensWallets_refl s
    refine ⟨rfl, rfl, rfl, rfl, fun _ => rfl, ?_⟩
    intro id subject' hsubject
    obtain ⟨w, hw, hws⟩ := Option.map_eq_some_iff.mp hsubject
    change (findRow Wallet.id id (s.wallets ++ [_])).map Wallet.auth0Subject = some subject'
    rw [findRow_append_singleton, hw]
    exact congrArg some hws
  | getWalletByOwner ownerID =>
    simp only [exec]
    split <;> exact opensWallets_refl s
  | applyDeltas walletID a d =>
    simp only [exec]
    split
    · exact opensWallets_refl s
    split
    · exact opensWallets_refl s
    refine ⟨rfl, rfl, rfl, rfl, fun _ => rfl, fun id subject hsubject => ?_⟩
    exact (congrFun (subjectOf_addDeltas walletID a d s) id).trans hsubject
  | insertLedgerEntry e =>
    simp only [exec]
    split
    · exact opensWallets_refl s
    have hnone : e.orderID = none := of_decide_eq_true hq
    refine ⟨rfl, rfl, rfl, rfl, fun o => ?_, fun _ _ h => h⟩
    change (s.ledger ++ [e]).filter _ = _
    simp [Tables.entriesOf, hnone]
  | _ => cases hq

/-- `CreateWallet` concerns no order. -/
theorem createWallet_opensWallets {hash : String → ℤ} (initialCredit : ℤ)
    (ownerID subject : String) :
    OpensWallets s
      ((engine hash).atomically (createWallet initialCredit ownerID subject) s n).2.1 := by
  have hwp : (engine hash).wp (fun _ _ => True) (fun _ s' _ => OpensWallets s s')
      (createWallet initialCredit ownerID subject) s n :=
    Engine.wp_invariant (fun q k s' hq hs' => ⟨trivial, hs'.trans (opensWallets_exec hq k s')⟩)
      (createWallet_conforms fun _ _ hq => hq) (opensWallets_refl s)
  rcases Engine.wp_atomically hwp with ⟨a, -, hopens⟩ | ⟨e, -, hsame⟩
  · exact hopens
  · rw [hsame]
    exact opensWallets_refl s

end

end FocServices.Credit
