import FocServices.Credit.Books

/-!
# What a command does to the books

A credit command that changes money does one of four things, or leaves a tombstone.
Each is a list of row changes with a condition under which the books agree
afterwards. The programs of the source are compared with these effects elsewhere.
-/

namespace FocServices.Credit

open Txn

/-- The row changes of a credit command, as one unit. -/
inductive Effect where
  | none
  | reserve (reservationID walletID : ℕ) (orderID : String) (amount : ℤ)
  | adjust (r : Reservation) (newAmount seq : ℤ)
  | release (r : Reservation)
  | tombstone (orderID : String)
  | transfer (r : Reservation) (courierID : ℕ) (amount : ℤ)

/-- The part of a transfer that the reservation does not cover. -/
def shortfall (r : Reservation) (amount : ℤ) : ℤ := amount - min r.amount amount

/-- The part of the reservation that a transfer does not use. -/
def surplus (r : Reservation) (amount : ℤ) : ℤ := r.amount - min r.amount amount

/-- The ledger entries an effect adds. -/
def Effect.entries : Effect → List LedgerEntry
  | .none | .tombstone _ => []
  | .reserve _ walletID orderID amount =>
    [{ walletID := walletID, type := .reserve, availableDelta := -amount,
       reservedDelta := amount, orderID := some orderID,
       idempotencyKey := "reserve:" ++ orderID }]
  | .adjust r newAmount seq =>
    if newAmount - r.amount ≠ 0 then
      [{ walletID := r.walletID, type := .reservationAdjust,
         availableDelta := -(newAmount - r.amount), reservedDelta := newAmount - r.amount,
         orderID := some r.orderID,
         idempotencyKey := "adjust:" ++ r.orderID ++ ":" ++ toString seq }]
    else []
  | .release r =>
    [{ walletID := r.walletID, type := .release, availableDelta := r.amount,
       reservedDelta := -r.amount, orderID := some r.orderID,
       idempotencyKey := "release:" ++ r.orderID }]
  | .transfer r courierID amount =>
    [{ walletID := r.walletID, type := .transferOut, availableDelta := -shortfall r amount,
       reservedDelta := -min r.amount amount, orderID := some r.orderID,
       counterpartyWalletID := some courierID, idempotencyKey := "transfer:" ++ r.orderID },
     { walletID := courierID, type := .transferIn, availableDelta := amount,
       orderID := some r.orderID, counterpartyWalletID := some r.walletID,
       idempotencyKey := "transfer:" ++ r.orderID }] ++
    if 0 < surplus r amount then
      [{ walletID := r.walletID, type := .release, availableDelta := surplus r amount,
         reservedDelta := -surplus r amount, orderID := some r.orderID,
         idempotencyKey := "transfer-surplus:" ++ r.orderID }]
    else []

/-- The wallet changes of an effect. -/
def Effect.deltas : Effect → List Write
  | .none | .tombstone _ => []
  | .reserve _ walletID _ amount => [.addDeltas walletID (-amount) amount]
  | .adjust r newAmount _ =>
    if newAmount - r.amount ≠ 0 then
      [.addDeltas r.walletID (-(newAmount - r.amount)) (newAmount - r.amount)]
    else []
  | .release r => [.addDeltas r.walletID r.amount (-r.amount)]
  | .transfer r courierID amount =>
    [.addDeltas r.walletID (surplus r amount - shortfall r amount) (-r.amount),
     .addDeltas courierID amount 0]

/-- The change of the reservation or of the tombstones. -/
def Effect.orderWrites : Effect → List Write
  | .none => []
  | .reserve reservationID walletID orderID amount =>
    [.insertReservation ⟨reservationID, walletID, orderID, amount, .active, 0⟩]
  | .adjust r newAmount seq => [.adjustReservation r.id newAmount seq]
  | .release r => [.setReservation r.id r.amount .released]
  | .tombstone orderID => [.insertReleasedOrder orderID]
  | .transfer r _ _ => [.setReservation r.id r.amount .transferred]

/-- All row changes of an effect, in the order of the source. -/
def Effect.writes (e : Effect) : List Write :=
  e.entries.map .insertEntry ++ e.deltas ++ e.orderWrites

/-- The tables after an effect. -/
def Effect.apply (e : Effect) (s : Tables) : Tables := e.writes.foldl (fun s w => w.apply s) s

theorem foldl_insertEntry (entries : List LedgerEntry) (s : Tables) :
    (entries.map Write.insertEntry).foldl (fun s w => w.apply s) s =
      { s with ledger := s.ledger ++ entries } := by
  induction entries generalizing s with
  | nil => simp
  | cons e entries ih =>
    rw [List.map_cons, List.foldl_cons, ih]
    simp [Write.apply]

/-- Entries first, then balances, then the order. -/
theorem Effect.apply_eq (e : Effect) (s : Tables) :
    e.apply s = e.orderWrites.foldl (fun s w => w.apply s)
      (e.deltas.foldl (fun s w => w.apply s) { s with ledger := s.ledger ++ e.entries }) := by
  rw [Effect.apply, Effect.writes, List.foldl_append, List.foldl_append, foldl_insertEntry]

section

variable (e : Effect) (s : Tables)

@[simp] theorem Effect.ledger_apply : (e.apply s).ledger = s.ledger ++ e.entries := by
  rw [Effect.apply_eq]
  cases e with
  | adjust r newAmount seq =>
    by_cases h : newAmount - r.amount ≠ 0 <;> simp [Effect.deltas, Effect.orderWrites, Write.apply, h]
  | none | reserve | release | tombstone | transfer => rfl

@[simp] theorem Effect.processed_apply : (e.apply s).processed = s.processed := by
  rw [Effect.apply_eq]
  cases e with
  | adjust r newAmount seq =>
    by_cases h : newAmount - r.amount ≠ 0 <;> simp [Effect.deltas, Effect.orderWrites, Write.apply, h]
  | none | reserve | release | tombstone | transfer => rfl

@[simp] theorem Effect.outbox_apply : (e.apply s).outbox = s.outbox := by
  rw [Effect.apply_eq]
  cases e with
  | adjust r newAmount seq =>
    by_cases h : newAmount - r.amount ≠ 0 <;> simp [Effect.deltas, Effect.orderWrites, Write.apply, h]
  | none | reserve | release | tombstone | transfer => rfl

end

/-- When an effect may happen. Row identifiers from `n` on are unused. -/
def Effect.Enabled (s : Tables) (n : ℕ) : Effect → Prop
  | .none => True
  | .reserve reservationID walletID orderID amount =>
    n ≤ reservationID ∧ 0 < amount ∧ orderID.toList.length = 36 ∧
      s.reservationOf orderID = Option.none ∧ orderID ∉ s.releasedOrders ∧
      ∃ w ∈ s.wallets, w.id = walletID ∧ amount ≤ w.available
  | .adjust r newAmount seq =>
    r ∈ s.reservations ∧ r.status = .active ∧ r.lastAdjustSeq < seq ∧ 0 < newAmount ∧
      ∃ w ∈ s.wallets, w.id = r.walletID ∧ newAmount - r.amount ≤ w.available
  | .release r => r ∈ s.reservations ∧ r.status = .active
  | .tombstone orderID => s.reservationOf orderID = Option.none ∧ orderID ∉ s.releasedOrders
  | .transfer r courierID amount =>
    r ∈ s.reservations ∧ r.status = .active ∧ 0 < amount ∧ courierID ≠ r.walletID ∧
      (∃ w ∈ s.wallets, w.id = courierID) ∧
      ∃ w ∈ s.wallets, w.id = r.walletID ∧ shortfall r amount ≤ w.available

section

variable {s : Tables} {n : ℕ}

/-- No entry has a key whose purpose would contradict the reservations. -/
theorem Books.key_notMem (h : Books s n) {p : Purpose} (hp : p.WellFormed)
    {o : String} (ho : p.orderID = some o)
    (hno : ∀ r ∈ s.reservations, r.orderID = o → ∀ f, ¬ p.Holds r f) :
    ∀ g ∈ s.ledger, g.idempotencyKey ≠ p.key := by
  intro g hg hkey
  obtain ⟨q, hq⟩ := h.booked g hg
  obtain ⟨r, hr, horder, hholds⟩ := (hq.of_key hp hkey).holds o ho
  exact hno r hr horder g hholds

theorem reservationOf_eq_none {o : String} :
    s.reservationOf o = none ↔ ∀ r ∈ s.reservations, r.orderID ≠ o := findRow_eq_none

theorem Books.walletOf (h : Books s n) {w w' : Wallet} (hw : w ∈ s.wallets) (hw' : w' ∈ s.wallets)
    (hid : w.id = w'.id) : w = w' := h.walletIDs.eq hw hw' hid

/-- An update under which the reservation evolves. -/
theorem evolves_update (hu : UniqueKey Reservation.id s.reservations) {r : Reservation}
    (hr : r ∈ s.reservations) {f : Reservation → Reservation} (hf : Evolves r (f r)) :
    ∀ r₀ ∈ s.reservations, ∃ r' ∈ updateRow Reservation.id r.id f s.reservations,
      Evolves r₀ r' := by
  intro r₀ hr₀
  refine ⟨_, mem_updateRow.mpr ⟨r₀, hr₀, rfl⟩, ?_⟩
  split
  · next hid =>
    rw [hu.eq hr₀ hr hid]
    exact hf
  · exact .refl r₀

/-- What a reservation contributes to the holdings of a wallet. -/
def Reservation.heldBy (walletID : ℕ) (r : Reservation) : ℤ :=
  if r.walletID = walletID ∧ r.status = .active then r.amount else 0

theorem heldFor_eq (s : Tables) (walletID : ℕ) :
    s.heldFor walletID = (s.reservations.map (Reservation.heldBy walletID)).sum := by
  rw [Tables.heldFor, sum_filter_map]
  congr 1
  apply List.map_congr_left
  intro r _
  simp [Reservation.heldBy]

theorem heldFor_update (hu : UniqueKey Reservation.id s.reservations) {r : Reservation}
    (hr : r ∈ s.reservations) {f : Reservation → Reservation} {s' : Tables}
    (hs' : s'.reservations = updateRow Reservation.id r.id f s.reservations) (walletID : ℕ) :
    s'.heldFor walletID =
      s.heldFor walletID + ((f r).heldBy walletID - r.heldBy walletID) := by
  rw [heldFor_eq, heldFor_eq, hs', sum_updateRow _ hu hr rfl]

theorem heldFor_append {r : Reservation} {s' : Tables}
    (hs' : s'.reservations = s.reservations ++ [r]) (walletID : ℕ) :
    s'.heldFor walletID = s.heldFor walletID + r.heldBy walletID := by
  rw [heldFor_eq, heldFor_eq, hs', List.map_append, List.sum_append]
  simp

/-- `Reserve` with enough credits keeps the books in agreement. -/
theorem Books.reserve (h : Books s n) {reservationID walletID : ℕ} {orderID : String} {amount : ℤ}
    (hen : (Effect.reserve reservationID walletID orderID amount).Enabled s n) {n' : ℕ}
    (hn : reservationID < n') :
    Books ((Effect.reserve reservationID walletID orderID amount).apply s) n' := by
  obtain ⟨hfresh, hpos, hlength, hnone, _, w, hw, rfl, hle⟩ := hen
  have hnone' := reservationOf_eq_none.mp hnone
  have hpurpose : (Purpose.reserve orderID).WellFormed := hlength
  refine h.post (by omega) (f := fun v => if v.id = w.id then v.addDeltas (-amount) amount else v)
    rfl ?hf rfl ?hbalance ?hids ?horders ?hfresh ?hrow ?hevolve ?hbooked ?hexists ?hkeys ?hnew ?hnet
  case hf =>
    intro v
    split <;> exact ⟨rfl, rfl, rfl⟩
  case hbalance =>
    intro v hv
    rw [heldFor_append (s := s) rfl]
    by_cases hid : v.id = w.id
    · obtain rfl := h.walletOf hv hw hid
      simp [Wallet.addDeltas, Reservation.heldBy]
      omega
    · have hid' : ¬ w.id = v.id := fun h => hid h.symm
      simp [hid, hid', Reservation.heldBy, (h.walletRow v hv).nonneg]
  case hids =>
    refine uniqueKey_append_singleton.mpr ⟨h.reservationIDs, ?_⟩
    intro r hr
    have := h.reservationFresh r hr
    change r.id ≠ reservationID
    omega
  case horders => exact uniqueKey_append_singleton.mpr ⟨h.orders, hnone'⟩
  case hfresh =>
    intro r hr
    rcases List.mem_append.mp hr with hr | hr
    · have := h.reservationFresh r hr
      omega
    · rw [List.mem_singleton.mp hr]
      exact hn
  case hrow =>
    intro r hr
    rcases List.mem_append.mp hr with hr | hr
    · exact h.reservationRow r hr
    · rw [List.mem_singleton.mp hr]
      exact ⟨hpos, le_rfl, hlength, w, hw, rfl⟩
  case hevolve => exact fun r hr => ⟨r, List.mem_append_left _ hr, .refl r⟩
  case hbooked =>
    rw [List.forall_mem_singleton]
    refine ⟨.reserve orderID, hpurpose, rfl, rfl, by simp, ?_⟩
    rintro o ⟨⟩
    refine ⟨_, List.mem_append_right _ (List.mem_singleton_self _), rfl, rfl, rfl, ?_⟩
    simp [LedgerEntry.net]
  case hexists =>
    rw [List.forall_mem_singleton]
    exact ⟨w, hw, rfl⟩
  case hkeys => exact List.nodup_singleton _
  case hnew =>
    rw [List.forall_mem_singleton]
    intro g hg _
    exact h.key_notMem hpurpose rfl (fun r hr horder => absurd horder (hnone' r hr)) g hg
  case hnet => simp [LedgerEntry.net]

/-- A posting that changes one reservation. Its entries are booked for purposes that
the reservation supports only after the change, so their keys are new. -/
theorem Books.settle {s' : Tables} (h : Books s n) {r : Reservation} (hr : r ∈ s.reservations)
    {g : Reservation → Reservation}
    (hreservations : s'.reservations = updateRow Reservation.id r.id g s.reservations)
    (hid : ∀ r, (g r).id = r.id) (horder : ∀ r, (g r).orderID = r.orderID)
    (hamount : 0 < (g r).amount) (hevolve : Evolves r (g r))
    {f : Wallet → Wallet} {entries : List LedgerEntry}
    (hwallets : s'.wallets = s.wallets.map f)
    (hf : ∀ w, (f w).id = w.id ∧ (f w).ownerID = w.ownerID ∧ (f w).auth0Subject = w.auth0Subject)
    (hledger : s'.ledger = s.ledger ++ entries)
    (hbalance : ∀ w ∈ s.wallets,
      (f w).available = w.available +
        ((entries.filter fun e => e.walletID = w.id).map LedgerEntry.availableDelta).sum ∧
      (f w).reserved = w.reserved +
        ((entries.filter fun e => e.walletID = w.id).map LedgerEntry.reservedDelta).sum ∧
      (g r).heldBy w.id - r.heldBy w.id =
        ((entries.filter fun e => e.walletID = w.id).map LedgerEntry.reservedDelta).sum ∧
      0 ≤ (f w).available)
    (hbooked : ∀ e ∈ entries, ∃ p : Purpose, p.WellFormed ∧ e.idempotencyKey = p.key ∧
      e.orderID = some r.orderID ∧ p.orderID = some r.orderID ∧ p.Holds (g r) e ∧
      ∀ f, ¬ p.Holds r f)
    (hexists : ∀ e ∈ entries, ∃ w ∈ s.wallets, w.id = e.walletID)
    (hkeys : UniqueKey (fun e : LedgerEntry => (e.walletID, e.idempotencyKey)) entries)
    (hnet : (entries.map LedgerEntry.net).sum = 0) :
    Books s' n := by
  refine h.post le_rfl hwallets hf hledger ?hbalance ?hids ?horders ?hfresh ?hrow ?hevolve ?hbooked
    hexists hkeys ?hnew ?hnet
  case hbalance =>
    intro w hw
    obtain ⟨havail, hres, hheld, hnonneg⟩ := hbalance w hw
    rw [heldFor_update h.reservationIDs hr hreservations, hheld]
    exact ⟨havail, hres, rfl, hnonneg⟩
  case hids =>
    rw [hreservations]
    exact h.reservationIDs.updateRow fun r _ => hid r
  case horders =>
    rw [hreservations]
    exact h.orders.updateRow fun r _ => horder r
  case hfresh =>
    intro r' hr'
    rw [hreservations] at hr'
    rcases h.reservationIDs.mem_updateRow hr hr' with rfl | ⟨hr', _⟩
    · rw [hid]
      exact h.reservationFresh r hr
    · exact h.reservationFresh r' hr'
  case hrow =>
    intro r' hr'
    rw [hreservations] at hr'
    rcases h.reservationIDs.mem_updateRow hr hr' with rfl | ⟨hr', _⟩
    · have hold := h.reservationRow r hr
      refine ⟨hamount, hold.seq.trans hevolve.seq, ?_, ?_⟩
      · rw [horder]
        exact hold.order
      · rw [hevolve.walletID]
        exact hold.wallet
    · exact h.reservationRow r' hr'
  case hevolve =>
    rw [hreservations]
    exact evolves_update h.reservationIDs hr hevolve
  case hbooked =>
    intro e he
    obtain ⟨p, hp, hkey, heo, hpo, hholds, _⟩ := hbooked e he
    refine ⟨p, hp, hkey, heo.trans hpo.symm, ?_, ?_⟩
    · rintro rfl
      cases hpo
    · intro o ho
      obtain rfl := Option.some.inj (hpo.symm.trans ho)
      refine ⟨g r, ?_, horder r, hholds⟩
      rw [hreservations]
      exact mem_updateRow_self hr
  case hnew =>
    intro e he f hf _ hsame
    obtain ⟨p, hp, hkey, _, hpo, _, hno⟩ := hbooked e he
    refine h.key_notMem hp hpo (fun r' hr' horder' => ?_) f hf (hsame.trans hkey)
    rw [h.orders.eq hr' hr horder']
    exact hno
  case hnet =>
    have hnone : (entries.filter fun e => e.type = .allocate) = [] := by
      rw [List.filter_eq_nil_iff]
      intro e he
      obtain ⟨p, _, _, _, hpo, hholds, _⟩ := hbooked e he
      simp [hholds.type_ne_allocate]
    rw [hnone, hnet]
    rfl

/-- An applied `Adjust` keeps the books in agreement. -/
theorem Books.adjust (h : Books s n) {r : Reservation} {newAmount seq : ℤ}
    (hen : (Effect.adjust r newAmount seq).Enabled s n) :
    Books ((Effect.adjust r newAmount seq).apply s) n := by
  obtain ⟨hr, hactive, hseq, hpos, w, hw, hid, hle⟩ := hen
  have hrow := h.reservationRow r hr
  have hevolve : Evolves r { r with amount := newAmount, lastAdjustSeq := seq } :=
    ⟨rfl, rfl, hseq.le, fun _ => rfl⟩
  by_cases hdelta : newAmount - r.amount = 0
  · have happly : (Effect.adjust r newAmount seq).apply s =
        (Write.adjustReservation r.id newAmount seq).apply s := by
      simp [Effect.apply, Effect.writes, Effect.entries, Effect.deltas, Effect.orderWrites, hdelta]
    rw [happly]
    refine h.settle hr rfl (fun _ => rfl) (fun _ => rfl) hpos hevolve (f := id)
      (List.map_id _).symm (fun _ => ⟨rfl, rfl, rfl⟩) (List.append_nil _).symm ?_ (by simp)
      (by simp) List.nodup_nil rfl
    intro v hv
    have hamount : newAmount = r.amount := by omega
    simp [Reservation.heldBy, hactive, hamount, (h.walletRow v hv).nonneg]
  · have happly : (Effect.adjust r newAmount seq).apply s =
        (Write.adjustReservation r.id newAmount seq).apply
          ((Write.addDeltas r.walletID (-(newAmount - r.amount)) (newAmount - r.amount)).apply
            ((Write.insertEntry
              { walletID := r.walletID, type := .reservationAdjust,
                availableDelta := -(newAmount - r.amount), reservedDelta := newAmount - r.amount,
                orderID := some r.orderID,
                idempotencyKey := "adjust:" ++ r.orderID ++ ":" ++ toString seq }).apply s)) := by
      simp [Effect.apply, Effect.writes, Effect.entries, Effect.deltas, Effect.orderWrites, hdelta]
    rw [happly]
    refine h.settle hr rfl (fun _ => rfl) (fun _ => rfl) hpos hevolve
      (f := fun v => if v.id = r.walletID then
        v.addDeltas (-(newAmount - r.amount)) (newAmount - r.amount) else v)
      rfl ?hf rfl ?hbalance ?hbooked ?hexists (List.nodup_singleton _) ?hnet
    case hf =>
      intro v
      split <;> exact ⟨rfl, rfl, rfl⟩
    case hbalance =>
      intro v hv
      by_cases hvid : v.id = r.walletID
      · obtain rfl := h.walletOf hv hw (hvid.trans hid.symm)
        simp [Wallet.addDeltas, Reservation.heldBy, hactive, hvid]
        omega
      · have hvid' : ¬ r.walletID = v.id := fun h => hvid h.symm
        simp [hvid, hvid', Reservation.heldBy, (h.walletRow v hv).nonneg]
    case hbooked =>
      rw [List.forall_mem_singleton]
      have hseqpos : 0 < seq := hrow.seq.trans_lt hseq
      refine ⟨.adjust r.orderID seq, ⟨hrow.order, hseqpos⟩, rfl, rfl, rfl, ?_, ?_⟩
      · exact ⟨le_rfl, rfl, rfl, by simp [LedgerEntry.net]⟩
      · intro f hf
        exact absurd hf.1 (not_le.mpr hseq)
    case hexists =>
      rw [List.forall_mem_singleton]
      exact ⟨w, hw, hid⟩
    case hnet => simp [LedgerEntry.net]

/-- `Release` of an active reservation keeps the books in agreement. -/
theorem Books.release (h : Books s n) {r : Reservation} (hen : (Effect.release r).Enabled s n) :
    Books ((Effect.release r).apply s) n := by
  obtain ⟨hr, hactive⟩ := hen
  have hrow := h.reservationRow r hr
  obtain ⟨w, hw, hid⟩ := hrow.wallet
  refine h.settle hr rfl (fun _ => rfl) (fun _ => rfl) hrow.amount
    ⟨rfl, rfl, le_rfl, fun hne => absurd hactive hne⟩
    (f := fun v => if v.id = r.walletID then v.addDeltas r.amount (-r.amount) else v)
    rfl ?hf rfl ?hbalance ?hbooked ?hexists (List.nodup_singleton _) ?hnet
  case hf =>
    intro v
    split <;> exact ⟨rfl, rfl, rfl⟩
  case hbalance =>
    intro v hv
    have hnonneg := (h.walletRow v hv).nonneg
    by_cases hvid : v.id = r.walletID
    · have := hrow.amount
      simp [Wallet.addDeltas, Reservation.heldBy, hactive, hvid]
      omega
    · have hvid' : ¬ r.walletID = v.id := fun h => hvid h.symm
      simp [hvid, hvid', Reservation.heldBy, hnonneg]
  case hbooked =>
    rw [List.forall_mem_singleton]
    refine ⟨.release r.orderID, hrow.order, rfl, rfl, rfl, ?_, ?_⟩
    · exact ⟨rfl, rfl, rfl, by simp [LedgerEntry.net]⟩
    · intro f hf
      simp [Purpose.Holds, hactive] at hf
  case hexists =>
    rw [List.forall_mem_singleton]
    exact ⟨w, hw, hid⟩
  case hnet => simp [LedgerEntry.net]

/-- `Transfer` of an active reservation keeps the books in agreement. -/
theorem Books.transfer (h : Books s n) {r : Reservation} {courierID : ℕ} {amount : ℤ}
    (hen : (Effect.transfer r courierID amount).Enabled s n) :
    Books ((Effect.transfer r courierID amount).apply s) n := by
  obtain ⟨hr, hactive, hpos, hne, ⟨c, hc, hcid⟩, w, hw, hid, hle⟩ := hen
  have hrow := h.reservationRow r hr
  have hwallets : ((Effect.transfer r courierID amount).apply s).wallets =
      updateRow Wallet.id courierID (fun w => w.addDeltas amount 0) (updateRow Wallet.id r.walletID
        (fun w => w.addDeltas (surplus r amount - shortfall r amount) (-r.amount)) s.wallets) := by
    rw [Effect.apply_eq]
    rfl
  have hreservations : ((Effect.transfer r courierID amount).apply s).reservations =
      updateRow Reservation.id r.id
        (fun r' => { r' with amount := r.amount, status := .transferred }) s.reservations := by
    rw [Effect.apply_eq]
    rfl
  refine h.settle hr hreservations (fun _ => rfl) (fun _ => rfl) hrow.amount
    ⟨rfl, rfl, le_rfl, fun hne => absurd hactive hne⟩
    (hwallets.trans (List.map_map ..)) ?hf (Effect.ledger_apply _ s) ?hbalance ?hbooked ?hexists
    ?hkeys ?hnet
  case hf =>
    intro v
    simp only [Function.comp_apply]
    split <;> split <;> exact ⟨rfl, rfl, rfl⟩
  case hbalance =>
    intro v hv
    have hnonneg := (h.walletRow v hv).nonneg
    have hamount := hrow.amount
    have hne' : ¬ r.walletID = courierID := fun h => hne h.symm
    by_cases hvid : v.id = r.walletID
    · obtain rfl := h.walletOf hv hw (hvid.trans hid.symm)
      by_cases hsurplus : 0 < surplus r amount <;>
        simp [Effect.entries, Wallet.addDeltas, Reservation.heldBy, hactive, hvid, hne, hne',
          hsurplus] <;>
        simp only [surplus, shortfall] at hsurplus hle ⊢ <;>
        refine ⟨by omega, by omega, by omega⟩
    · have hvid' : ¬ r.walletID = v.id := fun h => hvid h.symm
      by_cases hvc : v.id = courierID
      · by_cases hsurplus : 0 < surplus r amount <;>
          simp [Effect.entries, Wallet.addDeltas, Reservation.heldBy, hvc, hne, hne', hsurplus] <;>
          omega
      · have hvc' : ¬ courierID = v.id := fun h => hvc h.symm
        by_cases hsurplus : 0 < surplus r amount <;>
          simp [Effect.entries, Reservation.heldBy, hvid, hvid', hvc, hvc', hsurplus, hnonneg]
  case hbooked =>
    have htransfer : ∀ f, ¬ (Purpose.transfer r.orderID).Holds r f := by
      intro f hf
      simp [Purpose.Holds, hactive] at hf
    have hsurplus : ∀ f, ¬ (Purpose.surplus r.orderID).Holds r f := by
      intro f hf
      simp [Purpose.Holds, hactive] at hf
    intro e he
    rcases List.mem_append.mp he with he | he
    · simp only [List.mem_cons, List.not_mem_nil, or_false] at he
      rcases he with rfl | rfl
      · exact ⟨.transfer r.orderID, hrow.order, rfl, rfl, rfl, ⟨rfl, Or.inl ⟨rfl, rfl⟩⟩, htransfer⟩
      · exact ⟨.transfer r.orderID, hrow.order, rfl, rfl, rfl, ⟨rfl, Or.inr ⟨rfl, hne⟩⟩, htransfer⟩
    · split at he
      · rw [List.mem_singleton.mp he]
        exact ⟨.surplus r.orderID, hrow.order, rfl, rfl, rfl,
          ⟨rfl, rfl, rfl, by simp [LedgerEntry.net]⟩, hsurplus⟩
      · simp at he
  case hexists =>
    intro e he
    rcases List.mem_append.mp he with he | he
    · simp only [List.mem_cons, List.not_mem_nil, or_false] at he
      rcases he with rfl | rfl
      · exact ⟨w, hw, hid⟩
      · exact ⟨c, hc, hcid⟩
    · split at he
      · rw [List.mem_singleton.mp he]
        exact ⟨w, hw, hid⟩
      · simp at he
  case hkeys =>
    have hne' : ¬ r.walletID = courierID := fun h => hne h.symm
    by_cases hsurplus : 0 < surplus r amount <;>
      simp [Effect.entries, UniqueKey, hsurplus, hne, hne', ← String.toList_inj]
  case hnet =>
    by_cases hsurplus : 0 < surplus r amount <;>
      simp [Effect.entries, LedgerEntry.net, hsurplus, shortfall] <;> omega

/-- Every effect keeps the books in agreement. -/
theorem Books.effect (h : Books s n) {e : Effect} (hen : e.Enabled s n) {n' : ℕ} (hn : n ≤ n')
    (hnew : ∀ i w o a, e = .reserve i w o a → i < n') : Books (e.apply s) n' := by
  cases e with
  | none => exact h.mono hn
  | reserve i w o a => exact h.reserve hen (hnew i w o a rfl)
  | adjust r newAmount seq => exact (h.adjust hen).mono hn
  | release r => exact (h.release hen).mono hn
  | tombstone o =>
    have hbooks : Books ((Effect.tombstone o).apply s) n := h.congr rfl rfl rfl
    exact hbooks.mono hn
  | transfer r courierID amount => exact (h.transfer hen).mono hn

end

end FocServices.Credit
