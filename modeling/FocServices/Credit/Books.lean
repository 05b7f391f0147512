import FocServices.Credit.Commands
import Mathlib.Algebra.BigOperators.Group.List.Basic
import Mathlib.Algebra.Order.BigOperators.Group.List
import Mathlib.Algebra.Order.Group.Int

/-!
# The books of the credit service

The same money is kept three times: as wallet balances, as ledger entries and as
reservations. `Books` says that the three agree. It also says what each ledger entry
was booked for, which is why its idempotency key can never be used a second time.
-/

namespace FocServices.Credit

open Txn

/-- The sum of the available deltas booked on a wallet. -/
def Tables.availableOf (s : Tables) (walletID : ℕ) : ℤ :=
  ((s.ledger.filter fun f => f.walletID = walletID).map LedgerEntry.availableDelta).sum

/-- The sum of the reserved deltas booked on a wallet. -/
def Tables.reservedOf (s : Tables) (walletID : ℕ) : ℤ :=
  ((s.ledger.filter fun f => f.walletID = walletID).map LedgerEntry.reservedDelta).sum

/-- The amount held by the active reservations of a wallet. -/
def Tables.heldFor (s : Tables) (walletID : ℕ) : ℤ :=
  ((s.reservations.filter fun r => r.walletID = walletID ∧ r.status = .active).map
    Reservation.amount).sum

/-- The sum of the allocations. -/
def Tables.allocated (s : Tables) : ℤ :=
  ((s.ledger.filter fun f => f.type = .allocate).map LedgerEntry.availableDelta).sum

/-- All credits in wallets. -/
def Tables.total (s : Tables) : ℤ := (s.wallets.map fun w => w.available + w.reserved).sum

/-- The net change an entry makes to its wallet. -/
def LedgerEntry.net (f : LedgerEntry) : ℤ := f.availableDelta + f.reservedDelta

/-! ## What entries are booked for -/

/-- What a ledger entry was booked for. -/
inductive Purpose where
  | allocate
  | reserve (orderID : String)
  | adjust (orderID : String) (seq : ℤ)
  | release (orderID : String)
  | transfer (orderID : String)
  | surplus (orderID : String)

/-- The idempotency key of the entries booked for a purpose. -/
def Purpose.key : Purpose → String
  | .allocate => "initial-allocation"
  | .reserve o => "reserve:" ++ o
  | .adjust o seq => "adjust:" ++ o ++ ":" ++ toString seq
  | .release o => "release:" ++ o
  | .transfer o => "transfer:" ++ o
  | .surplus o => "transfer-surplus:" ++ o

def Purpose.orderID : Purpose → Option String
  | .allocate => none
  | .reserve o | .adjust o _ | .release o | .transfer o | .surplus o => some o

/-- Order ids are UUIDs and sequence numbers are positive. -/
def Purpose.WellFormed : Purpose → Prop
  | .allocate => True
  | .adjust o seq => o.toList.length = 36 ∧ 0 < seq
  | .reserve o | .release o | .transfer o | .surplus o => o.toList.length = 36

/-- Order ids have one length, so the sequence number is the part after the colon. -/
theorem adjustKey_inj {a b : String} {p q : ℤ} (hlength : a.toList.length = b.toList.length)
    (hp : 0 < p) (hq : 0 < q)
    (h : "adjust:" ++ a ++ ":" ++ toString p = "adjust:" ++ b ++ ":" ++ toString q) :
    a = b ∧ p = q := by
  have hchars : a.toList ++ ([':'] ++ (toString p).toList) =
      b.toList ++ ([':'] ++ (toString q).toList) := by
    have := congrArg String.toList h
    simpa [List.append_assoc] using this
  obtain ⟨horder, hrest⟩ := List.append_inj hchars hlength
  have hseq := List.append_cancel_left hrest
  exact ⟨String.toList_inj.mp horder,
    toString_int_injective hp.le hq.le (String.toList_inj.mp hseq)⟩

/-- The characters of a key. -/
theorem Purpose.toList_key (p : Purpose) : p.key.toList = match p with
    | .allocate => ['i', 'n', 'i', 't', 'i', 'a', 'l', '-', 'a', 'l', 'l', 'o', 'c', 'a', 't', 'i',
        'o', 'n']
    | .reserve o => ['r', 'e', 's', 'e', 'r', 'v', 'e', ':'] ++ o.toList
    | .adjust o seq => ['a', 'd', 'j', 'u', 's', 't', ':'] ++ o.toList ++ [':'] ++
        (toString seq).toList
    | .release o => ['r', 'e', 'l', 'e', 'a', 's', 'e', ':'] ++ o.toList
    | .transfer o => ['t', 'r', 'a', 'n', 's', 'f', 'e', 'r', ':'] ++ o.toList
    | .surplus o => ['t', 'r', 'a', 'n', 's', 'f', 'e', 'r', '-', 's', 'u', 'r', 'p', 'l', 'u', 's',
        ':'] ++ o.toList := by
  unfold Purpose.key
  cases p with
  | allocate => rfl
  | reserve | adjust | release | transfer | surplus =>
    simp only [String.toList_append, String.reduceToList]

/-- The purpose of an entry can be read off its key. -/
theorem Purpose.key_inj {p q : Purpose} (hp : p.WellFormed) (hq : q.WellFormed)
    (h : p.key = q.key) : p = q := by
  have hchars := congrArg String.toList h
  rw [Purpose.toList_key, Purpose.toList_key] at hchars
  cases p <;> cases q
  case adjust.adjust =>
    obtain ⟨rfl, rfl⟩ := adjustKey_inj (hp.1.trans hq.1.symm) hp.2 hq.2 h
    rfl
  all_goals simp [String.toList_inj] at hchars
  all_goals first | rfl | rw [hchars]

/-- What an entry booked for a purpose says about the reservation of its order: an
adjust has a sequence number up to the last applied one, and a release or a transfer
has ended the reservation. Only a transfer moves credits out of or into a wallet. -/
def Purpose.Holds (r : Reservation) (f : LedgerEntry) : Purpose → Prop
  | .allocate => False
  | .reserve _ => f.type = .reserve ∧ f.walletID = r.walletID ∧ f.net = 0
  | .adjust _ seq => seq ≤ r.lastAdjustSeq ∧ f.type = .reservationAdjust ∧
      f.walletID = r.walletID ∧ f.net = 0
  | .release _ => r.status = .released ∧ f.type = .release ∧ f.walletID = r.walletID ∧ f.net = 0
  | .transfer _ => r.status = .transferred ∧ (f.type = .transferOut ∧ f.walletID = r.walletID ∨
      f.type = .transferIn ∧ f.walletID ≠ r.walletID)
  | .surplus _ => r.status = .transferred ∧ f.type = .release ∧ f.walletID = r.walletID ∧ f.net = 0

/-- Entries about an order are no allocations. -/
theorem Purpose.Holds.type_ne_allocate {p : Purpose} {r : Reservation} {f : LedgerEntry}
    (h : p.Holds r f) : f.type ≠ .allocate := by
  intro htype
  cases p with
  | allocate => exact h
  | transfer o => rcases h.2 with h | h <;> simp [htype] at h
  | reserve | adjust | release | surplus => simp [Purpose.Holds, htype] at h

/-- An entry is booked for a purpose. -/
structure BookedFor (s : Tables) (f : LedgerEntry) (p : Purpose) : Prop where
  wellFormed : p.WellFormed
  key : f.idempotencyKey = p.key
  order : f.orderID = p.orderID
  allocation : p = .allocate → f.type = .allocate
  holds : ∀ o, p.orderID = some o → ∃ r ∈ s.reservations, r.orderID = o ∧ p.Holds r f

/-- How a reservation may change over time. -/
structure Evolves (r r' : Reservation) : Prop where
  orderID : r'.orderID = r.orderID
  walletID : r'.walletID = r.walletID
  seq : r.lastAdjustSeq ≤ r'.lastAdjustSeq
  status : r.status ≠ .active → r'.status = r.status

theorem Evolves.refl (r : Reservation) : Evolves r r := ⟨rfl, rfl, le_rfl, fun _ => rfl⟩

/-- What an entry says about a reservation stays true while it evolves. -/
theorem Purpose.Holds.mono {p : Purpose} {r r' : Reservation} {f : LedgerEntry}
    (h : p.Holds r f) (he : Evolves r r') : p.Holds r' f := by
  have hended : ∀ {status}, r.status = status → status ≠ .active → r'.status = status := by
    rintro _ rfl hne
    exact he.status hne
  cases p with
  | allocate => exact h
  | reserve o => exact ⟨h.1, h.2.1.trans he.walletID.symm, h.2.2⟩
  | adjust o seq => exact ⟨h.1.trans he.seq, h.2.1, h.2.2.1.trans he.walletID.symm, h.2.2.2⟩
  | release o =>
    exact ⟨hended h.1 (by decide), h.2.1, h.2.2.1.trans he.walletID.symm, h.2.2.2⟩
  | transfer o =>
    refine ⟨hended h.1 (by decide), ?_⟩
    rw [he.walletID]
    exact h.2
  | surplus o =>
    exact ⟨hended h.1 (by decide), h.2.1, h.2.2.1.trans he.walletID.symm, h.2.2.2⟩

/-- An entry stays booked for what it was booked for while reservations evolve. -/
theorem BookedFor.mono {s s' : Tables} {f : LedgerEntry} {p : Purpose} (h : BookedFor s f p)
    (hevolve : ∀ r ∈ s.reservations, ∃ r' ∈ s'.reservations, Evolves r r') :
    BookedFor s' f p := by
  refine ⟨h.wellFormed, h.key, h.order, h.allocation, ?_⟩
  intro o ho
  obtain ⟨r, hr, horder, hholds⟩ := h.holds o ho
  obtain ⟨r', hr', he⟩ := hevolve r hr
  exact ⟨r', hr', he.orderID.trans horder, hholds.mono he⟩

/-- The key of a booked entry determines its purpose. -/
theorem BookedFor.of_key {s : Tables} {f : LedgerEntry} {p q : Purpose} (h : BookedFor s f p)
    (hq : q.WellFormed) (hkey : f.idempotencyKey = q.key) : BookedFor s f q := by
  obtain rfl := Purpose.key_inj h.wellFormed hq (h.key.symm.trans hkey)
  exact h

/-! ## The books -/

/-- A stored reservation. -/
structure ReservationRow (s : Tables) (r : Reservation) : Prop where
  amount : 0 < r.amount
  seq : 0 ≤ r.lastAdjustSeq
  order : r.orderID.toList.length = 36
  wallet : ∃ w ∈ s.wallets, w.id = r.walletID

/-- A stored wallet: each balance is the sum of its ledger deltas, the available one
is not negative, and the reserved one is what the active reservations hold. -/
structure WalletRow (s : Tables) (w : Wallet) : Prop where
  available : w.available = s.availableOf w.id
  nonneg : 0 ≤ w.available
  reserved : w.reserved = s.reservedOf w.id
  held : w.reserved = s.heldFor w.id

/-- The books agree. Generated identifiers are below the serial number `n`. -/
structure Books (s : Tables) (n : ℕ) : Prop where
  walletIDs : UniqueKey Wallet.id s.wallets
  owners : UniqueKey Wallet.ownerID s.wallets
  subjects : UniqueKey Wallet.auth0Subject s.wallets
  walletFresh : ∀ w ∈ s.wallets, w.id < n
  walletRow : ∀ w ∈ s.wallets, WalletRow s w
  reservationIDs : UniqueKey Reservation.id s.reservations
  orders : UniqueKey Reservation.orderID s.reservations
  reservationFresh : ∀ r ∈ s.reservations, r.id < n
  reservationRow : ∀ r ∈ s.reservations, ReservationRow s r
  booked : ∀ f ∈ s.ledger, ∃ p, BookedFor s f p
  entryWallet : ∀ f ∈ s.ledger, ∃ w ∈ s.wallets, w.id = f.walletID
  entryKeys : UniqueKey (fun f : LedgerEntry => (f.walletID, f.idempotencyKey)) s.ledger
  conserved : (s.ledger.map LedgerEntry.net).sum = s.allocated

/-- Empty tables are in agreement. -/
theorem books_empty (n : ℕ) : Books {} n where
  walletIDs := List.nodup_nil
  owners := List.nodup_nil
  subjects := List.nodup_nil
  walletFresh := by simp
  walletRow := by simp
  reservationIDs := List.nodup_nil
  orders := List.nodup_nil
  reservationFresh := by simp
  reservationRow := by simp
  booked := by simp
  entryWallet := by simp
  entryKeys := List.nodup_nil
  conserved := by simp [Tables.allocated]

section Books

variable {s : Tables} {n : ℕ}

/-- Active reservations hold a non-negative amount. -/
theorem Books.heldFor_nonneg (h : Books s n) (walletID : ℕ) : 0 ≤ s.heldFor walletID := by
  apply List.sum_nonneg
  intro x hx
  obtain ⟨r, hr, rfl⟩ := List.mem_map.mp hx
  exact (h.reservationRow r (List.mem_filter.mp hr).1).amount.le

theorem Books.reserved_nonneg (h : Books s n) {w : Wallet} (hw : w ∈ s.wallets) :
    0 ≤ w.reserved := by
  rw [(h.walletRow w hw).held]
  exact h.heldFor_nonneg w.id

/-- An active reservation is part of what its wallet holds. -/
theorem Books.amount_le_heldFor (h : Books s n) {r : Reservation} (hr : r ∈ s.reservations)
    (hactive : r.status = .active) : r.amount ≤ s.heldFor r.walletID := by
  apply List.single_le_sum
  · intro x hx
    obtain ⟨r', hr', rfl⟩ := List.mem_map.mp hx
    exact (h.reservationRow r' (List.mem_filter.mp hr').1).amount.le
  · exact List.mem_map_of_mem (List.mem_filter.mpr ⟨hr, by simp [hactive]⟩)

/-- The credits in wallets are the allocated ones: transfers move credits and every
other entry moves them inside one wallet. -/
theorem Books.total_eq (h : Books s n) : s.total = s.allocated := by
  have hbalance : (s.wallets.map fun w => w.available + w.reserved) =
      (s.wallets.map Wallet.id).map fun id =>
        ((s.ledger.filter fun f => f.walletID = id).map LedgerEntry.net).sum := by
    rw [List.map_map]
    apply List.map_congr_left
    intro w hw
    have hrow := h.walletRow w hw
    rw [Function.comp_apply, hrow.available, hrow.reserved]
    exact (List.sum_map_add (f := LedgerEntry.availableDelta)).symm
  rw [Tables.total, hbalance, sum_by_group h.walletIDs, h.conserved]
  intro f hf
  obtain ⟨w, hw, hid⟩ := h.entryWallet f hf
  exact List.mem_map.mpr ⟨w, hw, hid⟩

/-- A wallet has at most one allocation, since allocations share their key. -/
theorem Books.allocate_unique (h : Books s n) {f g : LedgerEntry} (hf : f ∈ s.ledger)
    (hg : g ∈ s.ledger) (hft : f.type = .allocate) (hgt : g.type = .allocate)
    (hwallet : f.walletID = g.walletID) : f = g := by
  have hkey : ∀ e ∈ s.ledger, e.type = .allocate → e.idempotencyKey = "initial-allocation" := by
    intro e he het
    obtain ⟨p, hp⟩ := h.booked e he
    rw [hp.key]
    cases hpurpose : p.orderID with
    | none =>
      cases p <;> first | rfl | cases hpurpose
    | some o =>
      obtain ⟨r, _, _, hholds⟩ := hp.holds o hpurpose
      exact absurd het hholds.type_ne_allocate
  refine h.entryKeys.eq hf hg ?_
  simp only [hwallet, hkey f hf hft, hkey g hg hgt]

/-- More serial numbers leave the books in agreement. -/
theorem Books.mono (h : Books s n) {n' : ℕ} (hn : n ≤ n') : Books s n' :=
  { h with
    walletFresh := fun w hw => (h.walletFresh w hw).trans_le hn
    reservationFresh := fun r hr => (h.reservationFresh r hr).trans_le hn }

/-- The books do not depend on the stored results, tombstones and result messages. -/
theorem Books.congr {s' : Tables} (h : Books s n) (hwallets : s'.wallets = s.wallets)
    (hreservations : s'.reservations = s.reservations) (hledger : s'.ledger = s.ledger) :
    Books s' n := by
  obtain ⟨wallets, reservations, ledger, _, _, _⟩ := s
  obtain ⟨wallets', reservations', ledger', _, _, _⟩ := s'
  simp only at hwallets hreservations hledger
  subst hwallets hreservations hledger
  exact {
    walletIDs := h.walletIDs
    owners := h.owners
    subjects := h.subjects
    walletFresh := h.walletFresh
    walletRow := fun w hw => ⟨(h.walletRow w hw).available, (h.walletRow w hw).nonneg,
      (h.walletRow w hw).reserved, (h.walletRow w hw).held⟩
    reservationIDs := h.reservationIDs
    orders := h.orders
    reservationFresh := h.reservationFresh
    reservationRow := fun r hr => ⟨(h.reservationRow r hr).amount, (h.reservationRow r hr).seq,
      (h.reservationRow r hr).order, (h.reservationRow r hr).wallet⟩
    booked := fun f hf => (h.booked f hf).imp fun _ hp => hp.mono fun r hr => ⟨r, hr, .refl r⟩
    entryWallet := h.entryWallet
    entryKeys := h.entryKeys
    conserved := h.conserved }

/-- A posting: `entries` are added to the ledger, `f` adds their deltas to the
wallets, and the reservations change by the reserved deltas. The books agree again. -/
theorem Books.post {s' : Tables} {n' : ℕ} (h : Books s n) (hn : n ≤ n')
    {f : Wallet → Wallet} {entries : List LedgerEntry}
    (hwallets : s'.wallets = s.wallets.map f)
    (hf : ∀ w, (f w).id = w.id ∧ (f w).ownerID = w.ownerID ∧ (f w).auth0Subject = w.auth0Subject)
    (hledger : s'.ledger = s.ledger ++ entries)
    (hbalance : ∀ w ∈ s.wallets,
      (f w).available = w.available +
        ((entries.filter fun e => e.walletID = w.id).map LedgerEntry.availableDelta).sum ∧
      (f w).reserved = w.reserved +
        ((entries.filter fun e => e.walletID = w.id).map LedgerEntry.reservedDelta).sum ∧
      s'.heldFor w.id = s.heldFor w.id +
        ((entries.filter fun e => e.walletID = w.id).map LedgerEntry.reservedDelta).sum ∧
      0 ≤ (f w).available)
    (hids : UniqueKey Reservation.id s'.reservations)
    (horders : UniqueKey Reservation.orderID s'.reservations)
    (hfresh : ∀ r ∈ s'.reservations, r.id < n')
    (hrow : ∀ r ∈ s'.reservations, ReservationRow s r)
    (hevolve : ∀ r ∈ s.reservations, ∃ r' ∈ s'.reservations, Evolves r r')
    (hbooked : ∀ e ∈ entries, ∃ p, BookedFor s' e p)
    (hexists : ∀ e ∈ entries, ∃ w ∈ s.wallets, w.id = e.walletID)
    (hkeys : UniqueKey (fun e : LedgerEntry => (e.walletID, e.idempotencyKey)) entries)
    (hnew : ∀ e ∈ entries, ∀ g ∈ s.ledger,
      g.walletID = e.walletID → g.idempotencyKey ≠ e.idempotencyKey)
    (hnet : (entries.map LedgerEntry.net).sum =
      ((entries.filter fun e => e.type = .allocate).map LedgerEntry.availableDelta).sum) :
    Books s' n' := by
  have hmem : ∀ w' ∈ s'.wallets, ∃ w ∈ s.wallets, f w = w' := by
    intro w' hw'
    rw [hwallets] at hw'
    exact List.mem_map.mp hw'
  have hcolumn : ∀ {β : Type} (key : Wallet → β), (∀ w, key (f w) = key w) →
      s'.wallets.map key = s.wallets.map key := by
    intro β key hkey
    rw [hwallets, List.map_map]
    exact List.map_congr_left fun w _ => hkey w
  have hwalletOf : ∀ id, (∃ w ∈ s.wallets, w.id = id) → ∃ w ∈ s'.wallets, w.id = id := by
    rintro id ⟨w, hw, rfl⟩
    refine ⟨f w, ?_, (hf w).1⟩
    rw [hwallets]
    exact List.mem_map_of_mem hw
  refine {
    walletIDs := by rw [UniqueKey, hcolumn _ fun w => (hf w).1]; exact h.walletIDs
    owners := by rw [UniqueKey, hcolumn _ fun w => (hf w).2.1]; exact h.owners
    subjects := by rw [UniqueKey, hcolumn _ fun w => (hf w).2.2]; exact h.subjects
    walletFresh := ?_
    walletRow := ?_
    reservationIDs := hids
    orders := horders
    reservationFresh := hfresh
    reservationRow := fun r hr => ⟨(hrow r hr).amount, (hrow r hr).seq, (hrow r hr).order,
      hwalletOf _ (hrow r hr).wallet⟩
    booked := ?_
    entryWallet := ?_
    entryKeys := ?_
    conserved := ?_ }
  · intro w' hw'
    obtain ⟨w, hw, rfl⟩ := hmem w' hw'
    rw [(hf w).1]
    exact (h.walletFresh w hw).trans_le hn
  · intro w' hw'
    obtain ⟨w, hw, rfl⟩ := hmem w' hw'
    obtain ⟨havail, hres, hheld, hnonneg⟩ := hbalance w hw
    have hold := h.walletRow w hw
    refine ⟨?_, hnonneg, ?_, ?_⟩
    · rw [(hf w).1, havail, hold.available, Tables.availableOf, Tables.availableOf, hledger,
        List.filter_append, List.map_append, List.sum_append]
    · rw [(hf w).1, hres, hold.reserved, Tables.reservedOf, Tables.reservedOf, hledger,
        List.filter_append, List.map_append, List.sum_append]
    · rw [(hf w).1, hres, hold.held, hheld]
  · intro e he
    rw [hledger] at he
    rcases List.mem_append.mp he with hold | hnew
    · exact (h.booked e hold).imp fun _ hp => hp.mono hevolve
    · exact hbooked e hnew
  · intro e he
    rw [hledger] at he
    apply hwalletOf
    rcases List.mem_append.mp he with hold | hnew
    · exact h.entryWallet e hold
    · exact hexists e hnew
  · rw [UniqueKey, hledger, List.map_append, List.nodup_append]
    refine ⟨h.entryKeys, hkeys, ?_⟩
    rintro a ha b hb rfl
    obtain ⟨g, hg, hga⟩ := List.mem_map.mp ha
    obtain ⟨e, he, hea⟩ := List.mem_map.mp hb
    have heq := hga.trans hea.symm
    simp only [Prod.mk.injEq] at heq
    exact hnew e he g hg heq.1 heq.2
  · rw [Tables.allocated, hledger, List.filter_append, List.map_append, List.map_append,
      List.sum_append, List.sum_append, h.conserved, hnet]
    rfl

end Books

end FocServices.Credit
