import FocServices.Credit.Discipline

/-!
# What transactions do to the reservations, and what their logs show

The writes of a transaction as a whole: which orders get a reservation, which
reservations end, which orders get a tombstone. And the other direction: what a new log
entry says about the tables its statement was executed on.
-/

namespace FocServices.Credit

open Txn

/-! ## What the writes of a transaction do to the reservations -/

/-- Which row changes a statement can make. -/
def Stmt.mayWrite : Stmt → Write → Prop
  | .createReservation _ o _, .insertReservation r => r.orderID = o
  | .updateReservation id _ status, .setReservation id' _ status' => id' = id ∧ status' = status
  | .adjustReservation _ _ _, .adjustReservation _ _ _ => True
  | .insertProcessedCommand m _, .insertProcessed m' _ => m' = m
  | .insertReleasedOrder o, .insertReleasedOrder o' => o' = o
  | .insertWalletIfAbsent _ _, .insertWallet _ => True
  | .applyDeltas _ _ _, .addDeltas _ _ _ => True
  | .insertLedgerEntry _, .insertEntry _ => True
  | .enqueue _ _ _ _, .insertOutbox _ => True
  | .enqueue _ _ _ _, .resetOutbox _ _ => True
  | _, _ => False

theorem exec_mayWrite (hash : String → ℤ) (n : ℕ) (q : Stmt) (s : Tables) :
    ∀ x ∈ (exec hash n q s).writes, q.mayWrite x := by
  intro x hx
  cases q with
  | lockCommand | isOrderReleased => cases hx
  | getProcessedCommand | getWalletByOwner | getReservationByOrder =>
    simp only [exec] at hx
    split at hx <;> cases hx
  | lockWalletsByAuth0Subject =>
    simp only [exec] at hx
    split at hx <;> cases hx
  | insertProcessedCommand | insertReleasedOrder | insertWalletIfAbsent | createReservation
  | applyDeltas | updateReservation | adjustReservation | insertLedgerEntry | enqueue =>
    simp only [exec] at hx
    repeat' split at hx
    all_goals first
      | exact absurd hx List.not_mem_nil
      | (rw [List.mem_singleton.mp hx]; trivial)

/-- The orders of the reservations inserted by a list of writes. -/
def insertedOrders (ws : List Write) : List String :=
  ws.filterMap fun
    | .insertReservation r => some r.orderID
    | _ => none

theorem mem_insertedOrders {ws : List Write} {o : String} :
    o ∈ insertedOrders ws ↔ ∃ r, Write.insertReservation r ∈ ws ∧ r.orderID = o := by
  simp only [insertedOrders, List.mem_filterMap]
  constructor
  · rintro ⟨x, hx, ho⟩
    split at ho
    · next r => exact ⟨r, hx, Option.some.inj ho⟩
    · cases ho
  · rintro ⟨r, hr, rfl⟩
    exact ⟨_, hr, rfl⟩

@[simp] theorem insertedOrders_append (ws ws' : List Write) :
    insertedOrders (ws ++ ws') = insertedOrders ws ++ insertedOrders ws' :=
  List.filterMap_append

/-- The orders that have a reservation. -/
def Tables.reservedOrders (s : Tables) : List String := s.reservations.map Reservation.orderID

/-- Every reservation of the order has ended. -/
def Tables.NonActive (s : Tables) (o : String) : Prop :=
  ∀ r ∈ s.reservations, r.orderID = o → r.status ≠ .active

/-- The reservation `id` is the order's. -/
def Tables.HasRow (s : Tables) (id : ℕ) (o : String) : Prop :=
  ∃ r ∈ s.reservations, r.id = id ∧ r.orderID = o

section Writes

variable {hash : String → ℤ}

theorem reservedOrders_apply (x : Write) (s : Tables) :
    (x.apply s).reservedOrders = s.reservedOrders ++ insertedOrders [x] := by
  cases x with
  | insertReservation r => simp [Write.apply, Tables.reservedOrders, insertedOrders]
  | setReservation | adjustReservation =>
    simp only [Write.apply, Tables.reservedOrders, insertedOrders]
    rw [map_updateRow]
    · simp
    · exact fun _ _ => rfl
  | insertProcessed | insertReleasedOrder | insertWallet | addDeltas | insertEntry | insertOutbox
  | resetOutbox => simp [Write.apply, Tables.reservedOrders, insertedOrders]

theorem reservedOrders_applyAll (ws : List Write) (s : Tables) :
    ((engine hash).applyAll ws s).reservedOrders = s.reservedOrders ++ insertedOrders ws := by
  induction ws generalizing s with
  | nil => simp [insertedOrders]
  | cons x ws ih =>
    rw [Engine.applyAll_cons, ih]
    change (x.apply s).reservedOrders ++ _ = _
    rw [reservedOrders_apply, List.append_assoc]
    rw [← insertedOrders_append, List.singleton_append]

/-- A row keeps its identifier and its order. -/
theorem hasRow_applyAll {ws : List Write} {s : Tables} {id : ℕ} {o : String}
    (h : s.HasRow id o) : ((engine hash).applyAll ws s).HasRow id o := by
  refine (engine hash).applyAll_induction (P := fun s => s.HasRow id o) ?_ h
  rintro x - t ⟨r, hr, hid, ho⟩
  have hkeep : ∀ (k : ℕ) (f : Reservation → Reservation),
      (∀ r, (f r).id = r.id ∧ (f r).orderID = r.orderID) →
      ∃ r' ∈ updateRow Reservation.id k f t.reservations, r'.id = id ∧ r'.orderID = o := by
    intro k f hf
    refine ⟨_, mem_updateRow.mpr ⟨r, hr, rfl⟩, ?_⟩
    split
    · exact ⟨(hf r).1.trans hid, (hf r).2.trans ho⟩
    · exact ⟨hid, ho⟩
  cases x with
  | insertReservation r' => exact ⟨r, List.mem_append_left _ hr, hid, ho⟩
  | setReservation k amount status => exact hkeep k _ fun _ => ⟨rfl, rfl⟩
  | adjustReservation k amount seq => exact hkeep k _ fun _ => ⟨rfl, rfl⟩
  | insertProcessed | insertReleasedOrder | insertWallet | addDeltas | insertEntry | insertOutbox
  | resetOutbox => exact ⟨r, hr, hid, ho⟩

/-- Writes that activate nothing and insert nothing for the order leave its
reservations ended. -/
theorem nonActive_applyAll {ws : List Write} {s : Tables} {o : String} (h : s.NonActive o)
    (hset : ∀ id amount status, Write.setReservation id amount status ∈ ws → status ≠ .active)
    (hnew : o ∉ insertedOrders ws) : ((engine hash).applyAll ws s).NonActive o := by
  refine (engine hash).applyAll_induction (P := fun s => s.NonActive o) ?_ h
  intro x hx t ht
  cases x with
  | insertReservation r =>
    intro r' hr' ho
    rcases List.mem_append.mp hr' with hr' | hr'
    · exact ht r' hr' ho
    · rw [List.mem_singleton.mp hr'] at ho
      exact absurd (mem_insertedOrders.mpr ⟨r, hx, ho⟩) hnew
  | setReservation id amount status =>
    intro r' hr' ho
    obtain ⟨r, hr, rfl⟩ := mem_updateRow.mp hr'
    by_cases hid : r.id = id
    · rw [if_pos hid]
      exact hset id amount status hx
    · rw [if_neg hid] at ho ⊢
      exact ht r hr ho
  | adjustReservation id amount seq =>
    intro r' hr' ho
    obtain ⟨r, hr, rfl⟩ := mem_updateRow.mp hr'
    by_cases hid : r.id = id
    · rw [if_pos hid] at ho ⊢
      exact ht r hr ho
    · rw [if_neg hid] at ho ⊢
      exact ht r hr ho
  | insertProcessed | insertReleasedOrder | insertWallet | addDeltas | insertEntry | insertOutbox
  | resetOutbox => exact ht

/-- Writes that end the order's reservation leave it ended. -/
theorem nonActive_of_set {ws : List Write} {s : Tables} {o : String} {id : ℕ} {amount : ℤ}
    {status : ReservationStatus} (hunique : s.reservedOrders.Nodup) (hrow : s.HasRow id o)
    (hmem : Write.setReservation id amount status ∈ ws)
    (hset : ∀ id amount status, Write.setReservation id amount status ∈ ws → status ≠ .active)
    (hnew : insertedOrders ws = []) : ((engine hash).applyAll ws s).NonActive o := by
  obtain ⟨ws₁, ws₂, rfl⟩ := List.append_of_mem hmem
  rw [Engine.applyAll_append, Engine.applyAll_cons]
  have hnew₁ : insertedOrders ws₁ = [] ∧ insertedOrders ws₂ = [] := by
    rw [insertedOrders_append, List.append_eq_nil_iff] at hnew
    exact hnew
  refine nonActive_applyAll ?_ ?_ (by rw [hnew₁.2]; simp)
  · -- After this write the only row of the order has ended.
    have hunique₁ : UniqueKey Reservation.orderID
        ((engine hash).applyAll ws₁ s).reservations := by
      change ((engine hash).applyAll ws₁ s).reservedOrders.Nodup
      rw [reservedOrders_applyAll, hnew₁.1, List.append_nil]
      exact hunique
    have hrow₁ : ((engine hash).applyAll ws₁ s).HasRow id o := hasRow_applyAll hrow
    obtain ⟨r, hr, hid, ho⟩ := hrow₁
    intro r' hr' ho'
    obtain ⟨r₀, hr₀, rfl⟩ := mem_updateRow.mp hr'
    by_cases hid₀ : r₀.id = id
    · rw [if_pos hid₀]
      exact hset id amount status hmem
    · rw [if_neg hid₀] at ho'
      rw [hunique₁.eq hr₀ hr (ho'.trans ho.symm)] at hid₀
      exact absurd hid hid₀
  · exact fun id' amount' status' h =>
      hset id' amount' status' (List.mem_append_right _ (List.mem_cons_of_mem _ h))

theorem mem_releasedOrders_applyAll {ws : List Write} {s : Tables} {o : String} :
    o ∈ ((engine hash).applyAll ws s).releasedOrders ↔
      o ∈ s.releasedOrders ∨ Write.insertReleasedOrder o ∈ ws := by
  induction ws generalizing s with
  | nil => simp
  | cons x ws ih =>
    rw [Engine.applyAll_cons, ih, List.mem_cons, ← or_assoc]
    refine or_congr_left ?_
    change o ∈ (x.apply s).releasedOrders ↔ _
    cases x <;> simp [Write.apply]

theorem mem_processed_applyAll {ws : List Write} {s : Tables} {p : String × Result} :
    p ∈ ((engine hash).applyAll ws s).processed ↔
      p ∈ s.processed ∨ Write.insertProcessed p.1 p.2 ∈ ws := by
  induction ws generalizing s with
  | nil => simp
  | cons x ws ih =>
    rw [Engine.applyAll_cons, ih, List.mem_cons, ← or_assoc]
    refine or_congr_left ?_
    change p ∈ (x.apply s).processed ↔ _
    cases x <;> simp [Write.apply, Prod.ext_iff]

end Writes

/-! ## What a new log entry shows about the tables -/

section Answers

variable {hash : String → ℤ} {n : ℕ} {q : Stmt} {s : Tables} {o : String}

theorem mem_reservedOrders : o ∈ s.reservedOrders ↔ (s.reservationOf o).isSome = true := by
  simp [Tables.reservedOrders, Tables.reservationOf, findRow_isSome]

theorem exec_insertedOrders (h : o ∈ insertedOrders (exec hash n q s).writes) :
    insertedOrders (exec hash n q s).writes = [o] ∧
      (Lock.orderKey o, Mode.exclusive) ∈ (exec hash n q s).locks ∧ o ∉ s.reservedOrders := by
  obtain ⟨r, hr, rfl⟩ := mem_insertedOrders.mp h
  have hmay := exec_mayWrite hash n q s _ hr
  cases q with
  | createReservation walletID o' amount =>
    obtain rfl : r.orderID = o' := hmay
    rw [mem_reservedOrders]
    simp only [exec] at hr ⊢
    by_cases hpos : ¬ 0 < amount
    · simp only [if_pos hpos] at hr
      cases hr
    by_cases hold : (s.reservationOf r.orderID).isSome = true
    · simp only [if_neg hpos, if_pos hold] at hr
      cases hr
    by_cases hwallet : ¬ (s.wallets.any fun w => w.id = walletID) = true
    · simp only [if_neg hpos, if_neg hold, if_pos hwallet] at hr
      cases hr
    simp only [if_neg hpos, if_neg hold, if_neg hwallet]
    exact ⟨rfl, List.mem_singleton_self _, hold⟩
  | _ => cases hmay

theorem exec_sawNoTombstone (h : sawNoTombstone o ⟨q, (exec hash n q s).reply⟩ = true) :
    q = .isOrderReleased o ∧ o ∉ s.releasedOrders := by
  cases q with
  | isOrderReleased o' =>
    by_cases ho : o' ∈ s.releasedOrders
    · simp [exec, sawNoTombstone, ho] at h
    · simp only [exec, sawNoTombstone, ho, decide_false, decide_eq_true_eq] at h
      subst h
      exact ⟨rfl, ho⟩
  | _ => cases h

theorem exec_sawNoReservation (h : sawNoReservation o ⟨q, (exec hash n q s).reply⟩ = true) :
    (∃ forUpdate, q = .getReservationByOrder o forUpdate) ∧ o ∉ s.reservedOrders := by
  cases q with
  | getReservationByOrder o' forUpdate =>
    cases hr : s.reservationOf o' with
    | some r => simp [exec, sawNoReservation, hr] at h
    | none =>
      simp only [exec, sawNoReservation, hr, decide_eq_true_eq] at h
      subst h
      refine ⟨⟨forUpdate, rfl⟩, ?_⟩
      rw [mem_reservedOrders, hr]
      simp
  | _ => cases h

theorem exec_sawReservation {id : ℕ}
    (h : sawReservation o id ⟨q, (exec hash n q s).reply⟩ = true) :
    (∃ forUpdate, q = .getReservationByOrder o forUpdate) ∧ s.HasRow id o := by
  cases q with
  | getReservationByOrder o' forUpdate =>
    cases hr : s.reservationOf o' with
    | some r =>
      simp only [exec, sawReservation, hr, decide_eq_true_eq] at h
      obtain ⟨rfl, hid⟩ := h
      obtain ⟨hmem, horder⟩ := mem_of_findRow hr
      exact ⟨⟨forUpdate, rfl⟩, r, hmem, hid, horder⟩
    | none => simp [exec, sawReservation, hr] at h
  | _ => cases h

theorem exec_sawEnded (h : sawEnded o ⟨q, (exec hash n q s).reply⟩ = true) :
    (∃ forUpdate, q = .getReservationByOrder o forUpdate) ∧
      ∃ r ∈ s.reservations, r.orderID = o ∧ r.status ≠ .active := by
  cases q with
  | getReservationByOrder o' forUpdate =>
    cases hr : s.reservationOf o' with
    | some r =>
      simp only [exec, sawEnded, hr, decide_eq_true_eq] at h
      obtain ⟨rfl, hstatus⟩ := h
      obtain ⟨hmem, horder⟩ := mem_of_findRow hr
      exact ⟨⟨forUpdate, rfl⟩, r, hmem, horder, hstatus⟩
    | none => simp [exec, sawEnded, hr] at h
  | _ => cases h

theorem exec_settled {id : ℕ} (h : settled id ⟨q, (exec hash n q s).reply⟩ = true) :
    ∃ amount status, Write.setReservation id amount status ∈ (exec hash n q s).writes := by
  cases q with
  | updateReservation id' amount status =>
    simp only [exec] at h ⊢
    split at h
    · simp only [settled, decide_eq_true_eq] at h
      subst h
      exact ⟨amount, status, List.mem_singleton_self _⟩
    · simp [settled] at h
  | _ => cases h

theorem exec_tombstoned (h : tombstoned o ⟨q, (exec hash n q s).reply⟩ = true) :
    o ∈ s.releasedOrders ∨ Write.insertReleasedOrder o ∈ (exec hash n q s).writes := by
  cases q with
  | insertReleasedOrder o' =>
    simp only [exec] at h ⊢
    by_cases ho : o' ∈ s.releasedOrders
    · simp only [if_pos ho, tombstoned, decide_eq_true_eq] at h
      exact Or.inl (h ▸ ho)
    · simp only [if_neg ho, tombstoned, decide_eq_true_eq] at h ⊢
      exact Or.inr (by simp [h])
  | _ => cases h

theorem exec_replayed (h : replayed ⟨q, (exec hash n q s).reply⟩ = true) :
    ∃ m result, q = .getProcessedCommand m ∧ s.resultOf m = some result := by
  cases q with
  | getProcessedCommand m =>
    cases hr : s.resultOf m with
    | some result => exact ⟨m, result, rfl, hr⟩
    | none => simp [exec, replayed, hr] at h
  | _ => cases h

end Answers

end FocServices.Credit
