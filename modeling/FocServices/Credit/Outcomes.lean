import FocServices.Credit.Statements

/-!
# What the commands answer and do

`Outcome` lists the branches of the four order commands: under which condition on
the tables a command answers what, and with which effect. The programs are run
symbolically against it. On the way no writing statement fails on a constraint.
-/

namespace FocServices.Credit

open Txn

/-! ## The branches of the commands -/

/-- The wallet of a subject. -/
def Tables.Owns (s : Tables) (subject : String) (w : Wallet) : Prop :=
  w ∈ s.wallets ∧ w.auth0Subject = subject

/-- The branches of the order commands: what a command about order `o` answers, and
with which effect. -/
inductive Outcome (s : Tables) (o : String) : Command → Result → Effect → Prop where
  | reserveReleased {m c} (hreleased : o ∈ s.releasedOrders) :
      Outcome s o (.reserve m c)
        { type := .reservationRefused, code := some .reservationReleased } .none
  | reserveAgain {m c} (r : Reservation) (hnot : o ∉ s.releasedOrders)
      (hr : s.reservationOf o = some r) :
      Outcome s o (.reserve m c) { type := .reserved, amount := r.amount } .none
  | reserveNoAccount {m c} (hnot : o ∉ s.releasedOrders) (hnone : s.reservationOf o = none) :
      Outcome s o (.reserve m c)
        { type := .reservationRefused, code := some .accountNotFound } .none
  | reservePoor {m c} (hnot : o ∉ s.releasedOrders) (hnone : s.reservationOf o = none) :
      Outcome s o (.reserve m c)
        { type := .reservationRefused, code := some .insufficientCredits } .none
  | reserved {m c} (i : ℕ) (w : Wallet) (hnot : o ∉ s.releasedOrders)
      (hnone : s.reservationOf o = none) (hw : s.Owns c.requesterSubject w)
      (hle : c.amount ≤ w.available) :
      Outcome s o (.reserve m c) { type := .reserved, amount := c.amount }
        (.reserve i w.id o c.amount)
  | adjustMissing {m c} (hnone : s.reservationOf o = none) :
      Outcome s o (.adjust m c)
        { type := .adjustRefused, code := some .reservationNotActive, seq := c.seq } .none
  | adjustEnded {m c} (r : Reservation) (hr : s.reservationOf o = some r)
      (hended : r.status ≠ .active) :
      Outcome s o (.adjust m c)
        { type := .adjustRefused, code := some .reservationNotActive, seq := c.seq } .none
  | adjustStale {m c} (r : Reservation) (hr : s.reservationOf o = some r)
      (hactive : r.status = .active) (hstale : c.seq ≤ r.lastAdjustSeq) :
      Outcome s o (.adjust m c) { type := .adjusted, amount := r.amount, seq := c.seq } .none
  | adjustPoor {m c} (r : Reservation) (hr : s.reservationOf o = some r)
      (hactive : r.status = .active) (hseq : r.lastAdjustSeq < c.seq) :
      Outcome s o (.adjust m c)
        { type := .adjustRefused, code := some .insufficientCredits, seq := c.seq } .none
  | adjusted {m c} (r : Reservation) (w : Wallet) (hr : s.reservationOf o = some r)
      (hw : s.Owns c.requesterSubject w) (hid : w.id = r.walletID) (hactive : r.status = .active)
      (hseq : r.lastAdjustSeq < c.seq) (hle : c.newAmount - r.amount ≤ w.available) :
      Outcome s o (.adjust m c) { type := .adjusted, amount := c.newAmount, seq := c.seq }
        (.adjust r c.newAmount c.seq)
  | releaseMissing {m c} (hnone : s.reservationOf o = none) (hnot : o ∉ s.releasedOrders) :
      Outcome s o (.release m c) { type := .released } (.tombstone o)
  | releaseTombstoned {m c} (hnone : s.reservationOf o = none) (hold : o ∈ s.releasedOrders) :
      Outcome s o (.release m c) { type := .released } .none
  | releaseAgain {m c} (r : Reservation) (hr : s.reservationOf o = some r)
      (hreleased : r.status = .released) :
      Outcome s o (.release m c) { type := .released } .none
  | releaseTransferred {m c} (r : Reservation) (hr : s.reservationOf o = some r)
      (htransferred : r.status = .transferred) :
      Outcome s o (.release m c)
        { type := .operationFailed, code := some .reservationAlreadyTransferred } .none
  | released {m c} (r : Reservation) (hr : s.reservationOf o = some r)
      (hactive : r.status = .active) :
      Outcome s o (.release m c) { type := .released } (.release r)
  | transferMissing {m c} (hnone : s.reservationOf o = none) (hnot : o ∉ s.releasedOrders) :
      Outcome s o (.transfer m c)
        { type := .operationFailed, code := some .reservationNotFound } .none
  | transferTombstoned {m c} (hnone : s.reservationOf o = none) (hold : o ∈ s.releasedOrders) :
      Outcome s o (.transfer m c)
        { type := .operationFailed, code := some .reservationAlreadyReleased } .none
  | transferNoAccount {m c} (r : Reservation) (hr : s.reservationOf o = some r) :
      Outcome s o (.transfer m c)
        { type := .operationFailed, code := some .accountNotFound } .none
  | transferAgain {m c} (r : Reservation) (hr : s.reservationOf o = some r)
      (htransferred : r.status = .transferred) :
      Outcome s o (.transfer m c) { type := .transferred } .none
  | transferReleased {m c} (r : Reservation) (hr : s.reservationOf o = some r)
      (hreleased : r.status = .released) :
      Outcome s o (.transfer m c)
        { type := .operationFailed, code := some .reservationAlreadyReleased } .none
  | transferPoor {m c} (r : Reservation) (hr : s.reservationOf o = some r)
      (hactive : r.status = .active) :
      Outcome s o (.transfer m c)
        { type := .operationFailed, code := some .insufficientCredits } .none
  | transferred {m c} (r : Reservation) (w courier : Wallet) (hr : s.reservationOf o = some r)
      (hw : s.Owns c.requesterSubject w) (hid : w.id = r.walletID)
      (hcourier : s.Owns c.courierSubject courier) (hactive : r.status = .active)
      (hle : shortfall r c.amount ≤ w.available) :
      Outcome s o (.transfer m c) { type := .transferred } (.transfer r courier.id c.amount)

/-- What the checks before the transaction say about the arguments. -/
def Command.Valid : Command → Prop
  | .reserve _ c => 0 < c.amount
  | .adjust _ c => 0 < c.newAmount ∧ 0 < c.seq
  | .release _ _ => True
  | .transfer _ c => c.courierSubject ≠ c.requesterSubject ∧ 0 < c.amount

/-- A new reservation takes a row identifier between two serial numbers. -/
def Effect.Fresh (n n' : ℕ) (e : Effect) : Prop :=
  ∀ i w o a, e = .reserve i w o a → n ≤ i ∧ i < n'

/-- An outcome has an effect that is enabled. -/
theorem Outcome.enabled {s : Tables} {n n' : ℕ} {o : String} {cmd : Command} {result : Result}
    {e : Effect} (h : Outcome s o cmd result e) (hbooks : Books s n)
    (hlength : o.toList.length = 36) (hvalid : cmd.Valid) (hfresh : e.Fresh n n') :
    e.Enabled s n := by
  cases h with
  | reserved i w hnot hnone hw hle =>
    exact ⟨(hfresh _ _ _ _ rfl).1, hvalid, hlength, hnone, hnot, w, hw.1, rfl, hle⟩
  | adjusted r w hr hw hid hactive hseq hle =>
    exact ⟨(mem_of_findRow hr).1, hactive, hseq, hvalid.1, w, hw.1, hid, hle⟩
  | releaseMissing hnone hnot => exact ⟨hnone, hnot⟩
  | released r hr hactive => exact ⟨(mem_of_findRow hr).1, hactive⟩
  | transferred r w courier hr hw hid hcourier hactive hle =>
    refine ⟨(mem_of_findRow hr).1, hactive, hvalid.2, ?_, ⟨courier, hcourier.1, rfl⟩, w, hw.1, hid,
      hle⟩
    -- One wallet has one subject, so the courier's wallet is another one.
    intro hsame
    obtain rfl := hbooks.walletOf hcourier.1 hw.1 (hsame.trans hid.symm)
    exact hvalid.1 (hcourier.2.symm.trans hw.2)
  | reserveReleased | reserveAgain | reserveNoAccount | reservePoor | adjustMissing | adjustEnded
  | adjustStale | adjustPoor | releaseTombstoned | releaseAgain | releaseTransferred
  | transferMissing | transferTombstoned | transferNoAccount | transferAgain | transferReleased
  | transferPoor => trivial

/-! ## Running the commands -/

/-- A run of the command's program ends with an outcome of the command, its effect
applied, or with an error. -/
def Did (s : Tables) (n : ℕ) (o : String) (cmd : Command) :
    Except ServiceError Result → Tables → ℕ → Prop
  | .ok result, s', n' => ∃ e, Outcome s o cmd result e ∧ s' = e.apply s ∧ e.Fresh n n'
  | .error _, _, _ => True

theorem fresh_none {n n' : ℕ} : Effect.none.Fresh n n' := by
  rintro _ _ _ _ ⟨⟩

/-- An entry with a new key on existing wallets violates no constraint. -/
theorem entryProblem_eq_none {s : Tables} {e : LedgerEntry} (hkey : e.idempotencyKey ≠ "")
    (hdelta : ¬ (e.availableDelta = 0 ∧ e.reservedDelta = 0))
    (hnew : ∀ f ∈ s.ledger, f.walletID = e.walletID → f.idempotencyKey ≠ e.idempotencyKey)
    (hwallet : ∃ w ∈ s.wallets, w.id = e.walletID)
    (hparty : ∀ c, e.counterpartyWalletID = some c → ∃ w ∈ s.wallets, w.id = c) :
    s.entryProblem e = none := by
  have hany : ¬ (s.ledger.any fun f =>
      f.walletID = e.walletID ∧ f.idempotencyKey = e.idempotencyKey) = true := by
    rw [List.any_eq_true]
    rintro ⟨f, hf, hsame⟩
    have hsame := of_decide_eq_true hsame
    exact hnew f hf hsame.1 hsame.2
  have hexists : (s.wallets.any fun w => w.id = e.walletID) = true := by simpa using hwallet
  rw [Tables.entryProblem, if_neg hkey, if_neg hdelta, if_neg hany, if_neg (by simp [hexists])]
  cases hc : e.counterpartyWalletID with
  | none => rfl
  | some c => exact if_pos (by simpa using hparty c hc)

section Commands

variable {hash : String → ℤ} {s : Tables} {n : ℕ} {o m : String}

theorem reserveOp_spec (h : Books s n) {c : ReserveCommand} (hvalid : 0 < c.amount)
    (hlength : o.toList.length = 36) :
    (engine hash).wp Admissible (Did s n o (.reserve m c)) (reserveOp o c) s n := by
  simp only [reserveOp, query, Program.call_bind]
  refine wp_isOrderReleased ?_
  by_cases hreleased : o ∈ s.releasedOrders
  · simp only [hreleased, decide_true, orFail_ok, Program.pure_bind, if_true]
    exact ⟨_, .reserveReleased hreleased, rfl, fresh_none⟩
  simp only [hreleased, decide_false, orFail_ok, Program.pure_bind, Bool.false_eq_true, if_false]
  refine wp_getReservation (fun r hr => ?_) (fun hnone => ?_)
  · exact ⟨_, .reserveAgain r hreleased hr, rfl, fresh_none⟩
  refine wp_lockWallets (fun hlen => ?_) (fun _ => ?_)
  swap
  · exact ⟨_, .reserveNoAccount hreleased hnone, rfl, fresh_none⟩
  obtain ⟨w, hw, hsubject, hhead⟩ := walletsOf_one hlen
  dsimp only
  rw [hhead]
  by_cases hpoor : w.available < c.amount
  · rw [if_pos hpoor]
    exact ⟨_, .reservePoor hreleased hnone, rfl, fresh_none⟩
  have hle := not_lt.mp hpoor
  rw [if_neg hpoor]
  refine wp_insertLedgerEntry (entryProblem_eq_none ?_ ?_ ?_ ⟨w, hw, rfl⟩ (by simp)) ?_
  · simp [← String.toList_inj]
  · simp only
    omega
  · exact fun f hf _ => h.key_notMem (p := .reserve o) hlength rfl
      (fun r hr horder => absurd horder (reservationOf_eq_none.mp hnone r hr)) f hf
  simp only [orFail_ok, Program.pure_bind]
  have hres := h.reserved_nonneg hw
  refine wp_applyDeltas (h.walletIDs.findRow_eq hw rfl) (by omega) (by omega) ?_ trivial
  simp only [orFail_ok, Program.pure_bind]
  refine wp_createReservation hvalid hnone ?_ ?_
  · exact ⟨_, mem_updateRow_self hw, rfl⟩
  refine ⟨_, .reserved (n + 5) w hreleased hnone ⟨hw, hsubject⟩ hle, rfl, ?_⟩
  rintro _ _ _ _ ⟨⟩
  omega

/-- `lockReservation` finds no reservation, or the reservation with its owner's
wallet, or fails. -/
theorem wp_lockReservation {α : Type} {post : Except ServiceError α → Tables → ℕ → Prop}
    {subject : String} {next : Except RepoError (Reservation × Wallet) → Tx α}
    (hmissing : s.reservationOf o = none →
      (engine hash).wp Admissible post (next (.error .notFound)) s (n + 1))
    (hfound : ∀ r w, s.reservationOf o = some r → s.Owns subject w → w.id = r.walletID →
      (engine hash).wp Admissible post (next (.ok (r, w))) s (n + 3))
    (herr : ∀ e n', post (.error e) s n') :
    (engine hash).wp Admissible post (lockReservation o subject >>= next) s n := by
  simp only [lockReservation, query, Program.call_bind, Program.stmt_bind]
  refine wp_getReservation (fun r hr => ?_) hmissing
  simp only [Program.stmt_bind]
  refine wp_lockWallets (fun hlen => ?_) (fun _ => herr _ _)
  obtain ⟨w, hw, hsubject, hhead⟩ := walletsOf_one hlen
  simp only [Program.stmt_bind]
  refine wp_getReservation (fun r' hr' => ?_) (fun hnone => ?_)
  · dsimp only
    rw [hhead]
    by_cases hid : r'.walletID = w.id
    · rw [if_neg (not_not.mpr hid)]
      exact hfound r' w hr' ⟨hw, hsubject⟩ hid.symm
    · rw [if_pos hid]
      exact herr _ _
  · rw [hr] at hnone
    cases hnone

theorem adjustOp_spec (h : Books s n) {c : AdjustCommand} (hpos : 0 < c.newAmount)
    (hseqpos : 0 < c.seq) :
    (engine hash).wp Admissible (Did s n o (.adjust m c)) (adjustOp o c) s n := by
  simp only [adjustOp]
  refine wp_lockReservation (fun hnone => ?_) (fun r w hr hw hid => ?_) fun _ _ => trivial
  · exact ⟨_, .adjustMissing hnone, rfl, fresh_none⟩
  dsimp only
  by_cases hended : r.status ≠ .active
  · rw [if_pos hended]
    exact ⟨_, .adjustEnded r hr hended, rfl, fresh_none⟩
  have hactive := not_not.mp hended
  rw [if_neg hended]
  by_cases hstale : c.seq ≤ r.lastAdjustSeq
  · rw [if_pos hstale]
    exact ⟨_, .adjustStale r hr hactive hstale, rfl, fresh_none⟩
  have hseq := not_le.mp hstale
  rw [if_neg hstale]
  by_cases hpoor : w.available < c.newAmount - r.amount
  · rw [if_pos hpoor]
    exact ⟨_, .adjustPoor r hr hactive hseq, rfl, fresh_none⟩
  have hle := not_lt.mp hpoor
  rw [if_neg hpoor]
  obtain ⟨hmem, horder⟩ := mem_of_findRow hr
  have hrow := h.reservationRow r hmem
  have hfind := h.reservationIDs.findRow_eq hmem rfl
  have hout : Outcome s o (.adjust m c)
      { type := .adjusted, amount := c.newAmount, seq := c.seq }
      (.adjust r c.newAmount c.seq) :=
    .adjusted r w hr hw hid hactive hseq hle
  have hfresh : ∀ n', (Effect.adjust r c.newAmount c.seq).Fresh n n' := by
    rintro _ _ _ _ _ ⟨⟩
  by_cases hdelta : c.newAmount - r.amount ≠ 0
  · rw [if_pos hdelta]
    simp only [query, Program.call_bind]
    refine wp_insertLedgerEntry (entryProblem_eq_none ?_ ?_ ?_ ⟨w, hw.1, rfl⟩ (by simp)) ?_
    · simp [← String.toList_inj]
    · simp only
      omega
    · intro f hf _
      refine h.key_notMem (p := .adjust o c.seq) ⟨horder ▸ hrow.order, hseqpos⟩ rfl ?_ f hf
      intro r' hr' horder' g hholds
      obtain rfl := h.orders.eq hr' hmem (horder'.trans horder.symm)
      exact absurd hholds.1 hstale
    simp only [orFail_ok, Program.pure_bind]
    have hres := h.reserved_nonneg hw.1
    have hheld := h.amount_le_heldFor hmem hactive
    rw [← hid, ← (h.walletRow w hw.1).held] at hheld
    refine wp_applyDeltas (h.walletIDs.findRow_eq hw.1 rfl) (by omega) (by omega) ?_ trivial
    simp only [orFail_ok, Program.pure_bind, Program.pure_eq]
    refine wp_adjustReservation hfind hpos ?_
    refine ⟨_, hout, ?_, hfresh _⟩
    simp [Effect.apply, Effect.writes, Effect.entries, Effect.deltas, Effect.orderWrites, hdelta,
      hid, horder]
  · rw [if_neg hdelta]
    simp only [query, Program.call_bind, Program.pure_eq]
    refine wp_adjustReservation hfind hpos ?_
    refine ⟨_, hout, ?_, hfresh _⟩
    simp [Effect.apply, Effect.writes, Effect.entries, Effect.deltas, Effect.orderWrites,
      not_not.mp hdelta]

theorem releaseOp_spec (h : Books s n) {c : ReleaseCommand} :
    (engine hash).wp Admissible (Did s n o (.release m c)) (releaseOp o c) s n := by
  simp only [releaseOp]
  refine wp_lockReservation (fun hnone => ?_) (fun r w hr hw hid => ?_) fun _ _ => trivial
  · simp only [query, Program.call_bind]
    refine wp_insertReleasedOrder (fun hold => ?_) (fun hnot => ?_)
    · exact ⟨_, .releaseTombstoned hnone hold, rfl, fresh_none⟩
    · refine ⟨_, .releaseMissing hnone hnot, rfl, ?_⟩
      rintro _ _ _ _ ⟨⟩
  dsimp only
  cases hstatus : r.status with
  | released => exact ⟨_, .releaseAgain r hr hstatus, rfl, fresh_none⟩
  | transferred => exact ⟨_, .releaseTransferred r hr hstatus, rfl, fresh_none⟩
  | active =>
    obtain ⟨hmem, horder⟩ := mem_of_findRow hr
    have hrow := h.reservationRow r hmem
    have hamount := hrow.amount
    simp only [query, Program.call_bind]
    refine wp_insertLedgerEntry (entryProblem_eq_none ?_ ?_ ?_ ⟨w, hw.1, rfl⟩ (by simp)) ?_
    · simp [← String.toList_inj]
    · simp only
      omega
    · intro f hf _
      refine h.key_notMem (p := .release o) (horder ▸ hrow.order) rfl ?_ f hf
      intro r' hr' horder' g hholds
      obtain rfl := h.orders.eq hr' hmem (horder'.trans horder.symm)
      simp [Purpose.Holds, hstatus] at hholds
    simp only [orFail_ok, Program.pure_bind]
    have hheld := h.amount_le_heldFor hmem hstatus
    have hnonneg := (h.walletRow w hw.1).nonneg
    rw [← hid, ← (h.walletRow w hw.1).held] at hheld
    refine wp_applyDeltas (h.walletIDs.findRow_eq hw.1 rfl) (by omega) (by omega) ?_ trivial
    simp only [orFail_ok, Program.pure_bind]
    refine wp_updateReservation (h.reservationIDs.findRow_eq hmem rfl) hamount ?_
    refine ⟨_, .released r hr hstatus, ?_, ?_⟩
    · simp [Effect.apply, Effect.writes, Effect.entries, Effect.deltas, Effect.orderWrites, hid,
        horder]
    · rintro _ _ _ _ ⟨⟩

/-- The last statements of a transfer: both balances and the reservation. -/
theorem wp_payOut {post : Except ServiceError Result → Tables → ℕ → Prop} {t : Tables} {k : ℕ}
    (h : Books s k) {r : Reservation} (hmem : r ∈ s.reservations) (hactive : r.status = .active)
    {w courier : Wallet} (hw : w ∈ s.wallets) (hid : w.id = r.walletID)
    (hcourier : courier ∈ s.wallets) (hdiff : courier.id ≠ w.id) {amount : ℤ} (hpos : 0 < amount)
    (hle : amount - min r.amount amount ≤ w.available) (hwallets : t.wallets = s.wallets)
    (hreservations : t.reservations = s.reservations)
    (hok : post (.ok { type := .transferred })
      ((Write.setReservation r.id r.amount .transferred).apply
        ((Write.addDeltas courier.id amount 0).apply
          ((Write.addDeltas w.id ((r.amount - min r.amount amount) -
            (amount - min r.amount amount)) (-r.amount)).apply t))) (n + 3))
    (herr : ∀ e s' n', post (.error e) s' n') :
    (engine hash).wp Admissible post (do
      let _ ← orFail (← query (.applyDeltas w.id ((r.amount - min r.amount amount) -
        (amount - min r.amount amount)) (-r.amount)))
      let _ ← orFail (← query (.applyDeltas courier.id amount 0))
      let _ ← orFail (← query (.updateReservation r.id r.amount .transferred))
      return { type := .transferred }) t n := by
  have hheld := h.amount_le_heldFor hmem hactive
  rw [← hid, ← (h.walletRow w hw).held] at hheld
  have hamount := (h.reservationRow r hmem).amount
  have hnonneg := (h.walletRow courier hcourier).nonneg
  have hreserved := h.reserved_nonneg hcourier
  simp only [query, Program.call_bind]
  refine wp_applyDeltas ?_ (by omega) (by omega) ?_ (herr _ _ _)
  · rw [hwallets]
    exact h.walletIDs.findRow_eq hw rfl
  simp only [orFail_ok, Program.pure_bind]
  refine wp_applyDeltas ?_ (by omega) (by omega) ?_ (herr _ _ _)
  · change findRow Wallet.id courier.id (updateRow Wallet.id w.id _ t.wallets) = some courier
    rw [findRow_updateRow, hwallets, h.walletIDs.findRow_eq hcourier rfl]
    · simp [hdiff]
    · exact fun _ _ => rfl
  simp only [orFail_ok, Program.pure_bind]
  refine wp_updateReservation ?_ hamount hok
  change findRow Reservation.id r.id t.reservations = some r
  rw [hreservations]
  exact h.reservationIDs.findRow_eq hmem rfl

theorem transferOp_spec (h : Books s n) {c : TransferCommand}
    (hne : c.courierSubject ≠ c.requesterSubject) (hpos : 0 < c.amount) :
    (engine hash).wp Admissible (Did s n o (.transfer m c)) (transferOp o c) s n := by
  simp only [transferOp, query, Program.call_bind]
  refine wp_getReservation (fun r hr => ?_) (fun hnone => ?_)
  swap
  · refine wp_isOrderReleased ?_
    by_cases hreleased : o ∈ s.releasedOrders
    · simp only [hreleased, decide_true, orFail_ok, Program.pure_bind, if_true]
      exact ⟨_, .transferTombstoned hnone hreleased, rfl, fresh_none⟩
    · simp only [hreleased, decide_false, orFail_ok, Program.pure_bind, Bool.false_eq_true,
        if_false]
      exact ⟨_, .transferMissing hnone hreleased, rfl, fresh_none⟩
  refine wp_lockWallets (fun hlen => ?_) (fun _ => ⟨_, .transferNoAccount r hr, rfl, fresh_none⟩)
  obtain ⟨w, hw, courier, hcourier, hws, hcs, hpick⟩ := pickWallets_eq h.subjects hne hlen
  dsimp only
  rw [hpick]
  dsimp only
  by_cases hid : w.id ≠ r.walletID
  · rw [if_pos hid]
    trivial
  have hid := not_not.mp hid
  rw [if_neg (not_not.mpr hid)]
  refine wp_getReservation (fun r' hr' => ?_) (fun hnone => by rw [hr] at hnone; cases hnone)
  obtain rfl : r = r' := Option.some.inj (hr.symm.trans hr')
  simp only [orFail_ok, Program.pure_bind]
  cases hstatus : r.status with
  | transferred => exact ⟨_, .transferAgain r hr hstatus, rfl, fresh_none⟩
  | released => exact ⟨_, .transferReleased r hr hstatus, rfl, fresh_none⟩
  | active =>
    dsimp only
    by_cases hpoor : w.available < c.amount - min r.amount c.amount
    · rw [if_pos hpoor]
      exact ⟨_, .transferPoor r hr hstatus, rfl, fresh_none⟩
    rw [if_neg hpoor]
    have hle := not_lt.mp hpoor
    obtain ⟨hmem, horder⟩ := mem_of_findRow hr
    have hrow := h.reservationRow r hmem
    have hamount := hrow.amount
    have hdiff : courier.id ≠ w.id := by
      intro hsame
      obtain rfl := h.walletOf hcourier hw hsame
      exact hne (hcs.symm.trans hws)
    have hout : Outcome s o (.transfer m c) { type := .transferred }
        (.transfer r courier.id c.amount) :=
      .transferred r w courier hr ⟨hw, hws⟩ hid ⟨hcourier, hcs⟩ hstatus hle
    have hfresh : ∀ n', (Effect.transfer r courier.id c.amount).Fresh n n' := by
      rintro _ _ _ _ _ ⟨⟩
    -- The reservation is active, so no entry is booked for a transfer of the order.
    have hunused : ∀ p : Purpose, p = .transfer o ∨ p = .surplus o →
        ∀ f ∈ s.ledger, f.idempotencyKey ≠ p.key := by
      rintro p hp
      refine h.key_notMem (o := o) ?_ ?_ ?_
      · rcases hp with rfl | rfl <;> exact horder ▸ hrow.order
      · rcases hp with rfl | rfl <;> rfl
      · intro r' hr' horder' f hholds
        obtain rfl := h.orders.eq hr' hmem (horder'.trans horder.symm)
        rcases hp with rfl | rfl <;> simp [Purpose.Holds, hstatus] at hholds
    refine wp_insertLedgerEntry (entryProblem_eq_none ?_ ?_ ?_ ⟨w, hw, rfl⟩ ?_) ?_
    · simp [← String.toList_inj]
    · simp only
      omega
    · exact fun f hf _ => hunused (.transfer o) (Or.inl rfl) f hf
    · rintro _ ⟨⟩
      exact ⟨courier, hcourier, rfl⟩
    simp only [orFail_ok, Program.pure_bind]
    refine wp_insertLedgerEntry (entryProblem_eq_none ?_ ?_ ?_ ⟨courier, hcourier, rfl⟩ ?_) ?_
    · simp [← String.toList_inj]
    · simp only
      omega
    · intro f hf hwallet
      rcases List.mem_append.mp hf with hf | hf
      · exact hunused (.transfer o) (Or.inl rfl) f hf
      · rw [List.mem_singleton.mp hf] at hwallet
        exact absurd hwallet.symm hdiff
    · rintro _ ⟨⟩
      exact ⟨w, hw, rfl⟩
    simp only [orFail_ok, Program.pure_bind]
    by_cases hsurplus : 0 < r.amount - min r.amount c.amount
    · rw [if_pos hsurplus]
      refine wp_insertLedgerEntry (entryProblem_eq_none ?_ ?_ ?_ ⟨w, hw, rfl⟩ (by simp)) ?_
      · simp [← String.toList_inj]
      · simp only
        omega
      · intro f hf _
        rcases List.mem_append.mp hf with hf | hf
        · rcases List.mem_append.mp hf with hf | hf
          · exact hunused (.surplus o) (Or.inr rfl) f hf
          · rw [List.mem_singleton.mp hf]
            simp [← String.toList_inj]
        · rw [List.mem_singleton.mp hf]
          simp [← String.toList_inj]
      simp only [orFail_ok, Program.pure_bind]
      refine wp_payOut h hmem hstatus hw hid hcourier hdiff hpos hle rfl rfl
        ⟨_, hout, ?_, hfresh _⟩ fun _ _ _ => trivial
      have hsurplus' : 0 < surplus r c.amount := hsurplus
      simp only [Effect.apply, Effect.writes, Effect.entries, if_pos hsurplus', horder, hid]
      rfl
    · rw [if_neg hsurplus]
      refine wp_payOut h hmem hstatus hw hid hcourier hdiff hpos hle rfl rfl
        ⟨_, hout, ?_, hfresh _⟩ fun _ _ _ => trivial
      have hsurplus' : ¬ 0 < surplus r c.amount := hsurplus
      simp only [Effect.apply, Effect.writes, Effect.entries, if_neg hsurplus', horder, hid]
      rfl

end Commands

end FocServices.Credit
