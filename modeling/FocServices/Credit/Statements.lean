import FocServices.Credit.Effects

/-!
# Rules for the credit statements

One rule of the weakest precondition for each statement the commands issue. A rule
has a premise for each answer the statement can give on the tables at hand. The
statements that write money or reservations are shown not to fail on a constraint.
-/

namespace FocServices.Credit

open Txn

/-- A reply that is not the failure of a `CHECK` or `UNIQUE` constraint. -/
def ConstraintFree {α : Type} (reply : Except RepoError α) : Prop :=
  ∀ e, reply = .error e → e.isConstraint = false

/-- The five statements that write money or reservations fail on no constraint. -/
def Admissible : (q : Stmt) → q.Reply → Prop
  | .applyDeltas _ _ _, reply => ConstraintFree reply
  | .createReservation _ _ _, reply => ConstraintFree reply
  | .updateReservation _ _ _, reply => ConstraintFree reply
  | .adjustReservation _ _ _, reply => ConstraintFree reply
  | .insertLedgerEntry _, reply => ConstraintFree reply
  | .lockCommand _, _ | .getProcessedCommand _, _ | .insertProcessedCommand _ _, _
  | .insertReleasedOrder _, _ | .isOrderReleased _, _ | .insertWalletIfAbsent _ _, _
  | .getWalletByOwner _, _ | .lockWalletsByAuth0Subject _, _ | .getReservationByOrder _ _, _
  | .enqueue _ _ _ _, _ => True

theorem constraintFree_ok {α : Type} (a : α) : ConstraintFree (.ok a) := by
  intro e h
  cases h

@[simp] theorem orFail_ok {α : Type} (a : α) : orFail (.ok a) = (.pure a : Tx α) := rfl

@[simp] theorem orFail_error {α : Type} (e : RepoError) :
    orFail (.error e) = (.fail (.repo e) : Tx α) := rfl

/-- A statement's failure ends the body, so only its success needs to conform. -/
theorem conforms_orFail {α β : Type} {before : Program.Log Stmt.Reply → Stmt → Prop}
    {after : Program.Log Stmt.Reply → β → Prop} {log : Program.Log Stmt.Reply}
    {reply : Except RepoError α} {f : α → Tx β}
    (h : ∀ a, reply = .ok a → (f a).Conforms before after log) :
    (orFail reply >>= f).Conforms before after log := by
  cases reply with
  | ok a => exact h a rfl
  | error e => trivial

section Rules

variable {hash : String → ℤ} {α : Type} {post : Except ServiceError α → Tables → ℕ → Prop}
  {s : Tables} {n : ℕ}

theorem wp_isOrderReleased {o : String} {next : Except RepoError Bool → Tx α}
    (h : (engine hash).wp Admissible post (next (.ok (decide (o ∈ s.releasedOrders)))) s (n + 1)) :
    (engine hash).wp Admissible post (.stmt (.isOrderReleased o) next) s n :=
  ⟨trivial, h⟩

theorem wp_getReservation {o : String} {forUpdate : Bool}
    {next : Except RepoError Reservation → Tx α}
    (hsome : ∀ r, s.reservationOf o = some r →
      (engine hash).wp Admissible post (next (.ok r)) s (n + 1))
    (hnone : s.reservationOf o = none →
      (engine hash).wp Admissible post (next (.error .notFound)) s (n + 1)) :
    (engine hash).wp Admissible post (.stmt (.getReservationByOrder o forUpdate) next) s n := by
  refine ⟨trivial, ?_⟩
  simp only [Engine.storeAfter, Engine.execAlone, engine, exec_getReservation]
  cases hr : s.reservationOf o with
  | some r => exact hsome r hr
  | none => exact hnone hr

theorem wp_lockWallets {subjects : List String} {next : Except RepoError (List Wallet) → Tx α}
    (hok : (s.walletsOf subjects).length = subjects.dedup.length →
      (engine hash).wp Admissible post (next (.ok (s.walletsOf subjects))) s (n + 1))
    (herr : (s.walletsOf subjects).length ≠ subjects.dedup.length →
      (engine hash).wp Admissible post (next (.error .notFound)) s (n + 1)) :
    (engine hash).wp Admissible post (.stmt (.lockWalletsByAuth0Subject subjects) next) s n := by
  refine ⟨trivial, ?_⟩
  simp only [Engine.storeAfter, Engine.execAlone, engine, exec]
  by_cases hlen : (s.walletsOf subjects).length = subjects.dedup.length
  · rw [if_pos hlen]
    exact hok hlen
  · rw [if_neg hlen]
    exact herr hlen

theorem wp_insertLedgerEntry {e : LedgerEntry} {next : Except RepoError LedgerEntry → Tx α}
    (hproblem : s.entryProblem e = none)
    (h : (engine hash).wp Admissible post (next (.ok e)) ((Write.insertEntry e).apply s) (n + 1)) :
    (engine hash).wp Admissible post (.stmt (.insertLedgerEntry e) next) s n := by
  simp only [Engine.wp_stmt, Engine.storeAfter, Engine.execAlone, engine, exec, hproblem]
  exact ⟨constraintFree_ok _, h⟩

/-- The balances stay non-negative, so the only error is a sum outside `bigint`. -/
theorem wp_applyDeltas {w : Wallet} {a d : ℤ} {next : Except RepoError Wallet → Tx α}
    (hw : findRow Wallet.id w.id s.wallets = some w)
    (havail : 0 ≤ w.available + a) (hres : 0 ≤ w.reserved + d)
    (hok : (engine hash).wp Admissible post (next (.ok (w.addDeltas a d)))
      ((Write.addDeltas w.id a d).apply s) (n + 1))
    (hrange : (engine hash).wp Admissible post (next (.error .numericOutOfRange)) s (n + 1)) :
    (engine hash).wp Admissible post (.stmt (.applyDeltas w.id a d) next) s n := by
  have hproblem : (w.addDeltas a d).problem = some .numericOutOfRange ∨
      (w.addDeltas a d).problem = none := by
    unfold Wallet.problem
    split
    · exact Or.inl rfl
    · rw [if_neg (by simp only [Wallet.addDeltas]; omega)]
      exact Or.inr rfl
  simp only [Engine.wp_stmt, Engine.storeAfter, Engine.execAlone, engine, exec, hw]
  rcases hproblem with hp | hp
  · simp only [hp]
    refine ⟨?_, hrange⟩
    rintro e ⟨⟩
    rfl
  · simp only [hp]
    exact ⟨constraintFree_ok _, hok⟩

theorem wp_createReservation {walletID : ℕ} {o : String} {amount : ℤ}
    {next : Except RepoError Reservation → Tx α} (hpos : 0 < amount)
    (hnone : s.reservationOf o = none) (hwallet : ∃ w ∈ s.wallets, w.id = walletID)
    (h : (engine hash).wp Admissible post (next (.ok ⟨n, walletID, o, amount, .active, 0⟩))
      ((Write.insertReservation ⟨n, walletID, o, amount, .active, 0⟩).apply s) (n + 1)) :
    (engine hash).wp Admissible post (.stmt (.createReservation walletID o amount) next) s n := by
  have hany : (s.wallets.any fun w => w.id = walletID) = true := by
    simpa using hwallet
  simp only [Engine.wp_stmt, Engine.storeAfter, Engine.execAlone, engine, exec, hpos, hnone, hany,
    not_true_eq_false, if_false, Option.isSome_none, Bool.false_eq_true]
  exact ⟨constraintFree_ok _, h⟩

theorem wp_updateReservation {r : Reservation} {amount : ℤ} {status : ReservationStatus}
    {next : Except RepoError Reservation → Tx α}
    (hr : findRow Reservation.id r.id s.reservations = some r) (hpos : 0 < amount)
    (h : (engine hash).wp Admissible post (next (.ok { r with amount := amount, status := status }))
      ((Write.setReservation r.id amount status).apply s) (n + 1)) :
    (engine hash).wp Admissible post (.stmt (.updateReservation r.id amount status) next) s n := by
  simp only [Engine.wp_stmt, Engine.storeAfter, Engine.execAlone, engine, exec,
    Tables.updateReservation, hr, if_pos hpos]
  exact ⟨constraintFree_ok _, h⟩

theorem wp_adjustReservation {r : Reservation} {amount seq : ℤ}
    {next : Except RepoError Reservation → Tx α}
    (hr : findRow Reservation.id r.id s.reservations = some r) (hpos : 0 < amount)
    (h : (engine hash).wp Admissible post
      (next (.ok { r with amount := amount, lastAdjustSeq := seq }))
      ((Write.adjustReservation r.id amount seq).apply s) (n + 1)) :
    (engine hash).wp Admissible post (.stmt (.adjustReservation r.id amount seq) next) s n := by
  simp only [Engine.wp_stmt, Engine.storeAfter, Engine.execAlone, engine, exec,
    Tables.updateReservation, hr, if_pos hpos]
  exact ⟨constraintFree_ok _, h⟩

theorem wp_insertReleasedOrder {o : String} {next : Except RepoError Unit → Tx α}
    (hold : o ∈ s.releasedOrders → (engine hash).wp Admissible post (next (.ok ())) s (n + 1))
    (hnew : o ∉ s.releasedOrders → (engine hash).wp Admissible post (next (.ok ()))
      ((Write.insertReleasedOrder o).apply s) (n + 1)) :
    (engine hash).wp Admissible post (.stmt (.insertReleasedOrder o) next) s n := by
  refine ⟨trivial, ?_⟩
  simp only [Engine.storeAfter, Engine.execAlone, engine, exec]
  by_cases ho : o ∈ s.releasedOrders
  · rw [if_pos ho]
    exact hold ho
  · rw [if_neg ho]
    exact hnew ho

theorem wp_lockCommand {m : String} {next : Except RepoError Unit → Tx α}
    (h : (engine hash).wp Admissible post (next (.ok ())) s (n + 1)) :
    (engine hash).wp Admissible post (.stmt (.lockCommand m) next) s n :=
  ⟨trivial, h⟩

theorem wp_getProcessed {m : String} {next : Except RepoError Result → Tx α}
    (hsome : ∀ result, s.resultOf m = some result →
      (engine hash).wp Admissible post (next (.ok result)) s (n + 1))
    (hnone : s.resultOf m = none →
      (engine hash).wp Admissible post (next (.error .notFound)) s (n + 1)) :
    (engine hash).wp Admissible post (.stmt (.getProcessedCommand m) next) s n := by
  refine ⟨trivial, ?_⟩
  simp only [Engine.storeAfter, Engine.execAlone, engine, exec]
  cases hr : s.resultOf m with
  | some result => exact hsome result hr
  | none => exact hnone hr

theorem wp_insertProcessed {m : String} {result : Result} {next : Except RepoError Unit → Tx α}
    (hm : m ≠ "") (hnone : s.resultOf m = none)
    (h : (engine hash).wp Admissible post (next (.ok ()))
      ((Write.insertProcessed m result).apply s) (n + 1)) :
    (engine hash).wp Admissible post (.stmt (.insertProcessedCommand m result) next) s n := by
  refine ⟨trivial, ?_⟩
  simp only [Engine.storeAfter, Engine.execAlone, engine, exec, if_neg hm, hnone,
    Option.isSome_none, Bool.false_eq_true, if_false]
  exact h

theorem wp_insertWallet {owner subject : String} {next : Except RepoError (Option Wallet) → Tx α}
    (herr : ∀ e, (engine hash).wp Admissible post (next (.error e)) s (n + 1))
    (hold : (engine hash).wp Admissible post (next (.ok none)) s (n + 1))
    (hnew : (∀ w ∈ s.wallets, w.ownerID ≠ owner) → (∀ w ∈ s.wallets, w.auth0Subject ≠ subject) →
      (engine hash).wp Admissible post
        (next (.ok (some { id := n, ownerID := owner, auth0Subject := subject })))
        ((Write.insertWallet { id := n, ownerID := owner, auth0Subject := subject }).apply s)
        (n + 1)) :
    (engine hash).wp Admissible post (.stmt (.insertWalletIfAbsent owner subject) next) s n := by
  refine ⟨trivial, ?_⟩
  simp only [Engine.storeAfter, Engine.execAlone, engine, exec]
  by_cases hstorable : ¬ subjectStorable subject = true
  · simp only [if_pos hstorable]
    exact herr _
  simp only [if_neg hstorable]
  by_cases howner : (s.wallets.any fun w => w.ownerID = owner) = true
  · simp only [if_pos howner]
    exact hold
  simp only [if_neg howner]
  by_cases hsubject : (s.wallets.any fun w => w.auth0Subject = subject) = true
  · simp only [if_pos hsubject]
    exact herr _
  simp only [if_neg hsubject]
  exact hnew (by simpa using howner) (by simpa using hsubject)

theorem wp_getWalletByOwner {owner : String} {next : Except RepoError Wallet → Tx α}
    (hsome : ∀ w, findRow Wallet.ownerID owner s.wallets = some w →
      (engine hash).wp Admissible post (next (.ok w)) s (n + 1))
    (hnone : findRow Wallet.ownerID owner s.wallets = none →
      (engine hash).wp Admissible post (next (.error .notFound)) s (n + 1)) :
    (engine hash).wp Admissible post (.stmt (.getWalletByOwner owner) next) s n := by
  refine ⟨trivial, ?_⟩
  simp only [Engine.storeAfter, Engine.execAlone, engine, exec]
  cases hw : findRow Wallet.ownerID owner s.wallets with
  | some w => exact hsome w hw
  | none => exact hnone hw

end Rules

/-! ## Wallets by subject -/

section Wallets

variable {s : Tables}

theorem mem_walletsOf {subjects : List String} {w : Wallet} :
    w ∈ s.walletsOf subjects ↔ w ∈ s.wallets ∧ w.auth0Subject ∈ subjects := by
  simp [Tables.walletsOf, List.mem_insertionSort]

/-- The selected rows have distinct subjects. -/
theorem nodup_walletsOf (hu : UniqueKey Wallet.auth0Subject s.wallets) (subjects : List String) :
    ((s.walletsOf subjects).map Wallet.auth0Subject).Nodup := by
  have hperm := (List.perm_insertionSort (fun a b : Wallet => a.id ≤ b.id)
    (s.wallets.filter fun w => w.auth0Subject ∈ subjects)).map Wallet.auth0Subject
  rw [Tables.walletsOf, hperm.nodup_iff]
  exact hu.sublist (List.filter_sublist.map _)

/-- Locking one subject gives its wallet. -/
theorem walletsOf_one {subject : String}
    (hlen : (s.walletsOf [subject]).length = [subject].dedup.length) :
    ∃ w ∈ s.wallets, w.auth0Subject = subject ∧ (s.walletsOf [subject]).headD default = w := by
  obtain ⟨w, hw⟩ := List.length_eq_one_iff.mp (hlen.trans (by simp))
  have hmem := mem_walletsOf.mp (hw ▸ List.mem_singleton_self w)
  exact ⟨w, hmem.1, by simpa using hmem.2, by rw [hw]; rfl⟩

/-- Locking two subjects gives both wallets, told apart by subject. -/
theorem pickWallets_eq (hu : UniqueKey Wallet.auth0Subject s.wallets) {a b : String} (hne : b ≠ a)
    (hlen : (s.walletsOf [a, b]).length = [a, b].dedup.length) :
    ∃ requester ∈ s.wallets, ∃ courier ∈ s.wallets, requester.auth0Subject = a ∧
      courier.auth0Subject = b ∧ pickWallets a (s.walletsOf [a, b]) = (requester, courier) := by
  have htwo : (s.walletsOf [a, b]).length = 2 := by
    rw [hlen, List.dedup_eq_self.mpr (by simp [hne.symm])]
    rfl
  have hnodup := nodup_walletsOf hu [a, b]
  obtain ⟨u, v, huv⟩ := List.length_eq_two.mp htwo
  have hu' := mem_walletsOf.mp (huv ▸ List.mem_cons_self : u ∈ s.walletsOf [a, b])
  have hv' := mem_walletsOf.mp
    (huv ▸ List.mem_cons_of_mem u (List.mem_singleton_self v) : v ∈ s.walletsOf [a, b])
  rw [huv] at hnodup ⊢
  have hdiff : u.auth0Subject ≠ v.auth0Subject := by simpa using hnodup
  simp only [List.mem_cons, List.not_mem_nil, or_false] at hu' hv'
  rcases hu'.2 with hua | hub
  · have hvb : v.auth0Subject = b := hv'.2.resolve_left fun hva => hdiff (hua.trans hva.symm)
    refine ⟨u, hu'.1, v, hv'.1, hua, hvb, ?_⟩
    simp [pickWallets, hua, hvb, hne]
  · have hva : v.auth0Subject = a := hv'.2.resolve_right fun hvb => hdiff (hub.trans hvb.symm)
    refine ⟨v, hv'.1, u, hu'.1, hva, hub, ?_⟩
    simp [pickWallets, hub, hva, hne]

end Wallets

end FocServices.Credit
