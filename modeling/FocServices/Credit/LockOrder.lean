import FocServices.Credit.Runs
import FocServices.Txn.LockOrder
import Mathlib.Data.Prod.Lex

/-!
# The credit commands do not deadlock

Every command takes its locks in one order: the advisory lock of its message, the wallets
by id, the reservation, the keys of ledger entries, the key of the order, the key of the
processed message, the key of the result. The keys of a wallet's ledger entries are taken
only by a transaction that has locked the wallet, so nobody waits for them. What a command
locks again later it holds already.
-/

namespace FocServices.Credit

open Txn

/-- The wallet rows a statement's foreign keys refer to. They are locked against deletion
and key changes, which another transaction's `FOR UPDATE` delays. -/
def Stmt.referenced : Stmt → List ℕ
  | .insertLedgerEntry e => e.walletID :: e.counterpartyWalletID.toList
  | .createReservation walletID _ _ => [walletID]
  | _ => []

/-- The locks a statement takes, one after another: its own, and those of the foreign key
checks of a row it inserts. -/
def lockRequests (hash : String → ℤ) (n : ℕ) (q : Stmt) (s : Tables) : List (Lock × Mode) :=
  (exec hash n q s).locks ++
    if (exec hash n q s).writes = [] then []
    else q.referenced.map fun walletID => (Lock.wallet walletID, Mode.shared)

/-- Where a lock stands in the order. -/
def Lock.stage : Lock → ℕ
  | .command _ => 0
  | .wallet _ => 1
  | .reservation _ => 2
  | .entryKey _ _ => 3
  | .orderKey _ | .releasedKey _ => 4
  | .processedKey _ => 5
  | .outboxKey _ => 6
  | .ownerKey _ | .subjectKey _ => 7

/-- Wallets are ordered by id. -/
def Lock.minor : Lock → ℕ
  | .wallet id => id
  | _ => 0

/-- The identifiers and subjects of the wallets, which no order command changes. -/
def Tables.roster (s : Tables) : List (ℕ × String) := s.wallets.map fun w => (w.id, w.auth0Subject)

def lockOrder (people : List (ℕ × String)) : LockOrder Tables Write Lock (ℕ ×ₗ ℕ) where
  rank l := toLex (l.stage, l.minor)
  guard
    | .entryKey walletID _ => some (.wallet walletID)
    | _ => none
  invariant s := s.roster = people
  keeps x := ∀ w, x ≠ .insertWallet w

/-- Everything held stands before stage `k`. -/
def Below (held : List (Lock × Mode)) (k : ℕ) : Prop := ∀ h ∈ held, h.1.stage < k

/-- A transaction body keeps to the order, and what it returns satisfies `post` together
with the locks it then holds. -/
abbrev InOrder (hash : String → ℤ) (people : List (ℕ × String)) {α : Type}
    (post : α → List (Lock × Mode) → Prop) (p : Tx α) (held : List (Lock × Mode)) : Prop :=
  p.InOrder (engine hash) (lockRequests hash) (lockOrder people)
    (fun r locks => ∀ a, r = .ok a → post a locks) held

theorem roster_apply {x : Write} (hx : ∀ w, x ≠ .insertWallet w) (s : Tables) :
    (x.apply s).roster = s.roster := by
  cases x with
  | insertWallet w => exact absurd rfl (hx w)
  | addDeltas walletID a d => exact map_updateRow fun _ _ => rfl
  | _ => rfl

theorem Below.mono {held : List (Lock × Mode)} {k k' : ℕ} (h : Below held k) (hle : k ≤ k') :
    Below held k' := fun x hx => Nat.lt_of_lt_of_le (h x hx) hle

theorem below_nil : Below [] 0 := fun _ h => (nomatch h)

section Rules

variable {hash : String → ℤ} {people : List (ℕ × String)} {α : Type}
  {post : α → List (Lock × Mode) → Prop} {held : List (Lock × Mode)}

/-- A lock of a later stage outranks everything held. -/
theorem Below.respects {l : Lock} (h : Below held l.stage)
    (hguard : (lockOrder people).guard l = none) :
    (lockOrder people).Respects held l :=
  ⟨fun g hg => by simp [hguard] at hg, fun _ x hx => Prod.Lex.toLex_lt_toLex.mpr (Or.inl (h x hx))⟩

/-- The key of a ledger entry is taken under the lock of its wallet. -/
theorem respects_entryKey {walletID : ℕ} {key : String}
    (h : (Lock.wallet walletID, Mode.exclusive) ∈ held) :
    (lockOrder people).Respects held (.entryKey walletID key) :=
  ⟨fun g hg => by cases Option.some.inj hg; exact h, fun hg => by cases hg⟩

/-- What is known of the locks after a statement that took at most the locks `new`. -/
structure Grown (held new locks : List (Lock × Mode)) : Prop where
  old : held ⊆ locks
  taken : ∀ l, (l, Mode.exclusive) ∈ new → (l, Mode.exclusive) ∈ locks
  only : ∀ x ∈ locks, x ∈ held ∨ x ∈ new

theorem Grown.below {new locks : List (Lock × Mode)} (h : Grown held new locks) {k : ℕ}
    (hheld : Below held k) (hnew : Below new k) : Below locks k :=
  fun x hx => (h.only x hx).elim (hheld x) (hnew x)

/-- The rule for a statement that takes at most one lock besides those it holds. -/
theorem inOrder_one {q : Stmt} {next : q.Reply → Tx α}
    (h : ∀ n s, s.roster = people → ∃ new others, lockRequests hash n q s = new ++ others ∧
      new.length ≤ 1 ∧ (∀ x ∈ others, covers held x = true) ∧
      (∀ x ∈ new, (lockOrder people).Respects held x.1) ∧
      (∀ x ∈ (exec hash n q s).writes, ∀ w, x ≠ .insertWallet w) ∧
      ∀ locks, Grown held new locks →
        InOrder hash people post (next (exec hash n q s).reply) locks) :
    InOrder hash people post (.stmt q next) held := by
  have hmissing : ∀ n s new others, lockRequests hash n q s = new ++ others → new.length ≤ 1 →
      (∀ x ∈ others, covers held x = true) →
      missing (lockRequests hash) held n q s = new.filter fun x => !covers held x := by
    intro n s new others hrequests _ hothers
    have hnone : others.filter (fun x => !covers held x) = [] :=
      List.filter_eq_nil_iff.mpr fun x hx => by simp [hothers x hx]
    rw [missing, hrequests, List.filter_append, hnone, List.append_nil]
  refine inOrder_stmt (fun n s hs => ?_) (fun n s hs lm hlm => ?_) fun n g s hs => ?_
  · obtain ⟨new, others, hrequests, hlength, hothers, -⟩ := h n s hs
    rw [hmissing n s new others hrequests hlength hothers]
    exact (List.length_filter_le _ _).trans hlength
  · obtain ⟨new, others, hrequests, hlength, hothers, hrespects, -⟩ := h n s hs
    rw [hmissing n s new others hrequests hlength hothers] at hlm
    exact hrespects lm (List.mem_of_mem_filter (List.mem_of_mem_head? hlm))
  · obtain ⟨new, others, hrequests, hlength, hothers, -, hwrites, hnext⟩ := h n s hs
    refine ⟨hwrites, hnext _
      ⟨fun x hx => List.mem_append_left _ hx, fun l hl => ?_, fun x hx => ?_⟩⟩
    · rw [hmissing n s new others hrequests hlength hothers]
      by_cases hcovers : covers held (l, .exclusive) = true
      · exact List.mem_append_left _ (covers_exclusive.mp hcovers)
      · exact List.mem_append_right _ (List.mem_filter.mpr ⟨hl, by simpa using hcovers⟩)
    · rw [hmissing n s new others hrequests hlength hothers] at hx
      exact (List.mem_append.mp hx).imp (fun hx => hx) List.mem_of_mem_filter

/-- The rule for a statement that takes no lock it does not hold. -/
theorem inOrder_held {q : Stmt} {next : q.Reply → Tx α}
    (hheld : ∀ n s, ∀ x ∈ lockRequests hash n q s, covers held x = true)
    (hwrites : ∀ n s, ∀ x ∈ (exec hash n q s).writes, ∀ w, x ≠ .insertWallet w)
    (h : ∀ n s, s.roster = people → InOrder hash people post (next (exec hash n q s).reply) held) :
    InOrder hash people post (.stmt q next) held := by
  have hmissing : ∀ n s, missing (lockRequests hash) held n q s = [] := fun n s =>
    List.filter_eq_nil_iff.mpr fun x hx => by simp [hheld n s x hx]
  refine inOrder_stmt (fun n s _ => ?_) (fun n s _ lm hlm => ?_) fun n g s hs => ?_
  · simp [hmissing]
  · simp [hmissing] at hlm
  · rw [hmissing, List.append_nil]
    exact ⟨hwrites n s, h n s hs⟩

/-- Sequencing. -/
theorem inOrder_then {β : Type} {p : Tx β} {f : β → Tx α}
    (h : InOrder hash people (fun b locks => InOrder hash people post (f b) locks) p held) :
    InOrder hash people post (p >>= f) held := by
  refine inOrder_bind.mpr (inOrder_mono h fun r locks hr => ?_)
  cases r with
  | ok b => exact hr b rfl
  | error e => exact fun a ha => by cases ha

/-- A statement's failure ends the body. -/
theorem inOrder_orFail {β : Type} {reply : Except RepoError β} {f : β → Tx α}
    (h : ∀ b, reply = .ok b → InOrder hash people post (f b) held) :
    InOrder hash people post (orFail reply >>= f) held := by
  cases reply with
  | ok b => exact h b rfl
  | error e => exact fun a ha => by cases ha

theorem inOrder_return {a : α} (h : post a held) :
    InOrder hash people post (.pure a) held := fun b hb => by cases hb; exact h

theorem inOrder_fail {e : ServiceError} : InOrder hash people post (.fail e) held :=
  fun a ha => by cases ha

/-! ## The statements -/

theorem inOrder_isOrderReleased {o : String} {next : Except RepoError Bool → Tx α}
    (h : ∀ released, InOrder hash people post (next (.ok released)) held) :
    InOrder hash people post (.stmt (.isOrderReleased o) next) held :=
  inOrder_held (fun n s x hx => by simp [lockRequests, exec] at hx)
    (fun n s x hx => by simp [exec] at hx) fun n s _ => h _

theorem inOrder_getProcessed {m : String} {next : Except RepoError Result → Tx α}
    (h : ∀ reply, InOrder hash people post (next reply) held) :
    InOrder hash people post (.stmt (.getProcessedCommand m) next) held := by
  refine inOrder_held (fun n s x hx => ?_) (fun n s x hx => ?_) fun n s _ => h _
  · simp only [lockRequests, exec] at hx
    cases hr : s.resultOf m <;> simp [hr] at hx
  · simp only [exec] at hx
    cases hr : s.resultOf m <;> simp [hr] at hx

theorem inOrder_findReservation {o : String} {next : Except RepoError Reservation → Tx α}
    (h : ∀ reply, InOrder hash people post (next reply) held) :
    InOrder hash people post (.stmt (.getReservationByOrder o false) next) held := by
  refine inOrder_held (fun n s x hx => ?_) (fun n s x hx => ?_) fun n s _ => h _
  · simp only [lockRequests, exec] at hx
    cases hr : s.reservationOf o <;> simp [hr] at hx
  · simp only [exec] at hx
    cases hr : s.reservationOf o <;> simp [hr] at hx

theorem inOrder_applyDeltas {walletID : ℕ} {a d : ℤ} {next : Except RepoError Wallet → Tx α}
    (hheld : (Lock.wallet walletID, Mode.exclusive) ∈ held)
    (h : ∀ reply, InOrder hash people post (next reply) held) :
    InOrder hash people post (.stmt (.applyDeltas walletID a d) next) held := by
  have hlocks : ∀ n s, ∀ x ∈ (exec hash n (.applyDeltas walletID a d) s).locks,
      x = (Lock.wallet walletID, Mode.exclusive) := by
    intro n s x hx
    simp only [exec] at hx
    split at hx
    · cases hx
    · split at hx <;> exact List.mem_singleton.mp hx
  refine inOrder_held (fun n s x hx => ?_) (fun n s x hx => ?_) fun n s _ => h _
  · simp only [lockRequests, Stmt.referenced, List.map_nil, ite_self, List.append_nil] at hx
    rw [hlocks n s x hx]
    exact covers_of_mem _ hheld
  · simp only [exec] at hx
    split at hx
    · simp at hx
    · split at hx
      · simp at hx
      · simp only [List.mem_singleton] at hx
        simp [hx]

/-- The two updates of a reservation row. -/
theorem inOrder_heldReservation {q : Stmt} {next : q.Reply → Tx α} {id : ℕ}
    (hlocks : ∀ n s, (exec hash n q s).locks = [(Lock.reservation id, Mode.exclusive)])
    (hreferenced : q.referenced = [])
    (hwrites : ∀ n s, ∀ x ∈ (exec hash n q s).writes, ∀ w, x ≠ .insertWallet w)
    (hheld : (Lock.reservation id, Mode.exclusive) ∈ held)
    (h : ∀ reply, InOrder hash people post (next reply) held) :
    InOrder hash people post (.stmt q next) held := by
  refine inOrder_held (fun n s x hx => ?_) hwrites fun n s _ => h _
  have hlock : x = (Lock.reservation id, Mode.exclusive) := by
    simpa [lockRequests, hlocks, hreferenced] using hx
  rw [hlock]
  exact covers_of_mem _ hheld

theorem inOrder_updateReservation {id : ℕ} {amount : ℤ} {status : ReservationStatus}
    {next : Except RepoError Reservation → Tx α}
    (hheld : (Lock.reservation id, Mode.exclusive) ∈ held)
    (h : ∀ reply, InOrder hash people post (next reply) held) :
    InOrder hash people post (.stmt (.updateReservation id amount status) next) held := by
  refine inOrder_heldReservation (fun n s => ?_) rfl (fun n s x hx => ?_) hheld h
  · simp only [exec]
    split <;> rfl
  · simp only [exec] at hx
    split at hx <;> simp at hx
    simp [hx]

theorem inOrder_adjustReservation {id : ℕ} {amount seq : ℤ}
    {next : Except RepoError Reservation → Tx α}
    (hheld : (Lock.reservation id, Mode.exclusive) ∈ held)
    (h : ∀ reply, InOrder hash people post (next reply) held) :
    InOrder hash people post (.stmt (.adjustReservation id amount seq) next) held := by
  refine inOrder_heldReservation (fun n s => ?_) rfl (fun n s x hx => ?_) hheld h
  · simp only [exec]
    split <;> rfl
  · simp only [exec] at hx
    split at hx <;> simp at hx
    simp [hx]

/-- A statement that takes one lock of stage `k`, or none. -/
theorem inOrder_stage {q : Stmt} {next : q.Reply → Tx α} {k : ℕ} (hbelow : Below held k)
    (hlocks : ∀ n s, ∃ new : List (Lock × Mode), (exec hash n q s).locks = new ∧ new.length ≤ 1 ∧
      ∀ x ∈ new, x.1.stage = k ∧ (lockOrder people).guard x.1 = none)
    (hreferenced : ∀ walletID ∈ q.referenced, (Lock.wallet walletID, Mode.exclusive) ∈ held)
    (hwrites : ∀ n s, ∀ x ∈ (exec hash n q s).writes, ∀ w, x ≠ .insertWallet w)
    (h : ∀ n s locks, Grown held (exec hash n q s).locks locks → Below locks (k + 1) →
      InOrder hash people post (next (exec hash n q s).reply) locks) :
    InOrder hash people post (.stmt q next) held := by
  refine inOrder_one fun n s _ => ?_
  obtain ⟨new, hnew, hlength, hstage⟩ := hlocks n s
  refine ⟨(exec hash n q s).locks, _, rfl, hnew ▸ hlength, fun x hx => ?_, fun x hx => ?_,
    hwrites n s, fun locks hgrown => h n s locks hgrown (hgrown.below (hbelow.mono (by omega)) ?_)⟩
  · split at hx
    · cases hx
    · obtain ⟨walletID, hwallet, rfl⟩ := List.mem_map.mp hx
      exact covers_of_mem _ (hreferenced walletID hwallet)
  · obtain ⟨hk, hguard⟩ := hstage x (hnew ▸ hx)
    exact Below.respects (hk ▸ hbelow) hguard
  · intro x hx
    have := (hstage x (hnew ▸ hx)).1
    omega

theorem inOrder_lockCommand {m : String} {next : Except RepoError Unit → Tx α}
    (hbelow : Below held 0)
    (h : ∀ reply locks, Below locks 1 → InOrder hash people post (next reply) locks) :
    InOrder hash people post (.stmt (.lockCommand m) next) held :=
  inOrder_stage hbelow (fun n s => ⟨_, rfl, Nat.le_refl 1, fun x hx => by
      cases List.mem_singleton.mp hx; exact ⟨rfl, rfl⟩⟩)
    (fun _ h => by cases h) (fun n s x hx => by simp [exec] at hx)
    fun n s locks _ hlocks => h _ locks hlocks

theorem inOrder_lockReservationRow {o : String} {next : Except RepoError Reservation → Tx α}
    (hbelow : Below held 2)
    (hsome : ∀ r locks, held ⊆ locks → (Lock.reservation r.id, Mode.exclusive) ∈ locks →
      Below locks 3 → InOrder hash people post (next (.ok r)) locks)
    (hnone : ∀ locks, Below locks 3 → InOrder hash people post (next (.error .notFound)) locks) :
    InOrder hash people post (.stmt (.getReservationByOrder o true) next) held := by
  refine inOrder_stage hbelow (fun n s => ⟨_, rfl, ?_, fun x hx => ?_⟩) (fun _ h => by cases h)
    (fun n s x hx => ?_) fun n s locks hgrown hlocks => ?_
  · simp only [exec]
    cases s.reservationOf o <;> simp
  · simp only [exec] at hx
    cases hr : s.reservationOf o with
    | none => simp [hr] at hx
    | some r =>
      simp only [hr, if_true, List.mem_singleton] at hx
      rw [hx]
      exact ⟨rfl, rfl⟩
  · simp only [exec] at hx
    cases hr : s.reservationOf o <;> simp [hr] at hx
  · simp only [exec] at hgrown ⊢
    cases hr : s.reservationOf o with
    | none =>
      simp only
      exact hnone locks hlocks
    | some r =>
      simp only [hr, if_true] at hgrown ⊢
      exact hsome r locks hgrown.old (hgrown.taken _ (List.mem_singleton_self _)) hlocks

theorem inOrder_insertReleasedOrder {o : String} {next : Except RepoError Unit → Tx α}
    (hbelow : Below held 4)
    (h : ∀ reply locks, Below locks 5 → InOrder hash people post (next reply) locks) :
    InOrder hash people post (.stmt (.insertReleasedOrder o) next) held := by
  refine inOrder_stage hbelow (fun n s => ⟨_, rfl, ?_, fun x hx => ?_⟩) (fun _ h => by cases h)
    (fun n s x hx => ?_) fun n s locks _ hlocks => h _ locks hlocks
  · simp only [exec]
    split <;> simp
  · simp only [exec] at hx
    split at hx
    · cases hx
    · cases List.mem_singleton.mp hx
      exact ⟨rfl, rfl⟩
  · simp only [exec] at hx
    split at hx <;> simp at hx
    simp [hx]

theorem inOrder_createReservation {walletID : ℕ} {o : String} {amount : ℤ}
    {next : Except RepoError Reservation → Tx α} (hbelow : Below held 4)
    (hheld : (Lock.wallet walletID, Mode.exclusive) ∈ held)
    (h : ∀ reply locks, Below locks 5 → InOrder hash people post (next reply) locks) :
    InOrder hash people post (.stmt (.createReservation walletID o amount) next) held := by
  refine inOrder_stage hbelow (fun n s => ⟨_, rfl, ?_, fun x hx => ?_⟩)
    (fun id hid => by cases List.mem_singleton.mp hid; exact hheld)
    (fun n s x hx => ?_) fun n s locks _ hlocks => h _ locks hlocks
  · simp only [exec]
    split
    · simp
    · split
      · simp
      · split <;> simp
  · simp only [exec] at hx
    have hlock : x = (Lock.orderKey o, Mode.exclusive) := by
      split at hx
      · cases hx
      · split at hx
        · cases hx
        · split at hx <;> simpa using hx
    rw [hlock]
    exact ⟨rfl, rfl⟩
  · simp only [exec] at hx
    split at hx
    · cases hx
    · split at hx
      · cases hx
      · split at hx <;> simp at hx
        simp [hx]

theorem inOrder_insertProcessed {m : String} {result : Result}
    {next : Except RepoError Unit → Tx α} (hbelow : Below held 5)
    (h : ∀ reply locks, Below locks 6 → InOrder hash people post (next reply) locks) :
    InOrder hash people post (.stmt (.insertProcessedCommand m result) next) held := by
  refine inOrder_stage hbelow (fun n s => ⟨_, rfl, ?_, fun x hx => ?_⟩) (fun _ h => by cases h)
    (fun n s x hx => ?_) fun n s locks _ hlocks => h _ locks hlocks
  · simp only [exec]
    split
    · simp
    · split <;> simp
  · simp only [exec] at hx
    have hlock : x = (Lock.processedKey m, Mode.exclusive) := by
      split at hx
      · cases hx
      · split at hx
        · cases hx
        · simpa using hx
    rw [hlock]
    exact ⟨rfl, rfl⟩
  · simp only [exec] at hx
    split at hx
    · cases hx
    · split at hx <;> simp at hx
      simp [hx]

theorem inOrder_enqueue {key : String} {type : ResultType} {payload : Envelope} {now : ℤ}
    {next : Except RepoError Unit → Tx α} (hbelow : Below held 6)
    (h : ∀ reply locks, InOrder hash people post (next reply) locks) :
    InOrder hash people post (.stmt (.enqueue key type payload now) next) held := by
  have hlocks : ∀ n s, (exec hash n (.enqueue key type payload now) s).locks =
      [(Lock.outboxKey key, Mode.exclusive)] := by
    intro n s
    simp only [exec]
    split
    · rfl
    · split <;> rfl
  refine inOrder_stage hbelow (fun n s => ⟨_, hlocks n s, Nat.le_refl 1, fun x hx => ?_⟩)
    (fun _ h => by cases h) (fun n s x hx => ?_) fun n s locks _ _ => h _ locks
  · cases List.mem_singleton.mp hx
    exact ⟨rfl, rfl⟩
  · simp only [exec] at hx
    split at hx
    · simp only [List.mem_singleton] at hx
      simp [hx]
    · split at hx <;> simp at hx
      simp [hx]

/-- An entry of a locked wallet, with a locked counterparty. -/
theorem inOrder_insertLedgerEntry {e : LedgerEntry} {next : Except RepoError LedgerEntry → Tx α}
    (hbelow : Below held 4) (hwallet : (Lock.wallet e.walletID, Mode.exclusive) ∈ held)
    (hcounterparty : ∀ c ∈ e.counterpartyWalletID, (Lock.wallet c, Mode.exclusive) ∈ held)
    (h : ∀ reply locks, held ⊆ locks → Below locks 4 →
      InOrder hash people post (next reply) locks) :
    InOrder hash people post (.stmt (.insertLedgerEntry e) next) held := by
  have hlocks : ∀ n s, (exec hash n (.insertLedgerEntry e) s).locks =
      [(Lock.entryKey e.walletID e.idempotencyKey, Mode.exclusive)] := by
    intro n s
    simp only [exec]
    split <;> rfl
  refine inOrder_one fun n s _ => ⟨(exec hash n (.insertLedgerEntry e) s).locks, _, rfl, ?_,
    fun x hx => ?_, fun x hx => ?_, fun x hx => ?_, fun locks hgrown => ?_⟩
  · simp [hlocks]
  · split at hx
    · cases hx
    · obtain ⟨walletID, hmem, rfl⟩ := List.mem_map.mp hx
      refine covers_of_mem _ ?_
      rcases List.mem_cons.mp hmem with rfl | hc
      · exact hwallet
      · exact hcounterparty walletID (Option.mem_toList.mp hc)
  · rw [hlocks] at hx
    cases List.mem_singleton.mp hx
    exact respects_entryKey hwallet
  · simp only [exec] at hx
    split at hx <;> simp at hx
    simp [hx]
  · refine h _ locks hgrown.old (hgrown.below hbelow fun x hx => ?_)
    rw [hlocks] at hx
    cases List.mem_singleton.mp hx
    exact Nat.lt_succ_self 3

/-! ## Locking wallets -/

/-- The wallets of the subjects, in the order in which they are locked. -/
def rosterIDs (people : List (ℕ × String)) (subjects : List String) : List ℕ :=
  ((people.filter fun p => p.2 ∈ subjects).map Prod.fst).insertionSort (· ≤ ·)

theorem ids_walletsOf {s : Tables} (hs : s.roster = people) (subjects : List String) :
    (s.walletsOf subjects).map Wallet.id = rosterIDs people subjects := by
  rw [Tables.walletsOf, List.map_insertionSort (fun a b : Wallet => a.id ≤ b.id) (· ≤ ·) Wallet.id
    _ fun _ _ _ _ => Iff.rfl, rosterIDs, ← hs, Tables.roster, List.filter_map, List.map_map]
  rfl

/-- The wallets that are not locked yet. -/
def remaining (people : List (ℕ × String)) (subjects : List String)
    (locks : List (Lock × Mode)) : List ℕ :=
  (rosterIDs people subjects).filter fun id => !covers locks (.wallet id, .exclusive)

theorem missing_lockWallets {s : Tables} (hs : s.roster = people) (n : ℕ) (subjects : List String)
    (locks : List (Lock × Mode)) :
    missing (lockRequests hash) locks n (.lockWalletsByAuth0Subject subjects) s =
      (remaining people subjects locks).map fun id => (Lock.wallet id, Mode.exclusive) := by
  have hrequests : lockRequests hash n (.lockWalletsByAuth0Subject subjects) s =
      (rosterIDs people subjects).map fun id => (Lock.wallet id, Mode.exclusive) := by
    rw [← ids_walletsOf hs, List.map_map, lockRequests]
    simp only [exec, Stmt.referenced, List.map_nil, ite_self, List.append_nil]
    split <;> rfl
  rw [missing, hrequests, List.filter_map]
  rfl

/-- While the wallets are being locked, those locked come before those that remain. -/
theorem partly_lockWallets {subjects : List String} {locks : List (Lock × Mode)}
    (h : Partly (lockRequests hash) (lockOrder people) (.lockWalletsByAuth0Subject subjects) held
      locks) :
    held ⊆ locks ∧ ∀ x ∈ locks, x ∈ held ∨
      ∃ id, x = (Lock.wallet id, Mode.exclusive) ∧
        ∀ id' ∈ remaining people subjects locks, id < id' := by
  induction h with
  | start => exact ⟨fun x hx => hx, fun x hx => Or.inl hx⟩
  | @take locks n s lm lm' more _ hs hmissing ih =>
    obtain ⟨hold, hlocks⟩ := ih
    rw [missing_lockWallets hs] at hmissing
    obtain ⟨id, rest, hremaining, rfl, -⟩ := List.map_eq_cons_iff.mp hmissing
    have hsorted : (remaining people subjects locks).Pairwise (· ≤ ·) :=
      (List.pairwise_insertionSort _ _).sublist List.filter_sublist
    have hshrinks : ∀ id' ∈ remaining people subjects (locks ++ [(Lock.wallet id, .exclusive)]),
        id' ∈ remaining people subjects locks ∧ id' ≠ id := by
      intro id' hid'
      obtain ⟨hmem, hcovers⟩ := List.mem_filter.mp hid'
      simp only [Bool.not_eq_true', ← Bool.not_eq_true, covers_exclusive, List.mem_append,
        List.mem_singleton, not_or, Prod.mk.injEq, Lock.wallet.injEq, and_true] at hcovers
      refine ⟨List.mem_filter.mpr ⟨hmem, ?_⟩, hcovers.2⟩
      simpa only [Bool.not_eq_true', ← Bool.not_eq_true, covers_exclusive] using hcovers.1
    refine ⟨fun x hx => List.mem_append_left _ (hold hx), fun x hx => ?_⟩
    rcases List.mem_append.mp hx with hx | hx
    · refine (hlocks x hx).imp_right ?_
      rintro ⟨id₀, rfl, hlt⟩
      exact ⟨id₀, rfl, fun id' hid' => hlt id' (hshrinks id' hid').1⟩
    · refine Or.inr ⟨id, List.mem_singleton.mp hx, fun id' hid' => ?_⟩
      obtain ⟨hmem, hne⟩ := hshrinks id' hid'
      rw [hremaining] at hsorted hmem
      have hle := (List.pairwise_cons.mp hsorted).1 id' ((List.mem_cons.mp hmem).resolve_left hne)
      omega

theorem inOrder_lockWallets {subjects : List String}
    {next : Except RepoError (List Wallet) → Tx α} (hbelow : Below held 1)
    (hok : ∀ (s : Tables) locks, s.roster = people → Below locks 2 →
      (∀ w ∈ s.walletsOf subjects, (Lock.wallet w.id, Mode.exclusive) ∈ locks) →
      (s.walletsOf subjects).length = subjects.dedup.length →
      InOrder hash people post (next (.ok (s.walletsOf subjects))) locks)
    (herr : ∀ locks, Below locks 2 → InOrder hash people post (next (.error .notFound)) locks) :
    InOrder hash people post (.stmt (.lockWalletsByAuth0Subject subjects) next) held := by
  intro locks hpartly n g s hs
  obtain ⟨-, hlocks⟩ := partly_lockWallets hpartly
  rw [missing_lockWallets hs]
  refine ⟨fun lm hlm => ?_, fun _ => ⟨fun x hx => ?_, ?_⟩⟩
  · -- the next wallet comes after those locked, and these after all that was held before
    obtain ⟨id, hid, rfl⟩ := List.mem_map.mp (List.mem_of_mem_head? hlm)
    refine ⟨fun _ hg => ?_, fun _ x hx => Prod.Lex.toLex_lt_toLex.mpr ?_⟩
    · cases hg
    · rcases hlocks x hx with hx | ⟨id₀, rfl, hlt⟩
      · exact Or.inl (hbelow x hx)
      · exact Or.inr ⟨rfl, hlt id hid⟩
  · simp only [engine, exec] at hx
    split at hx <;> cases hx
  · have hbelow' : Below (locks ++ (remaining people subjects locks).map fun id =>
        (Lock.wallet id, Mode.exclusive)) 2 := by
      intro x hx
      rcases List.mem_append.mp hx with hx | hx
      · rcases hlocks x hx with hx | ⟨id, rfl, -⟩
        · exact Nat.lt_succ_of_lt (hbelow x hx)
        · exact Nat.lt_succ_self 1
      · obtain ⟨id, -, rfl⟩ := List.mem_map.mp hx
        exact Nat.lt_succ_self 1
    simp only [engine, exec]
    split
    · next hlength =>
      refine hok s _ hs hbelow' (fun w hw => ?_) hlength
      have hid : w.id ∈ rosterIDs people subjects := by
        rw [← ids_walletsOf hs]
        exact List.mem_map_of_mem hw
      by_cases hcovers : covers locks (.wallet w.id, .exclusive) = true
      · exact List.mem_append_left _ (covers_exclusive.mp hcovers)
      · refine List.mem_append_right _ (List.mem_map.mpr ⟨w.id, List.mem_filter.mpr ⟨hid, ?_⟩, rfl⟩)
        simpa using hcovers
    · exact herr _ hbelow'

/-! ## The commands -/

/-- Locking one subject locks its wallet. -/
theorem mem_lock_one {s : Tables} {subject : String} {locks : List (Lock × Mode)}
    (hlocks : ∀ w ∈ s.walletsOf [subject], (Lock.wallet w.id, Mode.exclusive) ∈ locks)
    (hlength : (s.walletsOf [subject]).length = [subject].dedup.length) :
    (Lock.wallet ((s.walletsOf [subject]).headD default).id, Mode.exclusive) ∈ locks := by
  obtain ⟨w, hw⟩ := List.length_eq_one_iff.mp (hlength.trans (by simp))
  rw [hw] at hlocks ⊢
  exact hlocks w (List.mem_singleton_self w)

theorem inOrder_lockReservation {o subject : String}
    {post : Except RepoError (Reservation × Wallet) → List (Lock × Mode) → Prop}
    (hbelow : Below held 1)
    (hsome : ∀ r w locks, (Lock.wallet w.id, Mode.exclusive) ∈ locks →
      (Lock.reservation r.id, Mode.exclusive) ∈ locks → Below locks 3 → post (.ok (r, w)) locks)
    (hnone : ∀ e locks, Below locks 3 → post (.error e) locks) :
    InOrder hash people post (lockReservation o subject) held := by
  simp only [lockReservation, query, Program.call_bind, Program.pure_eq]
  refine inOrder_findReservation fun reply => ?_
  cases reply with
  | error e => exact inOrder_return (hnone e held (hbelow.mono (by omega)))
  | ok found =>
    refine inOrder_lockWallets hbelow (fun s locks _ hlocks hwallets hlength => ?_)
      fun locks _ => inOrder_fail
    refine inOrder_lockReservationRow hlocks (fun r locks' hsub hr hbelow' => ?_)
      fun locks' hbelow' => inOrder_return (hnone _ locks' hbelow')
    have hw := hsub (mem_lock_one hwallets hlength)
    simp only
    split
    · exact inOrder_fail
    · exact inOrder_return (hsome r _ locks' hw hr hbelow')

theorem inOrder_reserveOp {o : String} {c : ReserveCommand} (hbelow : Below held 1) :
    InOrder hash people (fun _ locks => Below locks 5) (reserveOp o c) held := by
  simp only [reserveOp, query, Program.call_bind, Program.pure_eq]
  refine inOrder_isOrderReleased fun released => inOrder_orFail fun released _ => ?_
  split
  · exact inOrder_return (hbelow.mono (by omega))
  refine inOrder_findReservation fun reply => ?_
  split
  · exact inOrder_return (hbelow.mono (by omega))
  · refine inOrder_lockWallets hbelow (fun s locks _ hlocks hwallets hlength => ?_)
      fun locks hlocks => inOrder_return (hlocks.mono (by omega))
    have hw := mem_lock_one hwallets hlength
    simp only
    split
    · exact inOrder_return (hlocks.mono (by omega))
    refine inOrder_insertLedgerEntry (hlocks.mono (by omega)) hw (fun _ h => by cases h)
      fun reply locks' hsub hlocks' => inOrder_orFail fun _ _ => ?_
    refine inOrder_applyDeltas (hsub hw) fun reply => inOrder_orFail fun _ _ => ?_
    refine inOrder_createReservation hlocks' (hsub hw)
      fun reply locks'' hlocks'' => inOrder_orFail fun _ _ => ?_
    exact inOrder_return hlocks''
  · exact inOrder_fail

theorem inOrder_adjustOp {o : String} {c : AdjustCommand} (hbelow : Below held 1) :
    InOrder hash people (fun _ locks => Below locks 5) (adjustOp o c) held := by
  simp only [adjustOp, query, Program.call_bind, Program.pure_eq]
  refine inOrder_then (inOrder_lockReservation hbelow (fun r w locks hw hr hlocks => ?_)
    fun e locks hlocks => ?_)
  · simp only
    have hdone := hlocks.mono (by omega : 3 ≤ 5)
    split
    · exact inOrder_return hdone
    split
    · exact inOrder_return hdone
    split
    · exact inOrder_return hdone
    split
    · refine inOrder_insertLedgerEntry (hlocks.mono (by omega)) hw (fun _ h => by cases h)
        fun reply locks' hsub hlocks' => inOrder_orFail fun _ _ => ?_
      refine inOrder_applyDeltas (hsub hw) fun reply => inOrder_orFail fun _ _ => ?_
      refine inOrder_adjustReservation (hsub hr) fun reply => inOrder_orFail fun _ _ => ?_
      exact inOrder_return (hlocks'.mono (by omega))
    · refine inOrder_adjustReservation hr fun reply => inOrder_orFail fun _ _ => ?_
      exact inOrder_return hdone
  · cases e with
    | notFound => exact inOrder_return (hlocks.mono (by omega))
    | _ => exact inOrder_fail

theorem inOrder_releaseOp {o : String} {c : ReleaseCommand} (hbelow : Below held 1) :
    InOrder hash people (fun _ locks => Below locks 5) (releaseOp o c) held := by
  simp only [releaseOp, query, Program.call_bind, Program.pure_eq]
  refine inOrder_then (inOrder_lockReservation hbelow (fun r w locks hw hr hlocks => ?_)
    fun e locks hlocks => ?_)
  · have hdone := hlocks.mono (by omega : 3 ≤ 5)
    cases hstatus : r.status with
    | released =>
      simp only [hstatus]
      exact inOrder_return hdone
    | transferred =>
      simp only [hstatus]
      exact inOrder_return hdone
    | active =>
      simp only [hstatus]
      refine inOrder_insertLedgerEntry (hlocks.mono (by omega)) hw (fun _ h => by cases h)
        fun reply locks' hsub hlocks' => inOrder_orFail fun _ _ => ?_
      refine inOrder_applyDeltas (hsub hw) fun reply => inOrder_orFail fun _ _ => ?_
      refine inOrder_updateReservation (hsub hr) fun reply => inOrder_orFail fun _ _ => ?_
      exact inOrder_return (hlocks'.mono (by omega))
  · cases e with
    | notFound =>
      exact inOrder_insertReleasedOrder (hlocks.mono (by omega))
        fun reply locks' hlocks' => inOrder_orFail fun _ _ => inOrder_return hlocks'
    | _ => exact inOrder_fail

/-- The subjects are unique in every table with the roster. -/
theorem uniqueKey_of_roster {s : Tables} (hs : s.roster = people)
    (hpeople : (people.map Prod.snd).Nodup) : UniqueKey Wallet.auth0Subject s.wallets := by
  rw [← hs, Tables.roster, List.map_map] at hpeople
  exact hpeople

theorem inOrder_transferOp {o : String} {c : TransferCommand}
    (hpeople : (people.map Prod.snd).Nodup) (hne : c.courierSubject ≠ c.requesterSubject)
    (hbelow : Below held 1) :
    InOrder hash people (fun _ locks => Below locks 5) (transferOp o c) held := by
  simp only [transferOp, query, Program.call_bind, Program.pure_eq]
  refine inOrder_findReservation fun reply => ?_
  split
  · refine inOrder_isOrderReleased fun released => inOrder_orFail fun released _ => ?_
    split
    · exact inOrder_return (hbelow.mono (by omega))
    · exact inOrder_return (hbelow.mono (by omega))
  · exact inOrder_fail
  refine inOrder_lockWallets hbelow (fun s locks hs hlocks hwallets hlength => ?_)
    fun locks hlocks => inOrder_return (hlocks.mono (by omega))
  obtain ⟨requester, hrequester, courier, hcourier, hrs, hcs, hpick⟩ :=
    pickWallets_eq (uniqueKey_of_roster hs hpeople) hne hlength
  have hr := hwallets requester (mem_walletsOf.mpr ⟨hrequester, by simp [hrs]⟩)
  have hc := hwallets courier (mem_walletsOf.mpr ⟨hcourier, by simp [hcs]⟩)
  simp only
  rw [hpick]
  simp only
  split
  · exact inOrder_fail
  refine inOrder_lockReservationRow hlocks (fun res locks' hsub hres hlocks' => ?_)
    fun locks' _ => inOrder_orFail fun _ h => by cases h
  refine inOrder_orFail fun res' hres' => ?_
  cases hres'
  have hdone := hlocks'.mono (by omega : 3 ≤ 5)
  cases hstatus : res.status with
  | transferred =>
    simp only
    exact inOrder_return hdone
  | released =>
    simp only
    exact inOrder_return hdone
  | active =>
    simp only
    split
    · exact inOrder_return hdone
    refine inOrder_insertLedgerEntry (hlocks'.mono (by omega)) (hsub hr)
      (fun w hw => by cases Option.mem_some.mp hw; exact hsub hc)
      fun reply locks₁ hsub₁ hlocks₁ => inOrder_orFail fun _ _ => ?_
    refine inOrder_insertLedgerEntry hlocks₁ (hsub₁ (hsub hc))
      (fun w hw => by cases Option.mem_some.mp hw; exact hsub₁ (hsub hr))
      fun reply locks₂ hsub₂ hlocks₂ => inOrder_orFail fun _ _ => ?_
    have hrest : ∀ locks₃, locks₂ ⊆ locks₃ → Below locks₃ 4 →
        InOrder hash people (fun _ locks => Below locks 5) (.stmt
          (.applyDeltas requester.id (res.amount - min res.amount c.amount -
            (c.amount - min res.amount c.amount)) (-res.amount)) fun reply => do
          let _ ← orFail reply
          .stmt (.applyDeltas courier.id c.amount 0) fun reply => do
            let _ ← orFail reply
            .stmt (.updateReservation res.id res.amount .transferred) fun reply => do
              let _ ← orFail reply
              .pure ({ type := .transferred } : Result)) locks₃ := by
      intro locks₃ hsub₃ hlocks₃
      have hheld : locks' ⊆ locks₃ := fun x hx => hsub₃ (hsub₂ (hsub₁ hx))
      refine inOrder_applyDeltas (hheld (hsub hr)) fun reply => inOrder_orFail fun _ _ => ?_
      refine inOrder_applyDeltas (hheld (hsub hc)) fun reply => inOrder_orFail fun _ _ => ?_
      refine inOrder_updateReservation (hheld hres) fun reply => inOrder_orFail fun _ _ => ?_
      exact inOrder_return (hlocks₃.mono (by omega))
    split
    · exact inOrder_insertLedgerEntry hlocks₂ (hsub₂ (hsub₁ (hsub hr))) (fun _ h => by cases h)
        fun reply locks₃ hsub₃ hlocks₃ => inOrder_orFail fun _ _ => hrest locks₃ hsub₃ hlocks₃
    · exact hrest locks₂ (fun x hx => hx) hlocks₂

theorem inOrder_op {o : String} {cmd : Command} (hpeople : (people.map Prod.snd).Nodup)
    (hvalid : cmd.Valid) (hbelow : Below held 1) :
    InOrder hash people (fun _ locks => Below locks 5) (cmd.op o) held := by
  cases cmd with
  | reserve m c => exact inOrder_reserveOp hbelow
  | adjust m c => exact inOrder_adjustOp hbelow
  | release m c => exact inOrder_releaseOp hbelow
  | transfer m c => exact inOrder_transferOp hpeople hvalid.1 hbelow

theorem inOrder_record {recorder : Option ℤ} {reply : Reply} {result : Result}
    (hbelow : Below held 6) :
    InOrder hash people (fun _ _ => True) (record recorder reply result) held := by
  cases recorder with
  | none => exact inOrder_return trivial
  | some now =>
    simp only [record, recordResult, query, Program.call_bind]
    split
    · exact inOrder_fail
    · refine inOrder_enqueue hbelow fun reply locks => ?_
      cases reply with
      | ok u => exact inOrder_return trivial
      | error e => exact inOrder_fail

theorem inOrder_execute {recorder : Option ℤ} {m : String} {reply : Reply} {op : Tx Result}
    (hop : ∀ locks, Below locks 1 →
      InOrder hash people (fun _ locks => Below locks 5) op locks) :
    InOrder hash people (fun _ _ => True) (execute recorder m reply op) [] := by
  have hrecord : ∀ (result : Result) locks, Below locks 6 →
      InOrder hash people (fun _ _ => True)
        (record recorder { reply with commandMessageID := m } result >>= fun _ => .pure result)
        locks := fun result locks hlocks =>
    inOrder_then (inOrder_mono (inOrder_record hlocks) fun _ _ _ _ _ => inOrder_return trivial)
  simp only [execute, query, Program.call_bind, Program.pure_eq]
  refine inOrder_lockCommand below_nil fun locked locks hlocks => inOrder_orFail fun _ _ => ?_
  refine inOrder_getProcessed fun stored => ?_
  split
  · exact hrecord _ locks (hlocks.mono (by omega))
  · refine inOrder_then (inOrder_mono (hop locks hlocks) ?_)
    rintro r locks' hlocks' result rfl
    have hbelow := hlocks' result rfl
    split
    · exact hrecord result locks' (hbelow.mono (by omega))
    · exact inOrder_insertProcessed hbelow fun reply locks₂ hlocks₂ =>
        inOrder_orFail fun _ _ => hrecord result locks₂ hlocks₂
  · exact inOrder_fail

theorem inOrder_body (hpeople : (people.map Prod.snd).Nodup) (recorder : Option ℤ)
    (cmd : Command) :
    InOrder hash people (fun _ _ => True) (cmd.body recorder) [] := by
  unfold Command.body
  split
  · exact inOrder_fail
  · next o hvalid =>
    exact inOrder_execute fun locks hlocks =>
      inOrder_op hpeople (Command.validate_ok hvalid).2.1 hlocks

end Rules

/-- Any set of order commands, whatever their messages, orders, wallets and amounts, started
on any tables in which no two wallets have one subject: in every state that their statements
reach by taking their locks one at a time, no transactions wait for each other in a cycle. -/
theorem commands_deadlock_free {hash : String → ℤ} {s : Tables}
    (hsubjects : UniqueKey Wallet.auth0Subject s.wallets)
    {w : World (Option ℤ × Command) Stmt Stmt.Reply ServiceError Result Tables Write Lock}
    (h : World.Acquired (engine hash) (lockRequests hash) (fun job => job.2.body job.1) s w) :
    w.DeadlockFree (engine hash) (lockRequests hash) := by
  have hpeople : (s.roster.map Prod.snd).Nodup := by
    rw [Tables.roster, List.map_map]
    exact hsubjects
  refine World.Acquired.deadlockFree (O := lockOrder s.roster) h rfl
    (fun job => inOrder_mono (inOrder_body hpeople job.1 job.2) fun _ _ _ => trivial)
    fun x s' hx hs' => (roster_apply hx s').trans hs'

/-- Two wallets, each with a reservation. -/
def opposedTables : Tables where
  wallets := [{ id := 1, ownerID := "a", auth0Subject := "auth0|a", reserved := 10 },
    { id := 2, ownerID := "b", auth0Subject := "auth0|b", reserved := 10 }]
  reservations := [⟨3, 1, "0d9a1f7e-52c3-4b8e-9f61-7a2c4e8b1d30", 10, .active, 0⟩,
    ⟨4, 2, "6f1c2b3a-9d4e-4c5f-8a7b-1e2d3c4b5a69", 10, .active, 0⟩]

/-- Two transfers in opposite directions. Each looks up its reservation; then the first
locks the wallet with the smaller id, which the second is about to lock too. -/
def opposedTransfers : List (Action (Option ℤ × Command)) :=
  [.start (none, .transfer "ab"
      ⟨"0d9a1f7e-52c3-4b8e-9f61-7a2c4e8b1d30", 1, "auth0|a", "auth0|b", 10⟩),
    .start (none, .transfer "bca"
      ⟨"6f1c2b3a-9d4e-4c5f-8a7b-1e2d3c4b5a69", 1, "auth0|b", "auth0|a", 10⟩),
    .advance 0, .advance 0, .advance 0, .advance 1, .advance 1, .advance 1, .advance 0]

/-- The second transfer waits for the first, and there is no deadlock. -/
theorem commands_deadlock_free_opposed :
    ∃ w : World (Option ℤ × Command) Stmt Stmt.Reply ServiceError Result Tables Write Lock,
      w.WaitsFor (engine fun m => m.length) (lockRequests fun m => m.length) 1 0 ∧
      w.DeadlockFree (engine fun m => m.length) (lockRequests fun m => m.length) := by
  have hrun : ((World.initial opposedTables).acquireAll (engine fun m => m.length)
      (lockRequests fun m => m.length) (fun job : Option ℤ × Command => job.2.body job.1)
      opposedTransfers).any (fun w =>
        w.missing (engine fun m => m.length) (lockRequests fun m => m.length) 1 ==
          [(.wallet 1, .exclusive), (.wallet 2, .exclusive)] &&
        (w.threads 0).locks.contains (.wallet 1, .exclusive)) = true := by decide
  obtain ⟨w, hw, hcheck⟩ := (Option.any_eq_true _ _).mp hrun
  rw [Bool.and_eq_true, beq_iff_eq, List.contains_iff_mem] at hcheck
  exact ⟨w, ⟨by decide, _, _, hcheck.1, _, hcheck.2, rfl⟩,
    commands_deadlock_free (by simp [UniqueKey, opposedTables]) (World.acquired_of_acquireAll hw)⟩

end FocServices.Credit
