import FocServices.Credit.Traces

/-!
# Whether a release is final

The commands run as interleaved transactions. A release of an order without a
reservation leaves a tombstone so that a later reserve is refused. The tombstone check
and the reservation lookup are separate statements, and nothing locks the order, so a
reserve and a release can each miss the other. Release is final in the runs in which
this does not happen.
-/

namespace FocServices.Credit

open Txn

/-- Interleaved requests to the credit service. -/
abbrev CreditWorld :=
  World Request Stmt Stmt.Reply ServiceError (Result ⊕ (Wallet × Bool)) Tables Write Lock

/-- A running transaction of the credit service. -/
abbrev CreditSession :=
  Session Request Stmt Stmt.Reply ServiceError (Result ⊕ (Wallet × Bool)) Write Lock

/-- A transaction slot of the credit service. -/
abbrev CreditThread :=
  Thread Request Stmt Stmt.Reply ServiceError (Result ⊕ (Wallet × Bool)) Write Lock

/-! ## Invariants of interleaved runs -/

/-- Every order has at most one reservation. A running transaction that inserts one
holds the key of the order, and no reservation of it is committed. -/
structure Orderly (w : CreditWorld) : Prop where
  unique : w.store.reservedOrders.Nodup
  nodup : ∀ t s, w.threads t = .running s → (insertedOrders s.writes).Nodup
  key : ∀ t s, w.threads t = .running s → ∀ o ∈ insertedOrders s.writes,
    (Lock.orderKey o, Mode.exclusive) ∈ s.locks
  absent : ∀ t s, w.threads t = .running s → ∀ o ∈ insertedOrders s.writes,
    o ∉ w.store.reservedOrders

/-- Log entries of successful writes stand for writes. -/
structure Traced (w : CreditWorld) : Prop where
  settled : ∀ t s, w.threads t = .running s → ∀ id, s.log.any (settled id) = true →
    ∃ amount status, Write.setReservation id amount status ∈ s.writes
  tombstoned : ∀ t s, w.threads t = .running s → ∀ o, s.log.any (tombstoned o) = true →
    o ∈ w.store.releasedOrders ∨ Write.insertReleasedOrder o ∈ s.writes

/-- Stored results belong to committed requests. -/
def Recorded (w : CreditWorld) : Prop :=
  ∀ p ∈ w.store.processed, ∃ t request result log,
    w.threads t = .committed request result log ∧ request.messageID = some p.1

/-- No two requests carry the same message. -/
def DistinctMessages (w : CreditWorld) : Prop :=
  ∀ t u request request' m, (w.threads t).job = some request → (w.threads u).job = some request' →
    request.messageID = some m → request'.messageID = some m → t = u

section Invariants

variable {hash : String → ℤ} {w w' : CreditWorld} {a : Action Request}

/-- A thread other than the committing one, or a step that commits nothing. -/
theorem store_of_running (h : w.perform (engine hash) Request.body a = some w') {u : ℕ}
    {su : CreditSession} (hu : w'.threads u = .running su) :
    w'.store = w.store ∨
    ∃ t job b log writes locks, t ≠ u ∧
      w.threads t = .running ⟨job, .pure b, log, writes, locks⟩ ∧
      w'.store = (engine hash).applyAll writes w.store := by
  rcases World.store_cases h with hsame | ⟨t, job, b, log, writes, locks, ht, ht', hstore⟩
  · exact Or.inl hsame
  · refine Or.inr ⟨t, job, b, log, writes, locks, ?_, ht, hstore⟩
    rintro rfl
    rw [ht'] at hu
    cases hu

theorem Orderly.perform (hl : w.LocksConsistent) (ho : Orderly w)
    (h : w.perform (engine hash) Request.body a = some w') : Orderly w' := by
  have hkept : ∀ u su, w.threads u = .running su → w'.threads u = .running su →
      ∀ o ∈ insertedOrders su.writes, o ∉ w'.store.reservedOrders := by
    intro u su hu hu' o hmem
    rcases store_of_running h hu' with hsame | ⟨t, job, b, log, writes, locks, hne, ht, hstore⟩
    · rw [hsame]
      exact ho.absent u su hu o hmem
    · rw [hstore, reservedOrders_applyAll, List.mem_append]
      rintro (hold | hnew)
      · exact ho.absent u su hu o hmem hold
      · -- Both transactions would hold the key of the order.
        have hkey := ho.key t _ ht o hnew
        have hkey' := ho.key u su hu o hmem
        have hcompat := hl.compatible t u (.orderKey o) .exclusive .exclusive hne
          (by rw [ht]; exact hkey) (by rw [hu]; exact hkey')
        cases hcompat
  refine ⟨?_, ?_, ?_, ?_⟩
  · rcases World.store_cases h with hsame | ⟨t, job, b, log, writes, locks, ht, -, hstore⟩
    · rw [hsame]
      exact ho.unique
    · rw [hstore, reservedOrders_applyAll, List.nodup_append]
      refine ⟨ho.unique, ho.nodup t _ ht, ?_⟩
      rintro x hx _ hy rfl
      exact ho.absent t _ ht x hy hx
  · intro u su hu
    rcases World.running_cases h hu with hold | ⟨job, -, -, -, rfl⟩ |
      ⟨job, q, next, log, writes, locks, -, -, ht, -, rfl⟩
    · exact ho.nodup u su hold
    · exact List.nodup_nil
    · rw [insertedOrders_append, List.nodup_append]
      refine ⟨ho.nodup u _ ht, ?_, ?_⟩
      · rcases hnew : insertedOrders (w.answer (engine hash) u writes q).writes with _ | ⟨o, os⟩
        · exact List.nodup_nil
        · have hone := (exec_insertedOrders (o := o) (hnew ▸ List.mem_cons_self)).1
          rw [← hnew]
          exact hone ▸ List.nodup_singleton o
      · rintro o hold _ hnew rfl
        have habsent := (exec_insertedOrders hnew).2.2
        rw [reservedOrders_applyAll, List.mem_append] at habsent
        exact habsent (Or.inr hold)
  · intro u su hu o hmem
    rcases World.running_cases h hu with hold | ⟨job, -, -, -, rfl⟩ |
      ⟨job, q, next, log, writes, locks, -, -, ht, -, rfl⟩
    · exact ho.key u su hold o hmem
    · cases hmem
    · rw [insertedOrders_append, List.mem_append] at hmem
      rcases hmem with hmem | hmem
      · exact List.mem_append_left _ (ho.key u _ ht o hmem)
      · exact List.mem_append_right _ (exec_insertedOrders hmem).2.1
  · intro u su hu o hmem
    rcases World.running_cases h hu with hold | ⟨job, -, -, -, rfl⟩ |
      ⟨job, q, next, log, writes, locks, -, hsame, ht, -, rfl⟩
    · exact hkept u su hold hu o hmem
    · cases hmem
    · rw [hsame]
      rw [insertedOrders_append, List.mem_append] at hmem
      rcases hmem with hmem | hmem
      · exact ho.absent u _ ht o hmem
      · have habsent := (exec_insertedOrders hmem).2.2
        rw [reservedOrders_applyAll, List.mem_append] at habsent
        exact fun hold => habsent (Or.inl hold)

theorem any_append_singleton {p : Sigma Stmt.Reply → Bool} {log : Program.Log Stmt.Reply}
    {e : Sigma Stmt.Reply} (h : (log ++ [e]).any p = true) : log.any p = true ∨ p e = true := by
  simpa using h

theorem Traced.perform (ht : Traced w) (h : w.perform (engine hash) Request.body a = some w') :
    Traced w' := by
  refine ⟨?_, ?_⟩
  · intro u su hu id hany
    rcases World.running_cases h hu with hold | ⟨job, -, -, -, rfl⟩ |
      ⟨job, q, next, log, writes, locks, -, -, hrun, -, rfl⟩
    · exact ht.settled u su hold id hany
    · cases hany
    · rcases any_append_singleton hany with hany | hany
      · obtain ⟨amount, status, hmem⟩ := ht.settled u _ hrun id hany
        exact ⟨amount, status, List.mem_append_left _ hmem⟩
      · obtain ⟨amount, status, hmem⟩ := exec_settled hany
        exact ⟨amount, status, List.mem_append_right _ hmem⟩
  · intro u su hu o hany
    rcases World.running_cases h hu with hold | ⟨job, -, -, -, rfl⟩ |
      ⟨job, q, next, log, writes, locks, -, hsame, hrun, -, rfl⟩
    · rcases ht.tombstoned u su hold o hany with hmem | hmem
      · left
        rcases World.store_cases h with hsame | ⟨t, job, b, log, writes, locks, -, -, hstore⟩
        · rwa [hsame]
        · rw [hstore]
          exact mem_releasedOrders_applyAll.mpr (Or.inl hmem)
      · exact Or.inr hmem
    · cases hany
    · rw [hsame]
      rcases any_append_singleton hany with hany | hany
      · rcases ht.tombstoned u _ hrun o hany with hmem | hmem
        · exact Or.inl hmem
        · exact Or.inr (List.mem_append_left _ hmem)
      · rcases exec_tombstoned hany with hmem | hmem
        · rcases mem_releasedOrders_applyAll.mp hmem with hmem | hmem
          · exact Or.inl hmem
          · exact Or.inr (List.mem_append_left _ hmem)
        · exact Or.inr (List.mem_append_right _ hmem)

/-- What the discipline says about a write that is about to be committed. -/
theorem obeyed (hd : w.Disciplined mayIssue mayReturn) (hs : w.Sourced Stmt.mayWrite) {t : ℕ}
    {s : CreditSession} (ht : w.threads t = .running s) {x : Write} (hx : x ∈ s.writes) :
    ∃ e ∈ s.log, e.1.mayWrite x ∧ ∃ log, (∀ e ∈ log, e ∈ s.log) ∧ mayIssue s.job log e.1 := by
  obtain ⟨e, he, hmay⟩ := hs t s ht x hx
  exact ⟨e, he, hmay, (hd.running ht).2.of_mem he⟩

theorem Recorded.perform (hl : w.LocksConsistent) (hd : w.Disciplined mayIssue mayReturn)
    (hs : w.Sourced Stmt.mayWrite) (hr : Recorded w)
    (h : w.perform (engine hash) Request.body a = some w') : Recorded w' := by
  have hold : ∀ p ∈ w.store.processed, ∃ t request result log,
      w'.threads t = .committed request result log ∧ request.messageID = some p.1 := by
    intro p hp
    obtain ⟨t, request, result, log, ht, hm⟩ := hr p hp
    exact ⟨t, request, result, log, World.committed_perform hl h ht, hm⟩
  intro p hp
  rcases World.store_cases h with hsame | ⟨t, job, b, log, writes, locks, ht, ht', hstore⟩
  · rw [hsame] at hp
    exact hold p hp
  · rw [hstore] at hp
    rcases mem_processed_applyAll.mp hp with hp | hp
    · exact hold p hp
    · obtain ⟨⟨q, reply⟩, -, hmay, l, -, hpre⟩ := obeyed hd hs ht hp
      cases q with
      | insertProcessedCommand m result =>
        obtain rfl : p.1 = m := hmay
        exact ⟨t, job, b, log, ht', hpre⟩
      | _ => cases hmay

theorem DistinctMessages.of_perform (hl : w.LocksConsistent)
    (h : w.perform (engine hash) Request.body a = some w') (hd : DistinctMessages w') :
    DistinctMessages w :=
  fun t u request request' m ht hu =>
    hd t u request request' m (World.job_perform hl h ht) (World.job_perform hl h hu)

/-- A request never finds a stored result of its own message. -/
theorem not_replayed (hash : String → ℤ) (hdist : DistinctMessages w)
    (hd : w.Disciplined mayIssue mayReturn) (hs : w.Sourced Stmt.mayWrite) (hr : Recorded w) {u : ℕ} {job : Request} {q : Stmt}
    {next : q.Reply → Tx (Result ⊕ (Wallet × Bool))} {log : Program.Log Stmt.Reply}
    {writes : List Write} {locks : List (Lock × Mode)}
    (hu : w.threads u = .running ⟨job, .stmt q next, log, writes, locks⟩) :
    replayed ⟨q, (w.answer (engine hash) u writes q).reply⟩ = false := by
  rw [Bool.eq_false_iff]
  intro hreplay
  obtain ⟨m, result, rfl, hstored⟩ := exec_replayed hreplay
  obtain ⟨hm, hclean⟩ : job.messageID = some m ∧ ∀ e ∈ log, e.1.storesResult = false :=
    (hd.running hu).1.1
  rw [Tables.resultOf, Option.map_eq_some_iff] at hstored
  obtain ⟨p, hfind, rfl⟩ := hstored
  obtain ⟨hmem, rfl⟩ := mem_of_findRow hfind
  rcases mem_processed_applyAll.mp hmem with hp | hp
  · obtain ⟨t, request, result, log', ht, hm'⟩ := hr p hp
    obtain rfl := hdist t u request job p.1 (by rw [ht]; rfl) (by rw [hu]; rfl) hm' hm
    rw [ht] at hu
    cases hu
  · obtain ⟨⟨q, reply⟩, he, hmay, -⟩ := obeyed hd hs hu hp
    have := hclean _ he
    cases q with
    | insertProcessedCommand m result => cases this
    | _ => cases hmay

end Invariants

/-! ## The condition and the theorem -/

/-- A reserve of the order between its tombstone check and its end. -/
def inWindow (o : String) : CreditThread → Bool
  | .running s => s.job.reserves o && s.log.any (sawNoTombstone o)
  | _ => false

/-- A release of the order that found no reservation and has not ended. -/
def missed (o : String) : CreditThread → Bool
  | .running s => s.job.releases o && s.log.any (sawNoReservation o)
  | _ => false

/-- A reserve and a release of one order do not pass each other: when a release looks
up its reservation and there is none, no reserve of the order is between its tombstone
check and its end; and when a reserve makes its tombstone check, no release of the
order that found no reservation is still running. -/
def noOverlap (w : CreditWorld) : Action Request → Bool
  | .advance t =>
    match w.threads t with
    | .running ⟨job, .stmt (.getReservationByOrder o _) _, _, _, _⟩ =>
      !job.releases o || (w.store.reservationOf o).isSome ||
        (List.range w.count).all fun u => !inWindow o (w.threads u)
    | .running ⟨job, .stmt (.isOrderReleased o) _, _, _, _⟩ =>
      !job.reserves o || (List.range w.count).all fun u => !missed o (w.threads u)
    | _ => true
  | _ => true

/-- There is no reservation of the order and none is on its way. -/
def Clear (w : CreditWorld) (o : String) : Prop :=
  o ∉ w.store.reservedOrders ∧ ∀ u, inWindow o (w.threads u) = false

/-- The order has a reservation, which has ended. -/
def Tables.Ended (s : Tables) (o : String) : Prop := o ∈ s.reservedOrders ∧ s.NonActive o

/-- What running and committed releases know. -/
structure Safe (w : CreditWorld) : Prop where
  locks : w.LocksConsistent
  disciplined : w.Disciplined mayIssue mayReturn
  sourced : w.Sourced Stmt.mayWrite
  orderly : Orderly w
  traced : Traced w
  recorded : Recorded w
  notReplayed : ∀ t s, w.threads t = .running s → s.log.any replayed = false
  row : ∀ t s o id, w.threads t = .running s → s.job.releases o = true →
    s.log.any (sawReservation o id) = true → w.store.HasRow id o
  ended : ∀ t s o, w.threads t = .running s → s.job.releases o = true →
    s.log.any (sawEnded o) = true → w.store.Ended o
  missed : ∀ t s o, w.threads t = .running s → s.job.releases o = true →
    s.log.any (sawNoReservation o) = true → Clear w o
  final : ∀ t request result log o, w.threads t = .committed request (.inl result) log →
    request.releases o = true → result.type = .released →
    w.store.Ended o ∨ (o ∈ w.store.releasedOrders ∧ Clear w o)

theorem safe_initial : Safe (World.initial {}) where
  locks := World.locksConsistent_initial _
  disciplined := World.disciplined_initial _
  sourced := World.sourced_initial _
  orderly := ⟨List.nodup_nil, fun _ _ h => (nomatch h), fun _ _ h => (nomatch h),
    fun _ _ h => (nomatch h)⟩
  traced := ⟨fun _ _ h => (nomatch h), fun _ _ h => (nomatch h)⟩
  recorded := fun _ hp => absurd hp List.not_mem_nil
  notReplayed := fun _ _ h => nomatch h
  row := fun _ _ _ _ h => nomatch h
  ended := fun _ _ _ h => nomatch h
  missed := fun _ _ _ h => nomatch h
  final := fun _ _ _ _ _ h => nomatch h

section Finality

variable {hash : String → ℤ} {w w' : CreditWorld} {a : Action Request} {o : String}

/-- No transaction activates a reservation. -/
theorem Safe.set_ne_active (hw : Safe w) {t : ℕ} {s : CreditSession}
    (ht : w.threads t = .running s) {id : ℕ} {amount : ℤ} {status : ReservationStatus}
    (hx : Write.setReservation id amount status ∈ s.writes) : status ≠ .active := by
  obtain ⟨⟨q, reply⟩, -, hmay, l, -, hpre⟩ := obeyed hw.disciplined hw.sourced ht hx
  cases q with
  | updateReservation id' amount' status' =>
    obtain ⟨-, rfl⟩ : id = id' ∧ status = status' := hmay
    exact hpre.1
  | _ => cases hmay

/-- Who inserts a reservation is a reserve that saw no tombstone. -/
theorem Safe.inWindow_of_inserted (hw : Safe w) {t : ℕ} {s : CreditSession}
    (ht : w.threads t = .running s) (ho : o ∈ insertedOrders s.writes) :
    inWindow o (w.threads t) = true := by
  obtain ⟨r, hr, rfl⟩ := mem_insertedOrders.mp ho
  obtain ⟨⟨q, reply⟩, -, hmay, l, hl, hpre⟩ := obeyed hw.disciplined hw.sourced ht hr
  cases q with
  | createReservation walletID o' amount =>
    obtain rfl : r.orderID = o' := hmay
    rw [ht, inWindow, Bool.and_eq_true]
    refine ⟨hpre.1, ?_⟩
    obtain ⟨e, he, hsaw⟩ := List.any_eq_true.mp hpre.2
    exact List.any_eq_true.mpr ⟨e, hl e he, hsaw⟩
  | _ => cases hmay

/-- An ended reservation stays ended. -/
theorem Safe.ended_perform (hw : Safe w) (h : w.perform (engine hash) Request.body a = some w')
    (he : w.store.Ended o) : w'.store.Ended o := by
  rcases World.store_cases h with hsame | ⟨t, job, b, log, writes, locks, ht, -, hstore⟩
  · rwa [hsame]
  · rw [hstore]
    refine ⟨?_, nonActive_applyAll he.2 (fun _ _ _ hx => hw.set_ne_active ht hx) ?_⟩
    · rw [reservedOrders_applyAll]
      exact List.mem_append_left _ he.1
    · exact fun hnew => hw.orderly.absent t _ ht o hnew he.1

/-- An order stays clear if no reserve of it enters its window. -/
theorem Safe.clear_perform (hw : Safe w) (h : w.perform (engine hash) Request.body a = some w')
    (hc : Clear w o)
    (henter : ∀ u su, w'.threads u = .running su → inWindow o (w.threads u) = false →
      inWindow o (.running su) = false) : Clear w' o := by
  refine ⟨?_, fun u => ?_⟩
  · rcases World.store_cases h with hsame | ⟨t, job, b, log, writes, locks, ht, -, hstore⟩
    · rw [hsame]
      exact hc.1
    · rw [hstore, reservedOrders_applyAll, List.mem_append]
      rintro (hold | hnew)
      · exact hc.1 hold
      · have := hw.inWindow_of_inserted ht hnew
        rw [hc.2 t] at this
        cases this
  · cases hu : w'.threads u with
    | running su => exact henter u su hu (hc.2 u)
    | idle => rfl
    | committed => rfl
    | aborted => rfl

/-- How a reserve enters its window. -/
theorem enters_window (h : w.perform (engine hash) Request.body a = some w') {u : ℕ}
    {su : CreditSession} (hu : w'.threads u = .running su)
    (hold : inWindow o (w.threads u) = false) (hnew : inWindow o (.running su) = true) :
    ∃ job next log writes locks, a = .advance u ∧
      w.threads u = .running ⟨job, .stmt (.isOrderReleased o) next, log, writes, locks⟩ ∧
      job.reserves o = true ∧ o ∉ w.store.releasedOrders := by
  rcases World.running_cases h hu with hsame | ⟨job, -, -, -, rfl⟩ |
    ⟨job, q, next, log, writes, locks, rfl, -, hrun, -, rfl⟩
  · rw [hsame] at hold
    rw [hold] at hnew
    cases hnew
  · simp [inWindow] at hnew
  · rw [hrun] at hold
    simp only [inWindow, Bool.and_eq_true, Bool.and_eq_false_iff] at hold hnew
    rcases any_append_singleton hnew.2 with hany | hany
    · rcases hold with hold | hold
      · rw [hold] at hnew
        cases hnew.1
      · rw [hold] at hany
        cases hany
    · obtain ⟨rfl, hno⟩ := exec_sawNoTombstone hany
      refine ⟨job, next, log, writes, locks, rfl, hrun, hnew.1, ?_⟩
      exact fun hmem => hno (mem_releasedOrders_applyAll.mpr (Or.inl hmem))

/-- A release sees the committed reservations: it looks them up before it changes any. -/
theorem Safe.view_reservations (hw : Safe w) (hash : String → ℤ) {u : ℕ} {job : Request} {q : Stmt}
    {next : q.Reply → Tx (Result ⊕ (Wallet × Bool))} {log : Program.Log Stmt.Reply}
    {writes : List Write} {locks : List (Lock × Mode)}
    (hu : w.threads u = .running ⟨job, .stmt q next, log, writes, locks⟩)
    (hjob : job.releases o = true) (hq : ∃ forUpdate, q = .getReservationByOrder o forUpdate) :
    ((engine hash).applyAll writes w.store).reservations = w.store.reservations := by
  obtain ⟨forUpdate, rfl⟩ := hq
  have hclean := (((hw.disciplined.running hu).1.1) o hjob).2
  refine (engine hash).applyAll_induction
    (P := fun s => s.reservations = w.store.reservations) ?_ rfl
  intro x hx s hs
  obtain ⟨e, he, hmay⟩ := hw.sourced u _ hu x hx
  have hsilent := hclean e he
  obtain ⟨q, reply⟩ := e
  cases x with
  | insertReservation | setReservation | adjustReservation =>
    cases q <;>
      first | exact False.elim hmay | exact absurd hsilent (by simp [Stmt.changesReservations])
  | insertProcessed | insertReleasedOrder | insertWallet | addDeltas | insertEntry | insertOutbox
  | resetOutbox => exact hs

theorem not_reserves_of_releases {request : Request} {o o' : String}
    (h : request.releases o = true) : request.reserves o' = false := by
  cases request with
  | createWallet => rfl
  | order recorder cmd =>
    cases cmd with
    | reserve => cases h
    | adjust | release | transfer => rfl

theorem Safe.lt_count (hw : Safe w) {u : ℕ} {s : CreditSession} (hu : w.threads u = .running s) :
    u < w.count := hw.locks.lt_count hu

/-- What the condition says when a release finds no reservation. -/
theorem clear_of_noOverlap {u : ℕ} {job : Request} {forUpdate : Bool}
    {next : Except RepoError Reservation → Tx (Result ⊕ (Wallet × Bool))}
    {log : Program.Log Stmt.Reply} {writes : List Write} {locks : List (Lock × Mode)}
    (hw : Safe w) (hallowed : noOverlap w (.advance u) = true)
    (hu : w.threads u = .running
      ⟨job, .stmt (.getReservationByOrder o forUpdate) next, log, writes, locks⟩)
    (hjob : job.releases o = true) (hnone : o ∉ w.store.reservedOrders) : Clear w o := by
  refine ⟨hnone, fun v => ?_⟩
  rw [mem_reservedOrders] at hnone
  simp only [noOverlap, hu, hjob, Bool.not_true, Bool.false_or, hnone, List.all_eq_true,
    List.mem_range, Bool.not_eq_true'] at hallowed
  by_cases hv : v < w.count
  · exact hallowed v hv
  · rw [hw.locks.idle v (by omega)]
    rfl

/-- What the condition says when a reserve checks for the tombstone. -/
theorem not_missed_of_noOverlap {u v : ℕ} {job : Request}
    {next : Except RepoError Bool → Tx (Result ⊕ (Wallet × Bool))}
    {log : Program.Log Stmt.Reply} {writes : List Write} {locks : List (Lock × Mode)}
    {sv : CreditSession} (hw : Safe w) (hallowed : noOverlap w (.advance u) = true)
    (hu : w.threads u = .running ⟨job, .stmt (.isOrderReleased o) next, log, writes, locks⟩)
    (hjob : job.reserves o = true) (hv : w.threads v = .running sv)
    (hreleases : sv.job.releases o = true) : sv.log.any (sawNoReservation o) = false := by
  simp only [noOverlap, hu, hjob, Bool.not_true, Bool.false_or, List.all_eq_true, List.mem_range,
    Bool.not_eq_true'] at hallowed
  have h := hallowed v (hw.lt_count hv)
  rw [hv] at h
  simpa [missed, hreleases] using h

/-- A release that found no reservation keeps the order clear. -/
theorem Safe.missed_perform (hw : Safe w) (hallowed : noOverlap w a = true)
    (h : w.perform (engine hash) Request.body a = some w') {t : ℕ} {s : CreditSession}
    (ht : w.threads t = .running s) (hjob : s.job.releases o = true)
    (hsaw : s.log.any (sawNoReservation o) = true) : Clear w' o := by
  refine hw.clear_perform h (hw.missed t s o ht hjob hsaw) ?_
  intro u su hu hold
  rw [Bool.eq_false_iff]
  intro hnew
  obtain ⟨job, next, log, writes, locks, rfl, hrun, hreserves, -⟩ := enters_window h hu hold hnew
  have hno := not_missed_of_noOverlap hw hallowed hrun hreserves ht hjob
  rw [hno] at hsaw
  cases hsaw

/-- What a release learns from a lookup. -/
theorem Safe.lookup (hw : Safe w) (hallowed : noOverlap w a = true)
    (h : w.perform (engine hash) Request.body a = some w') {u : ℕ} {su : CreditSession}
    (hu : w'.threads u = .running su) (hjob : su.job.releases o = true) :
    (∀ id, su.log.any (sawReservation o id) = true → w'.store.HasRow id o) ∧
    (su.log.any (sawEnded o) = true → w'.store.Ended o) ∧
    (su.log.any (sawNoReservation o) = true → Clear w' o) := by
  have hrow : ∀ {id}, w.store.HasRow id o → w'.store.HasRow id o := by
    intro id hid
    rcases World.store_cases h with hsame | ⟨t, job, b, log, writes, locks, -, -, hstore⟩
    · rwa [hsame]
    · rw [hstore]
      exact hasRow_applyAll hid
  rcases World.running_cases h hu with hold | ⟨job, -, -, -, rfl⟩ |
    ⟨job, q, next, log, writes, locks, rfl, hsame, hrun, -, rfl⟩
  · exact ⟨fun id hany => hrow (hw.row u su o id hold hjob hany),
      fun hany => hw.ended_perform h (hw.ended u su o hold hjob hany),
      fun hany => hw.missed_perform hallowed h hold hjob hany⟩
  · exact ⟨fun id hany => (nomatch hany), fun hany => (nomatch hany), fun hany => (nomatch hany)⟩
  · have hview := hw.view_reservations hash hrun hjob
    refine ⟨fun id hany => ?_, fun hany => ?_, fun hany => ?_⟩
    · rcases any_append_singleton hany with hany | hany
      · exact hrow (hw.row u _ o id hrun hjob hany)
      · obtain ⟨hq, r, hr, hid⟩ := exec_sawReservation hany
        rw [hview hq] at hr
        exact hrow ⟨r, hr, hid⟩
    · rcases any_append_singleton hany with hany | hany
      · exact hw.ended_perform h (hw.ended u _ o hrun hjob hany)
      · obtain ⟨hq, r, hr, ho, hstatus⟩ := exec_sawEnded hany
        rw [hview hq] at hr
        rw [hsame]
        refine ⟨List.mem_map.mpr ⟨r, hr, ho⟩, ?_⟩
        -- The order has one reservation.
        intro r' hr' ho'
        have hunique : UniqueKey Reservation.orderID w.store.reservations := hw.orderly.unique
        rw [hunique.eq hr' hr (ho'.trans ho.symm)]
        exact hstatus
    · rcases any_append_singleton hany with hany | hany
      · exact hw.missed_perform hallowed h hrun hjob hany
      · obtain ⟨hq, hno⟩ := exec_sawNoReservation hany
        have hnone : o ∉ w.store.reservedOrders := by
          rw [Tables.reservedOrders, ← hview hq]
          exact hno
        obtain ⟨forUpdate, rfl⟩ := hq
        refine hw.clear_perform h (clear_of_noOverlap hw hallowed hrun hjob hnone) ?_
        intro v sv hv hold
        rw [Bool.eq_false_iff]
        intro hnew
        obtain ⟨_, _, _, _, _, hadvance, hrun', -⟩ := enters_window h hv hold hnew
        cases hadvance
        rw [hrun] at hrun'
        cases hrun'

/-- What a release leaves behind when it commits with `credit.released`. -/
theorem Safe.commit_final (hw : Safe w) (h : w.perform (engine hash) Request.body a = some w')
    {u : ℕ} {request : Request} {result : Result} {log : Program.Log Stmt.Reply}
    {writes : List Write} {locks : List (Lock × Mode)} (ha : a = .commit u)
    (hu : w.threads u = .running ⟨request, .pure (.inl result), log, writes, locks⟩)
    (hstore : w'.store = (engine hash).applyAll writes w.store)
    (hjob : request.releases o = true) (hresult : result.type = .released) :
    w'.store.Ended o ∨ (o ∈ w'.store.releasedOrders ∧ Clear w' o) := by
  obtain ⟨hpost, hobeys⟩ := hw.disciplined.running hu
  have hpost : log.any replayed = true ∨ Accounted o log := hpost o hjob hresult
  have hnot : log.any replayed = false := hw.notReplayed u _ hu
  have hnew : insertedOrders writes = [] := by
    rw [List.eq_nil_iff_forall_not_mem]
    intro o' ho'
    have hwindow := hw.inWindow_of_inserted hu ho'
    rw [hu, inWindow, Bool.and_eq_true] at hwindow
    have hno : request.reserves o' = false := not_reserves_of_releases hjob
    rw [hno] at hwindow
    cases hwindow.1
  rcases hpost with hreplay | htomb | hended | ⟨id, hrow, hsettled⟩
  · rw [hnot] at hreplay
    cases hreplay
  · right
    refine ⟨?_, ?_⟩
    · rw [hstore]
      exact mem_releasedOrders_applyAll.mpr (hw.traced.tombstoned u _ hu o htomb)
    · obtain ⟨⟨q, reply⟩, he, hsaw⟩ := List.any_eq_true.mp htomb
      obtain ⟨l, hl, hpre⟩ := hobeys.of_mem he
      have hmiss : log.any (sawNoReservation o) = true := by
        cases q with
        | insertReleasedOrder o' =>
          obtain ⟨e', he', hsaw'⟩ := List.any_eq_true.mp hpre.2
          have ho' : o' = o := by
            cases reply with
            | ok _ => simpa [tombstoned] using hsaw
            | error _ => cases hsaw
          exact List.any_eq_true.mpr ⟨e', hl e' he', ho' ▸ hsaw'⟩
        | _ => cases hsaw
      refine hw.clear_perform h (hw.missed u _ o hu hjob hmiss) ?_
      intro v sv hv hold
      rw [Bool.eq_false_iff]
      intro henter
      obtain ⟨_, _, _, _, _, hadvance, -⟩ := enters_window h hv hold henter
      rw [ha] at hadvance
      cases hadvance
  · exact Or.inl (hw.ended_perform h (hw.ended u _ o hu hjob hended))
  · left
    have hHasRow := hw.row u _ o id hu hjob hrow
    obtain ⟨amount, status, hset⟩ := hw.traced.settled u _ hu id hsettled
    rw [hstore]
    refine ⟨?_, nonActive_of_set hw.orderly.unique hHasRow hset
      (fun _ _ _ hx => hw.set_ne_active hu hx) hnew⟩
    have hkept : ((engine hash).applyAll writes w.store).HasRow id o := hasRow_applyAll hHasRow
    obtain ⟨r, hr, -, ho⟩ := hkept
    exact List.mem_map.mpr ⟨r, hr, ho⟩

/-- Every allowed step keeps what releases know. -/
theorem Safe.perform (hw : Safe w) (hdist : DistinctMessages w') (hallowed : noOverlap w a = true)
    (h : w.perform (engine hash) Request.body a = some w') : Safe w' where
  locks := hw.locks.perform h
  disciplined := hw.disciplined.perform Request.body_conforms h
  sourced := hw.sourced.perform (fun n _ q s => exec_mayWrite hash n q s) h
  orderly := hw.orderly.perform hw.locks h
  traced := hw.traced.perform h
  recorded := hw.recorded.perform hw.locks hw.disciplined hw.sourced h
  notReplayed := by
    intro u su hu
    rcases World.running_cases h hu with hold | ⟨job, -, -, -, rfl⟩ |
      ⟨job, q, next, log, writes, locks, rfl, hsame, hrun, -, rfl⟩
    · exact hw.notReplayed u su hold
    · rfl
    · rw [List.any_append, hw.notReplayed u _ hrun, Bool.false_or]
      simpa using not_replayed hash (hdist.of_perform hw.locks h) hw.disciplined hw.sourced
        hw.recorded hrun
  row := fun u su o id hu hjob => (hw.lookup hallowed h hu hjob).1 id
  ended := fun u su o hu hjob => (hw.lookup hallowed h hu hjob).2.1
  missed := fun u su o hu hjob => (hw.lookup hallowed h hu hjob).2.2
  final := by
    intro u request result log o hu hjob hresult
    rcases World.committed_cases h hu with hold | ⟨writes, locks, ha, hrun, hstore⟩
    · rcases hw.final u request result log o hold hjob hresult with hended | ⟨htomb, hclear⟩
      · exact Or.inl (hw.ended_perform h hended)
      · have htomb' : o ∈ w'.store.releasedOrders := by
          rcases World.store_cases h with hsame | ⟨t, job, b, log, writes, locks, -, -, hstore⟩
          · rwa [hsame]
          · rw [hstore]
            exact mem_releasedOrders_applyAll.mpr (Or.inl htomb)
        refine Or.inr ⟨htomb', hw.clear_perform h hclear ?_⟩
        intro v sv hv hold
        rw [Bool.eq_false_iff]
        intro henter
        obtain ⟨_, _, _, _, _, -, -, -, hno⟩ := enters_window h hv hold henter
        exact hno htomb
    · exact hw.commit_final h ha hrun hstore hjob hresult

end Finality

/-! ### Schedules -/

/-- The message of a thread's request. -/
def messageOf (th : CreditThread) : Option String := th.job.bind Request.messageID

/-- `DistinctMessages` as a computation. -/
def messagesDistinct (w : CreditWorld) : Bool :=
  (List.range w.count).all fun t => (List.range w.count).all fun u =>
    t = u || (messageOf (w.threads t)).isNone || messageOf (w.threads t) ≠ messageOf (w.threads u)

theorem distinctMessages_of_check {w : CreditWorld} (hl : w.LocksConsistent)
    (h : messagesDistinct w = true) : DistinctMessages w := by
  have hlt : ∀ {t request}, (w.threads t).job = some request → t < w.count := by
    intro t request ht
    by_contra hge
    rw [hl.idle t (by omega)] at ht
    cases ht
  intro t u request request' m ht hu hm hm'
  simp only [messagesDistinct, List.all_eq_true, List.mem_range] at h
  have hpair := h t (hlt ht) u (hlt hu)
  simpa [messageOf, ht, hu, hm, hm'] using hpair

/-- A committed release of the order answered `credit.released`. -/
def releasedIn (w : CreditWorld) (o : String) : Bool :=
  (List.range w.count).any fun t =>
    match w.threads t with
    | .committed request (.inl result) _ => request.releases o && result.type = .released
    | _ => false

theorem exists_of_releasedIn {w : CreditWorld} {o : String} (h : releasedIn w o = true) :
    ∃ t request result log, w.threads t = .committed request (.inl result) log ∧
      request.releases o = true ∧ result.type = .released := by
  obtain ⟨t, -, ht⟩ := List.any_eq_true.mp h
  split at ht
  · next request result log heq =>
    simp only [Bool.and_eq_true, decide_eq_true_eq] at ht
    exact ⟨t, request, result, log, heq, ht.1, ht.2⟩
  · cases ht

def sampleOrder : String := "0d9a1f7e-52c3-4b8e-9f61-7a2c4e8b1d30"

def openSampleWallet : Request :=
  .createWallet 100 "6f1c2b3a-9d4e-4c5f-8a7b-1e2d3c4b5a69" "auth0|requester"

def reserveSample : Request :=
  .order (some 0) (.reserve "m1" ⟨sampleOrder, 1, "auth0|requester", 10⟩)

def releaseSample : Request :=
  .order (some 0) (.release "release" ⟨sampleOrder, 1, "auth0|requester"⟩)

/-- Statements of one thread without a break. -/
def steps (n t : ℕ) : List (Action Request) := List.replicate n (.advance t)

/-- The reserve checks for the tombstone and looks for a reservation, then the whole
release runs, then the reserve goes on. -/
def passing : List (Action Request) :=
  .start openSampleWallet :: steps 4 0 ++ .commit 0 :: .start reserveSample :: steps 4 1 ++
    .start releaseSample :: steps 6 2 ++ .commit 2 :: steps 6 1 ++ [.commit 1]

/-- The reserve ends before the release starts. -/
def oneByOne : List (Action Request) :=
  .start openSampleWallet :: steps 4 0 ++ .commit 0 :: .start reserveSample :: steps 10 1 ++
    .commit 1 :: .start releaseSample :: steps 10 2 ++ [.commit 2]

/-- The world after a schedule, with a hash that tells the sample messages apart. -/
def after (allowed : CreditWorld → Action Request → Bool) (schedule : List (Action Request)) :
    Option CreditWorld :=
  (World.initial {}).performAll (engine fun m => m.length) Request.body allowed schedule

/-- A world a schedule reaches, from a computation on it. -/
theorem exists_after (allowed : CreditWorld → Action Request → Bool)
    (schedule : List (Action Request)) (p : CreditWorld → Bool)
    (h : (after allowed schedule).any (fun w => messagesDistinct w && p w) = true) :
    ∃ w, World.Reachable (engine fun m => m.length) Request.body (fun w a => allowed w a = true) {}
      w ∧ DistinctMessages w ∧ p w = true := by
  obtain ⟨w, hrun, hp⟩ := (Option.any_eq_true _ _).mp h
  rw [Bool.and_eq_true] at hp
  have hreach := World.reachable_of_performAll hrun
  have hlocks : w.LocksConsistent :=
    hreach.induction (World.locksConsistent_initial _) fun _ _ _ hl _ hstep => hl.perform hstep
  exact ⟨w, hreach, distinctMessages_of_check hlocks hp.1, hp.2⟩

/-- In every run in which no reserve and release of one order pass each other, release
is final: once a release of an order has committed with `credit.released`, no state
contains an active reservation of the order. -/
theorem release_final (hash : String → ℤ) (w : CreditWorld)
    (hreach : World.Reachable (engine hash) Request.body (fun w a => noOverlap w a = true) {} w)
    (hdist : DistinctMessages w) :
    ∀ t request result log o, w.threads t = .committed request (.inl result) log →
      request.releases o = true → result.type = .released →
      ∀ r ∈ w.store.reservations, r.orderID = o → r.status ≠ .active := by
  have hsafe : w.LocksConsistent ∧ (DistinctMessages w → Safe w) := by
    refine hreach.induction (P := fun w => w.LocksConsistent ∧ (DistinctMessages w → Safe w))
      ⟨World.locksConsistent_initial _, fun _ => safe_initial⟩ ?_
    rintro v a v' ⟨hl, hv⟩ hallowed hstep
    refine ⟨hl.perform hstep, fun hdist' => ?_⟩
    exact (hv (hdist'.of_perform hl hstep)).perform hdist' hallowed hstep
  intro t request result log o ht hjob hresult r hr ho
  rcases (hsafe.2 hdist).final t request result log o ht hjob hresult with hended | ⟨-, hclear⟩
  · exact hended.2 r hr ho
  · exact absurd (List.mem_map.mpr ⟨r, hr, ho⟩) hclear.1

/-- Release is not final in every run: a reserve that made its tombstone check before
a release found no reservation still creates one after the release has committed. -/
theorem release_not_final :
    ∃ w : CreditWorld,
      World.Reachable (engine fun m => m.length) Request.body (fun _ _ => True) {} w ∧
      DistinctMessages w ∧
      (∃ t request result log, w.threads t = .committed request (.inl result) log ∧
        request.releases sampleOrder = true ∧ result.type = .released) ∧
      ∃ r ∈ w.store.reservations, r.orderID = sampleOrder ∧ r.status = .active := by
  obtain ⟨w, hreach, hdist, hw⟩ := exists_after (fun _ _ => true) passing
    (fun w => releasedIn w sampleOrder &&
      w.store.reservations.any fun r => r.orderID = sampleOrder ∧ r.status = .active)
    (by decide)
  rw [Bool.and_eq_true] at hw
  obtain ⟨r, hr, hactive⟩ := List.any_eq_true.mp hw.2
  exact ⟨w, hreach.mono fun _ _ _ => trivial, hdist, exists_of_releasedIn hw.1, r, hr,
    of_decide_eq_true hactive⟩

/-- A reserve and then a release of the same order. -/
theorem release_final_one_by_one :
    ∃ w : CreditWorld,
      (∃ t request result log, w.threads t = .committed request (.inl result) log ∧
        request.releases sampleOrder = true ∧ result.type = .released) ∧
      ∀ r ∈ w.store.reservations, r.orderID = sampleOrder → r.status ≠ .active := by
  obtain ⟨w, hreach, hdist, hw⟩ := exists_after noOverlap oneByOne
    (fun w => releasedIn w sampleOrder) (by decide)
  obtain ⟨t, request, result, log, ht, hjob, hresult⟩ := exists_of_releasedIn hw
  exact ⟨w, ⟨t, request, result, log, ht, hjob, hresult⟩,
    release_final _ w hreach hdist t request result log sampleOrder ht hjob hresult⟩

end FocServices.Credit
