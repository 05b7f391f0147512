import FocServices.Credit.Runs
import FocServices.Txn.Interleave

/-!
# In which order the commands issue their statements

What a transaction has seen so far is read off its log. The programs of the commands
obey a discipline: a reservation is inserted only after the tombstone check found
nothing, a tombstone only after the reservation lookup found nothing, and a release
answers `credit.released` only for one of four reasons that its log shows.
-/

namespace FocServices.Credit

open Txn

/-- The transaction body of a request. -/
def Request.body : Request → Tx (Result ⊕ (Wallet × Bool))
  | .createWallet initialCredit ownerID auth0Subject => do
    return .inr (← Credit.createWallet initialCredit ownerID auth0Subject)
  | .order recorder cmd => do return .inl (← cmd.body recorder)

def Request.messageID : Request → Option String
  | .createWallet _ _ _ => none
  | .order _ cmd => some cmd.messageID

/-- Whether a request is a reserve of the order. -/
def Request.reserves (request : Request) (o : String) : Bool :=
  match request with
  | .order _ (.reserve m c) =>
    match (Command.reserve m c).validate with
    | .ok o' => o' = o
    | .error _ => false
  | _ => false

/-- Whether a request is a release of the order. -/
def Request.releases (request : Request) (o : String) : Bool :=
  match request with
  | .order _ (.release m c) =>
    match (Command.release m c).validate with
    | .ok o' => o' = o
    | .error _ => false
  | _ => false

/-! ## What a log shows -/

/-- The tombstone check of the order found nothing. -/
def sawNoTombstone (o : String) : Sigma Stmt.Reply → Bool
  | ⟨.isOrderReleased o', .ok false⟩ => o' = o
  | _ => false

/-- A lookup found no reservation of the order. -/
def sawNoReservation (o : String) : Sigma Stmt.Reply → Bool
  | ⟨.getReservationByOrder o' _, .error .notFound⟩ => o' = o
  | _ => false

/-- A lookup found the reservation `id` of the order. -/
def sawReservation (o : String) (id : ℕ) : Sigma Stmt.Reply → Bool
  | ⟨.getReservationByOrder o' _, .ok r⟩ => o' = o ∧ r.id = id
  | _ => false

/-- A lookup found that the reservation of the order has ended. -/
def sawEnded (o : String) : Sigma Stmt.Reply → Bool
  | ⟨.getReservationByOrder o' _, .ok r⟩ => o' = o ∧ r.status ≠ .active
  | _ => false

/-- The reservation `id` was ended. -/
def settled (id : ℕ) : Sigma Stmt.Reply → Bool
  | ⟨.updateReservation id' _ _, .ok _⟩ => id' = id
  | _ => false

/-- The tombstone of the order was inserted. -/
def tombstoned (o : String) : Sigma Stmt.Reply → Bool
  | ⟨.insertReleasedOrder o', .ok _⟩ => o' = o
  | _ => false

/-- A stored result was found. -/
def replayed : Sigma Stmt.Reply → Bool
  | ⟨.getProcessedCommand _, .ok _⟩ => true
  | _ => false

/-- A statement that changes reservations. -/
def Stmt.changesReservations : Stmt → Bool
  | .createReservation _ _ _ | .updateReservation _ _ _ | .adjustReservation _ _ _ => true
  | _ => false

/-- A statement that stores a result. -/
def Stmt.storesResult : Stmt → Bool
  | .insertProcessedCommand _ _ => true
  | _ => false

/-! ## The discipline -/

/-- When a request may issue a statement. -/
def mayIssue (request : Request) (log : Program.Log Stmt.Reply) : Stmt → Prop
  | .createReservation _ o _ => request.reserves o = true ∧ log.any (sawNoTombstone o) = true
  | .insertReleasedOrder o => request.releases o = true ∧ log.any (sawNoReservation o) = true
  | .updateReservation id _ status => status ≠ .active ∧
      ∀ o, request.releases o = true → log.any (sawReservation o id) = true
  | .getReservationByOrder o' _ => ∀ o, request.releases o = true →
      o' = o ∧ ∀ e ∈ log, e.1.changesReservations = false
  | .getProcessedCommand m => request.messageID = some m ∧ ∀ e ∈ log, e.1.storesResult = false
  | .insertProcessedCommand m _ => request.messageID = some m
  | .lockCommand _ | .isOrderReleased _ | .insertWalletIfAbsent _ _ | .getWalletByOwner _
  | .lockWalletsByAuth0Subject _ | .applyDeltas _ _ _ | .adjustReservation _ _ _
  | .insertLedgerEntry _ | .enqueue _ _ _ _ => True

/-- Why a release may answer `credit.released`: it left a tombstone, or found the
reservation ended, or ended it. -/
def Accounted (o : String) (log : Program.Log Stmt.Reply) : Prop :=
  log.any (tombstoned o) = true ∨ log.any (sawEnded o) = true ∨
    ∃ id, log.any (sawReservation o id) = true ∧ log.any (settled id) = true

/-- What the log of a released result shows. -/
def mayReturn (request : Request) (log : Program.Log Stmt.Reply) : Result ⊕ (Wallet × Bool) → Prop
  | .inl result => ∀ o, request.releases o = true → result.type = .released →
      log.any replayed = true ∨ Accounted o log
  | .inr _ => True

/-- The postcondition of an operation, before its result is stored. -/
def mayConclude (request : Request) (log : Program.Log Stmt.Reply) (result : Result) : Prop :=
  ∀ o, request.releases o = true → result.type = .released → Accounted o log

section Conforms

variable {request : Request} {log : Program.Log Stmt.Reply} {o : String}

/-- For a request that is not a release nothing is asked of the result. -/
theorem mayConclude_of_not_releases (hnot : ∀ o, request.releases o = false) (result : Result) :
    mayConclude request log result := by
  intro o' ho'
  rw [hnot] at ho'
  cases ho'

theorem reserveOp_conforms {c : ReserveCommand} (h : request.reserves o = true)
    (hnot : ∀ o, request.releases o = false) :
    (reserveOp o c).Conforms (mayIssue request) (mayConclude request) log := by
  simp only [reserveOp, query, Program.call_bind, Program.conforms_stmt]
  refine ⟨trivial, ?_⟩
  rintro (e | _ | _)
  · trivial
  · simp only [orFail_ok, Program.pure_bind, Bool.false_eq_true, if_false, Program.conforms_stmt]
    refine ⟨fun o' ho' => by simp [hnot] at ho', ?_⟩
    rintro (e | r)
    · cases e with
      | notFound =>
        refine ⟨trivial, ?_⟩
        rintro (e | wallets)
        · cases e <;> first | trivial | exact mayConclude_of_not_releases hnot _
        · dsimp only
          split
          · exact mayConclude_of_not_releases hnot _
          · refine ⟨trivial, fun _ => conforms_orFail fun _ _ => ?_⟩
            refine ⟨trivial, fun _ => conforms_orFail fun _ _ => ?_⟩
            refine ⟨⟨h, by simp [sawNoTombstone]⟩, fun _ => conforms_orFail fun _ _ => ?_⟩
            exact mayConclude_of_not_releases hnot _
      | _ => trivial
    · exact mayConclude_of_not_releases hnot _
  · exact mayConclude_of_not_releases hnot _

/-- `lockReservation` of a release looks the reservation of its order up before it
changes any. -/
theorem lockReservation_conforms {subject : String} {β : Type}
    {after : Program.Log Stmt.Reply → β → Prop}
    {next : Except RepoError (Reservation × Wallet) → Tx β}
    (horder : ∀ o', request.releases o' = true → o = o')
    (hclean : ∀ e ∈ log, e.1.changesReservations = false)
    (hmissing : ∀ log', log'.any (sawNoReservation o) = true →
      (next (.error .notFound)).Conforms (mayIssue request) after log')
    (herr : ∀ log' e, e ≠ .notFound → (next (.error e)).Conforms (mayIssue request) after log')
    (hfound : ∀ log' r w, log'.any (sawReservation o r.id) = true →
      (r.status ≠ .active → log'.any (sawEnded o) = true) →
      (next (.ok (r, w))).Conforms (mayIssue request) after log') :
    (lockReservation o subject >>= next).Conforms (mayIssue request) after log := by
  have hcase : ∀ log' e, (e = .notFound → log'.any (sawNoReservation o) = true) →
      (next (.error e)).Conforms (mayIssue request) after log' := by
    intro log' e he
    by_cases hnf : e = .notFound
    · subst hnf
      exact hmissing log' (he rfl)
    · exact herr log' e hnf
  simp only [lockReservation, query, Program.call_bind, Program.stmt_bind, Program.conforms_stmt]
  refine ⟨fun o' ho' => ⟨horder o' ho', hclean⟩, ?_⟩
  rintro (e | r)
  · refine hcase _ e ?_
    rintro rfl
    simp [sawNoReservation]
  refine ⟨trivial, ?_⟩
  rintro (e | wallets)
  · cases e <;> first | trivial | exact hcase _ _ (by simp)
  refine ⟨fun o' ho' => ⟨horder o' ho', ?_⟩, ?_⟩
  · intro e he
    simp only [List.mem_append, List.mem_singleton] at he
    rcases he with (he | rfl) | rfl
    · exact hclean e he
    · rfl
    · rfl
  rintro (e | r')
  · refine hcase _ e ?_
    rintro rfl
    simp [sawNoReservation]
  dsimp only
  split
  · trivial
  · refine hfound _ _ _ ?_ fun hended => ?_
    · simp [sawReservation]
    · simp [sawEnded, hended]

theorem adjustOp_conforms {c : AdjustCommand} (hnot : ∀ o, request.releases o = false)
    (hclean : ∀ e ∈ log, e.1.changesReservations = false) :
    (adjustOp o c).Conforms (mayIssue request) (mayConclude request) log := by
  simp only [adjustOp]
  refine lockReservation_conforms (fun o' ho' => by simp [hnot] at ho') hclean ?_ ?_ ?_
  · exact fun log' _ => mayConclude_of_not_releases hnot _
  · intro log' e he
    cases e <;> trivial
  · intro log' r w _ _
    dsimp only
    split
    · exact mayConclude_of_not_releases hnot _
    split
    · exact mayConclude_of_not_releases hnot _
    split
    · exact mayConclude_of_not_releases hnot _
    split
    · refine ⟨trivial, fun _ => conforms_orFail fun _ _ => ?_⟩
      refine ⟨trivial, fun _ => conforms_orFail fun _ _ => ?_⟩
      refine ⟨trivial, fun _ => conforms_orFail fun _ _ => ?_⟩
      exact mayConclude_of_not_releases hnot _
    · refine ⟨trivial, fun _ => conforms_orFail fun _ _ => ?_⟩
      exact mayConclude_of_not_releases hnot _

theorem releaseOp_conforms {c : ReleaseCommand} (h : request.releases o = true)
    (honly : ∀ o', request.releases o' = true → o = o')
    (hclean : ∀ e ∈ log, e.1.changesReservations = false) :
    (releaseOp o c).Conforms (mayIssue request) (mayConclude request) log := by
  simp only [releaseOp]
  refine lockReservation_conforms honly hclean ?_ ?_ ?_
  · intro log' hlog
    refine ⟨⟨h, hlog⟩, ?_⟩
    rintro (e | _)
    · trivial
    · intro o' ho' _
      obtain rfl := honly o' ho'
      exact Or.inl (by simp [tombstoned])
  · intro log' e he
    cases e <;> trivial
  · intro log' r w hseen hended
    cases hstatus : r.status with
    | released =>
      simp only [hstatus]
      intro o' ho' _
      obtain rfl := honly o' ho'
      exact Or.inr (Or.inl (hended (by rw [hstatus]; decide)))
    | transferred =>
      simp only [hstatus]
      intro o' _ htype
      cases htype
    | active =>
      simp only [hstatus]
      refine ⟨trivial, fun _ => conforms_orFail fun _ _ => ?_⟩
      refine ⟨trivial, fun _ => conforms_orFail fun _ _ => ?_⟩
      refine ⟨⟨by decide, fun o' ho' => ?_⟩, fun reply => conforms_orFail fun r' hr' => ?_⟩
      · obtain rfl := honly o' ho'
        simp [hseen]
      · intro o' ho' _
        obtain rfl := honly o' ho'
        refine Or.inr (Or.inr ⟨r.id, by simp [hseen], ?_⟩)
        rw [hr']
        simp [settled]

theorem transferOp_conforms {c : TransferCommand} (hnot : ∀ o, request.releases o = false) :
    (transferOp o c).Conforms (mayIssue request) (mayConclude request) log := by
  simp only [transferOp, query, Program.call_bind, Program.conforms_stmt]
  refine ⟨fun o' ho' => by simp [hnot] at ho', ?_⟩
  rintro (e | r)
  · cases e with
    | notFound =>
      refine ⟨trivial, fun _ => conforms_orFail fun released _ => ?_⟩
      split <;> exact mayConclude_of_not_releases hnot _
    | _ => trivial
  refine ⟨trivial, ?_⟩
  rintro (e | wallets)
  · cases e <;> first | trivial | exact mayConclude_of_not_releases hnot _
  dsimp only
  split
  · trivial
  refine ⟨fun o' ho' => by simp [hnot] at ho', fun _ => conforms_orFail fun r' _ => ?_⟩
  cases hstatus : r'.status with
  | transferred => exact mayConclude_of_not_releases hnot _
  | released => exact mayConclude_of_not_releases hnot _
  | active =>
    simp only
    split
    · exact mayConclude_of_not_releases hnot _
    have htail : ∀ (log' : Program.Log Stmt.Reply) (i j k : ℕ) (a b d amount : ℤ),
        Program.Conforms (mayIssue request) (mayConclude request) log' (do
          let _ ← orFail (← query (.applyDeltas i a b))
          let _ ← orFail (← query (.applyDeltas j d 0))
          let _ ← orFail (← query (.updateReservation k amount .transferred))
          return { type := .transferred }) := by
      intro log' i j k a b d amount
      refine ⟨trivial, fun _ => conforms_orFail fun _ _ => ?_⟩
      refine ⟨trivial, fun _ => conforms_orFail fun _ _ => ?_⟩
      refine ⟨⟨by decide, fun o' ho' => by simp [hnot] at ho'⟩,
        fun _ => conforms_orFail fun _ _ => ?_⟩
      exact mayConclude_of_not_releases hnot _
    refine ⟨trivial, fun _ => conforms_orFail fun _ _ => ?_⟩
    refine ⟨trivial, fun _ => conforms_orFail fun _ _ => ?_⟩
    split
    · refine ⟨trivial, fun _ => conforms_orFail fun _ _ => ?_⟩
      exact htail _ _ _ _ _ _ _ _
    · exact htail _ _ _ _ _ _ _ _

theorem Accounted.append (h : Accounted o log) (log' : Program.Log Stmt.Reply) :
    Accounted o (log ++ log') := by
  rcases h with h | h | ⟨id, hseen, hsettled⟩
  · exact Or.inl (by simp [h])
  · exact Or.inr (Or.inl (by simp [h]))
  · exact Or.inr (Or.inr ⟨id, by simp [hseen], by simp [hsettled]⟩)

/-- Recording a result only adds to the log. -/
theorem record_conforms {β : Type} {after : Program.Log Stmt.Reply → β → Prop}
    {recorder : Option ℤ} {reply : Reply} {result : Result} {next : Unit → Tx β}
    (h : ∀ log', (next ()).Conforms (mayIssue request) after (log ++ log')) :
    (record recorder reply result >>= next).Conforms (mayIssue request) after log := by
  cases recorder with
  | none =>
    have hnext := h []
    rw [List.append_nil] at hnext
    exact hnext
  | some now =>
    simp only [record, recordResult]
    split
    · trivial
    · refine ⟨trivial, ?_⟩
      rintro (e | _)
      · trivial
      · exact h [_]

/-- `execute` stores the result of an operation that obeys the discipline. -/
theorem execute_conforms {recorder : Option ℤ} {m : String} {reply : Reply} {op : Tx Result}
    (hm : request.messageID = some m)
    (hop : ∀ log, (∀ e ∈ log, e.1.changesReservations = false) →
      op.Conforms (mayIssue request) (mayConclude request) log) :
    (execute recorder m reply op).Conforms (mayIssue request)
      (fun log result => mayReturn request log (.inl result)) [] := by
  simp only [execute, query, Program.call_bind, Program.conforms_stmt]
  refine ⟨trivial, ?_⟩
  rintro (e | _)
  · trivial
  refine ⟨⟨hm, by simp [Stmt.storesResult]⟩, ?_⟩
  rintro (e | stored)
  · cases e with
    | notFound =>
      refine Program.conforms_bind (hop _ (by simp [Stmt.changesReservations])) ?_
      intro log result hpost
      split
      · refine record_conforms fun log' => ?_
        exact fun o ho htype => Or.inr ((hpost o ho htype).append log')
      · refine ⟨hm, ?_⟩
        rintro (e | _)
        · trivial
        refine record_conforms fun log' => ?_
        intro o ho htype
        rw [List.append_assoc]
        exact Or.inr ((hpost o ho htype).append _)
    | _ => trivial
  · refine record_conforms fun log' => ?_
    exact fun o _ _ => Or.inl (by simp [replayed])

/-- Every request obeys the discipline. -/
theorem Request.body_conforms (request : Request) :
    request.body.Conforms (mayIssue request) (mayReturn request) [] := by
  cases request with
  | createWallet initialCredit ownerID subject =>
    refine Program.conforms_bind (createWallet_conforms fun log q hq => ?_) fun _ _ _ => trivial
    cases q <;> first | trivial | cases hq
  | order recorder cmd =>
    refine Program.conforms_bind ?_ fun _ _ h => h
    unfold Command.body
    cases hv : cmd.validate with
    | error e => trivial
    | ok o =>
      refine execute_conforms rfl ?_
      intro log hclean
      cases cmd with
      | reserve m c =>
        exact reserveOp_conforms (by simp [Request.reserves, hv]) fun _ => rfl
      | adjust m c => exact adjustOp_conforms (fun _ => rfl) hclean
      | release m c =>
        refine releaseOp_conforms (by simp [Request.releases, hv]) ?_ hclean
        intro o' ho'
        simpa [Request.releases, hv] using ho'
      | transfer m c => exact transferOp_conforms fun _ => rfl

end Conforms

end FocServices.Credit
