import FocServices.Orders.Next
import FocServices.Txn.Program

/-!
# What a decided transition does

`next_ok` takes a successful decision apart, and `Move` lists what transitions can do
to the parts of an errand on which versions, credit and suppliers depend. Every later
fact about transitions is read off a move.
-/

namespace FocServices.Orders

open Txn

/-! ## Taking a decision apart -/

/-- Alternatives for one state and event are open to the same actors. -/
theorem actor_of_alternative : ∀ r ∈ transitionTable, ∀ r' ∈ transitionTable,
    r.source = r'.source → r.event = r'.event → r.actor = r'.actor := by decide

/-- A chosen rule is a candidate whose guards hold. -/
theorem chooseRule_ok {e : Errand} {now : ℤ} {rules : List Rule} {failed : Option Guard} {r : Rule}
    (h : chooseRule e now rules failed = .ok r) :
    r ∈ rules ∧ ∀ g ∈ r.guards, guardHolds g e now = true := by
  induction rules generalizing failed with
  | nil =>
    unfold chooseRule at h
    split at h <;> cases h
  | cons r' rules ih =>
    unfold chooseRule at h
    split at h
    · next hguards =>
      cases h
      refine ⟨List.mem_cons_self, fun g hg => ?_⟩
      simpa using List.find?_eq_none.mp hguards g hg
    · obtain ⟨hmem, hguards⟩ := ih h
      exact ⟨List.mem_cons_of_mem _ hmem, hguards⟩

/-- How a transition was decided: by a rule of the table for the state and the event,
whose guards and actor check hold, from the event-specific parts `t₀`. -/
structure Decided (e : Errand) (ev : Event) (actor : Actor) (input : EventInput) (now : ℤ)
    (r : Rule) (t₀ t : Transition) : Prop where
  mem : r ∈ transitionTable
  source : r.source = e.status
  event : r.event = ev
  guards : ∀ g ∈ r.guards, guardHolds g e now = true
  mayAct : checkActor r.actor e actor input = .ok ()
  reason : r.needsReason = true → isBlank input.reason = false
  applied : applyEvent (r.transition e ev actor input now) e input now = .ok t₀
  result : t = { t₀.dropPendingEdit e with
    outbox := outboxRows r e (t₀.dropPendingEdit e) input }

section

variable {e : Errand} {ev : Event} {actor : Actor} {input : EventInput} {now : ℤ} {t : Transition}

theorem next_ok (h : next e ev actor input now = .ok t) :
    ∃ r t₀, Decided e ev actor input now r t₀ t := by
  unfold next at h
  simp only [check_eq_ok] at h
  obtain ⟨-, h⟩ := h
  split at h
  · split at h <;> cases h
  · next candidate candidates hrules =>
    simp only [bind_eq_ok, check_eq_ok] at h
    obtain ⟨_, hactor, r, hchoose, hreason, t₀, happlied, h⟩ := h
    obtain ⟨hmem, hguards⟩ := chooseRule_ok hchoose
    have hrule : ∀ r' ∈ candidate :: candidates,
        r' ∈ transitionTable ∧ r'.source = e.status ∧ r'.event = ev := by
      intro r' hr'
      rw [← hrules, rulesFor, List.mem_filter] at hr'
      simpa using hr'
    obtain ⟨htable, hsource, hevent⟩ := hrule r hmem
    obtain ⟨htable', hsource', hevent'⟩ := hrule candidate List.mem_cons_self
    refine ⟨r, t₀, htable, hsource, hevent, hguards, ?_, ?_, happlied, (Except.ok.inj h).symm⟩
    · rw [actor_of_alternative r htable candidate htable' (hsource.trans hsource'.symm)
        (hevent.trans hevent'.symm)]
      exact hactor
    · intro hneeds
      simpa [hneeds] using hreason

/-- A candidate whose guards hold is enough for one to be chosen. -/
theorem chooseRule_succeeds {rules : List Rule} {failed : Option Guard} {r : Rule} (hr : r ∈ rules)
    (hguards : ∀ g ∈ r.guards, guardHolds g e now = true) :
    ∃ r', chooseRule e now rules failed = .ok r' := by
  induction rules generalizing failed with
  | nil => cases hr
  | cons r' rules ih =>
    unfold chooseRule
    split
    · exact ⟨r', rfl⟩
    · next g hg =>
      rcases List.mem_cons.mp hr with rfl | hr
      · have hholds := hguards g (List.mem_of_find?_eq_some hg)
        have hfails := List.find?_some hg
        rw [hholds] at hfails
        cases hfails
      · exact ih hr

/-- An event that a rule allows is decided, unless its reason or its parts are refused. -/
theorem next_succeeds {r : Rule} (hmem : r ∈ transitionTable) (hsource : r.source = e.status)
    (hevent : r.event = ev) (hguards : ∀ g ∈ r.guards, guardHolds g e now = true)
    (hactor : checkActor r.actor e actor input = .ok ())
    (hreason : ∀ r ∈ transitionTable, r.event = ev →
      (r.needsReason && isBlank input.reason) = false)
    (happlies : ∀ r : Rule, ∃ t₀, applyEvent (r.transition e ev actor input now) e input now =
      .ok t₀) :
    ∃ t, next e ev actor input now = .ok t := by
  have hterminal : ∀ r ∈ transitionTable, r.source.terminal = false := by decide
  have hlive : e.status.terminal = false := hsource ▸ hterminal r hmem
  have hcandidate : r ∈ rulesFor e.status ev := by
    rw [rulesFor, List.mem_filter]
    exact ⟨hmem, decide_eq_true ⟨hsource, hevent⟩⟩
  have hrule : ∀ r' ∈ rulesFor e.status ev,
      r' ∈ transitionTable ∧ r'.source = e.status ∧ r'.event = ev := by
    intro r' hr'
    rw [rulesFor, List.mem_filter] at hr'
    simpa using hr'
  unfold next
  rw [hlive]
  cases hrules : rulesFor e.status ev with
  | nil =>
    rw [hrules] at hcandidate
    cases hcandidate
  | cons candidate candidates =>
    rw [hrules] at hcandidate hrule
    obtain ⟨hmem', hsource', hevent'⟩ := hrule candidate List.mem_cons_self
    have hactor' : checkActor candidate.actor e actor input = .ok () := by
      rw [actor_of_alternative candidate hmem' r hmem (hsource'.trans hsource.symm)
        (hevent'.trans hevent.symm)]
      exact hactor
    obtain ⟨chosen, hchosen⟩ : ∃ r', chooseRule e now (candidate :: candidates) none = .ok r' :=
      chooseRule_succeeds hcandidate hguards
    obtain ⟨hin, -⟩ := chooseRule_ok hchosen
    obtain ⟨hmem'', -, hevent''⟩ := hrule chosen hin
    obtain ⟨t₀, happlied⟩ := happlies chosen
    have hgiven : ¬ (chosen.needsReason && isBlank input.reason) = true := by
      rw [hreason chosen hmem'' hevent'']
      exact Bool.false_ne_true
    simp only [Bool.false_eq_true, if_false, bind_eq_ok, check_eq_ok]
    exact ⟨_, _, hactor', chosen, hchosen, hgiven, t₀, happlied, rfl⟩

/-! ## Moves -/

/-- The parts of a transition on which versions, credit and suppliers depend: the
errand after it, and its outbox rows. -/
structure Yields (e : Errand) (t : Transition) (target : Status) (version : ℕ)
    (details : Details) (courierID : String) (pendingEdit : Option PendingEdit)
    (credit : List OutboxRow) (names : List EventName) : Prop where
  target : t.target = target
  version : t.newVersion = version
  details : (t.applyTo e).details = details
  courierID : (t.applyTo e).courierID = courierID
  pendingEdit : (t.applyTo e).pendingEdit = pendingEdit
  outbox : t.outbox = credit ++ names.map (eventRow e (t.applyTo e) t)

/-- The row that asks for a release. -/
def releaseRow (e : Errand) (t : Transition) : OutboxRow :=
  creditRow e t .creditRelease "release" 0 {}

/-- The row that takes back the adjustment of a dropped edit. -/
def revertRow (e : Errand) (t : Transition) : OutboxRow :=
  creditRow e t .creditAdjust "adjust-revert" t.newVersion
    { newAmount := e.details.reward, seq := revertSeq t.newVersion }

/-- What a transition does. -/
inductive Move (e : Errand) (input : EventInput) (t : Transition) : Prop where
  | submit (hstatus : e.status = .none) (hversion : e.version = 0)
      (hevent : t.event = .submit) (hreward : 0 < e.details.reward)
      (hyields : Yields e t .pendingReservation 1 e.details e.courierID none
        [creditRow e t .creditReserve "reserve" 0 { amount := e.details.reward }] [.placed])
  | open (hstatus : e.status = .pendingReservation) (hevent : t.event = .reservationConfirmed)
      (hyields : Yields e t .open (e.version + 1) e.details e.courierID e.pendingEdit [] [.opened])
  | refuse (hstatus : e.status = .pendingReservation) (hevent : t.event = .reservationRefused)
      (hyields : Yields e t .rejected (e.version + 1) e.details e.courierID none [] [.rejected])
  | fail (hstatus : e.status = .pendingReservation) (hevent : t.event = .reservationFailed)
      (hyields : Yields e t .rejected (e.version + 1) e.details e.courierID none
        [releaseRow e t] [.rejected])
  | edit (d : Details) (hstatus : e.status = .open) (hevent : t.event = .edit)
      (hpending : e.pendingEdit = none) (hreward : d.reward = e.details.reward)
      (hpositive : 0 < d.reward)
      (hyields : Yields e t .open (e.version + 1) d e.courierID none [] [.edited])
  | requestEdit (p : PendingEdit) (hstatus : e.status = .open) (hevent : t.event = .edit)
      (hpending : e.pendingEdit = none) (hreward : p.details.reward ≠ e.details.reward)
      (hpositive : 0 < p.details.reward) (hkey : p.key = idempotencyKey e.id "adjust" e.version)
      (hyields : Yields e t .open e.version e.details e.courierID (some p)
        [creditRow e t .creditAdjust "adjust" e.version
          { newAmount := p.details.reward, seq := adjustSeq e.version }] [.editRequested])
  | confirmEdit (p : PendingEdit) (hstatus : e.status = .open) (hevent : t.event = .editConfirmed)
      (hpending : e.pendingEdit = some p) (hkey : p.key = input.editKey)
      (hyields : Yields e t .open (e.version + 1) p.details e.courierID none [] [.edited])
  | refuseEdit (p : PendingEdit) (hstatus : e.status = .open) (hevent : t.event = .editRefused)
      (hpending : e.pendingEdit = some p) (hkey : p.key = input.editKey)
      (hyields : Yields e t .open (e.version + 1) e.details e.courierID none
        (if input.editTimedOut then [revertRow e t] else []) [.editRejected])
  | accept (hstatus : e.status = .open) (hevent : t.event = .accept) (hactor : t.actor.id ≠ "")
      (hother : t.actor.id ≠ e.requesterID)
      (hyields : Yields e t .assigned (e.version + 1) e.details t.actor.id none
        (if e.pendingEdit.isSome then [revertRow e t] else []) [.accepted])
  | withdraw (names : List EventName) (hstatus : e.status = .open)
      (htarget : (t.event = .cancel ∧ t.target = .cancelled ∧ names = [.cancelled]) ∨
        (t.event = .acceptanceDeadlinePassed ∧ t.target = .expired ∧ names = [.expired]))
      (hyields : Yields e t t.target (e.version + 1) e.details e.courierID none
        [releaseRow e t] names)
  | reopen (hstatus : e.status = .assigned)
      (hevent : t.event = .withdraw ∨ t.event = .pickupDeadlinePassed)
      (hyields : Yields e t .open (e.version + 1) e.details "" e.pendingEdit [] [.withdrawn])
  | expire (hstatus : e.status = .assigned)
      (hevent : t.event = .withdraw ∨ t.event = .pickupDeadlinePassed)
      (hyields : Yields e t .expired (e.version + 1) e.details "" none
        [releaseRow e t] [.withdrawn, .expired])
  | proceed (name : EventName)
      (hstatus : (e.status = .assigned ∧ t.event = .pickUp ∧ t.target = .pickedUp ∧
          name = .pickedUp) ∨
        (e.status = .pickedUp ∧ t.event = .deliver ∧ t.target = .delivered ∧
          name = .delivered) ∨
        (e.status = .pickedUp ∧ (t.event = .reportIssue ∨ t.event = .deliveryDeadlinePassed) ∧
          t.target = .reviewRequired ∧ name = .reviewRequired) ∨
        (e.status = .delivered ∧ t.event = .dispute ∧ t.target = .reviewRequired ∧
          name = .reviewRequired))
      (hyields : Yields e t t.target (e.version + 1) e.details e.courierID none [] [name])
  | complete
      (hstatus : (e.status = .delivered ∧ (t.event = .confirm ∨ t.event = .verificationLapsed)) ∨
        (e.status = .reviewRequired ∧ t.event = .adminComplete))
      (hyields : Yields e t .completed (e.version + 1) e.details e.courierID none
        [creditRow e t .creditTransfer "transfer" 0
          { courierID := e.courierID, amount := e.details.reward }] [.completed])
  | refund (hstatus : e.status = .reviewRequired) (hevent : t.event = .adminRefund)
      (hyields : Yields e t .refunded (e.version + 1) e.details e.courierID none
        [releaseRow e t] [.refunded])

/-! ## Rows of a transition -/

theorem validateDetails_ok {d : Details} {newDeadline : Bool}
    (h : validateDetails d now newDeadline = .ok ()) : 0 < d.reward := by
  simp only [validateDetails, ite_eq_left_iff, reduceCtorEq, imp_false, not_not,
    List.append_eq_nil_iff] at h
  have hreward := h.1.1.1.1
  by_contra hle
  rw [if_pos (by omega)] at hreward
  cases hreward

/-- Only an edit, an acceptance and a refused edit concern adjustments. -/
theorem outboxRows_eq {r : Rule}
    (hevent : decide (t.event ∈ [.edit, .accept, .editRefused]) = false) :
    outboxRows r e t input = effectRows r e t ++ r.emits.map (eventRow e (t.applyTo e) t) := by
  simp only [List.mem_cons, List.not_mem_nil, or_false, decide_eq_false_iff_not, not_or] at hevent
  have hrequested : t.requestedEdit = none := if_neg fun h => hevent.1 h.1
  have hreverts : revertsAdjust e t input = false := by
    unfold revertsAdjust
    split <;> simp_all
  simp [outboxRows, adjustRows, hrequested, hreverts]

/-- The rows of a transition without a credit operation that requests no edit. -/
theorem outboxRows_revert {r : Rule} {reverts : Bool} (hrequested : t.requestedEdit = none)
    (hcredit : r.credit = .none) (hreverts : revertsAdjust e t input = reverts) :
    outboxRows r e t input = (if reverts then [revertRow e t] else []) ++
      r.emits.map (eventRow e (t.applyTo e) t) := by
  simp [outboxRows, effectRows, adjustRows, hrequested, hcredit, hreverts, revertRow]

/-- The rows of a transition that requests an edit. -/
theorem outboxRows_requested {r : Rule} {p : PendingEdit} (hevent : t.event = .edit)
    (hrequested : t.requestedEdit = some p) (hcredit : r.credit = .none) :
    outboxRows r e t input =
      [creditRow e t .creditAdjust "adjust" t.expectedVersion
        { newAmount := p.details.reward, seq := adjustSeq t.expectedVersion }] ++
      [EventName.editRequested].map (eventRow e (t.applyTo e) t) := by
  simp [outboxRows, effectRows, adjustRows, hrequested, hcredit, revertsAdjust, hevent]

/-- The pending edit after a transition that leaves the column to the general rule. -/
theorem dropped_pendingEdit {t₀ : Transition} (hunset : t₀.changes.pendingEdit = {}) :
    ((t₀.dropPendingEdit e).applyTo e).pendingEdit =
      if t₀.target = .open then e.pendingEdit else none := by
  simp only [Transition.applyTo, Transition.dropPendingEdit, hunset]
  by_cases hopen : t₀.target = .open
  · simp [hopen]
  · cases hp : e.pendingEdit <;> simp [hopen]

/-- A transition that concerns no edit. -/
theorem yields_plain {r : Rule} {t₀ : Transition}
    (hevent : decide (t₀.event ∈ [.edit, .accept, .editRefused]) = false)
    (hunset : t₀.changes.pendingEdit = {}) :
    Yields e { t₀.dropPendingEdit e with outbox := outboxRows r e (t₀.dropPendingEdit e) input }
      t₀.target t₀.newVersion (t₀.changes.details.getD e.details)
      (t₀.changes.courierID.applyValue "" e.courierID)
      (if t₀.target = .open then e.pendingEdit else none) (effectRows r e t₀) r.emits :=
  ⟨rfl, rfl, rfl, rfl, dropped_pendingEdit hunset, outboxRows_eq hevent⟩

theorem filter_key {p : PendingEdit} {key : String}
    (h : e.pendingEdit.filter (fun p => p.key = key) = some p) :
    e.pendingEdit = some p ∧ p.key = key := by
  simpa using Option.filter_eq_some_iff.mp h

/-- Every decided transition is a move. -/
theorem next_move (h : next e ev actor input now = .ok t) : Move e input t := by
  obtain ⟨r, t₀, hd⟩ := next_ok h
  obtain ⟨hmem, hsource, hevent, hguards, hactor, hreason, happlied, rfl⟩ := hd
  simp only [transitionTable, List.mem_cons, List.not_mem_nil, or_false] at hmem
  rcases hmem with rfl | rfl | rfl | rfl | rfl | rfl | rfl | rfl | rfl | rfl | rfl | rfl | rfl |
    rfl | rfl | rfl | rfl | rfl | rfl | rfl | rfl | rfl | rfl
  all_goals subst hevent
  all_goals simp only [applyEvent, Rule.transition] at happlied
  · split at happlied
    · cases happlied
    split at happlied
    · cases happlied
    next hversion =>
    obtain ⟨_, hvalid, happlied⟩ := bind_eq_ok.mp happlied
    cases happlied
    exact .submit hsource.symm (not_not.mp hversion) rfl (validateDetails_ok hvalid)
      (yields_plain rfl rfl)
  · cases happlied
    exact .open hsource.symm rfl
      (yields_plain rfl rfl)
  · cases happlied
    exact .refuse hsource.symm rfl
      (yields_plain rfl rfl)
  · cases happlied
    exact .fail hsource.symm rfl
      (yields_plain rfl rfl)
  · split at happlied
    · cases happlied
    next hpending =>
    have hnone : e.pendingEdit = none := by simpa using hpending
    split at happlied
    · cases happlied
    next d hd =>
    obtain ⟨_, hvalid, happlied⟩ := bind_eq_ok.mp happlied
    have hpositive := validateDetails_ok hvalid
    split at happlied
    · next hreward =>
      cases happlied
      have hreverts : ∀ t, revertsAdjust e t input = false := by
        intro t
        simp [revertsAdjust, hnone]
      refine .edit d hsource.symm rfl hnone hreward hpositive
        ⟨rfl, rfl, rfl, rfl, (dropped_pendingEdit rfl).trans hnone,
          outboxRows_revert ?_ rfl (hreverts _)⟩
      simp [Transition.requestedEdit, Transition.dropPendingEdit, hnone]
    · next hreward =>
      cases happlied
      refine .requestEdit ⟨d, idempotencyKey e.id "adjust" e.version, now⟩ hsource.symm rfl hnone
        hreward hpositive rfl ⟨rfl, rfl, rfl, rfl, ?_, outboxRows_requested rfl ?_ rfl⟩
      · simp [Transition.applyTo, Transition.dropPendingEdit, hnone]
      · simp [Transition.requestedEdit, Transition.dropPendingEdit, hnone, setTo]
  · split at happlied
    · cases happlied
    next p hp =>
    obtain ⟨hpending, hkey⟩ := filter_key hp
    cases happlied
    refine .confirmEdit p hsource.symm rfl hpending hkey ⟨rfl, rfl, rfl, rfl, ?_, outboxRows_eq rfl⟩
    simp [Transition.applyTo, Transition.dropPendingEdit]
  · split at happlied
    · cases happlied
    next p hp =>
    obtain ⟨hpending, hkey⟩ := filter_key hp
    have hreverts : ∀ t : Transition, t.event = .editRefused →
        revertsAdjust e t input = input.editTimedOut := by
      intro t ht
      simp [revertsAdjust, ht, hpending]
    cases happlied
    exact .refuseEdit p hsource.symm rfl hpending hkey
      ⟨rfl, rfl, rfl, rfl, by simp [Transition.applyTo, Transition.dropPendingEdit],
        outboxRows_revert rfl rfl (hreverts _ rfl)⟩
  · obtain ⟨_, -, happlied⟩ := bind_eq_ok.mp happlied
    cases happlied
    simp only [checkActor] at hactor
    split at hactor
    · cases hactor
    next hcourier =>
    split at hactor
    · cases hactor
    next hother =>
    refine .accept hsource.symm rfl (fun h => hcourier (Or.inr h)) hother
      ⟨rfl, rfl, rfl, rfl, dropped_pendingEdit rfl, outboxRows_revert rfl rfl ?_⟩
    simp [revertsAdjust, Transition.dropPendingEdit]
  · cases happlied
    exact .withdraw _ hsource.symm (Or.inl ⟨rfl, rfl, rfl⟩)
      (yields_plain rfl rfl)
  · cases happlied
    exact .withdraw _ hsource.symm (Or.inr ⟨rfl, rfl, rfl⟩)
      (yields_plain rfl rfl)
  · cases happlied
    exact .reopen hsource.symm (Or.inl rfl)
      (yields_plain rfl rfl)
  · cases happlied
    exact .expire hsource.symm (Or.inl rfl)
      (yields_plain rfl rfl)
  · cases happlied
    exact .reopen hsource.symm (Or.inr rfl)
      (yields_plain rfl rfl)
  · cases happlied
    exact .expire hsource.symm (Or.inr rfl)
      (yields_plain rfl rfl)
  · cases happlied
    exact .proceed _ (Or.inl ⟨hsource.symm, rfl, rfl, rfl⟩)
      (yields_plain rfl rfl)
  · obtain ⟨_, -, happlied⟩ := bind_eq_ok.mp happlied
    cases happlied
    exact .proceed _ (Or.inr (Or.inl ⟨hsource.symm, rfl, rfl, rfl⟩))
      (yields_plain rfl rfl)
  · cases happlied
    exact .proceed _ (Or.inr (Or.inr (Or.inl ⟨hsource.symm, Or.inl rfl, rfl, rfl⟩)))
      (yields_plain rfl rfl)
  · cases happlied
    exact .proceed _ (Or.inr (Or.inr (Or.inl ⟨hsource.symm, Or.inr rfl, rfl, rfl⟩)))
      (yields_plain rfl rfl)
  · cases happlied
    exact .complete (Or.inl ⟨hsource.symm, Or.inl rfl⟩)
      (yields_plain rfl rfl)
  · cases happlied
    exact .complete (Or.inl ⟨hsource.symm, Or.inr rfl⟩)
      (yields_plain rfl rfl)
  · cases happlied
    exact .proceed _ (Or.inr (Or.inr (Or.inr ⟨hsource.symm, rfl, rfl, rfl⟩)))
      (yields_plain rfl rfl)
  · cases happlied
    exact .complete (Or.inr ⟨hsource.symm, rfl⟩)
      (yields_plain rfl rfl)
  · cases happlied
    exact .refund hsource.symm rfl
      (yields_plain rfl rfl)

/-! ## What every transition has in common -/

/-- A transition is about the errand it was decided for, and its compare-and-swap
condition is the state it was decided in. -/
structure Transition.For (t : Transition) (e : Errand) (ev : Event) (actor : Actor) (now : ℤ) :
    Prop where
  errandID : t.errandID = e.id
  source : t.source = e.status
  event : t.event = ev
  actor : t.actor = actor
  expectedVersion : t.expectedVersion = e.version
  expectedPendingEditKey : t.expectedPendingEditKey = e.pendingKey
  atTime : t.atTime = now

/-- The event-specific parts leave the general ones alone. -/
theorem applyEvent_for {t₀ : Transition} (ht : t.For e ev actor now)
    (h : applyEvent t e input now = .ok t₀) : t₀.For e ev actor now := by
  obtain ⟨hid, hsource, hevent, hactor, hversion, hkey, htime⟩ := ht
  unfold applyEvent at h
  split at h
  · split at h
    · cases h
    split at h
    · cases h
    next hzero =>
    obtain ⟨_, -, h⟩ := bind_eq_ok.mp h
    cases h
    exact ⟨hid, hsource, hevent, hactor, (not_not.mp hzero).symm, hkey, htime⟩
  case h_4 =>
    split at h
    · cases h
    split at h
    · cases h
    obtain ⟨_, -, h⟩ := bind_eq_ok.mp h
    split at h <;> cases h <;> exact ⟨hid, hsource, hevent, hactor, hversion, hkey, htime⟩
  case h_7 | h_10 =>
    obtain ⟨_, -, h⟩ := bind_eq_ok.mp h
    cases h
    exact ⟨hid, hsource, hevent, hactor, hversion, hkey, htime⟩
  case h_5 | h_6 =>
    split at h
    · cases h
    dsimp only at h
    split at h <;> cases h <;> exact ⟨hid, hsource, hevent, hactor, hversion, hkey, htime⟩
  all_goals
    cases h
    exact ⟨hid, hsource, hevent, hactor, hversion, hkey, htime⟩

theorem next_for (h : next e ev actor input now = .ok t) : t.For e ev actor now := by
  obtain ⟨r, t₀, hd⟩ := next_ok h
  obtain ⟨hid, hsource, hevent, hactor, hversion, hkey, htime⟩ :=
    applyEvent_for ⟨rfl, rfl, rfl, rfl, rfl, rfl, rfl⟩ hd.applied
  rw [hd.result]
  exact ⟨hid, hsource, hevent, hactor, hversion, hkey, htime⟩

end

end FocServices.Orders
