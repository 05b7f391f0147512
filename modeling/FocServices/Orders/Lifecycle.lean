import FocServices.Orders.Jobs
import Mathlib.Data.List.TakeWhile

/-!
# The life of an errand

An errand that began with a submission and was changed by decided transitions only is well
formed: which columns are set follows from its status. What a transition leaves of the
nullable columns depends on its rule alone, so that this is a finite check over the
transition table. A well-formed errand violates no `CHECK` constraint of the tables that
its transitions write to.
-/

namespace FocServices.Orders

open Txn

/-! ## Columns -/

/-- Whether the courier and the courier's deadlines are set after an event. -/
def Event.assigns (ev : Event) (before : Bool) : Bool :=
  match ev with
  | .accept => true
  | .withdraw | .pickupDeadlinePassed => false
  | _ => before

/-- Whether the delivery and the deadline to verify it are set after an event. -/
def Event.delivers (ev : Event) (before : Bool) : Bool :=
  match ev with
  | .deliver => true
  | _ => before

/-- What an event of rule `r` leaves of the nullable columns. -/
structure Columns (e : Errand) (ev : Event) (actor : Actor) (r : Rule) (after : Errand) : Prop where
  status : after.status = r.target
  requesterID : after.requesterID = e.requesterID
  courierID : after.courierID =
    if ev = .accept then actor.id else if ev.assigns true then e.courierID else ""
  pickupDeadline : after.pickupDeadline.isSome = ev.assigns e.pickupDeadline.isSome
  deliveryDeadline : after.deliveryDeadline.isSome = ev.assigns e.deliveryDeadline.isSome
  deliveredAt : after.deliveredAt.isSome = ev.delivers e.deliveredAt.isSome
  verificationDeadline :
    after.verificationDeadline.isSome = ev.delivers e.verificationDeadline.isSome
  reviewReason : after.reviewReason = r.review.or e.reviewReason

section

variable {e : Errand} {ev : Event} {actor : Actor} {input : EventInput} {now : ℤ} {t t₀ : Transition}
  {r : Rule}

theorem applyTo_review (review old : Option ReviewReason) :
    Update.applyTo (match review with
      | some reason => setTo reason
      | none => {}) old = review.or old := by
  cases review <;> rfl

theorem Decided.columns (hd : Decided e ev actor input now r t₀ t) :
    Columns e ev actor r (t.applyTo e) := by
  obtain ⟨-, -, -, -, -, -, happlied, rfl⟩ := hd
  have hreview := applyTo_review r.review e.reviewReason
  cases ev
  all_goals simp only [applyEvent, Rule.transition] at happlied
  case submit =>
    split at happlied
    · cases happlied
    split at happlied
    · cases happlied
    obtain ⟨_, -, happlied⟩ := bind_eq_ok.mp happlied
    cases happlied
    exact ⟨rfl, rfl, rfl, rfl, rfl, rfl, rfl, hreview⟩
  case edit =>
    split at happlied
    · cases happlied
    split at happlied
    · cases happlied
    obtain ⟨_, -, happlied⟩ := bind_eq_ok.mp happlied
    split at happlied <;> cases happlied <;> exact ⟨rfl, rfl, rfl, rfl, rfl, rfl, rfl, hreview⟩
  case editConfirmed | editRefused =>
    split at happlied
    · cases happlied
    cases happlied
    exact ⟨rfl, rfl, rfl, rfl, rfl, rfl, rfl, hreview⟩
  case accept | deliver =>
    obtain ⟨_, -, happlied⟩ := bind_eq_ok.mp happlied
    cases happlied
    exact ⟨rfl, rfl, rfl, rfl, rfl, rfl, rfl, hreview⟩
  all_goals
    cases happlied
    exact ⟨rfl, rfl, rfl, rfl, rfl, rfl, rfl, hreview⟩

/-! ## Details -/

/-- What the check of details guarantees at any time. -/
structure Details.Valid (d : Details) : Prop where
  reward : 0 < d.reward
  items : d.items.isNonemptyArray = true
  contactName : isBlank d.contactName = false
  contactMobile : isBlank d.contactMobile = false

theorem not_isBlank_of_contactProblem {s : String} {max : ℕ} (h : contactProblem s max = "") :
    isBlank s = false := by
  unfold contactProblem at h
  split at h
  · exact absurd h (by decide)
  · next hblank => simpa using hblank

theorem valid_of_validateDetails {d : Details} {newDeadline : Bool}
    (h : validateDetails d now newDeadline = .ok ()) : d.Valid := by
  have hreward := validateDetails_ok h
  simp only [validateDetails, ite_eq_left_iff, reduceCtorEq, imp_false, not_not,
    List.append_eq_nil_iff] at h
  obtain ⟨⟨⟨⟨-, hitems⟩, hname⟩, hmobile⟩, -⟩ := h
  refine ⟨hreward, ?_, not_isBlank_of_contactProblem hname, not_isBlank_of_contactProblem hmobile⟩
  unfold RawMessage.isNonemptyArray
  split at hitems
  · next helements => simp [helements]
  · cases hitems

/-- Details that an errand or its pending edit has after a transition were there before, or
were checked by it. -/
theorem Decided.details (hd : Decided e ev actor input now r t₀ t) :
    (ev = .submit → e.details.Valid) ∧
      ((t.applyTo e).details = e.details ∨ (t.applyTo e).details.Valid ∨
        ∃ p, e.pendingEdit = some p ∧ (t.applyTo e).details = p.details) ∧
      ∀ p, (t.applyTo e).pendingEdit = some p → e.pendingEdit = some p ∨ p.details.Valid := by
  obtain ⟨-, -, -, -, -, -, happlied, rfl⟩ := hd
  have hkept : ∀ t₀ : Transition, t₀.changes.pendingEdit = {} → ∀ p,
      ((t₀.dropPendingEdit e).applyTo e).pendingEdit = some p →
        e.pendingEdit = some p ∨ p.details.Valid := by
    intro t₀ hunset p hp
    rw [dropped_pendingEdit hunset] at hp
    split at hp
    · exact Or.inl hp
    · cases hp
  cases ev
  all_goals simp only [applyEvent, Rule.transition] at happlied
  case submit =>
    split at happlied
    · cases happlied
    split at happlied
    · cases happlied
    obtain ⟨_, hvalid, happlied⟩ := bind_eq_ok.mp happlied
    cases happlied
    exact ⟨fun _ => valid_of_validateDetails hvalid, Or.inl rfl, hkept _ rfl⟩
  case edit =>
    split at happlied
    · cases happlied
    split at happlied
    · cases happlied
    next d hd =>
    obtain ⟨_, hvalid, happlied⟩ := bind_eq_ok.mp happlied
    have hvalid := valid_of_validateDetails hvalid
    split at happlied
    · cases happlied
      exact ⟨by simp, Or.inr (Or.inl hvalid), hkept _ rfl⟩
    · cases happlied
      refine ⟨by simp, Or.inl rfl, fun p hp => ?_⟩
      simp only [Transition.applyTo, Transition.dropPendingEdit] at hp
      split at hp
      · cases hp
      · cases hp
        exact Or.inr hvalid
  case editConfirmed =>
    split at happlied
    · cases happlied
    next p hp =>
    cases happlied
    refine ⟨by simp, Or.inr (Or.inr ⟨p, (filter_key hp).1, rfl⟩), fun q hq => ?_⟩
    simp [Transition.applyTo, Transition.dropPendingEdit] at hq
  case editRefused =>
    split at happlied
    · cases happlied
    cases happlied
    refine ⟨by simp, Or.inl rfl, fun q hq => ?_⟩
    simp [Transition.applyTo, Transition.dropPendingEdit] at hq
  case accept | deliver =>
    obtain ⟨_, -, happlied⟩ := bind_eq_ok.mp happlied
    cases happlied
    exact ⟨by simp, Or.inl rfl, hkept _ rfl⟩
  all_goals
    cases happlied
    exact ⟨by simp, Or.inl rfl, hkept _ rfl⟩

/-- Only an edit that is requested leaves a pending edit, unless one was pending in a state
other than `OPEN`. -/
theorem Move.requested (hm : Move e input t)
    (hopen : e.pendingEdit.isSome → e.status = .open) {p : PendingEdit}
    (hp : (t.applyTo e).pendingEdit = some p) :
    p.details.reward ≠ (t.applyTo e).details.reward := by
  cases hm with
  | requestEdit q hstatus hevent hpending hreward hpositive hkey hy =>
    rw [hy.pendingEdit] at hp
    cases hp
    rw [hy.details]
    exact hreward
  | «open» hstatus _ hy | reopen hstatus _ hy =>
    rw [hy.pendingEdit] at hp
    have hcontra := hopen (by rw [hp]; rfl)
    rw [hstatus] at hcontra
    cases hcontra
  | submit _ _ _ _ hy | refuse _ _ hy | fail _ _ hy | edit _ _ _ _ _ _ hy
  | confirmEdit _ _ _ _ _ hy | refuseEdit _ _ _ _ _ hy | accept _ _ _ _ hy | withdraw _ _ _ hy
  | expire _ _ hy | proceed _ _ hy | complete _ hy | refund _ _ hy =>
    rw [hy.pendingEdit] at hp
    cases hp

/-! ## Well-formed errands -/

/-- Whether an errand in this status has a courier. -/
def Status.hasCourier : Status → Bool
  | .assigned | .pickedUp | .delivered | .reviewRequired | .completed | .refunded => true
  | _ => false

/-- Whether the status goes with a review reason and with a delivery. -/
def Status.fits (status : Status) (reviewReason : Option ReviewReason) (delivered : Bool) : Bool :=
  match status with
  | .delivered => reviewReason.isNone && delivered
  | .reviewRequired =>
    reviewReason.isSome && delivered = decide (reviewReason = some .requesterDispute)
  | .completed => reviewReason.isSome || delivered
  | .refunded => reviewReason.isSome
  | .rejected | .cancelled | .expired => reviewReason.isNone
  | _ => reviewReason.isNone && !delivered

/-- An errand as transitions leave it; also one that is about to be submitted. -/
structure WellFormed (e : Errand) : Prop where
  stored : e.status ≠ .none → 1 ≤ e.version ∧ e.details.Valid
  courier : if e.status.hasCourier then e.courierID ≠ "" ∧ e.courierID ≠ e.requesterID ∧
      e.pickupDeadline.isSome = true ∧ e.deliveryDeadline.isSome = true
    else e.courierID = "" ∧ e.pickupDeadline = none ∧ e.deliveryDeadline = none
  pendingEdit : ∀ p, e.pendingEdit = some p → e.status = .open ∧
    p.key = idempotencyKey e.id "adjust" e.version ∧ p.details.Valid ∧
    p.details.reward ≠ e.details.reward
  delivery : e.deliveredAt.isSome = e.verificationDeadline.isSome
  review : e.status.fits e.reviewReason e.deliveredAt.isSome = true

/-- The rules keep who has a courier. -/
theorem hasCourier_target : ∀ r ∈ transitionTable,
    r.target.hasCourier = r.event.assigns r.source.hasCourier := by decide

/-- The rules keep reviews and deliveries in line with the status. -/
theorem fits_target : ∀ r ∈ transitionTable, ∀ reviewReason ∈ [none, some .courierIssue,
      some .requesterDispute, some .deliveryOverdue], ∀ delivered : Bool,
    r.source.fits reviewReason delivered = true →
      r.target.fits (r.review.or reviewReason) (r.event.delivers delivered) = true := by decide

theorem actor_of_accept : ∀ r ∈ transitionTable, r.event = .accept →
    r.actor = .eligibleCourier := by decide

/-- Whoever accepts an errand is somebody else than its requester. -/
theorem Decided.acceptor (hd : Decided e .accept actor input now r t₀ t) :
    actor.id ≠ "" ∧ actor.id ≠ e.requesterID := by
  have hmay := hd.mayAct
  rw [actor_of_accept r hd.mem hd.event] at hmay
  simp only [checkActor] at hmay
  split at hmay
  · cases hmay
  next hcourier =>
  split at hmay
  · cases hmay
  next hother => exact ⟨fun h => hcourier (Or.inr h), hother⟩

theorem assigns_cases (ev : Event) :
    ev = .accept ∨ (∀ b, ev.assigns b = false) ∨ (ev ≠ .accept ∧ ∀ b, ev.assigns b = b) := by
  cases ev <;> simp [Event.assigns]

/-- The courier's columns go with the status after a transition. -/
theorem WellFormed.courier_next (hw : WellFormed e) (hd : Decided e ev actor input now r t₀ t) :
    if (t.applyTo e).status.hasCourier then (t.applyTo e).courierID ≠ "" ∧
        (t.applyTo e).courierID ≠ (t.applyTo e).requesterID ∧
        (t.applyTo e).pickupDeadline.isSome = true ∧ (t.applyTo e).deliveryDeadline.isSome = true
      else (t.applyTo e).courierID = "" ∧ (t.applyTo e).pickupDeadline = none ∧
        (t.applyTo e).deliveryDeadline = none := by
  have hc := hd.columns
  have hcarries := hasCourier_target r hd.mem
  rw [hd.event, hd.source] at hcarries
  rw [hc.status, hcarries, hc.courierID, hc.requesterID, ← Option.isNone_iff_eq_none,
    ← Option.isNone_iff_eq_none, ← Option.not_isSome, ← Option.not_isSome, hc.pickupDeadline,
    hc.deliveryDeadline]
  rcases assigns_cases ev with rfl | hclears | ⟨hother, hkeeps⟩
  · obtain ⟨hactor, hrequester⟩ := hd.acceptor
    exact ⟨hactor, hrequester, rfl, rfl⟩
  · have hother : ev ≠ .accept := by
      rintro rfl
      exact absurd (hclears true) (by decide)
    simp [hclears, hother]
  · have hcourier := hw.courier
    simp only [hkeeps, if_neg hother, if_true]
    split at hcourier
    · next hhas => rwa [if_pos hhas]
    · next hhas =>
      rw [if_neg hhas]
      simpa using hcourier

theorem mem_reviewReasons (reviewReason : Option ReviewReason) : reviewReason ∈ [none,
    some .courierIssue, some .requesterDispute, some .deliveryOverdue] := by
  rcases reviewReason with _ | reason
  · decide
  · cases reason <;> decide

/-- A decided transition of a well-formed errand leaves a well-formed errand. -/
theorem WellFormed.next (hw : WellFormed e) (h : next e ev actor input now = .ok t) :
    WellFormed (t.applyTo e) := by
  obtain ⟨r, t₀, hd⟩ := next_ok h
  have hm := next_move h
  have hc := hd.columns
  obtain ⟨hsubmitted, hdetails, hpending⟩ := hd.details
  have hopen : e.pendingEdit.isSome → e.status = .open := by
    intro hsome
    obtain ⟨p, hp⟩ := Option.isSome_iff_exists.mp hsome
    exact (hw.pendingEdit p hp).1
  have hvalid : e.details.Valid := by
    by_cases hnone : e.status = .none
    · apply hsubmitted
      rw [← hd.event]
      have hsubmit : ∀ r ∈ transitionTable, r.source = .none → r.event = .submit := by decide
      exact hsubmit r hd.mem (hd.source.trans hnone)
    · exact (hw.stored hnone).2
  refine ⟨fun _ => ⟨?_, ?_⟩, hw.courier_next hd, fun p hp => ?_, ?_, ?_⟩
  · have hversion : (t.applyTo e).version = t.newVersion := rfl
    rcases hm.advance with hnew | ⟨hsame, hstatus, -⟩
    · omega
    · have hpos := (hw.stored (by rw [hstatus]; decide)).1
      omega
  · rcases hdetails with hsame | hvalid | ⟨p, hp, hsame⟩
    · rwa [hsame]
    · exact hvalid
    · rw [hsame]
      exact (hw.pendingEdit p hp).2.2.1
  · obtain ⟨htarget, hkey⟩ := hm.pendingEdit (fun _ => hopen) hp
    refine ⟨htarget, hkey, ?_, hm.requested hopen hp⟩
    rcases hpending p hp with hold | hvalid
    · exact (hw.pendingEdit p hold).2.2.1
    · exact hvalid
  · rw [hc.deliveredAt, hc.verificationDeadline, hw.delivery]
  · have hfits := fits_target r hd.mem e.reviewReason (mem_reviewReasons _) e.deliveredAt.isSome
    rw [hd.source, hd.event] at hfits
    rw [hc.status, hc.reviewReason, hc.deliveredAt]
    exact hfits hw.review

end

/-! ## Rows -/

/-- The row of `errand_transitions` that a transition writes. -/
def transitionRow (id : String) (before after : Errand) (t : Transition) : TransitionRow where
  errandID := id
  source := t.source
  target := t.target
  event := t.event
  actorType := t.actor.type
  actorID := t.actor.id
  courierID := if before.courierID = "" then after.courierID else before.courierID
  reason := t.reason
  errandVersion := after.version
  atTime := micros t.atTime

/-- The review that a transition to `REVIEW_REQUIRED` opens. -/
def reviewRow (id : String) (after : Errand) (t : Transition) : Review where
  errandID := id
  reason := after.reviewReason
  reporterID := if t.actor.type = .system then "" else t.actor.id
  note := if isBlank t.reason then "" else t.reason
  createdAt := micros t.atTime

/-- The resolution that a transition out of `REVIEW_REQUIRED` records. -/
def resolutionRow (t : Transition) : Resolution where
  target := t.target
  resolverID := t.actor.id
  reason := t.reason
  atTime := micros t.atTime

theorem writeTransitionRows_eq (before after : Errand) (t : Transition) :
    writeTransitionRows before after t = (do
      let id ← check (parseUUID "errandId" after.id)
      let _ ← orFail (← query (.insertTransition (transitionRow id before after t)))
      if t.target = .reviewRequired then
        let _ ← orFail (← query (.openReview (reviewRow id after t)))
        insertOutboxRows t.outbox
      else if t.source = .reviewRequired then
        let resolved ← orFail (← query (.resolveReview id (resolutionRow t)))
        if resolved = 0 then
          .fail (.internal ("errandrepo: errand " ++ quote after.id ++
            " has no open review to resolve"))
        else insertOutboxRows t.outbox
      else insertOutboxRows t.outbox) := rfl

/-- A text that is not blank is more than spaces. -/
theorem not_onlySpaces {s : String} (h : isBlank s = false) : onlySpaces s = false := by
  by_contra hspaces
  rw [Bool.not_eq_false, onlySpaces, List.all_eq_true] at hspaces
  have hdrop : s.toList.dropWhile isSpace = [] := by
    rw [List.dropWhile_eq_nil_iff]
    intro c hc
    have hspace : c = ' ' := by simpa using hspaces c hc
    rw [hspace]
    decide
  have hblank : isBlank s = true := by simp [isBlank, trimSpace, hdrop]
  rw [h] at hblank
  cases hblank

section

variable {e : Errand} {ev : Event} {actor : Actor} {input : EventInput} {now : ℤ} {t t₀ : Transition}
  {r : Rule}

/-- The only column of a well-formed errand that the database can object to is the
snapshot of the building. -/
theorem WellFormed.rowProblem (hw : WellFormed e) (hstatus : e.status ≠ .none) :
    e.rowProblem = e.details.deliveryBuildingSnapshot.problem "delivery_building_snapshot" := by
  obtain ⟨hversion, hreward, hitems, hname, hmobile⟩ := hw.stored hstatus
  have hassigned : ¬ (e.status ∈ [.assigned, .pickedUp, .delivered, .reviewRequired] ∧
      e.courierID = "") := by
    rintro ⟨hmem, hempty⟩
    have hcourier := hw.courier
    have hhas : ∀ s ∈ [Status.assigned, .pickedUp, .delivered, .reviewRequired],
        s.hasCourier = true := by decide
    rw [if_pos (hhas _ hmem)] at hcourier
    exact hcourier.1 hempty
  have hproblem : e.details.items.problem "items" = none := by
    cases hraw : e.details.items with
    | array elements => rfl
    | absent | malformed text | value text =>
      rw [hraw] at hitems
      cases hitems
  unfold Errand.rowProblem
  cases e.details.deliveryBuildingSnapshot.problem "delivery_building_snapshot" with
  | some err => rfl
  | none =>
    have hspaces : ¬ (onlySpaces e.details.contactName = true ∨
        onlySpaces e.details.contactMobile = true) := by
      simp [not_onlySpaces hname, not_onlySpaces hmobile]
    simp only [hproblem]
    rw [if_neg hspaces, if_neg hassigned, if_neg (not_not.mpr hitems), if_neg (by omega),
      if_neg hstatus, if_neg (by omega)]

theorem rowProblem_insertParams {row : Errand} (h : insertParams e = .ok row) :
    row.rowProblem = e.rowProblem := by
  unfold insertParams at h
  simp only [bind_eq_ok, check_eq_ok] at h
  obtain ⟨id, -, supplierID, -, _, -, _, -, -, pendingEdit, -, h⟩ := h
  cases h
  rfl

/-- No row a transition writes violates a `CHECK` constraint. What the database can still
object to in the row of the errand is a snapshot that is missing or no JSON. -/
structure Storable (e : Errand) (t : Transition) : Prop where
  errand : ∀ row, insertParams (t.applyTo e) = .ok row → row.rowProblem =
    row.details.deliveryBuildingSnapshot.problem "delivery_building_snapshot"
  transition : ∀ id before hash grantable s c,
    (exec hash grantable (.insertTransition (transitionRow id before (t.applyTo e) t)) s).reply ≠
      .error (.check c)
  review : t.target = .reviewRequired → ∀ id hash grantable s c,
    (exec hash grantable (.openReview (reviewRow id (t.applyTo e) t)) s).reply ≠ .error (.check c)
  resolution : t.source = .reviewRequired → ∀ id hash grantable s c,
    (exec hash grantable (.resolveReview id (resolutionRow t)) s).reply ≠ .error (.check c)
  outbox : ∀ row ∈ t.outbox, row.kind.text ∈ ["credit.reserve", "credit.release",
    "credit.transfer", "credit.adjust"] ∨ "event.".toList <+: row.kind.text.toList

theorem resolves_review : ∀ r ∈ transitionTable, r.source = .reviewRequired →
    (r.event = .adminComplete ∧ r.target = .completed ∨
      r.event = .adminRefund ∧ r.target = .refunded) ∧
      r.actor = .admin ∧ r.needsReason = true := by decide

/-- A review is resolved by an admin who gives a reason. -/
theorem Decided.resolver (hd : Decided e ev actor input now r t₀ t)
    (hsource : e.status = .reviewRequired) :
    (t.target = .completed ∨ t.target = .refunded) ∧ actor.id ≠ "" ∧ t.reason ≠ "" := by
  obtain ⟨htarget, hadmin, hneeds⟩ := resolves_review r hd.mem (hd.source.trans hsource)
  have hmay := hd.mayAct
  rw [hadmin] at hmay
  simp only [checkActor] at hmay
  split at hmay
  · cases hmay
  next hactor =>
  have hgiven : input.reason ≠ "" := by
    intro hempty
    have hblank := hd.reason hneeds
    rw [hempty] at hblank
    exact absurd hblank (by decide)
  obtain ⟨-, -, hevent, -, -, -, happlied, rfl⟩ := hd
  refine ⟨?_, fun h => hactor (Or.inr h), ?_⟩
  · rcases htarget with ⟨hcomplete, htarget⟩ | ⟨hrefund, htarget⟩
    · left
      rw [← hevent, hcomplete] at happlied
      cases happlied
      exact htarget
    · right
      rw [← hevent, hrefund] at happlied
      cases happlied
      exact htarget
  · rcases htarget with ⟨hcomplete, -⟩ | ⟨hrefund, -⟩
    · rw [← hevent, hcomplete] at happlied
      cases happlied
      exact hgiven
    · rw [← hevent, hrefund] at happlied
      cases happlied
      exact hgiven

theorem kind_known (kind : Kind) : kind.text ∈ ["credit.reserve", "credit.release",
    "credit.transfer", "credit.adjust"] ∨ "event.".toList <+: kind.text.toList := by
  cases kind with
  | event name =>
    right
    simp only [Kind.text, String.toList_append]
    exact List.prefix_append _ _
  | creditReserve | creditAdjust | creditRelease | creditTransfer => decide

/-- The rows of a transition of a well-formed errand violate no constraint. -/
theorem WellFormed.storable (hw : WellFormed e) (h : Orders.next e ev actor input now = .ok t) :
    Storable e t := by
  have hafter := hw.next h
  have htarget : (t.applyTo e).status ≠ .none := (next_move h).status.1
  obtain ⟨hversion, -⟩ := hafter.stored htarget
  refine ⟨fun row hrow => ?_, ?_, ?_, ?_, fun row _ => kind_known row.kind⟩
  · rw [rowProblem_insertParams hrow, hafter.rowProblem htarget]
    unfold insertParams at hrow
    simp only [bind_eq_ok, check_eq_ok] at hrow
    obtain ⟨id, -, supplierID, -, _, -, _, -, -, pendingEdit, -, hrow⟩ := hrow
    cases hrow
    rfl
  · intro id before hash grantable s c
    have htarget' : (transitionRow id before (t.applyTo e) t).target ≠ .none := htarget
    have hversion' : (transitionRow id before (t.applyTo e) t).errandVersion ≠ 0 := by
      have : (transitionRow id before (t.applyTo e) t).errandVersion = (t.applyTo e).version := rfl
      omega
    simp only [exec, if_neg htarget', if_neg hversion']
    split <;> simp
  · intro hreview id hash grantable s c
    have hreason : (reviewRow id (t.applyTo e) t).reason ≠ none := by
      have hfits := hafter.review
      have hstatus : (t.applyTo e).status = .reviewRequired := hreview
      rw [hstatus] at hfits
      simp only [Status.fits, Bool.and_eq_true] at hfits
      exact Option.isSome_iff_ne_none.mp hfits.1
    simp only [exec, if_neg hreason]
    split
    · simp
    · split <;> simp
  · intro hsource id hash grantable s c
    obtain ⟨r, t₀, hd⟩ := next_ok h
    have hfor := next_for h
    obtain ⟨hends, hresolver, hreason⟩ := hd.resolver (hfor.source ▸ hsource)
    have hends' : ¬ ((resolutionRow t).target ≠ .completed ∧ (resolutionRow t).target ≠ .refunded) := by
      rintro ⟨hcompleted, hrefunded⟩
      exact hends.elim hcompleted hrefunded
    have hfilled : ¬ ((resolutionRow t).resolverID = "" ∨ (resolutionRow t).reason = "") := by
      rintro (hempty | hempty)
      · exact hresolver (hfor.actor ▸ hempty)
      · exact hreason hempty
    simp only [exec]
    split
    · simp
    · rw [if_neg hends', if_neg hfilled]
      simp

end

/-! ## Lives -/

/-- A new errand, as the handler of `POST /errands` makes it. -/
def newErrand (id requesterID createIdempotencyKey : String) (details : Details) : Errand where
  id := id
  requesterID := requesterID
  details := details
  createIdempotencyKey := createIdempotencyKey

/-- The transition is taken from the errand, in a life that begins with a new errand and
in which every transition is decided on the result of the one before. -/
inductive Taken : Errand → Transition → Prop where
  | submit {id requesterID key : String} {details : Details} {ev : Event} {actor : Actor}
      {input : EventInput} {now : ℤ} {t : Transition}
      (h : next (newErrand id requesterID key details) ev actor input now = .ok t) :
      Taken (newErrand id requesterID key details) t
  | step {e : Errand} {t t' : Transition} {ev : Event} {actor : Actor} {input : EventInput}
      {now : ℤ} (htaken : Taken e t) (h : next (t.applyTo e) ev actor input now = .ok t') :
      Taken (t.applyTo e) t'

theorem wellFormed_newErrand (id requesterID key : String) (details : Details) :
    WellFormed (newErrand id requesterID key details) where
  stored := fun h => absurd rfl h
  courier := ⟨rfl, rfl, rfl⟩
  pendingEdit := nofun
  delivery := rfl
  review := rfl

theorem Taken.wellFormed {e : Errand} {t : Transition} (h : Taken e t) :
    WellFormed e ∧ WellFormed (t.applyTo e) ∧ Storable e t := by
  induction h with
  | @submit id requesterID key details ev actor input now t h =>
    have hw := wellFormed_newErrand id requesterID key details
    exact ⟨hw, hw.next h, hw.storable h⟩
  | step _ h ih =>
    obtain ⟨-, hw, -⟩ := ih
    exact ⟨hw, hw.next h, hw.storable h⟩

/-- The facts about an errand that no single check of the state machine ensures. -/
structure Coherent (e : Errand) : Prop where
  version : 1 ≤ e.version
  reward : 0 < e.details.reward
  courier : e.status ∈ [.assigned, .pickedUp, .delivered, .reviewRequired, .completed,
    .refunded] ↔ e.courierID ≠ "" ∧ e.courierID ≠ e.requesterID ∧
      e.pickupDeadline.isSome = true ∧ e.deliveryDeadline.isSome = true
  noCourier : e.status ∉ [.assigned, .pickedUp, .delivered, .reviewRequired, .completed,
    .refunded] → e.courierID = "" ∧ e.pickupDeadline = none ∧ e.deliveryDeadline = none
  pendingEdit : ∀ p, e.pendingEdit = some p → e.status = .open ∧
    p.key = idempotencyKey e.id "adjust" e.version ∧ 0 < p.details.reward ∧
    p.details.reward ≠ e.details.reward
  verification : e.deliveredAt.isSome = e.verificationDeadline.isSome
  delivered : e.status = .delivered → e.deliveredAt.isSome = true
  disputed : e.status = .reviewRequired →
    (e.deliveredAt.isSome = true ↔ e.reviewReason = some .requesterDispute)
  completed : e.status = .completed → e.reviewReason = none → e.deliveredAt.isSome = true
  undelivered : e.status.terminal = false → e.status ≠ .delivered → e.status ≠ .reviewRequired →
    e.deliveredAt = none
  reviewed : e.status = .reviewRequired ∨ e.status = .refunded → e.reviewReason.isSome = true
  unreviewed : e.status ∉ [.reviewRequired, .refunded, .completed] → e.reviewReason = none

theorem WellFormed.coherent {e : Errand} (hw : WellFormed e) (hstatus : e.status ≠ .none) :
    Coherent e := by
  obtain ⟨hversion, hvalid⟩ := hw.stored hstatus
  have hcourier := hw.courier
  have hreview := hw.review
  have hlist : ∀ s : Status, s ∈ [.assigned, .pickedUp, .delivered, .reviewRequired, .completed,
      .refunded] ↔ s.hasCourier = true := by
    intro s
    cases s <;> decide
  have hnone : e.status.hasCourier = false →
      e.courierID = "" ∧ e.pickupDeadline = none ∧ e.deliveryDeadline = none := by
    intro hhas
    rwa [if_neg (by simp [hhas])] at hcourier
  refine ⟨hversion, hvalid.reward, ?_, ?_, ?_, hw.delivery, ?_, ?_, ?_, ?_, ?_, ?_⟩
  · rw [hlist]
    constructor
    · intro hhas
      rwa [if_pos hhas] at hcourier
    · rintro ⟨hid, -⟩
      by_contra hhas
      exact hid (hnone (by simpa using hhas)).1
  · rw [hlist, Bool.not_eq_true]
    exact hnone
  · intro p hp
    obtain ⟨hopen, hkey, hp, hother⟩ := hw.pendingEdit p hp
    exact ⟨hopen, hkey, hp.reward, hother⟩
  all_goals revert hreview
  all_goals generalize e.status = status
  all_goals
    cases status <;> cases e.deliveredAt <;> cases e.reviewReason <;>
      simp [Status.fits, Status.terminal]

/-- Every errand that transitions have made is coherent, and the rows they write violate no
`CHECK` constraint. -/
theorem errand_coherent {e : Errand} {t : Transition} (h : Taken e t) :
    Coherent (t.applyTo e) ∧ Storable e t := by
  obtain ⟨hbefore, hafter, hstorable⟩ := h.wellFormed
  refine ⟨hafter.coherent ?_, hstorable⟩
  cases h with
  | submit h => exact (next_move h).status.1
  | step _ h => exact (next_move h).status.1

/-- The life of an errand begins with its submission. -/
theorem errand_coherent_submit : ∃ t,
    next sampleErrand .submit ⟨.requester, "auth0|requester"⟩ {} 0 = .ok t ∧
      Coherent (t.applyTo sampleErrand) := by
  have hsubmits : (next sampleErrand .submit ⟨.requester, "auth0|requester"⟩ {} 0).toOption.isSome =
      true := by decide
  cases hnext : next sampleErrand .submit ⟨.requester, "auth0|requester"⟩ {} 0 with
  | ok t =>
    have htaken : Taken (newErrand sampleErrand.id sampleErrand.requesterID
      sampleErrand.createIdempotencyKey sampleErrand.details) t := .submit hnext
    exact ⟨t, rfl, (errand_coherent htaken).1⟩
  | error e =>
    rw [hnext] at hsubmits
    cases hsubmits

end FocServices.Orders
