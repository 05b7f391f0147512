import FocServices.Orders.Story
import FocServices.Orders.Routes

/-!
# Answers to retries

A request whose effect is already there is answered as if it had just made it. The
handlers recognise the effect from the status, the courier and the version of the errand
that they read. Whether it was the caller's own doing is in the log: `Made` reads a row of
the log against the rule that allowed it, and a run of a handler among other transactions
is tied to the log by what it has read.
-/

namespace FocServices.Orders

open Txn

/-! ## What a row of the log says about the errand -/

/-- The row was written by rule `r`, and left the errand as `e`. -/
structure Made (r : Rule) (row : TransitionRow) (e : Errand) : Prop where
  mem : r ∈ transitionTable
  event : row.event = r.event
  source : row.source = r.source
  target : row.target = r.target
  status : e.status = r.target
  version : row.errandVersion = e.version
  review : e.status = .reviewRequired → e.reviewReason = r.review
  requester : r.actor = .requester → row.actorID = e.requesterID
  courier : r.actor = .assignedCourier → row.courierID = row.actorID ∧
    (r.event.assigns true = true → e.courierID = row.actorID)
  accepts : r.event = .accept → e.courierID = row.actorID

section

variable {e e' : Errand} {log : List TransitionRow} {ev : Event} {actor : Actor}
  {input : EventInput} {now : ℤ} {t t₀ : Transition} {r : Rule}

theorem actor_of_requester (h : checkActor .requester e actor input = .ok ()) :
    actor.id = e.requesterID := by
  simp only [checkActor] at h
  split at h
  · cases h
  · next hnot =>
    by_contra hne
    exact hnot (Or.inr (Or.inr hne))

theorem actor_of_assignedCourier (h : checkActor .assignedCourier e actor input = .ok ()) :
    actor.id = e.courierID ∧ actor.id ≠ "" := by
  simp only [checkActor] at h
  split at h
  · cases h
  · next hnot =>
    refine ⟨?_, fun hempty => hnot (Or.inr (Or.inl hempty))⟩
    by_contra hne
    exact hnot (Or.inr (Or.inr hne))

theorem review_of_target : ∀ r ∈ transitionTable, r.target = .reviewRequired →
    r.review.isSome = true := by decide

theorem not_accept_of_assignedCourier : ∀ r ∈ transitionTable, r.actor = .assignedCourier →
    r.event ≠ .accept := by decide

theorem Decided.made (hd : Decided e ev actor input now r t₀ t) (hevent : t.event = ev)
    (hsource : t.source = e.status) (hactor : t.actor = actor)
    (hst : StoredAs (t.applyTo e) e') (hreview : e'.reviewReason = (t.applyTo e).reviewReason)
    (id : String) : Made r (transitionRow id e e' t) e' := by
  have hc := hd.columns
  have hstatus : e'.status = r.target := hst.status.trans hc.status
  have hrule : t.event = r.event := hevent.trans hd.event.symm
  refine ⟨hd.mem, hrule, hsource.trans hd.source.symm, hc.status, hstatus, rfl, ?_, ?_, ?_, ?_⟩
  · intro hreviewing
    have hsome := review_of_target r hd.mem (hstatus.symm.trans hreviewing)
    rw [hreview, hc.reviewReason]
    cases hr : r.review with
    | none =>
      rw [hr] at hsome
      cases hsome
    | some reason => rfl
  · intro hrequester
    have hmay := hd.mayAct
    rw [hrequester] at hmay
    change t.actor.id = e'.requesterID
    rw [hactor, hst.requesterID, hc.requesterID]
    exact actor_of_requester hmay
  · intro hassigned
    have hmay := hd.mayAct
    rw [hassigned] at hmay
    obtain ⟨hsame, hnonempty⟩ := actor_of_assignedCourier hmay
    have hother := not_accept_of_assignedCourier r hd.mem hassigned
    rw [hd.event] at hother
    have hhad : e.courierID ≠ "" := hsame ▸ hnonempty
    refine ⟨?_, fun hkeeps => ?_⟩
    · change (if e.courierID = "" then e'.courierID else e.courierID) = t.actor.id
      rw [if_neg hhad, hactor, hsame]
    · change e'.courierID = t.actor.id
      rw [hd.event] at hkeeps
      rw [hst.courierID, hc.courierID, if_neg hother, if_pos hkeeps, hactor, hsame]
  · intro haccept
    rw [hd.event] at haccept
    change e'.courierID = t.actor.id
    rw [hst.courierID, hc.courierID, if_pos haccept, hactor]

theorem made_of_next (hnext : next e ev actor input now = .ok t)
    (hst : StoredAs (t.applyTo e) e') (hreview : e'.reviewReason = (t.applyTo e).reviewReason)
    (id : String) : ∃ r, Made r (transitionRow id e e' t) e' := by
  obtain ⟨r, t₀, hd⟩ := next_ok hnext
  have hfor := next_for hnext
  exact ⟨r, hd.made hfor.event hfor.source hfor.actor hst hreview id⟩

theorem made_of_step {row : Errand} (hnext : next e ev actor input now = .ok t)
    (hrow : insertParams (t.applyTo e) = .ok row) (id : String) :
    ∃ r, Made r (transitionRow id e (e.overwrite row) t) (e.overwrite row) := by
  have hreview : row.reviewReason = (t.applyTo e).reviewReason := insertParams_reviewReason hrow
  have hst : StoredAs (t.applyTo e) (e.overwrite row) :=
    overwrite_storedAs (insertParams_ok hrow) rfl
  exact made_of_next hnext hst hreview id

/-- The last row shows how the errand came to be as it is. -/
theorem Lived.latest (h : Lived e log) : ∃ init row r, log = init ++ [row] ∧ Made r row e := by
  cases h with
  | submit hid hnext hrow =>
    obtain ⟨r, hmade⟩ := made_of_next hnext (insertParams_ok hrow)
      (insertParams_reviewReason hrow) _
    exact ⟨[], _, r, rfl, hmade⟩
  | step hlived hnext hrow =>
    obtain ⟨r, hmade⟩ := made_of_step hnext hrow _
    exact ⟨_, _, r, rfl, hmade⟩

theorem Lived.made (h : Lived e log) : ∀ row ∈ log, ∃ r e', Made r row e' := by
  induction h with
  | submit hid hnext hrow =>
    obtain ⟨r, hmade⟩ := made_of_next hnext (insertParams_ok hrow)
      (insertParams_reviewReason hrow) _
    rw [List.forall_mem_singleton]
    exact ⟨r, _, hmade⟩
  | step hlived hnext hrow ih =>
    obtain ⟨r, hmade⟩ := made_of_step hnext hrow _
    rw [List.forall_mem_append, List.forall_mem_singleton]
    exact ⟨ih, r, _, hmade⟩

/-- Versions do not go down. -/
theorem Lived.versions (h : Lived e log) : ∀ row ∈ log, row.errandVersion ≤ e.version ∧
    (row.errandVersion = e.version → row.target = e.status) := by
  induction h with
  | submit hid hnext hrow =>
    rw [List.forall_mem_singleton]
    exact ⟨Nat.le_refl _, fun _ => (insertParams_ok hrow).status.symm⟩
  | @step e stored log ev actor input now t hlived hnext hrow ih =>
    have hst := insertParams_ok hrow
    have hstatus : (e.overwrite stored).status = t.target := hst.status
    have hversion : (e.overwrite stored).version = t.newVersion := hst.version
    have hm := next_move hnext
    rw [List.forall_mem_append, List.forall_mem_singleton]
    refine ⟨fun row hmem => ?_, Nat.le_refl _, fun _ => hstatus.symm⟩
    obtain ⟨hle, hsame⟩ := ih row hmem
    rw [hversion, hstatus]
    rcases hm.advance with hnew | ⟨hkept, -⟩
    · rw [hnew]
      exact ⟨by omega, fun heq => absurd heq (by omega)⟩
    · -- only an edit keeps the version, and it stays in `OPEN`
      obtain ⟨r, t₀, hd⟩ := next_ok hnext
      have hedit : ev = .edit := (next_for hnext).event.symm.trans (hm.requests hkept).1
      have htable : ∀ r ∈ transitionTable, r.event = .edit → r.source = r.target := by decide
      have htarget : t.target = e.status := by
        have hafter : t.target = r.target := hd.columns.status
        rw [hafter, ← htable r hd.mem (hd.event.trans hedit), hd.source]
      rw [hkept, htarget]
      exact ⟨hle, hsame⟩

/-- An errand is in one status at each version. -/
theorem Lived.status_at (h : Lived e log) {row row' : TransitionRow} (hrow : row ∈ log)
    (hrow' : row' ∈ log) (heq : row.errandVersion = row'.errandVersion) :
    row.target = row'.target := by
  induction h generalizing row row' with
  | submit hid hnext hstored => rw [List.mem_singleton.mp hrow, List.mem_singleton.mp hrow']
  | @step e stored log ev actor input now t hlived hnext hstored ih =>
    have hversions := (Lived.step hlived hnext hstored).versions
    have hstatus : t.target = (e.overwrite stored).status := (insertParams_ok hstored).status.symm
    rcases List.mem_append.mp hrow with hold | hnew <;>
      rcases List.mem_append.mp hrow' with hold' | hnew'
    · exact ih hold hold' heq
    · rw [List.mem_singleton.mp hnew'] at heq ⊢
      exact ((hversions row hrow).2 heq).trans hstatus.symm
    · rw [List.mem_singleton.mp hnew] at heq ⊢
      exact hstatus.trans ((hversions row' hrow').2 heq.symm).symm
    · rw [List.mem_singleton.mp hnew, List.mem_singleton.mp hnew']

end

/-! ## What the handlers recognise -/

/-- The routes that recognise an effect by the version of the errand. -/
inductive Route where
  | accept
  | withdraw
  | pickUp
  | deliver
  | reportIssue
  | cancel
  | dispute
  deriving DecidableEq, Repr

/-- The action of a route; accepting has a handler of its own. -/
def Route.action : Route → RouteAction
  | .accept => { event := .accept, done := fun e caller v => acceptedByCaller caller v e }
  | .withdraw => withdrawAction
  | .pickUp => pickUpAction
  | .deliver => deliverAction
  | .reportIssue => reportIssueAction
  | .cancel => cancelAction
  | .dispute => disputeAction

/-- The routes of requesters, who must own the errand. -/
def Route.ofRequester : Route → Bool
  | .cancel | .dispute => true
  | _ => false

def Route.handler (buildingName : RawMessage → String) (requestID : String → ℤ → String)
    (route : Route) (r : RouteRequest) : Handler View :=
  if route = .accept then do
    let view ← Accept.accept buildingName requestID r
    return .courier view
  else if route.ofRequester then do
    let view ← Requester.transition buildingName requestID route.action r
    return .requester view
  else do
    let view ← Courier.transition buildingName requestID route.action r
    return .courier view

section

variable {e : Errand} {log : List TransitionRow} {caller : String} {v : ℤ}

/-- The rules that lead to what the handlers recognise. -/
theorem rules_recognised : ∀ r ∈ transitionTable,
    (r.target = .assigned → r.event = .accept) ∧
    (r.target = .pickedUp → r.event = .pickUp ∧ r.actor = .assignedCourier) ∧
    (r.target = .delivered → r.event = .deliver ∧ r.actor = .assignedCourier) ∧
    (r.review = some .courierIssue → r.event = .reportIssue ∧ r.actor = .assignedCourier) ∧
    (r.target = .cancelled → r.event = .cancel ∧ r.actor = .requester) ∧
    (r.review = some .requesterDispute → r.event = .dispute ∧ r.actor = .requester) := by decide

/-- What a route other than withdrawing recognises is the caller's own doing. -/
theorem Lived.recognised (h : Lived e log) {route : Route} (hroute : route ≠ .withdraw)
    (hdone : route.action.done e caller v = true)
    (howner : route.ofRequester = true → e.requesterID = caller) :
    ∃ row ∈ log, row.event = route.action.event ∧ row.actorID = caller ∧
      (row.errandVersion : ℤ) = v + 1 := by
  obtain ⟨init, row, r, rfl, hm⟩ := h.latest
  obtain ⟨haccept, hpickUp, hdeliver, hissue, hcancel, hdispute⟩ := rules_recognised r hm.mem
  -- a courier who keeps the errand is still the courier
  have hcourier : r.actor = .assignedCourier → r.event.assigns true = true →
      e.courierID = caller → row.actorID = caller := fun hactor hkeeps hsame =>
    ((hm.courier hactor).2 hkeeps).symm.trans hsame
  refine ⟨row, List.mem_append_right _ (List.mem_singleton_self _), ?_⟩
  rw [hm.event, hm.version]
  cases route with
  | withdraw => exact absurd rfl hroute
  | accept =>
    simp only [Route.action, acceptedByCaller, Bool.and_eq_true, decide_eq_true_eq] at hdone
    have hevent := haccept (hm.status.symm.trans hdone.1.1)
    exact ⟨hevent, (hm.accepts hevent).symm.trans hdone.1.2, hdone.2⟩
  | pickUp =>
    obtain ⟨hstatus, hsame, hversion⟩ := of_decide_eq_true hdone
    obtain ⟨hevent, hactor⟩ := hpickUp (hm.status.symm.trans hstatus)
    exact ⟨hevent, hcourier hactor (by rw [hevent]; rfl) hsame, hversion⟩
  | deliver =>
    obtain ⟨hstatus, hsame, hversion⟩ := of_decide_eq_true hdone
    obtain ⟨hevent, hactor⟩ := hdeliver (hm.status.symm.trans hstatus)
    exact ⟨hevent, hcourier hactor (by rw [hevent]; rfl) hsame, hversion⟩
  | reportIssue =>
    obtain ⟨hstatus, hreason, hsame, hversion⟩ := of_decide_eq_true hdone
    obtain ⟨hevent, hactor⟩ := hissue ((hm.review hstatus).symm.trans hreason)
    exact ⟨hevent, hcourier hactor (by rw [hevent]; rfl) hsame, hversion⟩
  | cancel =>
    obtain ⟨hstatus, hversion⟩ := of_decide_eq_true hdone
    obtain ⟨hevent, hactor⟩ := hcancel (hm.status.symm.trans hstatus)
    exact ⟨hevent, (hm.requester hactor).trans (howner rfl), hversion⟩
  | dispute =>
    obtain ⟨hstatus, hreason, hversion⟩ := of_decide_eq_true hdone
    obtain ⟨hevent, hactor⟩ := hdispute ((hm.review hstatus).symm.trans hreason)
    exact ⟨hevent, (hm.requester hactor).trans (howner rfl), hversion⟩

theorem rules_withdrawing : ∀ r ∈ transitionTable,
    (r.event = .withdraw → r.source = .assigned ∧ r.actor = .assignedCourier) ∧
    (r.source = .assigned → r.target = .open ∨ r.target = .expired →
      r.event ≠ .pickupDeadlinePassed → r.event = .withdraw) := by decide

/-- What the withdraw route recognises is the caller's own doing if the transition to that
version took the errand from the caller, and was not the pickup deadline. -/
theorem Lived.withdrawn_iff (h : Lived e log) {shown : TransitionRow} (hshown : shown ∈ log)
    (hversion : (shown.errandVersion : ℤ) = v + 1)
    (htarget : shown.target = .open ∨ shown.target = .expired) :
    (∃ row ∈ log, row.event = .withdraw ∧ row.actorID = caller ∧
      (row.errandVersion : ℤ) = v + 1) ↔
    ∃ row ∈ log, (row.errandVersion : ℤ) = v + 1 ∧ row.source = .assigned ∧
      row.courierID = caller ∧ row.event ≠ .pickupDeadlinePassed := by
  constructor
  · rintro ⟨row, hrow, hevent, hactor, hat⟩
    obtain ⟨r, e', hm⟩ := h.made row hrow
    obtain ⟨hsource, hassigned⟩ := (rules_withdrawing r hm.mem).1 (hm.event.symm.trans hevent)
    refine ⟨row, hrow, hat, hm.source.trans hsource, (hm.courier hassigned).1.trans hactor, ?_⟩
    rw [hevent]
    decide
  · rintro ⟨row, hrow, hat, hsource, hcourier, hother⟩
    obtain ⟨r, e', hm⟩ := h.made row hrow
    have hsame : row.target = shown.target := h.status_at hrow hshown (by omega)
    have hwithdraw : r.event = .withdraw := by
      refine (rules_withdrawing r hm.mem).2 (hm.source.symm.trans hsource) ?_ ?_
      · rw [← hm.target, hsame]
        exact htarget
      · rw [← hm.event]
        exact hother
    obtain ⟨-, hassigned⟩ := (rules_withdrawing r hm.mem).1 hwithdraw
    exact ⟨row, hrow, hm.event.trans hwithdraw, (hm.courier hassigned).1.symm.trans hcourier, hat⟩

end

/-! ## What a handler has read -/

/-- A transition that is applied was decided on an errand that was read. -/
def FromRead (log : Program.Log Call.Reply) : Call → Prop
  | .apply t => ∃ id e, ⟨.get id, .ok e⟩ ∈ log ∧ Decides e t
  | _ => True

/-- Why a request was answered: it applied a transition, or it has read the errand in a
state in which the route takes it to be done. `first` is the first errand it has read. -/
def Answers (route : Route) (r : RouteRequest) (log : Program.Log Call.Reply) : Prop :=
  (∃ t stored, ⟨.apply t, .ok stored⟩ ∈ log) ∨
  ∃ id v reason first current, errandIDOf r.caller r.path = .ok id ∧ r.body = .ok (v, reason) ∧
    ⟨.get id, .ok first⟩ ∈ log ∧ ⟨.get id, .ok current⟩ ∈ log ∧
    route.action.done current r.caller v = true ∧
    (route.ofRequester = true → first.requesterID = r.caller)

section Conforms

variable {log : Program.Log Call.Reply} {α β : Type} {post : Program.Log Call.Reply → α → Prop}

theorem conforms_orAnswer {x : Except StoreError β} {f : β → Handler α}
    (h : ∀ b, x = .ok b → (f b).Conforms FromRead post log) :
    (orAnswer x >>= f).Conforms FromRead post log := by
  cases x with
  | ok b => exact h b rfl
  | error err => trivial

theorem loadPickups_conforms (e : Errand) :
    (loadPickups e).Conforms FromRead (fun log' _ => log ⊆ log') log := by
  have hversions : ∀ errandID ids pickups log₀, log ⊆ log₀ →
      (loadVersions errandID ids pickups).Conforms FromRead (fun log' _ => log ⊆ log') log₀ := by
    intro errandID ids
    induction ids with
    | nil => exact fun pickups log₀ hsub => hsub
    | cons id ids ih =>
      intro pickups log₀ hsub
      unfold loadVersions
      split
      · exact ih pickups log₀ hsub
      · refine ⟨trivial, fun reply => ?_⟩
        cases reply with
        | ok version => exact ih _ _ (List.Subset.trans hsub (List.subset_append_left _ _))
        | error err =>
          change Program.Conforms _ _ _ (if err.hasCode [.supplierUnavailable] then _ else _)
          split <;> trivial
  exact hversions _ _ _ log (List.Subset.refl _)

theorem refuse_conforms (requestID : String → ℤ → String) (r : RouteRequest) (actor : ActorType)
    (announce : Option RejectedAction) (codes : List ErrorCode) (id : String) (v : ℤ)
    (err : StoreError) :
    (r.refuse requestID actor announce codes id v err : Handler α).Conforms FromRead post log := by
  unfold RouteRequest.refuse
  split
  · exact ⟨trivial, fun _ => trivial⟩
  · trivial

theorem decide_conforms {r : RouteRequest} {e : Errand} {ev : Event} {actor : ActorType}
    {input : EventInput} {v : ℤ} {refuse : StoreError → Handler Transition}
    (hrefuse : ∀ err, (refuse err).Conforms FromRead (fun log' t => log' = log ∧ Decides e t) log) :
    (r.decide e ev actor input v refuse).Conforms FromRead
      (fun log' t => log' = log ∧ Decides e t) log := by
  unfold RouteRequest.decide
  split
  · exact hrefuse _
  · next t ht =>
    split
    · exact hrefuse _
    · exact ⟨rfl, _, _, _, _, ht⟩

theorem applyOrDuplicate_conforms {id : String} {t : Transition} {e : Errand}
    {done : Errand → Bool} {refuse : StoreError → Handler Errand}
    (hread : ∃ id, ⟨.get id, .ok e⟩ ∈ log) (hdecides : Decides e t)
    (hrefuse : ∀ err log' (post : Program.Log Call.Reply → Errand → Prop),
      (refuse err).Conforms FromRead post log') :
    (applyOrDuplicate id t done refuse).Conforms FromRead (fun log' current => log ⊆ log' ∧
      ((∃ t stored, ⟨.apply t, .ok stored⟩ ∈ log') ∨
        ⟨.get id, .ok current⟩ ∈ log' ∧ done current = true)) log := by
  obtain ⟨id₀, hread⟩ := hread
  refine ⟨⟨id₀, e, hread, hdecides⟩, fun reply => ?_⟩
  cases reply with
  | ok stored =>
    exact ⟨List.subset_append_left _ _, Or.inl ⟨t, stored, by simp⟩⟩
  | error err =>
    change Program.Conforms _ _ _ (lostToDuplicate id err done >>= _)
    unfold lostToDuplicate
    split
    · refine ⟨trivial, fun reply => ?_⟩
      cases reply with
      | error err' => exact hrefuse _ _ _
      | ok current =>
        change Program.Conforms _ _ _
          (Program.pure (if done current then some current else none) >>= _)
        by_cases hdone : done current = true
        · rw [if_pos hdone]
          exact ⟨by simp, Or.inr ⟨by simp, hdone⟩⟩
        · rw [if_neg hdone]
          exact hrefuse _ _ _
    · exact hrefuse _ _ _

theorem respond_conforms {e : Errand} {f : Pickups → α}
    (h : ∀ log' a, log ⊆ log' → post log' a) :
    (loadPickups e >>= fun pickups => .pure (f pickups)).Conforms FromRead post log :=
  Program.conforms_bind (loadPickups_conforms e) fun log' _ hsub => h log' _ hsub

section Handlers

variable {buildingName : RawMessage → String} {requestID : String → ℤ → String} {route : Route}
  {r : RouteRequest} {id : String} {v : ℤ} {reason : String} {e : Errand}

/-- The end of the handlers: the transition is decided and applied, or the request has lost
to a duplicate. -/
theorem answers_of_applied {current : Errand} (hid : errandIDOf r.caller r.path = .ok id)
    (hbody : r.body = .ok (v, reason)) (hread : ⟨.get id, .ok e⟩ ∈ log)
    (howner : route.ofRequester = true → e.requesterID = r.caller)
    (h : (∃ t stored, ⟨.apply t, .ok stored⟩ ∈ log) ∨
      ⟨.get id, .ok current⟩ ∈ log ∧ route.action.done current r.caller v = true) :
    Answers route r log := by
  rcases h with happlied | ⟨hcurrent, hdone⟩
  · exact Or.inl happlied
  · exact Or.inr ⟨id, v, reason, e, current, hid, hbody, hread, hcurrent, hdone, howner⟩

theorem Answers.mono {log' : Program.Log Call.Reply} (h : Answers route r log) (hsub : log ⊆ log') :
    Answers route r log' := by
  rcases h with ⟨t, stored, h⟩ | ⟨id, v, reason, first, current, hid, hbody, hfirst, hcurrent, h⟩
  · exact Or.inl ⟨t, stored, hsub h⟩
  · exact Or.inr ⟨id, v, reason, first, current, hid, hbody, hsub hfirst, hsub hcurrent, h⟩

theorem Accept.eligibility_conforms (errandID courier : String) (now : ℤ) :
    (Accept.eligibility errandID courier now).Conforms FromRead (fun log' _ => log ⊆ log') log := by
  unfold Accept.eligibility
  refine ⟨trivial, fun reply => conforms_orAnswer fun settings _ => ?_⟩
  refine ⟨trivial, fun reply => conforms_orAnswer fun history _ => ?_⟩
  exact List.Subset.trans (List.subset_append_left _ _) (List.subset_append_left _ _)

theorem RouteAction.deadlines_conforms (a : RouteAction) :
    a.deadlines.Conforms FromRead (fun log' _ => log ⊆ log') log := by
  unfold RouteAction.deadlines
  split
  · refine ⟨trivial, fun reply => conforms_orAnswer fun settings _ => ?_⟩
    exact List.subset_append_left _ _
  · exact List.Subset.refl _

/-- The handlers of couriers and requesters after they have read the errand. -/
theorem decideAndApply_conforms {ev : Event} {actor : ActorType} {input : EventInput}
    {announce : Option RejectedAction} {codes : List ErrorCode} {f : Errand → Pickups → α}
    (hid : errandIDOf r.caller r.path = .ok id) (hbody : r.body = .ok (v, reason))
    (hread : ⟨.get id, .ok e⟩ ∈ log)
    (howner : route.ofRequester = true → e.requesterID = r.caller) :
    (r.decide e ev actor input v (r.refuse requestID actor announce codes id v) >>= fun t =>
      loadPickups e >>= fun pickups =>
      applyOrDuplicate id t (fun current => route.action.done current r.caller v)
        (r.refuse requestID actor announce codes id v) >>= fun stored =>
      .pure (f stored pickups)).Conforms FromRead (fun log _ => Answers route r log) log := by
  refine Program.conforms_bind (decide_conforms fun err => refuse_conforms ..) fun log₁ t ht => ?_
  obtain ⟨rfl, hdecides⟩ := ht
  refine Program.conforms_bind (loadPickups_conforms e) fun log₂ pickups hsub => ?_
  refine Program.conforms_bind (applyOrDuplicate_conforms ⟨id, hsub hread⟩ hdecides
    fun err log' post => refuse_conforms ..) fun log₃ current hcurrent => ?_
  exact answers_of_applied hid hbody (hcurrent.1 (hsub hread)) howner hcurrent.2

theorem Accept.accept_conforms :
    (Accept.accept buildingName requestID r).Conforms FromRead
      (fun log _ => Answers .accept r log) [] := by
  unfold Accept.accept
  refine conforms_orAnswer fun id hid => conforms_orAnswer fun body hbody => ?_
  obtain ⟨v, reason⟩ := body
  refine ⟨trivial, fun reply => conforms_orAnswer fun e he => ?_⟩
  subst he
  have hother : Route.accept.ofRequester = true → e.requesterID = r.caller := fun h =>
    absurd h (by decide)
  split
  · next hdone =>
    exact respond_conforms fun log' _ hsub => answers_of_applied hid hbody
      (hsub (List.mem_singleton_self _)) hother (Or.inr ⟨hsub (List.mem_singleton_self _), hdone⟩)
  · refine Program.conforms_bind (Accept.eligibility_conforms _ _ _) fun log input hsub => ?_
    have hread := hsub (List.mem_singleton_self _)
    refine Program.conforms_bind (decide_conforms fun err => refuse_conforms ..)
      fun log₁ t ht => ?_
    obtain ⟨rfl, hdecides⟩ := ht
    refine Program.conforms_bind (applyOrDuplicate_conforms ⟨id, hread⟩ hdecides
      fun err log' post => refuse_conforms ..) fun log₂ current hcurrent => ?_
    exact respond_conforms fun log' _ hsub' =>
      (answers_of_applied hid hbody (hcurrent.1 hread) hother hcurrent.2).mono hsub'

theorem Courier.transition_conforms (hcourier : route.ofRequester = false) :
    (Courier.transition buildingName requestID route.action r).Conforms FromRead
      (fun log _ => Answers route r log) [] := by
  have hother : ∀ e : Errand, route.ofRequester = true → e.requesterID = r.caller := fun e h =>
    absurd h (by rw [hcourier]; decide)
  unfold Courier.transition
  refine conforms_orAnswer fun id hid => conforms_orAnswer fun body hbody => ?_
  obtain ⟨v, reason⟩ := body
  refine ⟨trivial, fun reply => conforms_orAnswer fun e he => ?_⟩
  subst he
  -- an errand that shows the effect of the request
  have hshows : route.action.done e r.caller v = true → ∀ log,
      (⟨.get id, .ok e⟩ : Sigma Call.Reply) ∈ log →
        (Courier.respondLoaded buildingName e).Conforms FromRead
          (fun log _ => Answers route r log) log := by
    intro hdone log hread
    exact respond_conforms fun log' _ hsub => answers_of_applied hid hbody (hsub hread)
      (hother e) (Or.inr ⟨hsub hread, hdone⟩)
  split
  · unfold Courier.notCourier
    refine ⟨trivial, fun reply => conforms_orAnswer fun history _ => ?_⟩
    split
    · trivial
    split
    · next hdone => exact hshows hdone _ (by simp)
    · exact refuse_conforms ..
  split
  · next hdone => exact hshows hdone _ (List.mem_singleton_self _)
  · refine Program.conforms_bind (RouteAction.deadlines_conforms _) fun log deadlines hsub => ?_
    exact decideAndApply_conforms hid hbody (hsub (List.mem_singleton_self _)) (hother e)

theorem Requester.transition_conforms :
    (Requester.transition buildingName requestID route.action r).Conforms FromRead
      (fun log _ => Answers route r log) [] := by
  unfold Requester.transition
  refine conforms_orAnswer fun id hid => conforms_orAnswer fun body hbody => ?_
  obtain ⟨v, reason⟩ := body
  refine ⟨trivial, fun reply => conforms_orAnswer fun e he => ?_⟩
  subst he
  split
  · trivial
  next howner =>
  have howner : route.ofRequester = true → e.requesterID = r.caller := fun _ => not_not.mp howner
  split
  · next hdone =>
    exact respond_conforms fun log' _ hsub => answers_of_applied hid hbody
      (hsub (List.mem_singleton_self _)) howner (Or.inr ⟨hsub (List.mem_singleton_self _), hdone⟩)
  · exact decideAndApply_conforms hid hbody (List.mem_singleton_self _) howner

/-- A handler answers for one of the two reasons. -/
theorem Route.conforms (route : Route) (r : RouteRequest) :
    (route.handler buildingName requestID r).Conforms FromRead
      (fun log _ => Answers route r log) [] := by
  unfold Route.handler
  split
  · next haccept =>
    subst haccept
    exact Program.conforms_bind Accept.accept_conforms fun _ _ h => h
  split
  · exact Program.conforms_bind Requester.transition_conforms fun _ _ h => h
  · next hcourier =>
    exact Program.conforms_bind (Courier.transition_conforms (by simpa using hcourier))
      fun _ _ h => h

end Handlers

end Conforms

/-! ## Handlers among other transactions -/

/-- The transaction behind a call, if it has one. -/
def Call.job : Call → Option Job
  | .apply t => some (.apply t)
  | .recordRejection r => some (.recordRejection r)
  | _ => none

/-- A call that fails for a reason that is no answer to a client. -/
def Call.failure : (q : Call) → StoreError → Option q.Reply
  | .get _, err | .apply _, err | .courierHistory _ _ _, err | .settings, err | .getVersion _, err
  | .recordRejection _, err | .listOpen _ _, err => some (.error err)
  | .cached, _ | .cache _, _ => none

/-- How a call may be answered on the tables `s`, and whether its transaction has run. What
the settings, the supplier service and the cache answer is not in the tables. -/
inductive Call.Answered (hash : String → ℤ) (s : Tables) : (q : Call) → q.Reply → Bool → Prop where
  | get (id : String) :
      Answered hash s (.get id) ((engine hash).atomically (Orders.get id) s 0).1 false
  | courierHistory (errandID courierID : String) (since : ℤ) :
      Answered hash s (.courierHistory errandID courierID since)
        (.ok (s.courierHistory (scanUUID errandID) courierID (micros since))) false
  | apply (t : Transition) :
      Answered hash s (.apply t) ((engine hash).atomically (Orders.apply t) s 0).1 true
  | recordRejection (r : Rejection) :
      Answered hash s (.recordRejection r)
        ((engine hash).atomically (Orders.recordRejection r) s 0).1 true
  | settings (reply : Except StoreError SystemSettings) : Answered hash s .settings reply false
  | getVersion (id : String) (reply : Except StoreError SupplierVersion) :
      Answered hash s (.getVersion id) reply false
  | cached (reply : Option (List OpenErrandView)) : Answered hash s .cached reply false
  | cache (views : List OpenErrandView) : Answered hash s (.cache views) () false
  | listOpen (now : ℤ) (after : Option OpenCursor)
      (reply : Except StoreError (List Errand × Option OpenCursor)) :
      Answered hash s (.listOpen now after) reply false
  | fault (q : Call) (err : StoreError) (reply : q.Reply) (hreply : q.failure err = some reply)
      (herr : err.asApp = none) (ran : Bool) : Answered hash s q reply ran

/-- The tables after a call. -/
def Call.after (hash : String → ℤ) (q : Call) (ran : Bool) (s : Tables) (past : List Tables) :
    List Tables :=
  match q.job with
  | some job => if ran then job.perform hash s :: s :: past else s :: past
  | none => s :: past

/-- How far a handler has come while other transactions run: the tables so far, newest
first, the calls it has made with their answers, and what is left of it. -/
inductive Handled (hash : String → ℤ) {α : Type} (h : Handler α) :
    List Tables → Program.Log Call.Reply → Handler α → Prop where
  | start {tables : List Tables} (hpassed : Passed hash tables) : Handled hash h tables [] h
  | other {s : Tables} {past : List Tables} {log : Program.Log Call.Reply} {rest : Handler α}
      (job : Job) (hrun : Handled hash h (s :: past) log rest) (hjob : job.Founded (s :: past)) :
      Handled hash h (job.perform hash s :: s :: past) log rest
  | call {s : Tables} {past : List Tables} {log : Program.Log Call.Reply} {q : Call}
      {rest : q.Reply → Handler α} {reply : q.Reply} {ran : Bool}
      (hrun : Handled hash h (s :: past) log (.stmt q rest))
      (hanswer : q.Answered hash s reply ran) :
      Handled hash h (q.after hash ran s past) (log ++ [⟨q, reply⟩]) (rest reply)

section Runs

variable {hash : String → ℤ} {α : Type} {h rest : Handler α} {tables : List Tables}
  {log : Program.Log Call.Reply} {post : Program.Log Call.Reply → α → Prop}

theorem Call.subset_after (q : Call) (ran : Bool) (s : Tables) (past : List Tables) :
    s :: past ⊆ q.after hash ran s past := by
  unfold Call.after
  split
  · split
    · exact List.subset_cons_self _ _
    · exact List.Subset.refl _
  · exact List.Subset.refl _

/-- A read that succeeds finds the errand. -/
theorem Call.Answered.found {s : Tables} {id : String} {e : Errand} {ran : Bool}
    {reply : Except StoreError Errand} (h : Call.Answered hash s (.get id) reply ran)
    (hok : reply = .ok e) : e ∈ s.errands ∧ scanUUID id = some e.id := by
  cases h with
  | get => exact get_found hok
  | fault _ err _ hreply =>
    subst hok
    cases hreply

/-- What is known about a handler on its way: it has read errands as they were stored, and
still conforms. -/
structure OnItsWay (hash : String → ℤ) (post : Program.Log Call.Reply → α → Prop)
    (tables : List Tables) (log : Program.Log Call.Reply) (rest : Handler α) : Prop where
  passed : Passed hash tables
  reads : ∀ id e, ⟨.get id, .ok e⟩ ∈ log → ∃ s ∈ tables, e ∈ s.errands ∧ scanUUID id = some e.id
  conforms : rest.Conforms FromRead post log

/-- A call that a handler makes leaves tables that jobs lead to. -/
theorem OnItsWay.passed_after {s : Tables} {past : List Tables} {q : Call}
    {next : q.Reply → Handler α} (h : OnItsWay hash post (s :: past) log (.stmt q next))
    (ran : Bool) : Passed hash (q.after hash ran s past) := by
  cases ran with
  | false => cases q <;> exact h.passed
  | true =>
    cases q with
    | apply t =>
      obtain ⟨id, e, hread, hdecides⟩ := h.conforms.1
      obtain ⟨s₀, hs₀, he, -⟩ := h.reads id e hread
      exact .perform (.apply t) h.passed ⟨s₀, hs₀, e, he, hdecides⟩
    | recordRejection r => exact .perform (.recordRejection r) h.passed trivial
    | _ => exact h.passed

theorem Handled.onItsWay (hrun : Handled hash h tables log rest)
    (hconforms : h.Conforms FromRead post []) : OnItsWay hash post tables log rest := by
  induction hrun with
  | start hpassed => exact ⟨hpassed, by simp, hconforms⟩
  | other job hrun hjob ih =>
    refine ⟨.perform job ih.passed hjob, fun id e hread => ?_, ih.conforms⟩
    obtain ⟨s, hs, he⟩ := ih.reads id e hread
    exact ⟨s, List.mem_cons_of_mem _ hs, he⟩
  | @call s past log q rest reply ran hrun hanswer ih =>
    refine ⟨ih.passed_after ran, fun id e hread => ?_, ih.conforms.2 reply⟩
    have hsub : s :: past ⊆ q.after hash ran s past := Call.subset_after q ran s past
    rcases List.mem_append.mp hread with hold | hnew
    · obtain ⟨s₀, hs₀, he⟩ := ih.reads id e hold
      exact ⟨s₀, hsub hs₀, he⟩
    · obtain ⟨rfl, hreply⟩ := Sigma.mk.inj (List.mem_singleton.mp hnew)
      exact ⟨s, hsub List.mem_cons_self, hanswer.found (eq_of_heq hreply).symm⟩

/-- What a route shows to have been done is in the log, of the caller's own doing. -/
def Tables.shows (s : Tables) (route : Route) (id caller : String) (v : ℤ) : Prop :=
  ∃ row ∈ s.logOf id, row.event = route.action.event ∧ row.actorID = caller ∧
    (row.errandVersion : ℤ) = v + 1

/-- The transition to the version after `v` took the errand from the courier, and was not
the pickup deadline. -/
def Tables.left (s : Tables) (id courier : String) (v : ℤ) : Prop :=
  ∃ row ∈ s.logOf id, (row.errandVersion : ℤ) = v + 1 ∧ row.source = .assigned ∧
    row.courierID = courier ∧ row.event ≠ .pickupDeadlinePassed

instance (s : Tables) (route : Route) (id caller : String) (v : ℤ) :
    Decidable (s.shows route id caller v) := by
  unfold Tables.shows
  infer_instance

instance (s : Tables) (id courier : String) (v : ℤ) : Decidable (s.left id courier v) := by
  unfold Tables.left
  infer_instance

theorem Passed.shows_iff {s s₀ : Tables} {past : List Tables} {route : Route} {e : Errand}
    {caller : String} {v : ℤ} (h : Passed hash (s :: past)) (hs₀ : s₀ ∈ s :: past)
    (he : e ∈ s₀.errands) (hdone : route.action.done e caller v = true)
    (howner : route.ofRequester = true → e.requesterID = caller) :
    s.shows route e.id caller v ↔ (route = .withdraw → s.left e.id caller v) := by
  obtain ⟨_, hearlier⟩ := h.earlier hs₀
  obtain ⟨_, _, heq, hrecorded₀, -⟩ := hearlier.recorded
  cases heq
  obtain ⟨_, _, heq, hrecorded, hpast⟩ := h.recorded
  cases heq
  obtain ⟨_, _, heq, hgrows⟩ := h.log_grows
  cases heq
  have hlived₀ := hrecorded₀.lived e he
  have hlog : s₀.logOf e.id ⊆ s.logOf e.id := ((hgrows s₀ hs₀).filter _).subset
  by_cases hroute : route = .withdraw
  · subst hroute
    obtain ⟨-, e', he', hsucceeds⟩ := hpast s₀ hs₀ e he
    obtain ⟨init, row, hends, htarget, hversion⟩ := hlived₀.log_ends
    obtain ⟨hstatus, hat⟩ := of_decide_eq_true hdone
    have hrow : row ∈ s₀.logOf e.id := by simp [hends]
    have hlived := hrecorded.lived e' he'
    rw [hsucceeds.id] at hlived
    rw [← hversion] at hat
    rw [← htarget] at hstatus
    refine Iff.trans ?_ (forall_prop_of_true rfl).symm
    exact hlived.withdrawn_iff (hlog hrow) hat hstatus
  · refine iff_of_true ?_ fun hwithdraw => absurd hwithdraw hroute
    obtain ⟨row, hrow, hshows⟩ := hlived₀.recognised hroute hdone howner
    exact ⟨row, hlog hrow, hshows⟩

/-- The errand has the owner it had when it was read first. -/
theorem Passed.requesterID {s₁ s₂ : Tables} {e₁ e₂ : Errand} (h : Passed hash tables)
    (hs₁ : s₁ ∈ tables) (hs₂ : s₂ ∈ tables) (he₁ : e₁ ∈ s₁.errands) (he₂ : e₂ ∈ s₂.errands)
    (hid : e₁.id = e₂.id) : e₁.requesterID = e₂.requesterID := by
  obtain ⟨s, past, rfl, hrecorded, hpast⟩ := h.recorded
  obtain ⟨-, e₁', he₁', hsucceeds₁⟩ := hpast s₁ hs₁ e₁ he₁
  obtain ⟨-, e₂', he₂', hsucceeds₂⟩ := hpast s₂ hs₂ e₂ he₂
  obtain rfl : e₁' = e₂' := hrecorded.keyed.unique.eq he₁' he₂'
    (hsucceeds₁.id.trans (hid.trans hsucceeds₂.id.symm))
  exact hsucceeds₁.requesterID.symm.trans hsucceeds₂.requesterID

/-- The answer of a call that does not fail. -/
def Call.reply (hash : String → ℤ) (settings : SystemSettings) (s : Tables) : (q : Call) → q.Reply
  | .get id => ((engine hash).atomically (Orders.get id) s 0).1
  | .courierHistory errandID courierID since =>
    .ok (s.courierHistory (scanUUID errandID) courierID (micros since))
  | .settings => .ok settings
  | .getVersion _ => .ok {}
  | .apply t => ((engine hash).atomically (Orders.apply t) s 0).1
  | .recordRejection r => ((engine hash).atomically (Orders.recordRejection r) s 0).1
  | .cached => none
  | .cache _ => ()
  | .listOpen _ _ => .ok ([], none)

theorem Call.answered_reply (settings : SystemSettings) (s : Tables) (q : Call) :
    q.Answered hash s (q.reply hash settings s) q.job.isSome := by
  cases q <;> constructor

/-- A handler served at once, with nothing in between. -/
def serve (hash : String → ℤ) (settings : SystemSettings) :
    Handler α → List Tables → Program.Log Call.Reply →
      Option (List Tables × Program.Log Call.Reply × α)
  | .pure a, tables, log => some (tables, log, a)
  | .stmt q next, s :: past, log =>
    serve hash settings (next (q.reply hash settings s)) (q.after hash q.job.isSome s past)
      (log ++ [⟨q, q.reply hash settings s⟩])
  | _, _, _ => none

theorem Handled.serve {settings : SystemSettings} {tables' : List Tables}
    {log' : Program.Log Call.Reply} {a : α} (hrun : Handled hash h tables log rest)
    (hserve : serve hash settings rest tables log = some (tables', log', a)) :
    Handled hash h tables' log' (.pure a) := by
  induction rest generalizing tables log with
  | pure a =>
    cases hserve
    exact hrun
  | fail err => cases tables <;> cases hserve
  | stmt q next ih =>
    cases tables with
    | nil => cases hserve
    | cons s past => exact ih _ (hrun.call (q.answered_reply settings s)) hserve

/-- Events on the first errand, one after another. -/
def enact (hash : String → ℤ) : List (Event × Actor × EventInput) → List Tables →
    Option (List Tables)
  | [], tables => some tables
  | (ev, actor, input) :: rest, tables => do
    let s ← tables.head?
    let e ← s.errands.head?
    let t ← (next e ev actor input 0).toOption
    enact hash rest ((Job.apply t).perform hash s :: tables)

theorem Passed.enact {events : List (Event × Actor × EventInput)} {tables' : List Tables}
    (hpassed : Passed hash tables) (henact : enact hash events tables = some tables') :
    Passed hash tables' := by
  induction events generalizing tables with
  | nil =>
    cases henact
    exact hpassed
  | cons event events ih =>
    simp only [Orders.enact, Option.bind_eq_bind, Option.bind_eq_some_iff, toOption_eq_some]
      at henact
    obtain ⟨s, hs, e, he, t, ht, henact⟩ := henact
    obtain ⟨past, rfl⟩ := List.head?_eq_some_iff.mp hs
    exact ih (.perform (.apply t) hpassed ⟨s, List.mem_cons_self, e, List.mem_of_mem_head? he,
      _, _, _, _, ht⟩) henact

variable {buildingName : RawMessage → String} {requestID : String → ℤ → String}

/-- A request to one of the routes that is answered without its having applied a transition
finds its effect in the log, as the caller's own doing, unless the route is to withdraw:
then that holds if and only if the transition to the version after the expected one took
the errand from the caller, and was not the pickup deadline. -/
theorem retry_answers {route : Route} {r : RouteRequest} {view : View}
    (hrun : Handled hash (route.handler buildingName requestID r) tables log (.pure view))
    (hnone : ∀ t stored, ⟨.apply t, .ok stored⟩ ∉ log) :
    ∃ path v reason id s past, errandIDOf r.caller r.path = .ok path ∧ r.body = .ok (v, reason) ∧
      scanUUID path = some id ∧ tables = s :: past ∧
      (s.shows route id r.caller v ↔ (route = .withdraw → s.left id r.caller v)) := by
  obtain ⟨hpassed, hreads, hanswers⟩ := hrun.onItsWay (route.conforms r)
  rcases hanswers with ⟨t, stored, happlied⟩ |
    ⟨path, v, reason, first, current, hpath, hbody, hfirst, hcurrent, hdone, howner⟩
  · exact absurd happlied (hnone t stored)
  obtain ⟨s₁, hs₁, he₁, hid₁⟩ := hreads path first hfirst
  obtain ⟨s₂, hs₂, he₂, hid₂⟩ := hreads path current hcurrent
  have hsame : first.id = current.id := Option.some.inj (hid₁.symm.trans hid₂)
  have howns : route.ofRequester = true → current.requesterID = r.caller := fun hroute =>
    (hpassed.requesterID hs₂ hs₁ he₂ he₁ hsame.symm).trans (howner hroute)
  obtain ⟨s, past, rfl, -⟩ := hpassed.recorded
  exact ⟨path, v, reason, current.id, s, past, hpath, hbody, hid₂, rfl,
    hpassed.shows_iff hs₂ he₂ hdone howns⟩

end Runs

/-- The tables after `sampleErrand` was submitted, and then went through these events. -/
def sampleStory (events : List (Event × Actor × EventInput)) : Option (List Tables) := do
  let t ← (next sampleErrand .submit ⟨.requester, "auth0|requester"⟩ {} 0).toOption
  enact (fun _ => 0) ((.reservationConfirmed, systemActor, {}) :: events)
    [(Job.create sampleErrand t).perform (fun _ => 0) {}, {}]

theorem passed_sampleStory {events : List (Event × Actor × EventInput)} {tables : List Tables}
    (h : sampleStory events = some tables) : Passed (fun _ => 0) tables := by
  simp only [sampleStory, Option.bind_eq_bind, Option.bind_eq_some_iff, toOption_eq_some] at h
  obtain ⟨t, ht, h⟩ := h
  exact Passed.enact (.perform (.create sampleErrand t) .start
    ⟨_, _, _, _, rfl, by decide, _, _, _, ht⟩) h

/-- A courier who accepts the errand and withdraws from it. -/
def passage (courier : String) : List (Event × Actor × EventInput) :=
  [(.accept, ⟨.courier, courier⟩, { deadlines := defaultDeadlineSettings }),
    (.withdraw, ⟨.courier, courier⟩, {})]

/-- A request to withdraw from `sampleErrand`. -/
def withdrawRequest (courier : String) (v : ℤ) : RouteRequest :=
  { caller := courier, path := sampleErrand.id, body := .ok (v, ""), now := 0 }

def Call.isApply : Call → Bool
  | .apply _ => true
  | _ => false

/-- The request is served without applying a transition, and leaves the caller's part in the
log as said. -/
def withdrawAnswered (tables : List Tables) (courier : String) (shown : Tables → Bool) : Bool :=
  (serve (fun _ => 0) ⟨{}, ⟨0, 0⟩⟩ (Route.withdraw.handler (fun _ => "") (fun _ _ => "")
    (withdrawRequest courier 5)) tables []).any fun (tables, log, _) =>
      (log.all fun c => !c.1.isApply) && tables.head?.any shown

/-- Two couriers withdraw one after the other. Both are then told that a withdrawal at the
version at which the second had the errand was done. -/
theorem withdraw_answered_twice : ((sampleStory (passage "auth0|first" ++
    passage "auth0|second")).map fun tables =>
      withdrawAnswered tables "auth0|second"
        (fun s => decide (s.left sampleErrand.id "auth0|second" 5)) &&
      withdrawAnswered tables "auth0|first"
        (fun s => decide (¬ s.shows .withdraw sampleErrand.id "auth0|first" 5))) = some true := by
  decide +kernel

theorem handled_of_withdrawAnswered {tables₀ : List Tables} {courier : String}
    {shown : Tables → Bool} (hpassed : Passed (fun _ => 0) tables₀)
    (h : withdrawAnswered tables₀ courier shown = true) :
    ∃ tables log view, Handled (fun _ => 0) (Route.withdraw.handler (fun _ => "") (fun _ _ => "")
      (withdrawRequest courier 5)) tables log (.pure view) ∧
    (∀ t stored, ⟨.apply t, .ok stored⟩ ∉ log) ∧ ∃ s past, tables = s :: past ∧
      shown s = true := by
  obtain ⟨⟨tables, log, view⟩, hserve, hfacts⟩ := (Option.any_eq_true _ _).mp h
  obtain ⟨hnone, hshown⟩ := Bool.and_eq_true_iff.mp hfacts
  refine ⟨tables, log, view, (Handled.start hpassed).serve hserve, fun t stored happlied => ?_, ?_⟩
  · exact absurd (List.all_eq_true.mp hnone _ happlied) (by simp [Call.isApply])
  · cases tables with
    | nil => cases hshown
    | cons s past => exact ⟨s, past, rfl, hshown⟩

/-- The courier sends the request to withdraw once more. -/
theorem retry_answers_withdraw : ∃ tables log view s past,
    Handled (fun _ => 0) (Route.withdraw.handler (fun _ => "") (fun _ _ => "")
      (withdrawRequest "auth0|second" 5)) tables log (.pure view) ∧
    (∀ t stored, ⟨.apply t, .ok stored⟩ ∉ log) ∧ tables = s :: past ∧
    s.shows .withdraw sampleErrand.id "auth0|second" 5 := by
  have hpath : errandIDOf "auth0|second" sampleErrand.id = .ok sampleErrand.id := by
    decide
  have hid : scanUUID sampleErrand.id = some sampleErrand.id := by decide
  obtain ⟨tables₀, hstory, hboth⟩ := Option.map_eq_some_iff.mp withdraw_answered_twice
  obtain ⟨tables, log, view, hrun, hnone, s, past, rfl, hleft⟩ :=
    handled_of_withdrawAnswered (passed_sampleStory hstory) (Bool.and_eq_true_iff.mp hboth).1
  obtain ⟨path, v, reason, id, s', past', hpath', hbody, hid', heq, hiff⟩ :=
    retry_answers hrun hnone
  cases heq
  obtain rfl := Except.ok.inj (hpath.symm.trans hpath')
  obtain rfl := Option.some.inj (hid.symm.trans hid')
  cases hbody
  exact ⟨_, log, view, s, past, hrun, hnone, rfl, hiff.mpr fun _ => of_decide_eq_true hleft⟩

/-- The first courier, who did not have the errand at that version, is told so as well. -/
theorem withdraw_answered_for_another : ∃ tables log view s past,
    Handled (fun _ => 0) (Route.withdraw.handler (fun _ => "") (fun _ _ => "")
      (withdrawRequest "auth0|first" 5)) tables log (.pure view) ∧
    (∀ t stored, ⟨.apply t, .ok stored⟩ ∉ log) ∧ tables = s :: past ∧
    ¬ s.shows .withdraw sampleErrand.id "auth0|first" 5 := by
  obtain ⟨tables₀, hstory, hboth⟩ := Option.map_eq_some_iff.mp withdraw_answered_twice
  obtain ⟨tables, log, view, hrun, hnone, s, past, rfl, hshown⟩ :=
    handled_of_withdrawAnswered (passed_sampleStory hstory) (Bool.and_eq_true_iff.mp hboth).2
  exact ⟨_, log, view, s, past, hrun, hnone, rfl, of_decide_eq_true hshown⟩

end FocServices.Orders
