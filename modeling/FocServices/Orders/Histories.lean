import FocServices.Orders.Lifecycle
import Mathlib.Data.List.Chain

/-!
# Histories of errands

The log of transitions tells how a stored errand came to be: it was submitted, and every
later row is a transition that was decided on what the row before it left. `Lived` says
so for one errand and its rows. What the log has to do with the errand is proved from it
by induction: the rows join up, the last one shows the state of the errand, and a
withdrawal names the courier who accepted last.
-/

namespace FocServices.Orders

open Txn

/-- The rows of the log about an errand, oldest first. -/
def Tables.logOf (s : Tables) (id : String) : List TransitionRow :=
  s.transitions.filter fun row => row.errandID = id

section

variable {s s' : Tables} {row : TransitionRow}

theorem Tables.logOf_self (h : s'.transitions = s.transitions ++ [row]) :
    s'.logOf row.errandID = s.logOf row.errandID ++ [row] := by
  simp [Tables.logOf, h]

theorem Tables.logOf_other (h : s'.transitions = s.transitions ++ [row]) {id : String}
    (hid : row.errandID ≠ id) : s'.logOf id = s.logOf id := by
  simp [Tables.logOf, h, hid]

end

/-- The errand is stored as these transitions left it. -/
inductive Lived : Errand → List TransitionRow → Prop where
  | submit {id requesterID key : String} {details : Details} {actor : Actor} {input : EventInput}
      {now : ℤ} {t : Transition} {row : Errand} (hid : Canonical id)
      (hnext : next (newErrand id requesterID key details) .submit actor input now = .ok t)
      (hrow : insertParams (t.applyTo (newErrand id requesterID key details)) = .ok row) :
      Lived row [transitionRow id (newErrand id requesterID key details) row t]
  | step {e row : Errand} {log : List TransitionRow} {ev : Event} {actor : Actor}
      {input : EventInput} {now : ℤ} {t : Transition} (hlived : Lived e log)
      (hnext : next e ev actor input now = .ok t) (hrow : insertParams (t.applyTo e) = .ok row) :
      Lived (e.overwrite row) (log ++ [transitionRow e.id e (e.overwrite row) t])

/-! ## Stored errands are well formed -/

theorem Details.Valid.encode {d d' : Details} (h : d.Valid) (hd : d.encode = .ok d') :
    d'.Valid := by
  unfold Details.encode at hd
  split at hd
  · next snapshot items _ hitems =>
    cases hd
    have harray : items = d.items := by
      cases hraw : d.items with
      | array elements =>
        rw [hraw] at hitems
        exact (Option.some.inj hitems).symm
      | absent | malformed text | value text =>
        have hvalid := h.items
        rw [hraw] at hvalid
        cases hvalid
    exact ⟨h.reward, harray ▸ h.items, h.contactName, h.contactMobile⟩
  · cases hd

/-- Storing a well-formed errand leaves it well formed. -/
theorem WellFormed.insertParams {e row : Errand} (hw : WellFormed e) (hid : Canonical e.id)
    (h : insertParams e = .ok row) : WellFormed row := by
  have hrowID : row.id = e.id := (insertParams_ok h).id_eq hid
  unfold Orders.insertParams at h
  simp only [bind_eq_ok, check_eq_ok, parseUUID_eq_ok] at h
  obtain ⟨id, -, supplierID, -, _, -, _, -, -, pendingEdit, hpending, h⟩ := h
  cases h
  obtain ⟨hstored, hcourier, hedit, hdelivery, hreview⟩ := hw
  refine ⟨fun hstatus => ?_, ?_, fun p hp => ?_, ?_, ?_⟩
  · obtain ⟨hversion, hvalid⟩ := hstored hstatus
    exact ⟨hversion, hvalid.reward, hvalid.items, hvalid.contactName, hvalid.contactMobile⟩
  · simpa using hcourier
  · cases hold : e.pendingEdit with
    | none =>
      rw [hold] at hpending
      cases hpending
      cases hp
    | some q =>
      rw [hold] at hpending
      obtain ⟨d, hd, hencoded⟩ := bind_eq_ok.mp hpending
      cases hencoded
      cases hp
      obtain ⟨hopen, hkey, hvalid, hreward⟩ := hedit q hold
      refine ⟨hopen, ?_, hvalid.encode hd, ?_⟩
      · rw [hrowID]
        exact hkey
      · rw [(encode_ok hd).2]
        exact hreward
  · simpa using hdelivery
  · simpa using hreview

section

variable {e row : Errand} {log : List TransitionRow} {ev : Event} {actor : Actor}
  {input : EventInput} {now : ℤ} {t : Transition}

theorem WellFormed.overwrite (hw : WellFormed row) (hrequester : row.requesterID = e.requesterID) :
    WellFormed (e.overwrite row) := by
  obtain ⟨hstored, hcourier, hedit, hdelivery, hreview⟩ := hw
  refine ⟨hstored, ?_, hedit, hdelivery, hreview⟩
  rw [hrequester] at hcourier
  exact hcourier

theorem Lived.regular (h : Lived e log) : WellFormed e ∧ Canonical e.id ∧ e.status ≠ .none := by
  induction h with
  | @submit id requesterID key details actor input now t row hid hnext hrow =>
    have hst := insertParams_ok hrow
    have hw := (wellFormed_newErrand id requesterID key details).next hnext
    refine ⟨hw.insertParams hid hrow, hst.canonical, ?_⟩
    rw [hst.status]
    exact (next_move hnext).status.1
  | @step e row log ev actor input now t hlived hnext hrow ih =>
    obtain ⟨hw, hid, -⟩ := ih
    have hst := insertParams_ok hrow
    have hrowWell : WellFormed row := (hw.next hnext).insertParams hid hrow
    refine ⟨hrowWell.overwrite hst.requesterID, hst.canonical, ?_⟩
    change row.status ≠ .none
    rw [hst.status]
    exact (next_move hnext).status.1

/-! ## What the log shows -/

/-- The transition is the last row of the log, with what it left. -/
theorem Lived.log_ends (h : Lived e log) :
    ∃ init row, log = init ++ [row] ∧ row.target = e.status ∧ row.errandVersion = e.version := by
  cases h with
  | submit hid hnext hrow => exact ⟨[], _, rfl, (insertParams_ok hrow).status.symm, rfl⟩
  | step hlived hnext hrow => exact ⟨_, _, rfl, (insertParams_ok hrow).status.symm, rfl⟩

/-- The log starts with the creation of the errand. -/
theorem Lived.log_starts (h : Lived e log) :
    ∃ row rest, log = row :: rest ∧ row.event = .submit ∧ row.source = .none ∧
      row.target = .pendingReservation ∧ row.errandVersion = 1 := by
  induction h with
  | @submit id requesterID key details actor input now t row hid hnext hrow =>
    have hfor := next_for hnext
    have hversion : row.version = t.newVersion := (insertParams_ok hrow).version
    refine ⟨_, [], rfl, hfor.event, hfor.source, ?_⟩
    cases next_move hnext with
    | submit hstatus hzero hevent hreward hy => exact ⟨hy.target, hversion.trans hy.version⟩
    | «open» hstatus | refuse hstatus | fail hstatus | edit _ hstatus | requestEdit _ hstatus
    | confirmEdit _ hstatus | refuseEdit _ hstatus | accept hstatus | withdraw _ hstatus
    | reopen hstatus | expire hstatus | refund hstatus => cases hstatus
    | proceed name hstatus => rcases hstatus with ⟨h, -⟩ | ⟨h, -⟩ | ⟨h, -⟩ | ⟨h, -⟩ <;> cases h
    | complete hstatus => rcases hstatus with ⟨h, -⟩ | ⟨h, -⟩ <;> cases h
  | step hlived hnext hrow ih =>
    obtain ⟨row, rest, rfl, hstart⟩ := ih
    exact ⟨row, _, rfl, hstart⟩

/-- A transition that keeps the version is an edit that sends an adjustment at it. -/
theorem Move.requests (hm : Move e input t) (h : t.newVersion = e.version) :
    t.event = .edit ∧
      ∃ row ∈ t.outbox, row.idempotencyKey = idempotencyKey e.id "adjust" e.version := by
  cases hm with
  | requestEdit p hstatus hevent hpending hreward hpositive hkey hy =>
    rw [hy.outbox]
    exact ⟨hevent, _, List.mem_append_left _ (List.mem_singleton_self _), rfl⟩
  | submit hstatus hzero hevent hreward hy =>
    have := hy.version
    omega
  | «open» _ _ hy | refuse _ _ hy | fail _ _ hy | edit _ _ _ _ _ _ hy
  | confirmEdit _ _ _ _ _ hy | refuseEdit _ _ _ _ _ hy | accept _ _ _ _ hy | withdraw _ _ _ hy
  | reopen _ _ hy | expire _ _ hy | proceed _ _ hy | complete _ hy | refund _ _ hy =>
    have := hy.version
    omega

/-- Each row goes on from the one before. Only an edit keeps the version. -/
theorem Lived.joined (h : Lived e log) :
    log.IsChain fun prev row => row.source = prev.target ∧
      (row.errandVersion = prev.errandVersion + 1 ∨
        row.errandVersion = prev.errandVersion ∧ row.event = .edit) := by
  induction h with
  | submit hid hnext hrow => exact List.isChain_singleton _
  | @step e row log ev actor input now t hlived hnext hrow ih =>
    obtain ⟨init, last, rfl, hstatus, hversion⟩ := hlived.log_ends
    have hfor := next_for hnext
    have hnew : row.version = t.newVersion := (insertParams_ok hrow).version
    rw [List.isChain_append]
    refine ⟨ih, List.isChain_singleton _, fun prev hprev next hnext' => ?_⟩
    obtain rfl : last = prev := by simpa using hprev
    obtain rfl := (Option.some.inj hnext').symm
    refine ⟨hfor.source.trans hstatus.symm, ?_⟩
    change row.version = _ ∨ row.version = _ ∧ t.event = _
    rw [hversion, hnew]
    have hm := next_move hnext
    rcases hm.advance with hadvance | ⟨hsame, -⟩
    · exact Or.inl hadvance
    · exact Or.inr ⟨hsame, (hm.requests hsame).1⟩

/-- No transition leaves a terminal status. -/
theorem Lived.sources (h : Lived e log) : ∀ row ∈ log, row.source.terminal = false := by
  induction h with
  | submit hid hnext hrow =>
    rw [List.forall_mem_singleton]
    exact (congrArg Status.terminal (next_for hnext).source).trans rfl
  | step hlived hnext hrow ih =>
    refine List.forall_mem_append.mpr ⟨ih, ?_⟩
    rw [List.forall_mem_singleton]
    exact (congrArg Status.terminal (next_for hnext).source).trans (next_move hnext).status.2

/-- The statuses that an errand can be in once it is no longer `DELIVERED`. -/
def Status.followsDelivery : Status → Bool
  | .none | .pendingReservation | .open | .assigned | .pickedUp | .delivered => false
  | _ => true

/-- An errand that has left `DELIVERED` does not come back. -/
theorem followsDelivery_target : ∀ r ∈ transitionTable,
    r.source = .delivered ∨ r.source.followsDelivery = true → r.target.followsDelivery = true := by
  decide

theorem Lived.delivered (h : Lived e log) {row : TransitionRow} (hrow : row ∈ log)
    (htarget : row.target = .delivered) :
    (e.status = .delivered ∧ row.errandVersion = e.version) ∨ e.status.followsDelivery = true := by
  induction h generalizing row with
  | submit hid hnext hstored =>
    obtain rfl := List.mem_singleton.mp hrow
    exact Or.inl ⟨(insertParams_ok hstored).status.trans htarget, rfl⟩
  | @step e stored log ev actor input now t hlived hnext hstored ih =>
    have hstatus : (e.overwrite stored).status = t.target := (insertParams_ok hstored).status
    rcases List.mem_append.mp hrow with hold | hnew
    · right
      obtain ⟨r, t₀, hd⟩ := next_ok hnext
      have hafter : t.target = r.target := hd.columns.status
      rw [hstatus, hafter]
      apply followsDelivery_target r hd.mem
      rw [hd.source]
      exact (ih hold htarget).imp_left And.left
    · obtain rfl := List.mem_singleton.mp hnew
      exact Or.inl ⟨hstatus.trans htarget, rfl⟩

/-- An errand is delivered at one version only. -/
theorem Lived.delivered_once (h : Lived e log) {row row' : TransitionRow} (hrow : row ∈ log)
    (hrow' : row' ∈ log) (htarget : row.target = .delivered) (htarget' : row'.target = .delivered) :
    row.errandVersion = row'.errandVersion := by
  induction h generalizing row row' with
  | submit hid hnext hstored =>
    rw [List.mem_singleton.mp hrow, List.mem_singleton.mp hrow']
  | @step e stored log ev actor input now t hlived hnext hstored ih =>
    obtain ⟨r, t₀, hd⟩ := next_ok hnext
    have hafter : t.target = r.target := hd.columns.status
    -- a delivery after an earlier one would come back to `DELIVERED`
    have hfirst : ∀ old ∈ log, old.target = .delivered → t.target ≠ .delivered := by
      intro old hold hdelivered hagain
      have hfollows : r.target.followsDelivery = true := by
        apply followsDelivery_target r hd.mem
        rw [hd.source]
        exact (hlived.delivered hold hdelivered).imp_left And.left
      rw [← hafter, hagain] at hfollows
      cases hfollows
    rcases List.mem_append.mp hrow with hold | hnew <;>
      rcases List.mem_append.mp hrow' with hold' | hnew'
    · exact ih hold hold' htarget htarget'
    · rw [List.mem_singleton.mp hnew'] at htarget'
      exact absurd htarget' (hfirst row hold htarget)
    · rw [List.mem_singleton.mp hnew] at htarget
      exact absurd htarget (hfirst row' hold' htarget')
    · rw [List.mem_singleton.mp hnew, List.mem_singleton.mp hnew']

theorem micros_micros (t : ℤ) : micros (micros t) = micros t := by
  unfold micros
  omega

/-- A stored verification deadline is a whole number of microseconds. -/
theorem Lived.micros_verificationDeadline (h : Lived e log) {deadline : ℤ}
    (hdeadline : e.verificationDeadline = some deadline) : micros deadline = deadline := by
  have hstored : ∀ {before row : Errand}, insertParams before = .ok row →
      row.verificationDeadline = some deadline → micros deadline = deadline := by
    intro before row hrow hsome
    unfold insertParams at hrow
    simp only [bind_eq_ok, check_eq_ok] at hrow
    obtain ⟨_, -, _, -, _, -, _, -, -, _, -, hrow⟩ := hrow
    cases hrow
    obtain ⟨original, -, rfl⟩ := Option.map_eq_some_iff.mp hsome
    exact micros_micros original
  cases h with
  | submit hid hnext hrow => exact hstored hrow hdeadline
  | step hlived hnext hrow => exact hstored hrow hdeadline

/-- So are the time of the last change and the acceptance deadline. -/
theorem insertParams_micros {before row : Errand} (hrow : insertParams before = .ok row) :
    micros row.updatedAt = row.updatedAt ∧
      micros row.details.acceptanceDeadline = row.details.acceptanceDeadline := by
  unfold insertParams at hrow
  simp only [bind_eq_ok, check_eq_ok] at hrow
  obtain ⟨_, -, _, -, _, -, _, -, -, _, -, hrow⟩ := hrow
  cases hrow
  exact ⟨micros_micros before.updatedAt, micros_micros before.details.acceptanceDeadline⟩

theorem Lived.micros_updatedAt (h : Lived e log) : micros e.updatedAt = e.updatedAt := by
  cases h with
  | submit hid hnext hrow => exact (insertParams_micros hrow).1
  | @step _ row _ _ _ _ _ _ hlived hnext hrow => exact (insertParams_micros hrow).1

theorem Lived.micros_acceptanceDeadline (h : Lived e log) :
    micros e.details.acceptanceDeadline = e.details.acceptanceDeadline := by
  cases h with
  | submit hid hnext hrow => exact (insertParams_micros hrow).2
  | @step _ row _ _ _ _ _ _ hlived hnext hrow => exact (insertParams_micros hrow).2

/-- Rows are dated in microseconds. -/
theorem Lived.micros_atTime (h : Lived e log) : ∀ row ∈ log, micros row.atTime = row.atTime := by
  induction h with
  | submit hid hnext hrow =>
    intro row hmem
    rw [List.mem_singleton.mp hmem]
    exact micros_micros _
  | step hlived hnext hrow ih =>
    intro row hmem
    rcases List.mem_append.mp hmem with hmem | hmem
    · exact ih row hmem
    · rw [List.mem_singleton.mp hmem]
      exact micros_micros _

/-- Whoever has the errand, or is recorded as its courier, has accepted it. -/
theorem Lived.couriers (h : Lived e log) : ∀ courier ≠ "",
    (e.courierID = courier ∨ ∃ row ∈ log, row.courierID = courier) →
    ∃ accept ∈ log, accept.event = .accept ∧ accept.actorID = courier := by
  induction h with
  | @submit id requesterID key details actor input now t row hid hnext hrow =>
    intro courier hne hcourier
    obtain ⟨r, t₀, hd⟩ := next_ok hnext
    have hnone : row.courierID = "" := by
      rw [(insertParams_ok hrow).courierID, hd.columns.courierID]
      rfl
    rcases hcourier with rfl | ⟨row', hmem, rfl⟩
    · exact absurd hnone hne
    · rw [List.mem_singleton.mp hmem] at hne
      exact absurd hnone hne
  | @step e row log ev actor input now t hlived hnext hrow ih =>
    intro courier hne hcourier
    obtain ⟨r, t₀, hd⟩ := next_ok hnext
    have hfor := next_for hnext
    -- The errand had the courier before, or the transition is the accept of the courier.
    have hafter : row.courierID = courier →
        (e.courierID = courier ∨ ev = .accept ∧ actor.id = courier) := by
      rintro rfl
      rw [(insertParams_ok hrow).courierID, hd.columns.courierID] at hne ⊢
      split at hne
      · next haccept => exact .inr ⟨haccept, by rw [if_pos haccept]⟩
      · next haccept =>
        rw [if_neg haccept]
        split at hne
        · next hkeeps => exact .inl (by rw [if_pos hkeeps])
        · exact absurd rfl hne
    have hbefore : e.courierID = courier ∨ (∃ row ∈ log, row.courierID = courier) ∨
        ev = .accept ∧ actor.id = courier := by
      rcases hcourier with hcourier | ⟨row', hmem, hcourier⟩
      · exact (hafter hcourier).imp_right .inr
      · rcases List.mem_append.mp hmem with hmem | hmem
        · exact .inr (.inl ⟨row', hmem, hcourier⟩)
        · rw [List.mem_singleton.mp hmem] at hcourier
          simp only [transitionRow] at hcourier
          split at hcourier
          · exact (hafter hcourier).imp_right .inr
          · exact .inl hcourier
    rcases hbefore with hbefore | hbefore | ⟨rfl, hactor⟩
    · obtain ⟨accept, hmem, haccept⟩ := ih courier hne (.inl hbefore)
      exact ⟨accept, List.mem_append_left _ hmem, haccept⟩
    · obtain ⟨accept, hmem, haccept⟩ := ih courier hne (.inr hbefore)
      exact ⟨accept, List.mem_append_left _ hmem, haccept⟩
    · refine ⟨_, List.mem_append_right _ (List.mem_singleton_self _), hfor.event, ?_⟩
      change t.actor.id = courier
      rw [hfor.actor, hactor]

/-- The latest accept of a log. -/
def lastAccept (log : List TransitionRow) : Option TransitionRow :=
  log.reverse.find? fun row => row.event = .accept

@[simp] theorem lastAccept_append (log : List TransitionRow) (row : TransitionRow) :
    lastAccept (log ++ [row]) = if row.event = .accept then some row else lastAccept log := by
  by_cases h : row.event = .accept <;> simp [lastAccept, h]

/-- Whoever has the errand accepted it last. -/
theorem Lived.accepted (h : Lived e log) (hcourier : e.status.hasCourier = true) :
    ∃ row, lastAccept log = some row ∧ row.courierID = e.courierID := by
  induction h with
  | @submit id requesterID key details actor input now t row hid hnext hrow =>
    obtain ⟨r, t₀, hd⟩ := next_ok hnext
    have hstatus : row.status = r.target := (insertParams_ok hrow).status.trans hd.columns.status
    have htable : ∀ r ∈ transitionTable, r.event = .submit → r.target.hasCourier = false := by
      decide
    rw [hstatus, htable r hd.mem hd.event] at hcourier
    cases hcourier
  | @step e row log ev actor input now t hlived hnext hrow ih =>
    obtain ⟨hw, -, -⟩ := hlived.regular
    obtain ⟨r, t₀, hd⟩ := next_ok hnext
    have hst := insertParams_ok hrow
    have hevent : t.event = ev := (next_for hnext).event
    have hafter : (e.overwrite row).courierID = (t.applyTo e).courierID := hst.courierID
    rw [hd.columns.courierID] at hafter
    have htarget : (e.overwrite row).status = r.target := hst.status.trans hd.columns.status
    rw [htarget, hasCourier_target r hd.mem, hd.event, hd.source] at hcourier
    rw [lastAccept_append]
    by_cases haccept : ev = .accept
    · have hopen : ∀ r ∈ transitionTable, r.event = .accept → r.source.hasCourier = false := by
        decide
      have hnone := hw.courier
      rw [← hd.source, hopen r hd.mem (hd.event.trans haccept)] at hnone
      refine ⟨_, if_pos (hevent.trans haccept), ?_⟩
      simp only [transitionRow, hnone.1, if_true]
    · rw [if_neg (by rw [show (transitionRow e.id e (e.overwrite row) t).event = ev from hevent]
                     exact haccept)]
      rcases assigns_cases ev with rfl | hclears | ⟨-, hkeeps⟩
      · exact absurd rfl haccept
      · rw [hclears] at hcourier
        cases hcourier
      · rw [hkeeps] at hcourier
        obtain ⟨last, hlast, hsame⟩ := ih hcourier
        rw [if_neg haccept, hkeeps, if_pos rfl] at hafter
        exact ⟨last, hlast, hsame.trans hafter.symm⟩

/-- A withdrawal, voluntary or forced, names the courier of the latest accept before it. -/
theorem Lived.withdrawals (h : Lived e log) {before after : List TransitionRow}
    {row : TransitionRow} (hlog : log = before ++ row :: after)
    (hevent : row.event = .withdraw ∨ row.event = .pickupDeadlinePassed) :
    ∃ accept, lastAccept before = some accept ∧ accept.courierID = row.courierID := by
  induction h generalizing before after row with
  | @submit id requesterID key details actor input now t stored hid hnext hrow =>
    have hsubmit : t.event = .submit := (next_for hnext).event
    obtain ⟨hrow', -⟩ : row = transitionRow id (newErrand id requesterID key details) stored t ∧
        before = [] := by
      cases before with
      | nil => exact ⟨(List.cons.inj hlog).1.symm, rfl⟩
      | cons _ _ => simp at hlog
    have hsame : row.event = .submit := by
      rw [hrow']
      exact hsubmit
    rw [hsame] at hevent
    rcases hevent with h | h <;> cases h
  | @step e stored log ev actor input now t hlived hnext hrow ih =>
    rcases append_singleton_split hlog with ⟨-, rfl, rfl⟩ | ⟨rest, -, hold⟩
    · -- the row is the latest one, and the errand had a courier before it
      obtain ⟨hw, -, -⟩ := hlived.regular
      obtain ⟨r, t₀, hd⟩ := next_ok hnext
      have hev : t.event = ev := (next_for hnext).event
      have htable : ∀ r ∈ transitionTable, r.event = .withdraw ∨ r.event = .pickupDeadlinePassed →
          r.source.hasCourier = true := by decide
      have hhas : e.status.hasCourier = true := by
        rw [← hd.source]
        apply htable r hd.mem
        rw [hd.event, ← hev]
        exact hevent
      obtain ⟨accept, haccept, hsame⟩ := hlived.accepted hhas
      have hcourier := hw.courier
      rw [if_pos hhas] at hcourier
      refine ⟨accept, haccept, hsame.trans ?_⟩
      simp only [transitionRow, if_neg hcourier.1]
    · exact ih hold hevent

end

end FocServices.Orders
