import FocServices.Orders.Worlds

/-!
# Withdrawn couriers

The accept handler reads the courier's history in a statement of its own. Whatever
commits between that read and the accept either leaves the errand alone, and then the
history is still right, or moves it on, and then the accept fails. So the log never has a
withdrawal of a courier followed by an accept of the same courier.
-/

namespace FocServices.Orders

open Txn Relation

/-- The row ends the assignment of its courier before pickup. -/
def TransitionRow.withdraws (row : TransitionRow) : Prop :=
  row.event = .withdraw ∨ row.event = .pickupDeadlinePassed

/-- Transitions of jobs that are not handlers: they do not accept, and new errands have no
courier. -/
def unaccepting (_ : Tables) (e : Errand) (t : Transition) : Prop :=
  t.event ≠ .accept ∧ (t.event = .submit → e.courierID = "")

/-- An accept is by a courier who has not withdrawn from the errand. -/
def eligible (s : Tables) (e : Errand) (t : Transition) : Prop :=
  (t.event = .accept → ∀ row ∈ s.transitions, row.errandID = e.id →
    row.withdrawalOf t.actor.id = false) ∧ (t.event = .submit → e.courierID = "")

theorem admits_eligible {errandID : String → String → String}
    (h : ∀ requesterID key, Canonical (errandID requesterID key)) :
    Admits errandID eligible := by
  refine ⟨h, fun requesterID key details now t hnext s => ?_, ?_⟩
  · rw [eligible, (next_for hnext).event]
    exact ⟨nofun, fun _ => rfl⟩
  · intro e courier input now t hnext s hfree
    rw [eligible, (next_for hnext).event, (next_for hnext).actor]
    exact ⟨fun _ => hfree, nofun⟩

theorem permits_eligible {w : Service} {a : Action Task} (h : Permits unaccepting w a) :
    Permits eligible w a := by
  have himp : ∀ e t, (∀ s, unaccepting s e t) → ∀ s, eligible s e t := fun e t hall s =>
    ⟨fun haccept => absurd haccept (hall s).1, (hall s).2⟩
  cases a with
  | start task =>
    cases task with
    | job job =>
      cases job with
      | create e t => exact ⟨h.1, h.2.1, himp e t h.2.2⟩
      | apply t =>
        obtain ⟨e, he, hdecides, hall⟩ := h
        exact ⟨e, he, hdecides, himp e t hall⟩
      | claimDue kind now limit decide =>
        exact fun e t hdec => ⟨(h e t hdec).1, himp e t (h e t hdec).2⟩
      | _ => trivial
    | _ => trivial
  | _ => trivial

/-- The log and the couriers of the errands. -/
structure Attributed (s : Tables) : Prop where
  /-- An errand that is not assigned yet has no courier. -/
  vacant : ∀ e ∈ s.errands, e.status = .pendingReservation ∨ e.status = .open → e.courierID = ""
  /-- No accept follows a withdrawal of the same courier. -/
  log : s.transitions.Pairwise fun r r' => r.errandID = r'.errandID → r.withdraws →
    r'.event = .accept → r'.actorID ≠ r.courierID ∧ r'.courierID ≠ r.courierID
  /-- No accept is by the requester. -/
  others : ∀ r ∈ s.transitions, r.event = .accept →
    ∃ e ∈ s.errands, e.id = r.errandID ∧ r.actorID ≠ e.requesterID

theorem attributed_empty : Attributed {} := ⟨by simp, .nil, by simp⟩

section Steps

variable {hash : String → ℤ} {locks : List (Lock × Mode)} {s s' : Tables}

/-- After a transition an errand that is not assigned has no courier. -/
theorem Move.vacant {e stored : Errand} {input : EventInput} {t : Transition}
    (hm : Move e input t) (hst : StoredAs (t.applyTo e) stored)
    (hbefore : e.status = .none ∨ e.status = .pendingReservation ∨ e.status = .open →
      e.courierID = "")
    (hafter : stored.status = .pendingReservation ∨ stored.status = .open) :
    stored.courierID = "" := by
  have hstatus : stored.status = t.target := hst.status
  rw [hstatus] at hafter
  rw [hst.courierID]
  cases hm with
  | submit hs _ _ _ hy | «open» hs _ hy | edit _ hs _ _ _ _ hy
  | requestEdit _ hs _ _ _ _ _ hy | confirmEdit _ hs _ _ _ hy | refuseEdit _ hs _ _ _ hy =>
    rw [hy.courierID]
    exact hbefore (by simp [hs])
  | reopen _ _ hy => exact hy.courierID
  | refuse _ _ hy | fail _ _ hy | accept _ _ _ _ hy | expire _ _ hy
  | complete _ hy | refund _ _ hy =>
    rw [hy.target] at hafter
    simp at hafter
  | withdraw names _ htarget hy =>
    rcases htarget with ⟨-, h, -⟩ | ⟨-, h, -⟩ <;> simp [h] at hafter
  | proceed name htarget hy =>
    rcases htarget with ⟨-, -, h, -⟩ | ⟨-, -, h, -⟩ | ⟨-, -, h, -⟩ | ⟨-, -, h, -⟩ <;>
      simp [h] at hafter

/-- An accept row does not follow a withdrawal of its courier, and is not the
requester's. -/
theorem accept_row {e row : Errand} {ev : Event} {actor : Actor} {input : EventInput} {now : ℤ}
    {t : Transition} (ha : Attributed s) (he : e ∈ s.errands)
    (hnext : next e ev actor input now = .ok t) (hok : eligible s e t)
    (hst : StoredAs (t.applyTo e) row) (hevent : t.event = .accept) :
    (∀ r ∈ s.transitions, r.errandID = e.id → r.withdraws → t.actor.id ≠ r.courierID) ∧
      t.actor.id ≠ e.requesterID ∧
      (transitionRow e.id e (e.overwrite row) t).courierID = t.actor.id := by
  cases next_move hnext with
  | accept hstatus _ hactor hother hyields =>
    refine ⟨fun r hr hid hwithdraws hsame => ?_, hother, ?_⟩
    · have hfree := hok.1 hevent r hr hid
      rcases hwithdraws with h | h <;> simp [TransitionRow.withdrawalOf, ← hsame, h, hactor] at hfree
    · have hvacant := ha.vacant e he (Or.inr hstatus)
      change (if e.courierID = "" then row.courierID else e.courierID) = t.actor.id
      rw [if_pos hvacant, hst.courierID, hyields.courierID]
  | submit _ _ h | «open» _ h | refuse _ h | fail _ h | edit _ _ h | requestEdit _ _ h
  | confirmEdit _ _ h | refuseEdit _ _ h | refund _ h =>
    rw [hevent] at h
    cases h
  | withdraw _ _ h => rcases h with ⟨h, -⟩ | ⟨h, -⟩ <;> (rw [hevent] at h; cases h)
  | reopen _ h | expire _ h => rcases h with h | h <;> (rw [hevent] at h; cases h)
  | proceed _ h => simp [hevent] at h
  | complete h => simp [hevent] at h

theorem Attributed.change (hs : Sane s) (h : Change hash eligible locks s s')
    (ha : Attributed s) : Attributed s' := by
  -- earlier accepts are still by others
  have hothers : ∀ r ∈ s.transitions, r.event = .accept →
      ∃ e ∈ s'.errands, e.id = r.errandID ∧ r.actorID ≠ e.requesterID := by
    intro r hr hevent
    obtain ⟨e, he, hid, hne⟩ := ha.others r hr hevent
    obtain ⟨e', he', hsucceeds⟩ := h.succeeds hs he
    exact ⟨e', he', hsucceeds.id.trans hid, by rw [hsucceeds.requesterID]; exact hne⟩
  have hsame : s'.errands = s.errands → s'.transitions = s.transitions → Attributed s' := by
    intro herrands htransitions
    refine ⟨herrands ▸ ha.vacant, htransitions ▸ ha.log, ?_⟩
    rw [htransitions]
    exact hothers
  cases h with
  | create e actor input now t row hnext hid hok hrow hnew hkey herrand hcreate hsupplier hopen
      hkeys herrands htransitions houtbox hfences =>
    have hevent : t.event = .submit := (next_for hnext).event
    refine ⟨?_, ?_, ?_⟩
    · rw [herrands, List.forall_mem_append]
      refine ⟨ha.vacant, fun e' he' hstatus => ?_⟩
      obtain rfl := List.mem_singleton.mp he'
      exact (next_move hnext).vacant (insertParams_ok hrow) (fun _ => hok.2 hevent) hstatus
    · rw [htransitions, List.pairwise_append]
      refine ⟨ha.log, List.pairwise_singleton _ _, fun r _ r' hr' _ _ haccept => ?_⟩
      obtain rfl := List.mem_singleton.mp hr'
      exact absurd (hevent.symm.trans haccept) (by decide)
    · rw [htransitions, List.forall_mem_append]
      refine ⟨hothers, fun r hr haccept => ?_⟩
      obtain rfl := List.mem_singleton.mp hr
      exact absurd (hevent.symm.trans haccept) (by decide)
  | apply e ev actor input now t row hcur hnext hok hrow herrand hsupplier hkeys herrands
      htransitions houtbox hfences =>
    have hst := insertParams_ok hrow
    have hregular := hs.keyed.regular e hcur
    refine ⟨?_, ?_, ?_⟩
    · intro e' he' hstatus
      rw [herrands] at he'
      obtain ⟨e₀, he₀, rfl⟩ := mem_updateRow.mp he'
      by_cases hid : e₀.id = e.id
      · obtain rfl := hs.keyed.unique.eq he₀ hcur hid
        rw [if_pos hid] at hstatus ⊢
        refine (next_move hnext).vacant (overwrite_storedAs hst rfl) ?_ hstatus
        rintro (hnone | hbefore)
        · exact absurd hnone hregular.status
        · exact ha.vacant e₀ he₀ hbefore
      · rw [if_neg hid] at hstatus ⊢
        exact ha.vacant e₀ he₀ hstatus
    · rw [htransitions, List.pairwise_append]
      refine ⟨ha.log, List.pairwise_singleton _ _, fun r hr r' hr' hid hwithdraws haccept => ?_⟩
      obtain rfl := List.mem_singleton.mp hr'
      obtain ⟨hne, -, hcourier⟩ := accept_row ha hcur hnext hok hst haccept
      rw [hcourier]
      exact ⟨hne r hr hid hwithdraws, hne r hr hid hwithdraws⟩
    · rw [htransitions, List.forall_mem_append]
      refine ⟨hothers, fun r hr haccept => ?_⟩
      obtain rfl := List.mem_singleton.mp hr
      obtain ⟨-, hne, -⟩ := accept_row ha hcur hnext hok hst haccept
      rw [herrands]
      exact ⟨_, mem_updateRow_self hcur, hst.id_eq hregular.canonical, hne⟩
  | note _ _ _ _ _ herrands htransitions | fence _ _ _ _ _ _ herrands htransitions
  | close _ _ _ _ _ herrands htransitions | idle herrands htransitions =>
    exact hsame herrands htransitions

end Steps

end FocServices.Orders
