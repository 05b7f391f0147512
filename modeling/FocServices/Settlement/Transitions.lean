import FocServices.Settlement.Cases

/-!
# Transitions of a case

Every move of the errand keeps the invariant of its case. A release is sent on the way
into a final state without payment, a transfer on the way into `completed`, and an
adjustment only while the errand is open. With `Sound.serve` this makes `Sound` hold
after every step.
-/

namespace FocServices.Settlement

open Txn Orders Credit

section

variable {c : Case} {e stored : Errand} {input : EventInput} {t : Transition} {ds : List Demand}

/-! ## Demands of a transition -/

/-- Only the credit rows of a transition make demands. -/
theorem demands_of_yields {target : Status} {version : ℕ} {details : Details} {courierID : String}
    {pendingEdit : Option PendingEdit} {credit : List Orders.OutboxRow} {names : List EventName}
    (hy : Yields e t target version details courierID pendingEdit credit names) :
    t.outbox.filterMap demandOf = credit.filterMap demandOf := by
  have hevents : (names.map (eventRow e (t.applyTo e) t)).filterMap demandOf = [] := by
    rw [List.filterMap_eq_nil_iff]
    intro row hrow
    obtain ⟨name, -, rfl⟩ := List.mem_map.mp hrow
    rfl
  rw [hy.outbox, List.filterMap_append, hevents, List.append_nil]

theorem demandOf_release : demandOf (releaseRow e t) = some .release := rfl

theorem demandOf_adjust {version : ℕ} {newAmount : ℤ} :
    demandOf (creditRow e t .creditAdjust "adjust" version
      { newAmount := newAmount, seq := adjustSeq version }) = some (.adjust version newAmount) := by
  simp [demandOf, creditRow, adjustSeq]

theorem demandOf_revert :
    demandOf (revertRow e t) = some (.revert t.newVersion e.details.reward) := by
  have hodd : revertSeq t.newVersion % 2 ≠ 0 := by
    unfold revertSeq
    omega
  have hhalf : ((revertSeq t.newVersion + 1) / 2).toNat = t.newVersion := by
    unfold revertSeq
    omega
  simp only [demandOf, revertRow, creditRow, if_neg hodd, hhalf]

/-! ## The case after a transition -/

/-- Paid credits belong to a completed errand. -/
theorem Sound.status_of_paid (hs : Sound c) (he : c.errand = some e)
    (hpaid : c.holding.paid = true) : e.status = .completed := by
  obtain ⟨result, hanswer⟩ := Option.isSome_iff_exists.mp (hs.paid.mp hpaid)
  obtain ⟨d, hd, hslot⟩ := List.mem_map.mp (hs.answered _ _ hanswer).1
  cases d <;> cases hslot
  exact ((hs.standing e he).transferSent _ _ hd).1

/-- The invariant follows from what the transition does to the errand. -/
theorem Sound.advance (hs : Sound c) (hstanding : Standing (c.advance stored ds) stored) :
    Sound (c.advance stored ds) where
  unborn := nofun
  answered := by
    intro slot result hanswer
    obtain ⟨hmem, hallows⟩ := hs.answered slot result hanswer
    refine ⟨?_, hallows⟩
    simp only [Case.advance, List.map_append, List.mem_append]
    exact Or.inl hmem
  held := hs.held
  ended := hs.ended
  paid := hs.paid
  applied := by
    intro w amount last hactive
    rcases hs.applied w amount last hactive with ⟨hzero, hsent⟩ | ⟨d, hd, hrest⟩
    · exact Or.inl ⟨hzero, List.mem_append_left _ hsent⟩
    · exact Or.inr ⟨d, List.mem_append_left _ hd, hrest⟩
  newest := hs.newest
  standing := by
    rintro e ⟨⟩
    exact hstanding

/-- What is left to show of a transition of a stored errand. -/
structure Advances (c : Case) (stored : Errand) (ds : List Demand) : Prop where
  transfer : ∀ courierID amount, .transfer courierID amount ∈ ds →
    stored.status = .completed ∧ courierID = stored.courierID ∧ amount = stored.details.reward
  release : .release ∈ ds → stored.status.terminal = true ∧ stored.status ≠ .completed
  waiting : stored.status ≠ .pendingReservation
  confirmed : funded stored.status = true → c.Answered .reserve .reserved
  pending : ∀ p, stored.pendingEdit = some p → .adjust stored.version p.details.reward ∈ ds
  based : live stored.status = true → Based (c.advance stored ds) stored

theorem Advances.standing (ha : Advances c stored ds) (hs : Sound c) (he : c.errand = some e)
    (hterminal : e.status.terminal = false) (hregular : Regular stored)
    (hrequester : stored.requesterID = e.requesterID) :
    Standing (c.advance stored ds) stored := by
  have hst := hs.standing e he
  -- before a transition the errand is not final, so neither command has been sent
  have htransfer : ∀ courierID amount, .transfer courierID amount ∉ c.sent := by
    intro courierID amount hsent
    rw [(hst.transferSent courierID amount hsent).1] at hterminal
    cases hterminal
  have hrelease : .release ∉ c.sent := by
    intro hsent
    rw [(hst.releaseSent hsent).1] at hterminal
    cases hterminal
  constructor
  case regular => exact hregular
  case transferSent =>
    intro courierID amount hsent
    exact ha.transfer courierID amount
      ((List.mem_append.mp hsent).resolve_left (htransfer courierID amount))
  case releaseSent =>
    intro hsent
    exact ha.release ((List.mem_append.mp hsent).resolve_left hrelease)
  case waiting => exact fun h => absurd h ha.waiting
  case confirmed => exact ha.confirmed
  case requester =>
    intro id hid
    rw [hrequester]
    exact hst.requester id hid
  case courier =>
    intro w k amount hpaid
    have hcompleted := hs.status_of_paid he (by rw [show c.holding = _ from hpaid]; rfl)
    rw [hcompleted] at hterminal
    cases hterminal
  case pending => exact fun p hp => List.mem_append_right _ (ha.pending p hp)
  case based => exact ha.based

/-! ## Where the reward comes from -/

/-- An edit stays uninstalled if no edit was pending. -/
theorem Shelved.advance {d : Demand} (h : Shelved c e d) (hpending : e.pendingEdit = none) :
    Shelved (c.advance stored ds) stored d := by
  obtain ⟨version, newAmount, hd, hrefused | ⟨-, hsome⟩⟩ := h
  · exact ⟨version, newAmount, hd, Or.inl hrefused⟩
  · rw [hpending] at hsome
    cases hsome

theorem Based.advance (hb : Based c e) (hreward : stored.details.reward = e.details.reward)
    (hkept : ∀ d, Shelved c e d → Shelved (c.advance stored ds) stored d)
    (hnew : ∀ d ∈ ds, ∀ seq, d.slot.seq = some seq → Shelved (c.advance stored ds) stored d) :
    Based (c.advance stored ds) stored := by
  rcases hb with ⟨hreserve, hrest⟩ | ⟨b, hb, last, hlast, hamount, hmade, hrest⟩
  · refine Or.inl ⟨List.mem_append_left _ (hreward ▸ hreserve), ?_⟩
    intro d hd seq hseq
    rcases List.mem_append.mp hd with hd | hd
    · exact hkept d (hrest d hd seq hseq)
    · exact hnew d hd seq hseq
  · refine Or.inr ⟨b, List.mem_append_left _ hb, last, hlast, hamount.trans hreward.symm, hmade, ?_⟩
    intro d hd seq hseq hlt
    rcases List.mem_append.mp hd with hd | hd
    · exact hkept d (hrest d hd seq hseq hlt)
    · exact hnew d hd seq hseq

/-- A transition that neither concerns an edit nor changes the reward. -/
theorem Based.advance_plain (hb : Based c e) (hpending : e.pendingEdit = none)
    (hreward : stored.details.reward = e.details.reward) : Based (c.advance stored []) stored :=
  hb.advance hreward (fun _ h => h.advance hpending) nofun

/-- A revert is newer than every adjustment before it. -/
theorem based_revert (ho : c.Ordered) (he : c.errand = some e)
    (hreward : stored.details.reward = e.details.reward) :
    Based (c.advance stored [.revert (e.version + 1) e.details.reward]) stored := by
  refine Or.inr ⟨.revert (e.version + 1) e.details.reward, by simp [Case.advance], _, rfl,
    hreward.symm, Or.inl ⟨_, rfl⟩, ?_⟩
  intro d hd seq hseq hlt
  rcases List.mem_append.mp hd with hd | hd
  · have hle := ho.bounded e he d hd seq hseq
    unfold Errand.seqBound adjustSeq revertSeq at hle
    unfold revertSeq at hlt
    push_cast at hlt
    split at hle <;> omega
  · obtain rfl := List.mem_singleton.mp hd
    cases hseq
    exact absurd hlt (lt_irrefl _)

/-! ## Kinds of transitions -/

/-- A transition into a final state without payment. -/
theorem advances_final (hterminal : stored.status.terminal = true)
    (hunpaid : stored.status ≠ .completed) (hpending : stored.pendingEdit = none)
    (hds : ∀ d ∈ ds, d = .release) : Advances c stored ds where
  transfer := by
    intro courierID amount hmem
    cases hds _ hmem
  release := fun _ => ⟨hterminal, hunpaid⟩
  waiting := by
    intro h
    rw [h] at hterminal
    cases hterminal
  confirmed := by
    intro hfunded
    cases hstatus : stored.status <;> simp_all [funded, Status.terminal]
  pending := by
    intro p hp
    rw [hpending] at hp
    cases hp
  based := by
    intro hlive
    simp [live, hterminal] at hlive

/-- A transition after which the credits stay on hold. -/
theorem advances_live (hds : ∀ d ∈ ds, ∃ seq, d.slot.seq = some seq)
    (hlive : live stored.status = true) (hconfirmed : c.Answered .reserve .reserved)
    (hpending : ∀ p, stored.pendingEdit = some p →
      .adjust stored.version p.details.reward ∈ ds)
    (hbased : Based (c.advance stored ds) stored) : Advances c stored ds where
  transfer := by
    intro courierID amount hmem
    obtain ⟨seq, hseq⟩ := hds _ hmem
    cases hseq
  release := by
    intro hmem
    obtain ⟨seq, hseq⟩ := hds _ hmem
    cases hseq
  waiting := by
    intro h
    rw [h] at hlive
    cases hlive
  confirmed := fun _ => hconfirmed
  pending := hpending
  based := fun _ => hbased

/-- What the row stores after the transition. -/
theorem stored_of_yields {target : Status} {version : ℕ} {details : Details} {courierID : String}
    {pendingEdit : Option PendingEdit} {credit : List Orders.OutboxRow} {names : List EventName}
    (hy : Yields e t target version details courierID pendingEdit credit names)
    (hst : StoredAs (t.applyTo e) stored) : stored.status = target ∧ stored.version = version ∧
      stored.details.reward = details.reward ∧ stored.courierID = courierID := by
  refine ⟨hst.status.trans hy.target, hst.version.trans hy.version, ?_, ?_⟩
  · rw [hst.reward, hy.details]
  · rw [hst.courierID, hy.courierID]

theorem stored_pendingEdit_none (hst : StoredAs (t.applyTo e) stored)
    (hnone : (t.applyTo e).pendingEdit = none) : stored.pendingEdit = none := by
  have h := hst.isSome_pendingEdit
  rw [hnone] at h
  exact Option.not_isSome_iff_eq_none.mp (by rw [h]; decide)

theorem stored_pendingEdit_some {p : PendingEdit} (hst : StoredAs (t.applyTo e) stored)
    (hsome : (t.applyTo e).pendingEdit = some p) :
    ∃ q, stored.pendingEdit = some q ∧ q.details.reward = p.details.reward := by
  have hcore := hst.pendingEdit
  unfold Errand.pendingCore at hcore
  rw [hsome, Option.map_some] at hcore
  obtain ⟨q, hq, hcore⟩ := Option.map_eq_some_iff.mp hcore
  exact ⟨q, hq, (Prod.mk.inj (Prod.mk.inj hcore).2).2⟩

/-! ## Edits -/

/-- Installing an edit whose adjustment was made. -/
theorem based_confirmEdit (ho : c.Ordered) (he : c.errand = some e) {p : PendingEdit}
    (hpending : e.pendingEdit = some p) (hsent : .adjust e.version p.details.reward ∈ c.sent)
    (hanswer : c.Answered (.adjust e.version) .adjusted)
    (hreward : stored.details.reward = p.details.reward) :
    Based (c.advance stored []) stored := by
  refine Or.inr ⟨.adjust e.version p.details.reward, List.mem_append_left _ hsent, _, rfl,
    hreward.symm, Or.inr hanswer, ?_⟩
  intro d hd seq hseq hlt
  have hle := ho.bounded e he d (by simpa [Case.advance] using hd) seq hseq
  rw [Errand.seqBound, hpending, Option.isSome_some, if_pos rfl] at hle
  omega

/-- Dropping an edit whose adjustment was refused. -/
theorem Based.refuseEdit (hb : Based c e)
    (hanswer : c.Answered (.adjust e.version) .adjustRefused)
    (hreward : stored.details.reward = e.details.reward) : Based (c.advance stored []) stored := by
  refine hb.advance hreward ?_ nofun
  rintro d ⟨version, newAmount, hd, hrefused | ⟨rfl, -⟩⟩
  · exact ⟨version, newAmount, hd, Or.inl hrefused⟩
  · exact ⟨_, newAmount, hd, Or.inl hanswer⟩

/-- Requesting an edit of the reward. -/
theorem Based.requestEdit (hb : Based c e) (hnone : e.pendingEdit = none)
    (hversion : stored.version = e.version) (hsome : stored.pendingEdit.isSome = true)
    (hreward : stored.details.reward = e.details.reward) {newAmount : ℤ} :
    Based (c.advance stored [.adjust e.version newAmount]) stored := by
  refine hb.advance hreward (fun _ h => h.advance hnone) ?_
  intro d hd _ _
  obtain rfl := List.mem_singleton.mp hd
  exact ⟨_, newAmount, rfl, Or.inr ⟨hversion.symm, hsome⟩⟩

theorem demands_revert {reverts : Bool} :
    (if reverts then [revertRow e t] else []).filterMap demandOf =
      if reverts then [.revert t.newVersion e.details.reward] else [] := by
  cases reverts with
  | false => rfl
  | true => simp [demandOf_revert]

/-- Every transition of a stored errand does what the invariant needs. -/
theorem Sound.advances (hs : Sound c) (ho : c.Ordered) (he : c.errand = some e)
    (hm : Move e input t) (hj : Justified c.Answered e t.event input) (hst : StoredAs (t.applyTo e) stored) :
    Advances c stored (t.outbox.filterMap demandOf) := by
  have hstanding := hs.standing e he
  have hunedited : e.status ≠ .open → e.pendingEdit = none := by
    intro hne
    cases hp : e.pendingEdit with
    | none => rfl
    | some p => exact absurd (hstanding.regular.pendingEdit p hp).1 hne
  have hnone : stored.pendingEdit = none → ∀ ds : List Demand, ∀ p,
      stored.pendingEdit = some p → .adjust stored.version p.details.reward ∈ ds := by
    intro hnone ds p hp
    rw [hnone] at hp
    cases hp
  cases hm with
  | submit hstatus => exact absurd hstatus hstanding.regular.status
  | «open» hstatus hevent hy =>
    obtain ⟨htarget, -, hreward, -⟩ := stored_of_yields hy hst
    have hp := stored_pendingEdit_none hst
      (hy.pendingEdit.trans (hunedited (by rw [hstatus]; decide)))
    have hsent := hstanding.waiting hstatus
    rw [demands_of_yields hy]
    refine advances_live (by simp) (by rw [htarget]; rfl) (hj.confirmed hevent) (hnone hp _) ?_
    refine Or.inl ⟨List.mem_append_left _ (by rw [hsent, hreward]; simp), ?_⟩
    intro d hd seq hseq
    have hd : d ∈ c.sent := by simpa [Case.advance] using hd
    rw [hsent] at hd
    obtain rfl := List.mem_singleton.mp hd
    cases hseq
  | refuse hstatus hevent hy =>
    obtain ⟨htarget, -⟩ := stored_of_yields hy hst
    rw [demands_of_yields hy]
    exact advances_final (by rw [htarget]; rfl) (by rw [htarget]; decide)
      (stored_pendingEdit_none hst hy.pendingEdit) (by simp)
  | fail _ _ hy | expire _ _ hy | refund _ _ hy =>
    obtain ⟨htarget, -⟩ := stored_of_yields hy hst
    rw [demands_of_yields hy]
    exact advances_final (by rw [htarget]; rfl) (by rw [htarget]; decide)
      (stored_pendingEdit_none hst hy.pendingEdit) (by simp [demandOf_release])
  | withdraw names _ htarget hy =>
    obtain ⟨hstatus, -⟩ := stored_of_yields hy hst
    rw [demands_of_yields hy]
    refine advances_final ?_ ?_ (stored_pendingEdit_none hst hy.pendingEdit)
      (by simp [demandOf_release]) <;>
      rcases htarget with ⟨-, htarget, -⟩ | ⟨-, htarget, -⟩ <;> rw [hstatus, htarget] <;> decide
  | edit d hstatus hevent hpending hsame _ hy =>
    obtain ⟨htarget, -, hreward, -⟩ := stored_of_yields hy hst
    rw [demands_of_yields hy]
    exact advances_live (by simp) (by rw [htarget]; rfl) (hstanding.confirmed (by rw [hstatus]; rfl))
      (hnone (stored_pendingEdit_none hst hy.pendingEdit) _)
      ((hstanding.based (by rw [hstatus]; rfl)).advance_plain hpending (hreward.trans hsame))
  | requestEdit p hstatus hevent hpending _ _ _ hy =>
    obtain ⟨htarget, hversion, hreward, -⟩ := stored_of_yields hy hst
    obtain ⟨q, hq, hamount⟩ := stored_pendingEdit_some hst hy.pendingEdit
    rw [demands_of_yields hy, List.filterMap_cons_some demandOf_adjust, List.filterMap_nil]
    refine advances_live (by simp [Demand.slot, Slot.seq]) (by rw [htarget]; rfl)
      (hstanding.confirmed (by rw [hstatus]; rfl)) ?_
      ((hstanding.based (by rw [hstatus]; rfl)).requestEdit hpending hversion (by rw [hq]; rfl)
        hreward)
    intro p' hp'
    rw [hq] at hp'
    cases hp'
    rw [hversion, hamount]
    exact List.mem_singleton_self _
  | confirmEdit p hstatus hevent hpending hkey hy =>
    obtain ⟨htarget, -, hreward, -⟩ := stored_of_yields hy hst
    rw [demands_of_yields hy]
    exact advances_live (by simp) (by rw [htarget]; rfl) (hstanding.confirmed (by rw [hstatus]; rfl))
      (hnone (stored_pendingEdit_none hst hy.pendingEdit) _)
      (based_confirmEdit ho he hpending (hstanding.pending p hpending) (hj.editConfirmed hevent)
        hreward)
  | refuseEdit p hstatus hevent hpending hkey hy =>
    obtain ⟨htarget, -, hreward, -⟩ := stored_of_yields hy hst
    have hp := stored_pendingEdit_none hst hy.pendingEdit
    rw [demands_of_yields hy, demands_revert, hy.version]
    split_ifs with htimeout
    · exact advances_live (by simp [Demand.slot, Slot.seq]) (by rw [htarget]; rfl)
        (hstanding.confirmed (by rw [hstatus]; rfl)) (hnone hp _) (based_revert ho he hreward)
    · exact advances_live (by simp) (by rw [htarget]; rfl)
        (hstanding.confirmed (by rw [hstatus]; rfl)) (hnone hp _)
        ((hstanding.based (by rw [hstatus]; rfl)).refuseEdit
          ((hj.editRefused hevent).resolve_left htimeout) hreward)
  | accept hstatus _ _ _ hy =>
    obtain ⟨htarget, -, hreward, -⟩ := stored_of_yields hy hst
    have hp := stored_pendingEdit_none hst hy.pendingEdit
    rw [demands_of_yields hy, demands_revert, hy.version]
    split_ifs with hpending
    · exact advances_live (by simp [Demand.slot, Slot.seq]) (by rw [htarget]; rfl)
        (hstanding.confirmed (by rw [hstatus]; rfl)) (hnone hp _) (based_revert ho he hreward)
    · exact advances_live (by simp) (by rw [htarget]; rfl)
        (hstanding.confirmed (by rw [hstatus]; rfl)) (hnone hp _)
        ((hstanding.based (by rw [hstatus]; rfl)).advance_plain
          (Option.not_isSome_iff_eq_none.mp hpending) hreward)
  | reopen hstatus _ hy =>
    obtain ⟨htarget, -, hreward, -⟩ := stored_of_yields hy hst
    have hbefore := hunedited (by rw [hstatus]; decide)
    rw [demands_of_yields hy]
    exact advances_live (by simp) (by rw [htarget]; rfl) (hstanding.confirmed (by rw [hstatus]; rfl))
      (hnone (stored_pendingEdit_none hst (hy.pendingEdit.trans hbefore)) _)
      ((hstanding.based (by rw [hstatus]; rfl)).advance_plain hbefore hreward)
  | proceed name hstatus hy =>
    obtain ⟨htarget, -, hreward, -⟩ := stored_of_yields hy hst
    have hlive : live e.status = true ∧ e.status ≠ .open ∧ live t.target = true := by
      rcases hstatus with ⟨hs, -, ht, -⟩ | ⟨hs, -, ht, -⟩ | ⟨hs, -, ht, -⟩ | ⟨hs, -, ht, -⟩ <;>
        rw [hs, ht] <;> decide
    rw [demands_of_yields hy]
    exact advances_live (by simp) (by rw [htarget]; exact hlive.2.2)
      (hstanding.confirmed (Bool.and_elim_left hlive.1))
      (hnone (stored_pendingEdit_none hst hy.pendingEdit) _)
      ((hstanding.based hlive.1).advance_plain (hunedited hlive.2.1) hreward)
  | complete hstatus hy =>
    obtain ⟨htarget, -, hreward, hcourier⟩ := stored_of_yields hy hst
    have hfunded : funded e.status = true := by
      rcases hstatus with ⟨hs, -⟩ | ⟨hs, -⟩ <;> rw [hs] <;> rfl
    rw [demands_of_yields hy]
    constructor
    case transfer =>
      intro courierID amount hmem
      obtain ⟨rfl, rfl⟩ : courierID = e.courierID ∧ amount = e.details.reward := by
        simpa [demandOf, creditRow] using hmem
      exact ⟨htarget, hcourier.symm, hreward.symm⟩
    case release =>
      intro hmem
      simp [demandOf, creditRow] at hmem
    case waiting => rw [htarget]; decide
    case confirmed => exact fun _ => hstanding.confirmed hfunded
    case pending => exact hnone (stored_pendingEdit_none hst hy.pendingEdit) _
    case based =>
      rw [htarget]
      intro h
      cases h

/-! ## Steps -/

/-- A new errand asks for its reward to be reserved, and nothing else. -/
theorem Sound.standing_submit (hs : Sound c) (hnone : c.errand = none) (hstatus : e.status = .none)
    (hm : Move e input t) (hst : StoredAs (t.applyTo e) stored) (hregular : Regular stored) :
    Standing (c.advance stored (t.outbox.filterMap demandOf)) stored := by
  obtain ⟨hsent, habsent⟩ := hs.unborn hnone
  obtain ⟨target, hy⟩ : ∃ target, Yields e t .pendingReservation 1 e.details target none
      [creditRow e t .creditReserve "reserve" 0 { amount := e.details.reward }] [.placed] := by
    cases hm with
    | submit _ _ _ _ hy => exact ⟨_, hy⟩
    | «open» h | refuse h | fail h | edit _ h | requestEdit _ h | confirmEdit _ h | refuseEdit _ h
    | accept h | withdraw _ h | reopen h | expire h | refund h =>
      rw [hstatus] at h
      cases h
    | proceed _ h =>
      rcases h with ⟨h, -⟩ | ⟨h, -⟩ | ⟨h, -⟩ | ⟨h, -⟩ <;>
      · rw [hstatus] at h
        cases h
    | complete h =>
      rcases h with ⟨h, -⟩ | ⟨h, -⟩ <;>
      · rw [hstatus] at h
        cases h
  obtain ⟨htarget, -, hreward, -⟩ := stored_of_yields hy hst
  have hall : (c.advance stored (t.outbox.filterMap demandOf)).sent =
      [.reserve stored.details.reward] := by
    rw [demands_of_yields hy, hreward]
    simp [Case.advance, hsent, demandOf, creditRow]
  constructor
  case regular => exact hregular
  case transferSent =>
    intro courierID amount hmem
    simp [hall] at hmem
  case releaseSent =>
    intro hmem
    simp [hall] at hmem
  case waiting => exact fun _ => hall
  case confirmed =>
    rw [htarget]
    intro h
    cases h
  case requester =>
    intro id hid
    rw [show (c.advance stored _).holding = _ from habsent] at hid
    cases hid
  case courier =>
    intro w k amount hpaid
    cases habsent.symm.trans hpaid
  case pending =>
    intro p hp
    rw [stored_pendingEdit_none hst hy.pendingEdit] at hp
    cases hp
  case based =>
    rw [htarget]
    intro h
    cases h

/-- Opening wallets keeps the invariant. -/
theorem Sound.wallets (hs : Sound c) {subject : ℕ → Option String}
    (hext : ∀ id x, c.subject id = some x → subject id = some x) :
    Sound { c with subject := subject } :=
  { hs with
    standing := fun e he =>
      { hs.standing e he with
        requester := fun id hid => hext _ _ ((hs.standing e he).requester id hid)
        courier := fun w k amount hpaid =>
          ((hs.standing e he).courier w k amount hpaid).imp_left (hext _ _) } }

/-- Every step keeps the invariant. -/
theorem Sound.step {c' : Case} (hs : Sound c) (ho : c.Ordered) (hstep : c.Step c') : Sound c' := by
  cases hstep with
  | move e input t stored hbefore hm hj hst hregular =>
    refine hs.advance ?_
    rcases hbefore with he | ⟨hnone, hstatus⟩
    · exact (hs.advances ho he hm hj hst).standing hs he hm.status.2 hregular hst.requesterID
    · exact hs.standing_submit hnone hstatus hm hst hregular
  | serve d m o requester version result h hsent hrequester hnew hserves =>
    exact hs.serve hsent hrequester hnew hserves
  | wallets subject hext => exact hs.wallets hext

/-- The invariant of an errand that does not exist yet. -/
theorem sound_unborn {subject : ℕ → Option String} :
    Sound ⟨none, [], fun _ => none, .absent, subject⟩ := by
  constructor <;> simp [Holding.reserved, Holding.ended, Holding.paid, Case.Answered]

end

end FocServices.Settlement
