import FocServices.Settlement.System

/-!
# What the services pay

Results about every run of the two services together: a release and a transfer exclude
each other, a transfer finds its reservation on hold, the courier is paid the reward or
nothing, and an edit is installed only when its amount is what the reservation holds.
-/

namespace FocServices.Settlement

open Txn Relation Orders Credit

/-! ## Facts about one case -/

section

variable {c : Case} {e : Errand}

/-- A slot holds one demand. -/
theorem Case.Ordered.eq_of_slot (ho : c.Ordered) {d d' : Demand} (hd : d ∈ c.sent)
    (hd' : d' ∈ c.sent) (hslot : d.slot = d'.slot) : d = d' :=
  List.inj_on_of_nodup_map ho.slots hd hd' hslot

theorem Case.Answered.type_eq {slot : Slot} {type type' : ResultType} (h : c.Answered slot type)
    (h' : c.Answered slot type') : type = type' := by
  obtain ⟨result, hanswer, rfl⟩ := h
  obtain ⟨result', hanswer', rfl⟩ := h'
  rw [hanswer] at hanswer'
  cases hanswer'
  rfl

/-- The commands are answered only after they were sent. -/
theorem Sound.sent_of_answer (hs : Sound c) {slot : Slot} {result : Result}
    (hanswer : c.answer slot = some result) : ∃ d ∈ c.sent, d.slot = slot :=
  List.mem_map.mp (hs.answered slot result hanswer).1

/-- A release and a transfer are not both sent. -/
theorem Sound.exclusive (hs : Sound c) {courierID : String} {amount : ℤ}
    (hrelease : .release ∈ c.sent) : .transfer courierID amount ∉ c.sent := by
  intro htransfer
  cases herrand : c.errand with
  | none =>
    rw [(hs.unborn herrand).1] at hrelease
    cases hrelease
  | some e =>
    have hst := hs.standing e herrand
    exact (hst.releaseSent hrelease).2 (hst.transferSent _ _ htransfer).1

/-- While the errand is under way, its credits are on hold. -/
theorem Sound.active (hs : Sound c) (he : c.errand = some e) (hlive : live e.status = true) :
    ∃ w amount last, c.holding = .active w amount last := by
  have hst := hs.standing e he
  obtain ⟨hfunded, hterminal⟩ := Bool.and_eq_true_iff.mp hlive
  have hterminal : e.status.terminal = false := by simpa using hterminal
  have hreserved := hs.held.mpr (hst.confirmed hfunded)
  cases hholding : c.holding with
  | active w amount last => exact ⟨w, amount, last, rfl⟩
  | absent | barred =>
    rw [hholding] at hreserved
    cases hreserved
  | released w =>
    obtain ⟨result, hanswer⟩ := Option.isSome_iff_exists.mp (hs.ended.mp (by rw [hholding]; rfl))
    obtain ⟨d, hd, hslot⟩ := hs.sent_of_answer hanswer
    cases d <;> cases hslot
    rw [(hst.releaseSent hd).1] at hterminal
    cases hterminal
  | transferred w k amount =>
    rw [hs.status_of_paid he (by rw [hholding]; rfl)] at hterminal
    cases hterminal

/-- An adjustment that the errand has not outrun is what the reservation holds. -/
theorem Sound.edit_applied (hs : Sound c) (ho : c.Ordered) (he : c.errand = some e)
    {p : PendingEdit} (hpending : e.pendingEdit = some p)
    (hanswer : c.Answered (.adjust e.version) .adjusted) :
    ∃ w last, c.holding = .active w p.details.reward last := by
  have hst := hs.standing e he
  have hlive : live e.status = true := by
    rw [(hst.regular.pendingEdit p hpending).1]
    rfl
  have hsent := hst.pending p hpending
  obtain ⟨w, amount, last, hactive⟩ := hs.active he hlive
  have hle := (hs.newest _ _ rfl hanswer).2 w amount last hactive
  have hpos := ho.positive _ hsent _ rfl
  rcases hs.applied w amount last hactive with ⟨hzero, -⟩ | ⟨d, hd, hseq, hamount, -⟩
  · omega
  · -- no later adjustment exists while the edit is pending
    have hbound := ho.bounded e he d hd last hseq
    rw [Errand.seqBound, hpending, Option.isSome_some, if_pos rfl] at hbound
    obtain rfl : last = adjustSeq e.version := le_antisymm hbound hle
    obtain rfl := ho.eq_of_slot hd hsent (Slot.eq_of_seq hseq rfl)
    exact ⟨w, _, by rw [hactive, ← hamount]; rfl⟩

/-- Once every adjustment was executed, the reservation holds the reward. -/
theorem Sound.amount_eq_reward (hs : Sound c) (ho : c.Ordered) (he : c.errand = some e)
    (hlive : live e.status = true) (hpending : e.pendingEdit = none)
    (hexecuted : ∀ d ∈ c.sent, ∀ seq, d.slot.seq = some seq → (c.answer d.slot).isSome = true)
    (hreverts : ∀ version, ¬ c.Answered (.revert version) .adjustRefused) :
    ∃ w last, c.holding = .active w e.details.reward last := by
  have hst := hs.standing e he
  obtain ⟨w, amount, last, hactive⟩ := hs.active he hlive
  have happlied := hs.applied w amount last hactive
  -- an edit that is not installed was refused, so it is not the one that was applied
  have hrefused : ∀ d, Shelved c e d → ¬ c.Answered d.slot .adjusted := by
    rintro d ⟨version, newAmount, rfl, hrefused | ⟨-, hsome⟩⟩ hadjusted
    · cases hrefused.type_eq hadjusted
    · rw [hpending] at hsome
      cases hsome
  refine ⟨w, last, ?_⟩
  suffices amount = e.details.reward by rw [hactive, this]
  rcases hst.based hlive with ⟨hreserve, hrest⟩ | ⟨b, hb, top, htop, hamount, hmade, hrest⟩
  · rcases happlied with ⟨-, hreserve'⟩ | ⟨d, hd, hseq, -, hadjusted⟩
    · cases ho.eq_of_slot hreserve hreserve' rfl
      rfl
    · exact absurd hadjusted (hrefused d (hrest d hd last hseq))
  · have hadjusted : c.Answered b.slot .adjusted := by
      rcases hmade with ⟨version, hslot⟩ | hadjusted
      · obtain ⟨result, hanswer⟩ := Option.isSome_iff_exists.mp (hexecuted b hb top htop)
        have hallows := (hs.answered _ _ hanswer).2
        rw [hslot] at hanswer hallows ⊢
        rcases hallows with htype | htype
        · exact ⟨result, hanswer, htype⟩
        · exact absurd ⟨result, hanswer, htype⟩ (hreverts version)
      · exact hadjusted
    have hle := (hs.newest _ _ htop hadjusted).2 w amount last hactive
    have hpos := ho.positive b hb top htop
    rcases happlied with ⟨hzero, -⟩ | ⟨d, hd, hseq, hamount', hadjusted'⟩
    · omega
    · rcases hle.lt_or_eq with hlt | rfl
      · exact absurd hadjusted' (hrefused d (hrest d hd last hseq hlt))
      · obtain rfl := ho.eq_of_slot hd hb (Slot.eq_of_seq hseq htop)
        exact hamount'.symm.trans hamount

end

/-- An edit is confirmed while it is pending, and its details are installed. -/
theorem pending_of_editConfirmed {e : Errand} {input : EventInput} {t : Transition}
    (hm : Move e input t) (hevent : t.event = .editConfirmed) :
    ∃ p, e.pendingEdit = some p ∧ (t.applyTo e).details = p.details := by
  cases hm with
  | confirmEdit p _ _ hpending _ hy => exact ⟨p, hpending, hy.details⟩
  | submit _ _ h | «open» _ h | refuse _ h | fail _ h | edit _ _ h | requestEdit _ _ h
  | refuseEdit _ _ h | accept _ h | refund _ h =>
    rw [hevent] at h
    cases h
  | withdraw _ _ h => rcases h with ⟨h, -⟩ | ⟨h, -⟩ <;> cases hevent.symm.trans h
  | reopen _ h | expire _ h => rcases h with h | h <;> cases hevent.symm.trans h
  | proceed _ h =>
    rcases h with ⟨-, h, -⟩ | ⟨-, h, -⟩ | ⟨-, h | h, -⟩ | ⟨-, h, -⟩ <;> cases hevent.symm.trans h
  | complete h =>
    rcases h with ⟨-, h | h⟩ | ⟨-, h⟩ <;> cases hevent.symm.trans h

/-! ## Releases and transfers -/

section

variable {orders : Orders.Tables} {credit : Credit.Tables} {serial : ℕ} {errandID : String}
  {h : Holding}

theorem reservation_of_active (hholds : Holds credit errandID h) {w : ℕ} {amount last : ℤ}
    (hactive : h = .active w amount last) : ∃ r, credit.reservationOf errandID = some r ∧
      r.status = .active ∧ r.amount = amount := by
  subst hactive
  obtain ⟨-, r, hr, hstatus, -, hamount, -⟩ := hholds.stands
  exact ⟨r, hr, hstatus, hamount⟩

/-- A credit row makes its demand for a stored errand. -/
theorem Coupled.demand_sent (hc : Coupled orders credit serial) {row : Orders.OutboxRow}
    (hrow : row ∈ orders.outbox) {d : Demand} (hd : demandOf row = some d) :
    d ∈ sentFor orders row.errandID ∧ Canonical row.errandID ∧
      ∃ e, orders.errandOf row.errandID = some e := by
  obtain ⟨-, -, -, e, he, hid, -⟩ := hc.labelled hrow hd
  exact ⟨mem_sentFor.mpr ⟨row, hrow, rfl, hd⟩, hid ▸ (hc.keyed.regular e he).canonical, e,
    (errandOf_eq_some hc.keyed).mpr ⟨he, hid⟩⟩

end

/-- A row of the outbox is a credit command of this kind for the errand. -/
def Emits (orders : Orders.Tables) (errandID : String) (kind : Kind) (row : Orders.OutboxRow) :
    Prop :=
  row ∈ orders.outbox ∧ row.errandID = errandID ∧ row.kind = kind

section

variable {orders : Orders.Tables} {credit : Credit.Tables} {serial : ℕ} {errandID : String}
  {row row' : Orders.OutboxRow}

/-- A row of a credit kind makes the demand of its kind. -/
theorem Coupled.demand_of_emits (hc : Coupled orders credit serial) {kind : Kind}
    (hemits : Emits orders errandID kind row) (hkind : ∀ name, kind ≠ .event name) :
    ∃ d, demandOf row = some d := by
  obtain ⟨hrow, -, rfl⟩ := hemits
  rcases hc.rows row hrow with ⟨d, hd, -⟩ | ⟨name, hname⟩
  · exact ⟨d, hd⟩
  · exact absurd hname (hkind name)

theorem Coupled.release_of_emits (hc : Coupled orders credit serial)
    (hemits : Emits orders errandID .creditRelease row) : demandOf row = some .release := by
  obtain ⟨d, hd⟩ := hc.demand_of_emits hemits nofun
  cases hpayload : row.payload with
  | credit cmd => simp [demandOf, hemits.2.2, hpayload]
  | _ => simp [demandOf, hemits.2.2, hpayload] at hd

theorem Coupled.transfer_of_emits (hc : Coupled orders credit serial)
    (hemits : Emits orders errandID .creditTransfer row) :
    ∃ courierID amount, demandOf row = some (.transfer courierID amount) := by
  obtain ⟨d, hd⟩ := hc.demand_of_emits hemits nofun
  cases hpayload : row.payload with
  | credit cmd => simp [demandOf, hemits.2.2, hpayload]
  | _ => simp [demandOf, hemits.2.2, hpayload] at hd

theorem Coupled.exclusive (hc : Coupled orders credit serial)
    (hrelease : Emits orders errandID .creditRelease row)
    (htransfer : Emits orders errandID .creditTransfer row') : False := by
  obtain ⟨courierID, amount, hd'⟩ := hc.transfer_of_emits htransfer
  obtain ⟨hsent, hid, -⟩ := hc.demand_sent hrelease.1 (hc.release_of_emits hrelease)
  obtain ⟨hsent', -, -⟩ := hc.demand_sent htransfer.1 hd'
  obtain ⟨h, -, hsound⟩ := hc.cases _ hid
  rw [htransfer.2.1, ← hrelease.2.1] at hsent'
  exact hsound.exclusive hsent hsent'

/-- The reservation is on hold until the transfer is executed. -/
theorem Coupled.covered (hc : Coupled orders credit serial)
    (htransfer : Emits orders errandID .creditTransfer row) :
    ∃ r, credit.reservationOf errandID = some r ∧ (r.status = .active ∨
      ∃ result, credit.resultOf row.idempotencyKey = some result ∧
        result.type = .transferred) := by
  obtain ⟨courierID, amount, hd⟩ := hc.transfer_of_emits htransfer
  obtain ⟨hsent, hid, e, he⟩ := hc.demand_sent htransfer.1 hd
  have hkey := (hc.labelled htransfer.1 hd).key
  obtain ⟨h, hholds, hsound⟩ := hc.cases _ hid
  have hpayable := hsound.payable he hsent
  rw [← htransfer.2.1]
  cases h with
  | active w amount last =>
    obtain ⟨r, hr, hstatus, -⟩ := reservation_of_active hholds rfl
    exact ⟨r, hr, Or.inl hstatus⟩
  | transferred w k amount =>
    obtain ⟨-, r, hr, -⟩ := hholds.stands
    refine ⟨r, hr, Or.inr ?_⟩
    obtain ⟨result, hanswer⟩ := Option.isSome_iff_exists.mp (hsound.paid.mp rfl)
    rw [hkey]
    exact ⟨result, hanswer, (hsound.answered _ _ hanswer).2⟩
  | absent | barred | released => cases hpayable

end

/-- The delivery of a committed command, as the services see it. -/
def Answers (hash : String → ℤ) (s : System) (row : Orders.OutboxRow) (result : Result) : Prop :=
  row ∈ s.orders.outbox ∧ ∃ cmd now, commandOf row = some cmd ∧
    ((Credit.engine hash).atomically (cmd.body (some now)) s.credit s.serial).1 = .ok result

section

variable {ordersHash creditHash : String → ℤ} {s : System}

/-- No errand has a release and a transfer. The reservation for a transfer exists and is
active until the transfer is executed. An operation fails only if it is a transfer that
lacks credits or an account. -/
theorem transfer_covered (hs : System.Reachable ordersHash creditHash s) (errandID : String) :
    (∀ row row', Emits s.orders errandID .creditRelease row →
        ¬ Emits s.orders errandID .creditTransfer row') ∧
      (∀ row, Emits s.orders errandID .creditTransfer row →
        ∃ r, s.credit.reservationOf errandID = some r ∧ (r.status = .active ∨
          ∃ result, s.credit.resultOf row.idempotencyKey = some result ∧
            result.type = .transferred)) ∧
      (∀ row result, Answers creditHash s row result → result.type = .operationFailed →
        row.kind = .creditTransfer ∧
          (result.code = some .insufficientCredits ∨ result.code = some .accountNotFound)) ∧
      ∀ row ∈ s.credit.outbox, row.payload.type = .operationFailed →
        Excused s.orders row.payload := by
  have hc := hs.coupled
  refine ⟨fun row row' hrelease htransfer => hc.exclusive hrelease htransfer,
    fun row htransfer => hc.covered htransfer, ?_, ?_⟩
  · rintro row result ⟨hrow, cmd, now, hcmd, hok⟩ htype
    obtain ⟨d, e, ha⟩ := hc.addressedTo hrow hcmd
    rcases hc.delivered ha creditHash now with ⟨result', hok', hcommits⟩ | ⟨⟨err, herr⟩, -⟩
    · rw [hok] at hok'
      cases hok'
      exact hc.excused hrow ha hcommits htype
    · rw [hok] at herr
      cases herr
  · intro row hrow htype
    have hreply := hc.replies row hrow
    rwa [if_pos htype] at hreply

end

/-- The errand's transfer was executed. -/
def Transferred (credit : Credit.Tables) (errandID : String) : Prop :=
  (credit.resultOf (idempotencyKey errandID "transfer" 0)).isSome = true

/-- The errand's release was executed, or its reserve refused. -/
def Refunded (credit : Credit.Tables) (errandID : String) : Prop :=
  (credit.resultOf (idempotencyKey errandID "release" 0)).isSome = true ∨
    ∃ result, credit.resultOf (idempotencyKey errandID "reserve" 0) = some result ∧
      result.type = .reservationRefused

/-- An errand from its submission to the payment of the courier. -/
def deliveryRun : List Action :=
  let terms : EventInput := { deadlines := ⟨10, 10, 10, 5⟩ }
  [.wallet 100 "55555555-5555-4555-8555-555555555555" "auth0|requester",
    .wallet 100 "66666666-6666-4666-8666-666666666666" "auth0|courier",
    .submit sampleErrand ⟨.requester, "auth0|requester"⟩ {} 0,
    .deliver 0 1,
    .answer 0 2,
    .raise sampleErrand.id .accept ⟨.courier, "auth0|courier"⟩ terms 3,
    .raise sampleErrand.id .pickUp ⟨.courier, "auth0|courier"⟩ terms 4,
    .raise sampleErrand.id .deliver ⟨.courier, "auth0|courier"⟩ terms 5,
    .raise sampleErrand.id .confirm ⟨.requester, "auth0|requester"⟩ terms 6,
    .deliver 6 7]

theorem deliveryRun_plays : ∃ s, System.Reachable (fun _ => 0) (fun _ => 0) s ∧
    (∃ row, Emits s.orders sampleErrand.id .creditTransfer row) ∧
    Transferred s.credit sampleErrand.id ∧
    ∃ e ∈ s.orders.errands, e.id = sampleErrand.id := by
  have hplays : (playAll (fun _ => 0) (fun _ => 0) deliveryRun {}).any (fun s =>
      s.orders.outbox.any (fun row => row.errandID = sampleErrand.id ∧
        row.kind = .creditTransfer) &&
      (s.credit.resultOf (idempotencyKey sampleErrand.id "transfer" 0)).isSome &&
      s.orders.errands.any fun e => e.id = sampleErrand.id) = true := by decide +kernel
  obtain ⟨s, hs, hfacts⟩ := (Option.any_eq_true _ _).mp hplays
  simp only [Bool.and_eq_true, List.any_eq_true, decide_eq_true_eq] at hfacts
  obtain ⟨⟨⟨row, hrow, hid, hkind⟩, htransferred⟩, e, he, heid⟩ := hfacts
  exact ⟨s, reachable_of_playAll .refl hs, ⟨row, hrow, hid, hkind⟩, htransferred, e, he, heid⟩

/-- After the delivery of an errand its transfer is covered. -/
theorem transfer_covered_delivery : ∃ s row r, System.Reachable (fun _ => 0) (fun _ => 0) s ∧
    Emits s.orders sampleErrand.id .creditTransfer row ∧
    s.credit.reservationOf sampleErrand.id = some r := by
  obtain ⟨s, hs, ⟨row, hrow⟩, -⟩ := deliveryRun_plays
  obtain ⟨r, hr, -⟩ := (transfer_covered hs sampleErrand.id).2.1 row hrow
  exact ⟨s, row, r, hs, hrow, hr⟩

/-! ## Later states -/

/-- A final errand is not changed any more. -/
theorem mem_of_terminal {may : Errand → Event → EventInput → Prop} {orders orders' : Orders.Tables}
    (hk : Keyed orders) (hstep : Orders.Step may orders orders') {e : Errand}
    (he : e ∈ orders.errands) (hterminal : e.status.terminal = true) : e ∈ orders'.errands := by
  cases hstep with
  | create e' actor input now t row hnext hid hrow hnew herrands houtbox =>
    rw [herrands]
    exact List.mem_append_left _ he
  | apply e' ev actor input now t row hcur hnext hmay hrow herrands houtbox =>
    rw [herrands]
    refine mem_updateRow.mpr ⟨e, he, if_neg ?_⟩
    intro hid
    have hactive := (next_move hnext).status.2
    rw [← hk.unique.eq he hcur hid, hterminal] at hactive
    cases hactive
  | note row hkey hkind hfresh herrands houtbox => exact herrands ▸ he
  | idle herrands houtbox => exact herrands ▸ he

theorem mem_of_terminal_job {may : Errand → Event → EventInput → Prop} {orders : Orders.Tables}
    (hk : Keyed orders) {hash : String → ℤ} {job : Job} (hjob : job.Follows may orders)
    {e : Errand} (he : e ∈ orders.errands) (hterminal : e.status.terminal = true) :
    e ∈ (job.perform hash orders).errands := by
  have hsteps : ReflTransGen (Orders.Step may) orders (job.perform hash orders) :=
    Job.perform_steps hk hjob
  generalize job.perform hash orders = orders' at hsteps
  induction hsteps with
  | refl => exact he
  | tail hsteps hstep ih => exact mem_of_terminal (hk.steps hsteps) hstep ih hterminal

section

variable {ordersHash creditHash : String → ℤ} {s s' : System}

theorem result_persists_step (hs : System.Reachable ordersHash creditHash s)
    (hstep : System.Step ordersHash creditHash s s') {m : String} {stored : Result}
    (hstored : s.credit.resultOf m = some stored) : s'.credit.resultOf m = some stored := by
  have hc := hs.coupled
  cases hstep with
  | job => exact hstored
  | result => exact hstored
  | command row cmd now hrow hcmd =>
    obtain ⟨d, e, ha⟩ := hc.addressedTo hrow hcmd
    obtain ⟨h, hholds, -⟩ := hc.cases _ ha.canonical
    rcases hc.delivered ha creditHash now with ⟨result, -, hcommits⟩ | ⟨-, hsame⟩
    · exact hcommits.result_persists hholds hstored
    · rw [System.request, hsame]
      exact hstored
  | wallet initialCredit ownerID auth0Subject =>
    have hopens : OpensWallets s.credit
        ((Request.createWallet initialCredit ownerID auth0Subject).perform creditHash
          (s.credit, s.serial)).1 := createWallet_opensWallets _ _ _
    rw [Credit.Tables.resultOf] at hstored ⊢
    rw [← hopens.processed] at hstored
    exact hstored

theorem terminal_persists_step (hs : System.Reachable ordersHash creditHash s)
    (hstep : System.Step ordersHash creditHash s s') {e : Errand} (he : e ∈ s.orders.errands)
    (hterminal : e.status.terminal = true) : e ∈ s'.orders.errands := by
  have hc := hs.coupled
  cases hstep with
  | job job hjob => exact mem_of_terminal_job hc.keyed hjob he hterminal
  | result row t now hrow ht =>
    exact mem_of_terminal_job hc.keyed (hc.follows_result hrow ht) he hterminal
  | command | wallet => exact he

theorem System.Reachable.trans (hs : System.Reachable ordersHash creditHash s)
    (hlater : ReflTransGen (System.Step ordersHash creditHash) s s') :
    System.Reachable ordersHash creditHash s' := ReflTransGen.trans hs hlater

theorem result_persists (hs : System.Reachable ordersHash creditHash s)
    (hlater : ReflTransGen (System.Step ordersHash creditHash) s s') {m : String}
    {stored : Result} (hstored : s.credit.resultOf m = some stored) :
    s'.credit.resultOf m = some stored := by
  induction hlater with
  | refl => exact hstored
  | tail hlater hstep ih => exact result_persists_step (hs.trans hlater) hstep ih

theorem terminal_persists (hs : System.Reachable ordersHash creditHash s)
    (hlater : ReflTransGen (System.Step ordersHash creditHash) s s') {e : Errand}
    (he : e ∈ s.orders.errands) (hterminal : e.status.terminal = true) :
    e ∈ s'.orders.errands := by
  induction hlater with
  | refl => exact he
  | tail hlater hstep ih => exact terminal_persists_step (hs.trans hlater) hstep ih hterminal

end

/-! ## What the ledger says -/

section

variable {credit : Credit.Tables} {o : String} {h : Holding}

theorem paidIn_of_unpaid (hholds : Holds credit o h) (hunpaid : h.paid = false) :
    ∀ f ∈ credit.entriesOf o, f.type ≠ .transferIn := by
  have hexplains := hholds.explains
  cases h with
  | absent | barred =>
    rw [show credit.entriesOf o = [] from hexplains]
    exact List.forall_mem_nil _
  | active | released => exact fun f hf => (hexplains.1 f hf).2
  | transferred => cases hunpaid

theorem netOn_of_no_entry {w : ℕ} {entries : List LedgerEntry}
    (hnone : ∀ f ∈ entries, f.walletID ≠ w) : netOn w entries = 0 := by
  have hempty : (entries.filter fun f => f.walletID = w) = [] := by
    rw [List.filter_eq_nil_iff]
    intro f hf hid
    exact hnone f hf (of_decide_eq_true hid)
  rw [netOn, hempty]
  rfl

/-- Credits that are not held any more, or never were, leave no trace in any balance. -/
theorem netOn_of_ended (hholds : Holds credit o h)
    (hended : h.ended = true ∨ h.reserved = false) (w : ℕ) : netOn w (credit.entriesOf o) = 0 := by
  have hexplains := hholds.explains
  cases h with
  | absent | barred =>
    rw [show credit.entriesOf o = [] from hexplains]
    rfl
  | released w' =>
    by_cases hw : w = w'
    · exact hw ▸ hexplains.2
    · exact netOn_of_no_entry fun f hf hid => hw (hid.symm.trans (hexplains.1 f hf).1)
  | active | transferred => rcases hended with hended | hended <;> cases hended

theorem eq_of_subject {serial : ℕ} (hb : Books credit serial) {w w' : ℕ} {subject : String}
    (hw : credit.subjectOf w = some subject) (hw' : credit.subjectOf w' = some subject) :
    w = w' := by
  obtain ⟨v, hv, hsubject⟩ := Option.map_eq_some_iff.mp hw
  obtain ⟨v', hv', hsubject'⟩ := Option.map_eq_some_iff.mp hw'
  obtain ⟨hmem, rfl⟩ := mem_of_findRow hv
  obtain ⟨hmem', rfl⟩ := mem_of_findRow hv'
  rw [hb.subjects.eq hmem hmem' (hsubject.trans hsubject'.symm)]

/-- Without credits on hold, only a first reserve can change a balance. -/
theorem Serves.keeps {subject : ℕ → Option String} {cmd : Command} {result : Result}
    {h' : Holding} (hserves : Serves subject h cmd result h')
    (hheld : h.ended = true ∨ h.paid = true ∨ (h = .absent ∧ ∀ m c, cmd ≠ .reserve m c)) :
    h' = h ∨ h' = .barred := by
  cases hserves with
  | reserved => exact absurd rfl (((hheld.resolve_left nofun).resolve_left nofun).2 _ _)
  | adjusted | released | transferred =>
    rcases hheld with hheld | hheld | ⟨hheld, -⟩ <;> cases hheld
  | releaseFirst => exact Or.inr rfl
  | _ => exact Or.inl rfl

end

section

variable {orders : Orders.Tables} {credit : Credit.Tables} {serial : ℕ} {e : Errand} {h : Holding}

/-- What a refund means for the holding. -/
theorem Sound.refunded {errandID : String} (hs : Sound (caseOf orders credit errandID h))
    (hrefunded : Refunded credit errandID) : h.ended = true ∨ h.reserved = false := by
  rcases hrefunded with hrelease | hrefused
  · exact Or.inl (hs.ended.mpr hrelease)
  · refine Or.inr (Bool.not_eq_true _ ▸ fun hreserved => ?_)
    cases (hs.held.mp hreserved).type_eq hrefused

/-- The courier of a completed errand is paid the reward; nobody else is paid. -/
theorem Coupled.paid (hc : Coupled orders credit serial) (he : e ∈ orders.errands) :
    (paidIn (credit.entriesOf e.id) = 0 ∨
        (e.status = .completed ∧ paidIn (credit.entriesOf e.id) = e.details.reward)) ∧
      ∀ f ∈ credit.entriesOf e.id, f.type = .transferIn →
        credit.subjectOf f.walletID = some e.courierID := by
  obtain ⟨h, hholds, hsound⟩ := hc.cases e.id (hc.keyed.regular e he).canonical
  have herrand : (caseOf orders credit e.id h).errand = some e :=
    (errandOf_eq_some hc.keyed).mpr ⟨he, rfl⟩
  have hst := hsound.standing e herrand
  cases hpaid : h.paid with
  | false =>
    have hnone := paidIn_of_unpaid hholds hpaid
    refine ⟨Or.inl ?_, fun f hf htype => absurd htype (hnone f hf)⟩
    have hempty : ((credit.entriesOf e.id).filter fun f => f.type = .transferIn) = [] := by
      rw [List.filter_eq_nil_iff]
      exact fun f hf htype => hnone f hf (of_decide_eq_true htype)
    rw [paidIn, hempty]
    rfl
  | true =>
    have hcompleted := hsound.status_of_paid herrand hpaid
    cases h with
    | transferred w k amount =>
      obtain ⟨hcourier, hamount⟩ := hst.courier w k amount rfl
      obtain ⟨-, hentries, hpaidIn, -⟩ := hholds.explains
      refine ⟨Or.inr ⟨hcompleted, hpaidIn.trans hamount⟩, fun f hf htype => ?_⟩
      rcases hentries f hf with ⟨-, hother⟩ | ⟨hwallet, -⟩
      · exact absurd htype hother
      · rw [hwallet]
        exact hcourier
    | absent | barred | active | released => cases hpaid

/-- Once the transfer was executed, the requester has paid the reward. -/
theorem Coupled.requester_paid (hc : Coupled orders credit serial) (he : e ∈ orders.errands)
    (htransferred : Transferred credit e.id) {w : ℕ}
    (hw : credit.subjectOf w = some e.requesterID) :
    netOn w (credit.entriesOf e.id) = -e.details.reward := by
  obtain ⟨h, hholds, hsound⟩ := hc.cases e.id (hc.keyed.regular e he).canonical
  have hst := hsound.standing e ((errandOf_eq_some hc.keyed).mpr ⟨he, rfl⟩)
  have hpaid : h.paid = true := hsound.paid.mpr htransferred
  cases h with
  | transferred w' k amount =>
    obtain ⟨-, -, -, hnet⟩ := hholds.explains
    rw [eq_of_subject hc.books hw (hst.requester w' rfl), hnet, (hst.courier w' k amount rfl).2]
  | absent | barred | active | released => cases hpaid

/-- Once the transfer or the release was executed, or the reserve refused, no command for
the errand changes a balance. -/
theorem Coupled.settled (hc : Coupled orders credit serial) {row : Orders.OutboxRow}
    {cmd : Command} (hrow : row ∈ orders.outbox) (hcmd : commandOf row = some cmd)
    (hsettled : Transferred credit row.errandID ∨ Refunded credit row.errandID)
    (hash : String → ℤ) (now : ℤ) :
    ((Request.order (some now) cmd).perform hash (credit, serial)).1.wallets = credit.wallets := by
  obtain ⟨d, e, ha⟩ := hc.addressedTo hrow hcmd
  obtain ⟨h, hholds, hsound⟩ := hc.cases _ ha.canonical
  rcases hc.delivered ha hash now with ⟨result, -, hcommits⟩ | ⟨-, hsame⟩
  · rcases hcommits.serves h hholds with ⟨-, -, hwallets⟩ | ⟨hnew, h', hserves, -, hwallets⟩
    · exact hwallets
    refine hwallets (Serves.keeps hserves ?_)
    rcases hsettled with htransferred | hrefunded
    · exact Or.inr (Or.inl (hsound.paid.mpr htransferred))
    · rcases hrefunded with hrelease | hrefused
      · exact Or.inl (hsound.ended.mpr hrelease)
      · have hunheld := hsound.refunded (Or.inr hrefused)
        rw [ha.messageID, ha.key] at hnew
        cases h with
        | absent =>
          refine Or.inr (Or.inr ⟨rfl, ?_⟩)
          -- the reserve was executed, so its message is answered from the store
          rintro m c rfl
          obtain ⟨version, hcommand⟩ := ha.command
          cases d <;> cases hcommand
          obtain ⟨refusal, hstored, -⟩ := hrefused
          cases hstored.symm.trans hnew
        | barred | released => exact Or.inl rfl
        | active | transferred => rcases hunheld with hunheld | hunheld <;> cases hunheld
  · rw [hsame]

end

section

variable {ordersHash creditHash : String → ℤ} {s : System}

theorem settled_persists (hs : System.Reachable ordersHash creditHash s) {s' : System}
    (hlater : ReflTransGen (System.Step ordersHash creditHash) s s') {errandID : String}
    (hsettled : Transferred s.credit errandID ∨ Refunded s.credit errandID) :
    Transferred s'.credit errandID ∨ Refunded s'.credit errandID := by
  rcases hsettled with htransferred | hrelease | ⟨result, hstored, htype⟩
  · obtain ⟨result, hstored⟩ := Option.isSome_iff_exists.mp htransferred
    exact Or.inl (Option.isSome_iff_exists.mpr ⟨result, result_persists hs hlater hstored⟩)
  · obtain ⟨result, hstored⟩ := Option.isSome_iff_exists.mp hrelease
    exact Or.inr (Or.inl
      (Option.isSome_iff_exists.mpr ⟨result, result_persists hs hlater hstored⟩))
  · exact Or.inr (Or.inr ⟨result, result_persists hs hlater hstored, htype⟩)

/-- What an errand costs and pays. The courier is paid the reward of the completed errand,
which does not change any more, or nothing. After the transfer the requester has paid the
reward; after the release, or a refused reserve, nothing. From then on no command for the
errand changes any balance. -/
theorem errand_settles (hs : System.Reachable ordersHash creditHash s) (e : Errand)
    (he : e ∈ s.orders.errands) :
    (paidIn (s.credit.entriesOf e.id) = 0 ∨
        (e.status = .completed ∧ paidIn (s.credit.entriesOf e.id) = e.details.reward)) ∧
      (∀ f ∈ s.credit.entriesOf e.id, f.type = .transferIn →
        s.credit.subjectOf f.walletID = some e.courierID) ∧
      (Transferred s.credit e.id → e.status = .completed ∧
        ∀ w, s.credit.subjectOf w = some e.requesterID →
          netOn w (s.credit.entriesOf e.id) = -e.details.reward) ∧
      (Refunded s.credit e.id → ∀ w, netOn w (s.credit.entriesOf e.id) = 0) ∧
      ∀ s', ReflTransGen (System.Step ordersHash creditHash) s s' →
        (e.status = .completed → e ∈ s'.orders.errands) ∧
        (Transferred s.credit e.id ∨ Refunded s.credit e.id →
          ∀ row ∈ s'.orders.outbox, row.errandID = e.id → ∀ cmd, commandOf row = some cmd →
            ∀ now, (s'.request creditHash (.order (some now) cmd)).credit.wallets =
              s'.credit.wallets) := by
  have hc := hs.coupled
  have hpaid := hc.paid he
  obtain ⟨h, hholds, hsound⟩ := hc.cases e.id (hc.keyed.regular e he).canonical
  refine ⟨hpaid.1, hpaid.2, ?_, ?_, ?_⟩
  · intro htransferred
    exact ⟨hsound.status_of_paid ((errandOf_eq_some hc.keyed).mpr ⟨he, rfl⟩)
      (hsound.paid.mpr htransferred), fun w hw => hc.requester_paid he htransferred hw⟩
  · exact fun hrefunded w => netOn_of_ended hholds (hsound.refunded hrefunded) w
  · intro s' hlater
    refine ⟨fun hcompleted => terminal_persists hs hlater he (by rw [hcompleted]; rfl), ?_⟩
    intro hsettled row hrow hid cmd hcmd now
    have hsettled' := settled_persists hs hlater hsettled
    rw [← hid] at hsettled'
    exact (hs.trans hlater).coupled.settled hrow hcmd hsettled' creditHash now

/-- After the delivery of an errand the requester has paid the reward. -/
theorem errand_settles_delivery : ∃ s, System.Reachable (fun _ => 0) (fun _ => 0) s ∧
    ∃ e ∈ s.orders.errands, e.status = .completed ∧
      ∀ w, s.credit.subjectOf w = some e.requesterID →
        netOn w (s.credit.entriesOf e.id) = -e.details.reward := by
  obtain ⟨s, hs, -, htransferred, e, he, hid⟩ := deliveryRun_plays
  exact ⟨s, hs, e, he, (errand_settles hs e he).2.2.1 (hid ▸ htransferred)⟩

/-! ## Edits of the reward -/

/-- When a result installs an edit, the reservation is active and holds the reward that is
installed. An errand under way without a pending edit, all of whose adjustments were
executed and none of whose reverts was refused, has its reward on hold. -/
theorem reward_on_hold (hs : System.Reachable ordersHash creditHash s) :
    (∀ row ∈ s.credit.outbox, ∀ now t, handleResult s.orders now row.payload = some t →
        t.event = .editConfirmed → ∃ e r, s.orders.errandOf t.errandID = some e ∧
          s.credit.reservationOf e.id = some r ∧ r.status = .active ∧
          r.amount = (t.applyTo e).details.reward) ∧
      ∀ e ∈ s.orders.errands,
        e.status ∈ [.open, .assigned, .pickedUp, .delivered, .reviewRequired] →
        e.pendingEdit = none →
        (∀ row, Emits s.orders e.id .creditAdjust row →
          (s.credit.resultOf row.idempotencyKey).isSome = true) →
        (∀ version result,
          s.credit.resultOf (idempotencyKey e.id "adjust-revert" version) = some result →
          result.type ≠ .adjustRefused) →
        ∃ r, s.credit.reservationOf e.id = some r ∧ r.status = .active ∧
          r.amount = e.details.reward := by
  have hc := hs.coupled
  constructor
  · intro row hrow now t ht hevent
    obtain ⟨e, he, ev, actor, input, now, hnext, hbacked⟩ := hc.follows_result hrow ht
    have hid : t.errandID = e.id := (next_for hnext).errandID
    have herrand : s.orders.errandOf e.id = some e := (errandOf_eq_some hc.keyed).mpr ⟨he, rfl⟩
    obtain ⟨h, hholds, hsound⟩ := hc.cases e.id (hc.keyed.regular e he).canonical
    obtain ⟨p, hpending, hdetails⟩ :=
      pending_of_editConfirmed (next_move hnext) hevent
    have hanswer := hbacked.editConfirmed ((next_for hnext).event.symm.trans hevent)
    obtain ⟨w, last, hactive⟩ := hsound.edit_applied hc.ordered herrand hpending hanswer
    obtain ⟨r, hr, hstatus, hamount⟩ := reservation_of_active hholds hactive
    exact ⟨e, r, hid ▸ herrand, hr, hstatus, by rw [hamount, hdetails]⟩
  · intro e he hstatus hpending hexecuted hreverts
    obtain ⟨h, hholds, hsound⟩ := hc.cases e.id (hc.keyed.regular e he).canonical
    have hlive : live e.status = true := by
      simp only [List.mem_cons, List.not_mem_nil, or_false] at hstatus
      rcases hstatus with hs | hs | hs | hs | hs <;> rw [hs] <;> rfl
    have hall : ∀ d ∈ sentFor s.orders e.id, ∀ seq, d.slot.seq = some seq →
        (s.credit.resultOf (d.slot.key e.id)).isSome = true := by
      intro d hd seq hseq
      obtain ⟨row, hrow, hid, hdemand⟩ := mem_sentFor.mp hd
      have hlabelled := hc.labelled hrow hdemand
      rw [← hid, ← hlabelled.key]
      refine hexecuted row ⟨hrow, hid, ?_⟩
      have hrowSeq := hlabelled.seq.trans hseq
      unfold OutboxRow.seq at hrowSeq
      split at hrowSeq
      · assumption
      · cases hrowSeq
    obtain ⟨w, last, hactive⟩ := hsound.amount_eq_reward hc.ordered
      ((errandOf_eq_some hc.keyed).mpr ⟨he, rfl⟩) hlive hpending hall (by
        rintro version ⟨result, hstored, htype⟩
        exact hreverts version result hstored htype)
    exact reservation_of_active hholds hactive

/-- An errand whose reward is edited from five to seven. -/
def editRun : List Action :=
  [.wallet 100 "55555555-5555-4555-8555-555555555555" "auth0|requester",
    .submit sampleErrand ⟨.requester, "auth0|requester"⟩ {} 0,
    .deliver 0 1,
    .answer 0 2,
    .raise sampleErrand.id .edit ⟨.requester, "auth0|requester"⟩
      { edit := some { sampleErrand.details with reward := 7 } } 3,
    .deliver 3 4]

/-- The result of the adjustment installs the edit. -/
theorem reward_on_hold_edit : ∃ s, System.Reachable (fun _ => 0) (fun _ => 0) s ∧
    ∃ (t : Transition) (e : Errand) (r : Reservation), t.event = .editConfirmed ∧
      s.orders.errandOf t.errandID = some e ∧
      s.credit.reservationOf e.id = some r ∧ r.amount = (t.applyTo e).details.reward := by
  have hplays : (playAll (fun _ => 0) (fun _ => 0) editRun {}).any (fun s =>
      s.credit.outbox.any fun row =>
        (handleResult s.orders 5 row.payload).any fun t => t.event = .editConfirmed) = true := by
    decide +kernel
  obtain ⟨s, hs, hfacts⟩ := (Option.any_eq_true _ _).mp hplays
  obtain ⟨row, hrow, hfacts⟩ := List.any_eq_true.mp hfacts
  obtain ⟨t, ht, hevent⟩ := (Option.any_eq_true _ _).mp hfacts
  have hreachable := reachable_of_playAll .refl hs
  have hevent := of_decide_eq_true hevent
  obtain ⟨e, r, he, hr, -, hamount⟩ := (reward_on_hold hreachable).1 row hrow 5 t ht hevent
  exact ⟨s, hreachable, t, e, r, hevent, he, hr, hamount⟩

end

end FocServices.Settlement
