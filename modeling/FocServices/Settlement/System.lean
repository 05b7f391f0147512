import FocServices.Orders.Jobs
import FocServices.Settlement.Messages
import FocServices.Settlement.Transitions

/-!
# The two services together

`System.Step` composes the order service and the credit service: jobs of the order
service, and rows of either outbox delivered to the other service, in any order and any
number of times. `Coupled` ties the two databases together, one case for each errand.
It holds in every state the services reach.
-/

namespace FocServices.Settlement

open Txn Relation Orders Credit

/-! ## Runs of the composed system -/

/-- The databases of the two services. -/
structure System where
  orders : Orders.Tables := {}
  credit : Credit.Tables := {}
  serial : ℕ := 0

/-- What happens to errands without a result of the credit service. The events that report
results come from the handler of results alone, except that the reconciler refuses an
edit that timed out. -/
def Unprompted (_ : Errand) (ev : Event) (input : EventInput) : Prop :=
  ev ∉ [.reservationConfirmed, .reservationRefused, .editConfirmed, .editRefused] ∨
    (ev = .editRefused ∧ input.editTimedOut = true)

/-- A request to the credit service. -/
def System.request (hash : String → ℤ) (request : Request) (s : System) : System :=
  { s with
    credit := (request.perform hash (s.credit, s.serial)).1
    serial := (request.perform hash (s.credit, s.serial)).2 }

/-- One step: a job of the order service, a delivered command, a delivered result, or the
creation of a wallet. -/
inductive System.Step (ordersHash creditHash : String → ℤ) (s : System) : System → Prop where
  | job (job : Job) (hjob : job.Follows Unprompted s.orders) :
      System.Step ordersHash creditHash s { s with orders := job.perform ordersHash s.orders }
  | command (row : Orders.OutboxRow) (cmd : Command) (now : ℤ) (hrow : row ∈ s.orders.outbox)
      (hcmd : commandOf row = some cmd) :
      System.Step ordersHash creditHash s (s.request creditHash (.order (some now) cmd))
  | result (row : Credit.OutboxRow) (t : Transition) (now : ℤ) (hrow : row ∈ s.credit.outbox)
      (ht : handleResult s.orders now row.payload = some t) :
      System.Step ordersHash creditHash s
        { s with orders := (Job.apply t).perform ordersHash s.orders }
  | wallet (initialCredit : ℕ) (ownerID auth0Subject : String) :
      System.Step ordersHash creditHash s
        (s.request creditHash (.createWallet initialCredit ownerID auth0Subject))

/-- The states the services reach from empty databases. -/
def System.Reachable (ordersHash creditHash : String → ℤ) (s : System) : Prop :=
  ReflTransGen (System.Step ordersHash creditHash) {} s

/-! ## Playing a run -/

instance (errandID : String) : Decidable (Canonical errandID) :=
  inferInstanceAs (Decidable (scanUUID errandID = some errandID))

instance (e : Errand) (ev : Event) (input : EventInput) : Decidable (Unprompted e ev input) :=
  inferInstanceAs (Decidable (_ ∨ _))

/-- A step with everything that is chosen in it. Rows are chosen by their position. -/
inductive Action where
  | submit (e : Errand) (actor : Actor) (input : EventInput) (now : ℤ)
  | raise (errandID : String) (ev : Event) (actor : Actor) (input : EventInput) (now : ℤ)
  | deliver (position : ℕ) (now : ℤ)
  | answer (position : ℕ) (now : ℤ)
  | wallet (initialCredit : ℕ) (ownerID auth0Subject : String)

/-- The state after an action, if the services can take it. -/
def Action.play (ordersHash creditHash : String → ℤ) (s : System) : Action → Option System
  | .submit e actor input now => do
    let t ← (next e .submit actor input now).toOption
    if Canonical e.id then
      some { s with orders := (Job.create e t).perform ordersHash s.orders }
    else none
  | .raise errandID ev actor input now => do
    let e ← s.orders.errandOf errandID
    let t ← (next e ev actor input now).toOption
    if Unprompted e ev input then
      some { s with orders := (Job.apply t).perform ordersHash s.orders }
    else none
  | .deliver position now => do
    let row ← s.orders.outbox[position]?
    let cmd ← commandOf row
    some (s.request creditHash (.order (some now) cmd))
  | .answer position now => do
    let row ← s.credit.outbox[position]?
    let t ← handleResult s.orders now row.payload
    some { s with orders := (Job.apply t).perform ordersHash s.orders }
  | .wallet initialCredit ownerID auth0Subject =>
    some (s.request creditHash (.createWallet initialCredit ownerID auth0Subject))

/-- The state after a list of actions. -/
def playAll (ordersHash creditHash : String → ℤ) : List Action → System → Option System
  | [], s => some s
  | action :: actions, s =>
    (action.play ordersHash creditHash s).bind (playAll ordersHash creditHash actions)

theorem Action.play_step {ordersHash creditHash : String → ℤ} {s s' : System} {action : Action}
    (h : action.play ordersHash creditHash s = some s') :
    System.Step ordersHash creditHash s s' := by
  have hok : ∀ {x : Except AppError Transition} {t}, x.toOption = some t → x = .ok t := by
    intro x t hx
    cases x with
    | ok t' => exact congrArg _ (Option.some.inj hx)
    | error => cases hx
  cases action with
  | submit e actor input now =>
    obtain ⟨t, ht, h⟩ := Option.bind_eq_some_iff.mp h
    split_ifs at h with hid
    cases h
    exact .job (.create e t) ⟨hid, actor, input, now, hok ht⟩
  | raise errandID ev actor input now =>
    obtain ⟨e, he, h⟩ := Option.bind_eq_some_iff.mp h
    obtain ⟨t, ht, h⟩ := Option.bind_eq_some_iff.mp h
    split_ifs at h with hmay
    cases h
    exact .job (.apply t) ⟨e, (mem_of_findRow he).1, ev, actor, input, now, hok ht, hmay⟩
  | deliver position now =>
    obtain ⟨row, hrow, h⟩ := Option.bind_eq_some_iff.mp h
    obtain ⟨cmd, hcmd, h⟩ := Option.bind_eq_some_iff.mp h
    cases h
    exact .command row cmd now (List.mem_of_getElem? hrow) hcmd
  | answer position now =>
    obtain ⟨row, hrow, h⟩ := Option.bind_eq_some_iff.mp h
    obtain ⟨t, ht, h⟩ := Option.bind_eq_some_iff.mp h
    cases h
    exact .result row t now (List.mem_of_getElem? hrow) ht
  | wallet initialCredit ownerID auth0Subject =>
    cases h
    exact .wallet initialCredit ownerID auth0Subject

/-- What can be played can be reached. -/
theorem reachable_of_playAll {ordersHash creditHash : String → ℤ} {actions : List Action}
    {s s' : System} (hs : System.Reachable ordersHash creditHash s)
    (h : playAll ordersHash creditHash actions s = some s') :
    System.Reachable ordersHash creditHash s' := by
  induction actions generalizing s with
  | nil =>
    cases h
    exact hs
  | cons action actions ih =>
    obtain ⟨s₁, hplay, hrest⟩ := Option.bind_eq_some_iff.mp h
    exact ih (hs.tail (Action.play_step hplay)) hrest

/-! ## Cases of the system -/

/-- The commands sent for an errand. -/
def sentFor (s : Orders.Tables) (errandID : String) : List Demand :=
  (s.outbox.filter fun row => row.errandID = errandID).filterMap demandOf

/-- The case of an errand. -/
def caseOf (orders : Orders.Tables) (credit : Credit.Tables) (errandID : String) (h : Holding) :
    Case where
  errand := orders.errandOf errandID
  sent := sentFor orders errandID
  answer := fun slot => credit.resultOf (slot.key errandID)
  holding := h
  subject := credit.subjectOf

/-- A row makes this demand for a stored errand. -/
structure Labelled (s : Orders.Tables) (row : Orders.OutboxRow) (d : Demand) : Prop where
  key : row.idempotencyKey = d.slot.key row.errandID
  seq : row.seq = d.slot.seq
  positive : ∀ seq, d.slot.seq = some seq → 0 < seq
  owner : ∃ e ∈ s.errands, e.id = row.errandID ∧ ∃ version, ∀ cmd, commandOf row = some cmd →
    cmd = d.command row.idempotencyKey row.errandID e.requesterID version

/-- A failed operation is a transfer that lacks credits or an account. -/
def Excused (orders : Orders.Tables) (env : Envelope) : Prop :=
  (∃ row ∈ orders.outbox, row.idempotencyKey = env.correlationID ∧ row.kind = .creditTransfer) ∧
    (env.code = some .insufficientCredits ∨ env.code = some .accountNotFound)

/-- How the two databases go together. -/
structure Coupled (orders : Orders.Tables) (credit : Credit.Tables) (serial : ℕ) : Prop where
  keyed : Keyed orders
  rows : ∀ row ∈ orders.outbox,
    (∃ d, demandOf row = some d ∧ Labelled orders row d) ∨ ∃ name, row.kind = .event name
  books : Books credit serial
  stored : ∀ m result, credit.resultOf m = some result → result.type ≠ .operationFailed
  addressed : ∀ row ∈ credit.outbox, Canonical row.payload.errandID
  replies : ∀ row ∈ credit.outbox, if row.payload.type = .operationFailed
    then Excused orders row.payload
    else ∃ result, credit.resultOf row.payload.correlationID = some result ∧
      result.type = row.payload.type
  cases : ∀ errandID, Canonical errandID →
    ∃ h, Holds credit errandID h ∧ Sound (caseOf orders credit errandID h)

section

variable {orders orders' : Orders.Tables} {credit : Credit.Tables} {serial : ℕ} {h : Holding}
  {errandID : String}

theorem demandOf_event {row : Orders.OutboxRow} {name : EventName} (h : row.kind = .event name) :
    demandOf row = none := by
  simp [demandOf, h]

theorem Coupled.labelled (hc : Coupled orders credit serial) {row : Orders.OutboxRow}
    (hrow : row ∈ orders.outbox) {d : Demand} (hd : demandOf row = some d) :
    Labelled orders row d := by
  rcases hc.rows row hrow with ⟨d', hd', hlabelled⟩ | ⟨name, hkind⟩
  · rw [hd] at hd'
    cases hd'
    exact hlabelled
  · rw [demandOf_event hkind] at hd
    cases hd

theorem errandOf_eq_some (hk : Keyed orders) {e : Errand} :
    orders.errandOf errandID = some e ↔ e ∈ orders.errands ∧ e.id = errandID :=
  ⟨mem_of_findRow, fun ⟨he, hid⟩ => hk.unique.findRow_eq he hid⟩

theorem mem_sentFor {d : Demand} : d ∈ sentFor orders errandID ↔
    ∃ row ∈ orders.outbox, row.errandID = errandID ∧ demandOf row = some d := by
  simp [sentFor, List.mem_filterMap, and_assoc]

/-- The keys and numbers in the outbox keep the commands of a case in order. -/
theorem Coupled.ordered (hc : Coupled orders credit serial) :
    (caseOf orders credit errandID h).Ordered := by
  constructor
  · have hkeys : ((sentFor orders errandID).map fun d => d.slot.key errandID).Nodup := by
      refine List.Nodup.sublist (sublist_filterMap (k := Orders.OutboxRow.idempotencyKey) ?_)
        (hc.keyed.distinct.sublist (List.filter_sublist.map _))
      intro row hrow d hd
      obtain ⟨hrow, hid⟩ := List.mem_filter.mp hrow
      have hid : row.errandID = errandID := by simpa using hid
      rw [(hc.labelled hrow hd).key, hid]
    have hmap : ((sentFor orders errandID).map Demand.slot).map (Slot.key errandID) =
        (sentFor orders errandID).map fun d => d.slot.key errandID := by simp
    rw [← hmap] at hkeys
    exact hkeys.of_map _
  · intro d hd
    obtain ⟨row, hrow, -, hdemand⟩ := mem_sentFor.mp hd
    exact (hc.labelled hrow hdemand).positive
  · intro e he d hd seq hseq
    obtain ⟨row, hrow, hid, hdemand⟩ := mem_sentFor.mp hd
    obtain ⟨hmem, heid⟩ := (errandOf_eq_some hc.keyed).mp he
    refine hc.keyed.bounded e hmem seq (mem_adjustSeqs.mpr ⟨row, hrow, hid.trans heid.symm, ?_⟩)
    rw [(hc.labelled hrow hdemand).seq, hseq]

/-! ## Steps of the order service -/

/-- A row of a transition makes the demand it is labelled with. -/
structure Marked (e : Errand) (row : Orders.OutboxRow) (d : Demand) : Prop where
  key : row.idempotencyKey = d.slot.key e.id
  seq : row.seq = d.slot.seq
  positive : ∀ seq, d.slot.seq = some seq → 0 < seq
  command : ∃ version, ∀ cmd, commandOf row = some cmd →
    cmd = d.command row.idempotencyKey e.id e.requesterID version

theorem marked_credit {e : Errand} {t : Transition} {kind : Kind} {operation : String}
    {version : ℕ} {cmd : CreditCommand} {d : Demand}
    (hkey : (operation, version) = d.slot.operation)
    (hseq : (creditRow e t kind operation version cmd).seq = d.slot.seq)
    (hpositive : ∀ seq, d.slot.seq = some seq → 0 < seq)
    (hcommand : CommandMessage.command
        { messageID := idempotencyKey e.id operation version
          kind := kind
          errandID := e.id
          errandVersion := t.newVersion
          data := { cmd with
            errandID := e.id
            errandVersion := t.newVersion
            requesterID := e.requesterID } } =
      some (d.command (idempotencyKey e.id operation version) e.id e.requesterID t.newVersion)) :
    Marked e (creditRow e t kind operation version cmd) d where
  key := by
    rw [Slot.key, ← hkey]
    rfl
  seq := hseq
  positive := hpositive
  command := by
    refine ⟨t.newVersion, fun cmd' hcmd => ?_⟩
    have h := @commandOf_eq (creditRow e t kind operation version cmd) _ _ rfl hcmd
    exact Option.some.inj (h.symm.trans hcommand)

/-- Every credit row of a transition is marked with its demand. -/
theorem marked_of_yields {e : Errand} {t : Transition} {target : Status} {version : ℕ}
    {details : Details} {courierID : String} {pendingEdit : Option PendingEdit}
    {credit : List Orders.OutboxRow} {names : List EventName}
    (hy : Yields e t target version details courierID pendingEdit credit names)
    (hcredit : ∀ row ∈ credit, ∃ d, demandOf row = some d ∧ Marked e row d) :
    ∀ row ∈ t.outbox,
      (∃ d, demandOf row = some d ∧ Marked e row d) ∨ ∃ name, row.kind = .event name := by
  intro row hrow
  rw [hy.outbox] at hrow
  rcases List.mem_append.mp hrow with hrow | hrow
  · exact Or.inl (hcredit row hrow)
  · obtain ⟨name, -, rfl⟩ := List.mem_map.mp hrow
    exact Or.inr ⟨name, rfl⟩

theorem marked_revert {e : Errand} {t : Transition} (hversion : t.newVersion = e.version + 1)
    (reverts : Bool) :
    ∀ row ∈ (if reverts then [revertRow e t] else []), ∃ d, demandOf row = some d ∧
      Marked e row d := by
  intro row hrow
  cases reverts with
  | false => cases hrow
  | true =>
    obtain rfl := List.mem_singleton.mp hrow
    refine ⟨_, demandOf_revert, marked_credit rfl rfl ?_ rfl⟩
    rintro seq ⟨⟩
    unfold revertSeq
    omega

theorem marked_release {e : Errand} {t : Transition} :
    ∀ row ∈ [releaseRow e t], ∃ d, demandOf row = some d ∧ Marked e row d := by
  intro row hrow
  obtain rfl := List.mem_singleton.mp hrow
  exact ⟨_, demandOf_release, marked_credit rfl rfl nofun rfl⟩

theorem marked_of_move {e : Errand} {input : EventInput} {t : Transition} (hm : Move e input t)
    (hpos : e.status ≠ .none → 0 < e.version) :
    ∀ row ∈ t.outbox,
      (∃ d, demandOf row = some d ∧ Marked e row d) ∨ ∃ name, row.kind = .event name := by
  cases hm with
  | submit _ _ _ _ hy =>
    refine marked_of_yields hy ?_
    intro row hrow
    obtain rfl := List.mem_singleton.mp hrow
    exact ⟨.reserve e.details.reward, rfl, marked_credit rfl rfl nofun rfl⟩
  | requestEdit p hstatus _ _ _ _ _ hy =>
    refine marked_of_yields hy ?_
    intro row hrow
    obtain rfl := List.mem_singleton.mp hrow
    refine ⟨_, demandOf_adjust, marked_credit rfl rfl ?_ rfl⟩
    rintro seq ⟨⟩
    have := hpos (by rw [hstatus]; decide)
    unfold adjustSeq
    omega
  | complete _ hy =>
    refine marked_of_yields hy ?_
    intro row hrow
    obtain rfl := List.mem_singleton.mp hrow
    exact ⟨.transfer e.courierID e.details.reward, rfl, marked_credit rfl rfl nofun rfl⟩
  | refuseEdit _ _ _ _ _ hy | accept _ _ _ _ hy => 
    exact marked_of_yields hy (marked_revert hy.version _)
  | fail _ _ hy | withdraw _ _ _ hy | expire _ _ hy | refund _ _ hy =>
    exact marked_of_yields hy marked_release
  | «open» _ _ hy | refuse _ _ hy | edit _ _ _ _ _ _ hy | confirmEdit _ _ _ _ _ hy
  | reopen _ _ hy | proceed _ _ hy => exact marked_of_yields hy (List.forall_mem_nil _)

/-- The results that the credit service has stored justify the event. -/
def Backed (credit : Credit.Tables) (e : Errand) (ev : Event) (input : EventInput) : Prop :=
  Justified (fun slot type => ∃ result, credit.resultOf (slot.key e.id) = some result ∧
    result.type = type) e ev input

theorem Unprompted.backed {e : Errand} {ev : Event} {input : EventInput}
    (hu : Unprompted e ev input) : Backed credit e ev input := by
  rcases hu with hother | ⟨rfl, htimeout⟩
  · constructor <;> rintro rfl <;> simp at hother
  · exact ⟨nofun, nofun, nofun, fun _ => Or.inl htimeout⟩

section

variable {e stored : Errand} {input : EventInput} {t : Transition}

theorem rows_replace (hc : Coupled orders credit serial)
    (hr : Replaces orders orders' e stored) (hm : Move e input t)
    (hst : StoredAs (t.applyTo e) stored) (houtbox : orders'.outbox = orders.outbox ++ t.outbox) :
    ∀ row ∈ orders'.outbox,
      (∃ d, demandOf row = some d ∧ Labelled orders' row d) ∨ ∃ name, row.kind = .event name := by
  have hstored : stored ∈ orders'.errands := (hr.mem stored).mpr (Or.inl rfl)
  have hrequester : stored.requesterID = e.requesterID := hst.requesterID
  rw [houtbox, List.forall_mem_append]
  constructor
  · intro row hrow
    refine (hc.rows row hrow).imp_left ?_
    rintro ⟨d, hd, hkey, hseq, hpositive, e', he', hid, hcommand⟩
    refine ⟨d, hd, hkey, hseq, hpositive, ?_⟩
    by_cases hsame : e'.id = e.id
    · obtain rfl := hc.keyed.eq_of_id hr he' hsame
      exact ⟨stored, hstored, hr.id.trans hid, hrequester ▸ hcommand⟩
    · exact ⟨e', (hr.mem e').mpr (Or.inr ⟨he', hsame⟩), hid, hcommand⟩
  · intro row hrow
    have hpos : e.status ≠ .none → 0 < e.version := fun hstatus =>
      (hc.keyed.regular_before hr hstatus).version
    refine (marked_of_move hm hpos row hrow).imp_left ?_
    rintro ⟨d, hd, hkey, hseq, hpositive, hcommand⟩
    have hid := hm.errandID_rows row hrow
    refine ⟨d, hd, hid ▸ hkey, hseq, hpositive, stored, hstored, hr.id.trans hid.symm, ?_⟩
    rw [hid, hrequester]
    exact hcommand

theorem sentFor_append {rows : List Orders.OutboxRow}
    (houtbox : orders'.outbox = orders.outbox ++ rows) : sentFor orders' errandID =
      sentFor orders errandID ++
        (rows.filter fun row => row.errandID = errandID).filterMap demandOf := by
  simp [sentFor, houtbox]

/-- The case of the errand advances. -/
theorem caseOf_replace (hk' : Keyed orders') (hr : Replaces orders orders' e stored)
    (hm : Move e input t) (houtbox : orders'.outbox = orders.outbox ++ t.outbox) :
    caseOf orders' credit e.id h =
      (caseOf orders credit e.id h).advance stored (t.outbox.filterMap demandOf) := by
  have herrand : orders'.errandOf e.id = some stored :=
    (errandOf_eq_some hk').mpr ⟨(hr.mem stored).mpr (Or.inl rfl), hr.id⟩
  have hall : (t.outbox.filter fun row => row.errandID = e.id) = t.outbox :=
    List.filter_eq_self.mpr fun row hrow => by simp [hm.errandID_rows row hrow]
  simp only [caseOf, Case.advance, herrand, sentFor_append houtbox, hall]

/-- The cases of other errands stay as they are. -/
theorem caseOf_other (hk : Keyed orders) (hk' : Keyed orders')
    (hr : Replaces orders orders' e stored) (hm : Move e input t)
    (houtbox : orders'.outbox = orders.outbox ++ t.outbox) (hne : errandID ≠ e.id) :
    caseOf orders' credit errandID h = caseOf orders credit errandID h := by
  have herrand : orders'.errandOf errandID = orders.errandOf errandID := by
    refine Option.ext fun e' => ?_
    rw [errandOf_eq_some hk', errandOf_eq_some hk, hr.mem]
    constructor
    · rintro ⟨rfl | ⟨he', -⟩, hid⟩
      · exact absurd (hid.symm.trans hr.id) hne
      · exact ⟨he', hid⟩
    · rintro ⟨he', hid⟩
      exact ⟨Or.inr ⟨he', hid ▸ hne⟩, hid⟩
  have hnone : (t.outbox.filter fun row => row.errandID = errandID) = [] := by
    rw [List.filter_eq_nil_iff]
    intro row hrow hid
    rw [hm.errandID_rows row hrow] at hid
    exact hne (of_decide_eq_true hid).symm
  simp only [caseOf, herrand, sentFor_append houtbox, hnone, List.filterMap_nil, List.append_nil]

theorem replies_append {rows : List Orders.OutboxRow}
    (hc : Coupled orders credit serial) (houtbox : orders'.outbox = orders.outbox ++ rows) :
    ∀ row ∈ credit.outbox, if row.payload.type = .operationFailed then Excused orders' row.payload
      else ∃ result, credit.resultOf row.payload.correlationID = some result ∧
        result.type = row.payload.type := by
  intro row hrow
  have hreply := hc.replies row hrow
  split_ifs at hreply ⊢
  · obtain ⟨⟨sent, hsent, hrest⟩, hcode⟩ := hreply
    exact ⟨⟨sent, by rw [houtbox]; exact List.mem_append_left _ hsent, hrest⟩, hcode⟩
  · exact hreply

/-- A transition keeps the databases together. -/
theorem Coupled.replace (hc : Coupled orders credit serial)
    (hr : Replaces orders orders' e stored) (hm : Move e input t)
    (hst : StoredAs (t.applyTo e) stored) (houtbox : orders'.outbox = orders.outbox ++ t.outbox)
    (hbacked : Backed credit e t.event input) : Coupled orders' credit serial := by
  have hk' := hc.keyed.replace hr hm hst houtbox
  refine ⟨hk', rows_replace hc hr hm hst houtbox, hc.books, hc.stored,
    hc.addressed, replies_append hc houtbox, ?_⟩
  intro errandID hid
  obtain ⟨h, hholds, hsound⟩ := hc.cases errandID hid
  refine ⟨h, hholds, ?_⟩
  by_cases hsame : errandID = e.id
  · subst hsame
    rw [caseOf_replace hk' hr hm houtbox]
    refine hsound.step hc.ordered (.move e input t stored ?_ hm hbacked hst
      (hc.keyed.regular_stored hr hm hst))
    rcases hr.before with he | ⟨hstatus, hnew⟩
    · exact Or.inl ((errandOf_eq_some hc.keyed).mpr ⟨he, rfl⟩)
    · exact Or.inr ⟨findRow_eq_none.mpr hnew, hstatus⟩
  · rw [caseOf_other hc.keyed hk' hr hm houtbox hsame]
    exact hsound

/-- A step that adds no credit row and leaves the errands alone. -/
theorem Coupled.quiet (hc : Coupled orders credit serial) (hk' : Keyed orders')
    {rows : List Orders.OutboxRow} (hrows : ∀ row ∈ rows, ∃ name, row.kind = .event name)
    (herrands : orders'.errands = orders.errands)
    (houtbox : orders'.outbox = orders.outbox ++ rows) : Coupled orders' credit serial := by
  refine ⟨hk', ?_, hc.books, hc.stored, hc.addressed, replies_append hc houtbox, ?_⟩
  · rw [houtbox, List.forall_mem_append]
    refine ⟨fun row hrow => (hc.rows row hrow).imp_left ?_, fun row hrow =>
      Or.inr (hrows row hrow)⟩
    rintro ⟨d, hd, hkey, hseq, hpositive, howner⟩
    exact ⟨d, hd, hkey, hseq, hpositive, herrands ▸ howner⟩
  · intro errandID hid
    obtain ⟨h, hholds, hsound⟩ := hc.cases errandID hid
    refine ⟨h, hholds, ?_⟩
    have hnone : (rows.filter fun row => row.errandID = errandID).filterMap demandOf = [] := by
      rw [List.filterMap_eq_nil_iff]
      intro row hrow
      obtain ⟨name, hkind⟩ := hrows row (List.mem_filter.mp hrow).1
      exact demandOf_event hkind
    have hsame : caseOf orders' credit errandID h = caseOf orders credit errandID h := by
      simp only [caseOf, Orders.Tables.errandOf, herrands, sentFor_append houtbox, hnone,
        List.append_nil]
    rw [hsame]
    exact hsound

/-- Every step of the order service keeps the databases together. -/
theorem Coupled.step (hc : Coupled orders credit serial)
    (hstep : Orders.Step (Backed credit) orders orders') : Coupled orders' credit serial := by
  have hk' := hc.keyed.step hstep
  cases hstep with
  | create e actor input now t row hnext hid hrow hnew herrands houtbox =>
    have hst := insertParams_ok hrow
    have hr := replaces_create hc.keyed (status_of_submit hnext) hid (hst.id_eq hid) hnew herrands
    refine hc.replace hr (next_move hnext) hst houtbox (Unprompted.backed ?_)
    rw [(next_for hnext).event]
    exact Or.inl (by decide)
  | apply e ev actor input now t row hcur hnext hmay hrow herrands houtbox =>
    have hst := insertParams_ok hrow
    have hr := replaces_apply hc.keyed hcur (hst.id_eq (hc.keyed.regular e hcur).canonical)
      herrands
    refine hc.replace hr (next_move hnext) (overwrite_storedAs hst rfl) houtbox ?_
    rw [(next_for hnext).event]
    exact hmay
  | note row hkey hkind hfresh herrands houtbox =>
    refine hc.quiet hk' ?_ herrands houtbox
    rw [List.forall_mem_singleton]
    exact hkind
  | idle herrands houtbox =>
    exact hc.quiet hk' (List.forall_mem_nil _) herrands (by rw [houtbox, List.append_nil])

/-- A job whose events are justified keeps the databases together. -/
theorem Coupled.job (hc : Coupled orders credit serial) {hash : String → ℤ} {job : Job}
    (hjob : job.Follows (Backed credit) orders) :
    Coupled (job.perform hash orders) credit serial := by
  have hsteps : ReflTransGen (Orders.Step (Backed credit)) orders (job.perform hash orders) :=
    Job.perform_steps hc.keyed hjob
  generalize job.perform hash orders = orders' at hsteps
  induction hsteps with
  | refl => exact hc
  | tail _ hstep ih => exact ih.step hstep

/-- The transition of a delivered result is decided on a stored errand and justified by the
stored result. -/
theorem Coupled.follows_result (hc : Coupled orders credit serial) {row : Credit.OutboxRow}
    (hrow : row ∈ credit.outbox) {now : ℤ} (ht : handleResult orders now row.payload = some t) :
    (Job.apply t).Follows (Backed credit) orders := by
  obtain ⟨ev, input, id, e, hevent, haccepts, hid, he, hkey, hnext⟩ := handleResult_eq_some ht
  obtain ⟨hmem, heid⟩ := (errandOf_eq_some hc.keyed).mp he
  have haddress : row.payload.errandID = e.id := by
    rw [hc.addressed row hrow] at hid
    rw [heid]
    exact Option.some.inj hid
  have hreply := hc.replies row hrow
  refine ⟨e, hmem, ev, systemActor, input, now, hnext, ?_⟩
  -- the edit that is pending is the one the result answers
  have hedit : input.editKey = row.payload.correlationID →
      row.payload.correlationID = Slot.key e.id (.adjust e.version) := by
    intro heditKey
    have hne : input.editKey ≠ "" := by
      rw [heditKey]
      intro hempty
      simp [acceptsResult, hempty] at haccepts
    obtain ⟨p, hp, hpkey⟩ := Option.map_eq_some_iff.mp (hkey.resolve_left hne)
    rw [← heditKey, ← hpkey]
    exact ((hc.keyed.regular e hmem).pendingEdit p hp).2
  have hreserve : row.payload.type = .reserved ∨ row.payload.type = .reservationRefused →
      row.payload.correlationID = Slot.key e.id .reserve := by
    intro htype
    have h : row.payload.correlationID = idempotencyKey row.payload.errandID "reserve" 0 := by
      rcases htype with htype | htype <;>
      · simp only [acceptsResult, htype, Bool.and_eq_true, decide_eq_true_eq] at haccepts
        exact haccepts.1.2
    rw [h, haddress]
    rfl
  cases htype : row.payload.type <;> rw [resultEvent, htype] at hevent <;> cases hevent
  case reserved =>
    rw [if_neg (by rw [htype]; decide), htype, hreserve (Or.inl htype)] at hreply
    exact ⟨fun _ => hreply, nofun, nofun, nofun⟩
  case reservationRefused =>
    rw [if_neg (by rw [htype]; decide), htype, hreserve (Or.inr htype)] at hreply
    exact ⟨nofun, fun _ => hreply, nofun, nofun⟩
  case adjusted =>
    rw [if_neg (by rw [htype]; decide), htype, hedit rfl] at hreply
    exact ⟨nofun, nofun, fun _ => hreply, nofun⟩
  case adjustRefused =>
    rw [if_neg (by rw [htype]; decide), htype, hedit rfl] at hreply
    exact ⟨nofun, nofun, nofun, fun _ => Or.inr hreply⟩

end

/-! ## Steps of the credit service -/

/-- Only rows that make a demand become commands. -/
theorem demandOf_of_commandOf {row : Orders.OutboxRow} {cmd : Command}
    (h : commandOf row = some cmd) : ∃ d, demandOf row = some d := by
  obtain ⟨m, hm, -⟩ := Option.bind_eq_some_iff.mp h
  cases hpayload : row.payload with
  | credit data =>
    have hcommand := commandOf_eq hpayload h
    cases hkind : row.kind with
    | event name =>
      rw [hkind] at hcommand
      cases hcommand
    | _ => simp [demandOf, hkind, hpayload]
  | _ =>
    rw [messageFromOutbox, hpayload] at hm
    cases hm

theorem kind_of_transfer {row : Orders.OutboxRow} {d : Demand} (hd : demandOf row = some d)
    (hslot : d.slot = .transfer) : row.kind = .creditTransfer := by
  unfold demandOf at hd
  split at hd <;> cases hd
  · cases hslot
  · split at hslot <;> cases hslot
  · cases hslot
  · assumption

/-- What a delivered command is about. -/
structure Addressed (orders : Orders.Tables) (row : Orders.OutboxRow) (cmd : Command) (d : Demand)
    (e : Errand) : Prop where
  demand : demandOf row = some d
  errand : orders.errandOf row.errandID = some e
  canonical : Canonical row.errandID
  key : row.idempotencyKey = d.slot.key row.errandID
  command : ∃ version,
    cmd = d.command row.idempotencyKey row.errandID e.requesterID version

theorem Coupled.addressedTo (hc : Coupled orders credit serial) {row : Orders.OutboxRow}
    {cmd : Command} (hrow : row ∈ orders.outbox) (hcmd : commandOf row = some cmd) :
    ∃ d e, Addressed orders row cmd d e := by
  obtain ⟨d, hd⟩ := demandOf_of_commandOf hcmd
  obtain ⟨hkey, -, -, e, he, hid, version, hcommand⟩ := hc.labelled hrow hd
  exact ⟨d, e, hd, (errandOf_eq_some hc.keyed).mpr ⟨he, hid⟩,
    hid ▸ (hc.keyed.regular e he).canonical, hkey, version, hcommand cmd hcmd⟩

section

variable {row : Orders.OutboxRow} {cmd : Command} {d : Demand} {e : Errand}

theorem Addressed.messageID (ha : Addressed orders row cmd d e) :
    cmd.messageID = row.idempotencyKey := by
  obtain ⟨version, rfl⟩ := ha.command
  cases d <;> rfl

/-- The credit service files the command under the errand's identifier. -/
theorem Addressed.order (ha : Addressed orders row cmd d e) {o : String}
    (hv : cmd.validate = .ok o) : o = row.errandID := by
  have hraw : cmd.rawOrderID = row.errandID := by
    obtain ⟨version, rfl⟩ := ha.command
    cases d <;> rfl
  rw [(validateOrderID_ok (Command.validate_ok hv).1).1, hraw]
  exact (uuidPattern_of_canonical ha.canonical).2

theorem Addressed.sent (ha : Addressed orders row cmd d e) (hrow : row ∈ orders.outbox) :
    d ∈ sentFor orders row.errandID := mem_sentFor.mpr ⟨row, hrow, rfl, ha.demand⟩

variable {credit' : Credit.Tables} {result : Result}

/-- The stored results after a command, slot by slot. -/
theorem Addressed.answer (ha : Addressed orders row cmd d e)
    (hcommits : Committal credit credit' row.errandID cmd result) (slot : Slot) :
    credit'.resultOf (slot.key row.errandID) =
      if slot = d.slot ∧ result.type ≠ .operationFailed then some result
      else credit.resultOf (slot.key row.errandID) := by
  have hkey : slot.key row.errandID = cmd.messageID ↔ slot = d.slot := by
    rw [ha.messageID, ha.key]
    exact ⟨Slot.key_injective ha.canonical, congrArg _⟩
  simp only [hcommits.results, hkey]

/-- The results of other errands are not touched. -/
theorem Addressed.answer_other (ha : Addressed orders row cmd d e)
    (hcommits : Committal credit credit' row.errandID cmd result)
    (hid : Canonical errandID) (hne : errandID ≠ row.errandID) (slot : Slot) :
    credit'.resultOf (slot.key errandID) = credit.resultOf (slot.key errandID) := by
  rw [hcommits.results, if_neg]
  rintro ⟨heq, -⟩
  rw [ha.messageID, ha.key] at heq
  exact hne (Slot.errandID_of_key hid ha.canonical heq)

/-- The case of the errand after a command: nothing has changed, or it was recorded. -/
theorem Addressed.case (ha : Addressed orders row cmd d e)
    (hcommits : Committal credit credit' row.errandID cmd result)
    (hholds : Holds credit row.errandID h) :
    (credit.resultOf row.idempotencyKey = some result ∧ Holds credit' row.errandID h ∧
        caseOf orders credit' row.errandID h = caseOf orders credit row.errandID h) ∨
      ∃ h' version, credit.resultOf row.idempotencyKey = none ∧ Holds credit' row.errandID h' ∧
        Serves credit.subjectOf h
          (d.command row.idempotencyKey row.errandID e.requesterID version) result h' ∧
        caseOf orders credit' row.errandID h' =
          (caseOf orders credit row.errandID h).record d.slot result h' := by
  rcases hcommits.serves h hholds with ⟨hsame, hholds', -⟩ | ⟨hnew, h', hserves, hholds', -⟩
  · rw [ha.messageID] at hsame
    refine Or.inl ⟨hsame, hholds', ?_⟩
    have hanswer : (fun slot : Slot => credit'.resultOf (slot.key row.errandID)) =
        fun slot => credit.resultOf (slot.key row.errandID) := by
      funext slot
      rw [ha.answer hcommits]
      split_ifs with hcond
      · rw [hcond.1, ← ha.key, hsame]
      · rfl
    simp only [caseOf, hanswer, hcommits.subjects]
  · obtain ⟨version, rfl⟩ := ha.command
    rw [ha.messageID] at hnew
    refine Or.inr ⟨h', version, hnew, hholds', hserves, ?_⟩
    simp only [caseOf, Case.record, hcommits.subjects, ha.answer hcommits]

/-- While a transfer is sent, the credits are on hold or paid. -/
theorem Sound.payable {c : Case} (hs : Sound c) (he : c.errand = some e) {courierID : String}
    {amount : ℤ} (hsent : .transfer courierID amount ∈ c.sent) : c.holding.payable = true := by
  have hst := hs.standing e he
  have hcompleted := (hst.transferSent _ _ hsent).1
  have hreserved := hs.held.mpr (hst.confirmed (by rw [hcompleted]; rfl))
  have hended : c.holding.ended = false := by
    rw [← Bool.not_eq_true]
    intro hended
    obtain ⟨result, hanswer⟩ := Option.isSome_iff_exists.mp (hs.ended.mp hended)
    obtain ⟨d, hd, hslot⟩ := List.mem_map.mp (hs.answered _ _ hanswer).1
    cases d <;> cases hslot
    exact (hst.releaseSent hd).2 hcompleted
  cases hholding : c.holding with
  | active | transferred => rfl
  | absent | barred =>
    rw [hholding] at hreserved
    cases hreserved
  | released =>
    rw [hholding] at hended
    cases hended

/-- A command that fails is a transfer that lacks credits or an account. -/
theorem Coupled.excused (hc : Coupled orders credit serial) (hrow : row ∈ orders.outbox)
    (ha : Addressed orders row cmd d e)
    (hcommits : Committal credit credit' row.errandID cmd result)
    (htype : result.type = .operationFailed) : row.kind = .creditTransfer ∧
      (result.code = some .insufficientCredits ∨ result.code = some .accountNotFound) := by
  obtain ⟨h, hholds, hsound⟩ := hc.cases _ ha.canonical
  rcases ha.case hcommits hholds with ⟨hsame, -⟩ | ⟨h', version, -, -, hserves, -⟩
  · exact absurd htype (hc.stored _ _ hsame)
  · have hsent : d ∈ (caseOf orders credit row.errandID h).sent := ha.sent hrow
    obtain ⟨hslot, hcode⟩ := hsound.failed hsent hserves htype (by
      intro hslot
      cases d <;> cases hslot
      exact hsound.payable ha.errand hsent)
    exact ⟨kind_of_transfer ha.demand hslot, hcode⟩

/-- A committed command keeps the databases together. -/
theorem Coupled.committal (hc : Coupled orders credit serial) (hrow : row ∈ orders.outbox)
    (ha : Addressed orders row cmd d e)
    (hcommits : Committal credit credit' row.errandID cmd result) {serial' : ℕ}
    (hbooks : Books credit' serial') : Coupled orders credit' serial' := by
  have hfailed := hc.excused hrow ha hcommits
  obtain ⟨h₀, hholds₀, -⟩ := hc.cases _ ha.canonical
  refine ⟨hc.keyed, hc.rows, hbooks, ?_, ?_, ?_, ?_⟩
  · intro m result' hstored
    rw [hcommits.results] at hstored
    split_ifs at hstored with hcond
    · cases hstored
      exact hcond.2
    · exact hc.stored m result' hstored
  · intro sent hsent
    rcases hcommits.sent sent hsent with ⟨sent₀, hsent₀, hpayload⟩ | ⟨now, hpayload⟩
    · rw [← hpayload]
      exact hc.addressed sent₀ hsent₀
    · rw [hpayload]
      exact ha.canonical
  · intro sent hsent
    rcases hcommits.sent sent hsent with ⟨sent₀, hsent₀, hpayload⟩ | ⟨now, hpayload⟩
    · rw [← hpayload]
      have hreply := hc.replies sent₀ hsent₀
      split_ifs at hreply ⊢ with htype
      · exact hreply
      · obtain ⟨result', hstored, htype'⟩ := hreply
        exact ⟨result', hcommits.result_persists hholds₀ hstored, htype'⟩
    · rw [hpayload]
      split_ifs with htype
      · obtain ⟨hkind, hcode⟩ := hfailed htype
        exact ⟨⟨row, hrow, by rw [← ha.messageID]; cases cmd <;> rfl, hkind⟩, hcode⟩
      · refine ⟨result, ?_, rfl⟩
        rw [hcommits.results, if_pos ⟨by cases cmd <;> rfl, htype⟩]
  · intro errandID hid
    obtain ⟨h, hholds, hsound⟩ := hc.cases errandID hid
    by_cases hsame : errandID = row.errandID
    · subst hsame
      rcases ha.case hcommits hholds with ⟨-, hholds', hcase⟩ | ⟨h', version, hnew, hholds', hserves,
        hcase⟩
      · exact ⟨h, hholds', hcase ▸ hsound⟩
      · refine ⟨h', hholds', hcase ▸ hsound.step hc.ordered ?_⟩
        refine .serve d _ _ _ version result h' (ha.sent hrow) ?_ ?_ hserves
        · intro e' he'
          rw [Option.some.inj (ha.errand.symm.trans he')]
        · rw [ha.key] at hnew
          exact hnew
    · refine ⟨h, hcommits.others errandID h hsame hholds, ?_⟩
      have hcase : caseOf orders credit' errandID h = caseOf orders credit errandID h := by
        simp only [caseOf, hcommits.subjects, ha.answer_other hcommits hid hsame]
      rw [hcase]
      exact hsound

/-- What a delivered command does: it commits, or it fails and changes nothing. -/
theorem Coupled.delivered (hc : Coupled orders credit serial) (ha : Addressed orders row cmd d e)
    (hash : String → ℤ) (now : ℤ) :
    (∃ result, ((Credit.engine hash).atomically (cmd.body (some now)) credit serial).1 = .ok result ∧
        Committal credit ((Request.order (some now) cmd).perform hash (credit, serial)).1
          row.errandID cmd result) ∨
      (∃ err, ((Credit.engine hash).atomically (cmd.body (some now)) credit serial).1 =
          .error err) ∧
        ((Request.order (some now) cmd).perform hash (credit, serial)).1 = credit := by
  have hspec : (Credit.engine hash).wp Admissible _ (cmd.body (some now)) credit serial :=
    Command.body_spec hc.books cmd
  rcases Engine.wp_atomically hspec with ⟨result, hok, hpost⟩ | ⟨err, herr, hsame⟩
  · obtain ⟨o, hv, hx⟩ := hpost result rfl
    obtain rfl := ha.order hv
    exact Or.inl ⟨result, hok, hx.committal hc.books hv hc.stored⟩
  · exact Or.inr ⟨⟨err, herr⟩, hsame⟩

theorem Coupled.command (hc : Coupled orders credit serial) (hrow : row ∈ orders.outbox)
    (hcmd : commandOf row = some cmd) (hash : String → ℤ) (now : ℤ) :
    Coupled orders ((Request.order (some now) cmd).perform hash (credit, serial)).1
      ((Request.order (some now) cmd).perform hash (credit, serial)).2 := by
  obtain ⟨d, e, ha⟩ := hc.addressedTo hrow hcmd
  have hbooks : Books (credit, serial).1 (credit, serial).2 := hc.books
  have hbooks' : Books ((Request.order (some now) cmd).perform hash (credit, serial)).1 _ :=
    hbooks.perform _
  rcases hc.delivered ha hash now with ⟨result, -, hcommits⟩ | ⟨-, hsame⟩
  · exact hc.committal hrow ha hcommits hbooks'
  · rw [hsame] at hbooks' ⊢
    exact { hc with books := hbooks' }

end

/-- Opening wallets keeps the databases together. -/
theorem Coupled.wallet (hc : Coupled orders credit serial) (hash : String → ℤ)
    (initialCredit : ℕ) (ownerID auth0Subject : String) :
    Coupled orders
      ((Request.createWallet initialCredit ownerID auth0Subject).perform hash (credit, serial)).1
      ((Request.createWallet initialCredit ownerID auth0Subject).perform hash (credit, serial)).2 := by
  have hbooks : Books (credit, serial).1 (credit, serial).2 := hc.books
  have hbooks' : Books ((Request.createWallet initialCredit ownerID auth0Subject).perform hash
      (credit, serial)).1 _ := hbooks.perform _
  have hopens : OpensWallets credit
      ((Request.createWallet initialCredit ownerID auth0Subject).perform hash
        (credit, serial)).1 := createWallet_opensWallets _ _ _
  generalize (Request.createWallet initialCredit ownerID auth0Subject).perform hash
    (credit, serial) = after at hbooks' hopens ⊢
  have hresults : after.1.resultOf = credit.resultOf := by
    funext m
    rw [Credit.Tables.resultOf, hopens.processed]
    rfl
  refine ⟨hc.keyed, hc.rows, hbooks', ?_, ?_, ?_, ?_⟩
  · rw [hresults]
    exact hc.stored
  · rw [hopens.outbox]
    exact hc.addressed
  · rw [hopens.outbox, hresults]
    exact hc.replies
  · intro errandID hid
    obtain ⟨h, hholds, hsound⟩ := hc.cases errandID hid
    refine ⟨h, hholds.opensWallets hopens, ?_⟩
    have hcase : caseOf orders after.1 errandID h =
        { caseOf orders credit errandID h with subject := after.1.subjectOf } := by
      simp only [caseOf, hresults]
    rw [hcase]
    exact hsound.step hc.ordered (.wallets _ hopens.subjects)

theorem coupled_start : Coupled {} {} 0 := by
  refine ⟨keyed_empty, List.forall_mem_nil _, books_empty 0, ?_, List.forall_mem_nil _,
    List.forall_mem_nil _, ?_⟩
  · intro m result hstored
    cases hstored
  intro errandID _
  exact ⟨.absent, ⟨⟨rfl, by simp⟩, rfl⟩, sound_unborn⟩

end

/-- The databases belong together in every state the services reach. -/
theorem System.Reachable.coupled {ordersHash creditHash : String → ℤ} {s : System}
    (hs : System.Reachable ordersHash creditHash s) :
    Coupled s.orders s.credit s.serial := by
  induction hs with
  | refl => exact coupled_start
  | tail _ hstep ih =>
    cases hstep with
    | job job hjob => exact ih.job (Job.Follows.mono hjob fun _ _ _ h => h.backed)
    | command row cmd now hrow hcmd => exact ih.command hrow hcmd creditHash now
    | result row t now hrow ht => exact ih.job (ih.follows_result hrow ht)
    | wallet initialCredit ownerID auth0Subject =>
      exact ih.wallet creditHash initialCredit ownerID auth0Subject

end FocServices.Settlement
