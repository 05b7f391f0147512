import FocServices.Messaging.Claims

/-!
# Attempts and failed publications

The dispatcher gives a row up when its counter of attempts has reached the limit. The
counter counts claims: besides publications that failed also those that were confirmed,
before the sweep sends the command again, and rows that were handed back unpublished. In
runs without crashes and lost leases the counter is the sum of the three.
-/

namespace FocServices.Messaging

open Txn

variable {P : Type} {codec : Codec P} {max : ℕ}

/-! ## Notes and dispatches -/

/-- A publication of the row returned an error. -/
def Note.errs (id : ℕ) : Note P → Bool
  | .refused i => i == id
  | _ => false

/-- A publication of the row was confirmed. -/
def Note.acks (id : ℕ) : Note P → Bool
  | .acked i => i == id
  | _ => false

def Note.handsBack (id : ℕ) : Note P → Bool
  | .handedBack i => i == id
  | _ => false

/-- What a claim of the row may come to. -/
def Note.ends (id : ℕ) (n : Note P) : Bool := n.errs id || (n.acks id || n.handsBack id)

theorem countP_ends (id : ℕ) (notes : List (Note P)) :
    notes.countP (Note.ends id) = notes.countP (Note.errs id) + notes.countP (Note.acks id) +
      notes.countP (Note.handsBack id) := by
  induction notes with
  | nil => rfl
  | cons n notes ih =>
    have hone : (if n.ends id = true then 1 else 0) = (if n.errs id = true then 1 else 0) +
        (if n.acks id = true then 1 else 0) + (if n.handsBack id = true then 1 else 0) := by
      cases n <;> simp [Note.ends, Note.errs, Note.acks, Note.handsBack]
    rw [List.countP_cons, List.countP_cons, List.countP_cons, List.countP_cons, ih, hone]
    omega

theorem since_ends (id : ℕ) (log : List (Note P)) :
    since (Note.ends id) id log = since (Note.errs id) id log + since (Note.acks id) id log +
      since (Note.handsBack id) id log := countP_ends id (recent id log)

/-- The rows that dispatches have in hand. -/
def World.hands (w : World P) : List (Row P) := w.dispatches.flatMap Dispatch.hand

/-- The rows of a dispatch whose claims have not come to anything yet. -/
def Dispatch.opened (d : Dispatch P) : List (Row P) :=
  (match d.phase with
    | .publishing r => [r]
    | .settling r _ tried => if tried then [] else [r]
    | .ready | .handingBack | .ended => []) ++ d.rows

def opens (id : ℕ) (dispatches : List (Dispatch P)) : ℕ :=
  (dispatches.flatMap Dispatch.opened).countP fun r => r.id == id

theorem opens_split {id : ℕ} {d : Dispatch P} {before after : List (Dispatch P)} :
    opens id (before ++ d :: after) =
      opens id (before ++ after) + d.opened.countP fun r => r.id == id := by
  simp only [opens, List.flatMap_append, List.flatMap_cons, List.countP_append]
  omega

theorem opened_subset (d : Dispatch P) : d.opened ⊆ d.hand := by
  intro r hr
  unfold Dispatch.opened at hr
  unfold Dispatch.hand
  rcases List.mem_append.mp hr with hr | hr
  · refine List.mem_append_left _ ?_
    cases hphase : d.phase with
    | ready => rw [hphase] at hr; cases hr
    | publishing r' => rwa [hphase] at hr
    | settling r' s tried =>
      rw [hphase] at hr
      cases tried
      · exact hr
      · cases hr
    | handingBack => rw [hphase] at hr; cases hr
    | ended => rw [hphase] at hr; cases hr
  · exact List.mem_append_right _ hr

/-! ## Orderly runs -/

/-- At this time no lease of a row in hand has run out. -/
def World.leasesHold (w : World P) (now : ℤ) : Bool :=
  w.hands.all fun r => w.outbox.all fun d =>
    d.id != r.id || d.leaseExpiresAt.all fun expires => decide (now < expires)

/-- Steps without a crash, a lost reply or a lost lease. A row is requeued when no claim of it
is in hand. -/
def orderly (w : World P) : Act P → Bool
  | .claim _ _ _ _ now _ _ lost => !lost && w.leasesHold now
  | .settle _ now | .handBack _ now => w.leasesHold now
  | .settleFails _ | .handBackFails _ | .crash _ | .land _ _ => false
  | .requeue id _ => w.hands.all fun r => r.id != id
  | _ => true

/-- Runs of orderly steps. -/
def OrderlyRun (codec : Codec P) (max : ℕ) (w w' : World P) : Prop :=
  Relation.ReflTransGen (fun w w' => ∃ act, orderly w act = true ∧ step codec max w act = some w') w w'

/-- The lease of the row is the one of this claim. -/
structure Row.Holds (r : Row P) (d : Delivery P) : Prop where
  pending : d.status = .pending
  owner : d.leaseOwner = some r.leaseOwner
  attempts : d.attempts = r.attempts
  leased : d.leaseExpiresAt.isSome = true

/-- What holds between the steps of an orderly run. -/
structure Settled (max : ℕ) (w : World P) : Prop where
  nodup : (w.hands.map Row.id).Nodup
  held : ∀ r ∈ w.hands, ∀ d ∈ w.outbox, d.id = r.id → r.Holds d ∨ ¬ d.Active
  atMost : ∀ id, since (Note.ends id) id w.log + opens id w.dispatches ≤
    since (Note.claims id) id w.log
  exact_of_active : ∀ d ∈ w.outbox, d.Active →
    since (Note.ends d.id) d.id w.log + opens d.id w.dispatches = since (Note.claims d.id) d.id w.log
  spare : ∀ d ∈ w.outbox, d.Active → since (Note.errs d.id) d.id w.log < max ∨
    ∃ x ∈ w.dispatches, ∃ r code, x.phase = .settling r (.failed code) true ∧ r.id = d.id
  publishing : ∀ x ∈ w.dispatches, ∀ r, x.phase = .publishing r → r.attempts ≤ max
  untried : ∀ x ∈ w.dispatches, ∀ r s, x.phase = .settling r s false →
    ∃ code, s = .failed code ∧ (code = codeUnpublishable ∨ max < r.attempts)
  tried : ∀ x ∈ w.dispatches, ∀ r code, x.phase = .settling r (.failed code) true →
    code = codeUnpublishable ∨ r.attempts = max

theorem settled_initial : Settled max (.initial : World P) :=
  ⟨List.nodup_nil, fun _ h => (nomatch h), fun _ => Nat.le_refl _, fun _ h => (nomatch h),
    fun _ h => (nomatch h), fun _ h => (nomatch h), fun _ h => (nomatch h), fun _ h => (nomatch h)⟩

section

variable {w w' : World P} {act : Act P}

theorem Row.Holds.holds {r : Row P} {d : Delivery P} {now : ℤ} (h : r.Holds d) (hid : d.id = r.id)
    (hlease : d.leaseExpiresAt.all (fun expires => decide (now < expires)) = true) :
    r.holds now d = true := by
  obtain ⟨expires, hexpires⟩ := Option.isSome_iff_exists.mp h.leased
  rw [hexpires] at hlease
  simp only [Row.holds, hid, h.pending, h.owner, h.attempts, hexpires, beq_self_eq_true,
    Bool.true_and, Option.any_some]
  exact hlease

theorem leasesHold_iff {now : ℤ} : w.leasesHold now = true ↔ ∀ r ∈ w.hands, ∀ d ∈ w.outbox,
    d.id = r.id → d.leaseExpiresAt.all (fun expires => decide (now < expires)) = true := by
  simp only [World.leasesHold, List.all_eq_true, Bool.or_eq_true, bne_iff_ne, ne_eq]
  refine forall_congr' fun r => imp_congr_right fun _ => forall_congr' fun d =>
    imp_congr_right fun _ => ?_
  constructor
  · exact fun h hid => h.resolve_left fun hne => hne hid
  · intro h
    by_cases hid : d.id = r.id
    · exact Or.inr (h hid)
    · exact Or.inl hid

/-- A claim takes no row that is in hand. -/
theorem Settled.not_in_hand (hw : Settled max w) {now : ℤ} (hleases : w.leasesHold now = true)
    {credit : Bool} {limit : ℕ} {locked : List ℕ} {r : Row P} (hr : r ∈ w.hands) :
    r.id ∉ claimIDs credit limit now locked w.outbox := by
  intro hid
  obtain ⟨d, hd, hdid, hdue⟩ := mem_claimIDs hid
  simp only [due, Bool.and_eq_true, beq_iff_eq] at hdue
  obtain ⟨⟨⟨hpending, -⟩, hfree⟩, -⟩ := hdue
  rcases hw.held r hr d hd hdid with hholds | hinactive
  · have hlease := leasesHold_iff.mp hleases r hr d hd hdid
    obtain ⟨expires, hexpires⟩ := Option.isSome_iff_exists.mp hholds.leased
    simp only [hexpires, Option.all_some, decide_eq_true_eq] at hlease hfree
    omega
  · exact hinactive (Or.inl hpending)

theorem Moves.hand_eq {d d' : Dispatch P} {notes : List (Note P)}
    (h : Moves codec max act d d' notes) (hact : ∀ i, act ≠ .crash i) : d'.hand = d.hand := by
  cases h with
  | exhausted => rfl
  | unpublishable => rfl
  | publish => rfl
  | published => rfl
  | refused => rfl
  | stop => rfl
  | crash => exact absurd rfl (hact _)

theorem Settles.hand_eq {now : ℤ} {d d' : Dispatch P} {r : Row P} {s : Settlement}
    {notes : List (Note P)} (h : Settles act now d r s d' notes) : d.hand = r :: d'.hand := by
  cases h <;> rfl

theorem hands_split {before after : List (Dispatch P)} {d : Dispatch P}
    (hd : w.dispatches = before ++ d :: after) :
    w.hands = before.flatMap Dispatch.hand ++ (d.hand ++ after.flatMap Dispatch.hand) := by
  rw [World.hands, hd, List.flatMap_append, List.flatMap_cons]

theorem orderly_claim {worker : String} {credit lost : Bool} {limit : ℕ} {lease now : ℤ}
    {locked order : List ℕ}
    (h : orderly w (.claim worker credit limit lease now locked order lost) = true) :
    lost = false ∧ w.leasesHold now = true := by
  simpa [orderly] using h

theorem orderly_settles {now : ℤ} {d d' : Dispatch P} {r : Row P} {s : Settlement}
    {notes : List (Note P)} (h : orderly w act = true) (hsettles : Settles act now d r s d' notes) :
    w.leasesHold now = true := by
  cases hsettles <;> exact h

theorem orderly_moves {i : ℕ} (h : orderly w act = true) : act ≠ .crash i := by
  rintro rfl
  cases h

theorem not_orderly_abandons {d d' : Dispatch P} {r : Row P} {s : Settlement}
    (h : Abandons act d r s d') : orderly w act = false := by
  cases h <;> rfl

/-- The rows in hand after an orderly step: those before it, those a claim returns, or all but
the one that was settled. -/
theorem Step.hands (h : Step codec max w act w') (horderly : orderly w act = true) :
    w'.hands = w.hands ∨
    (∃ worker credit limit lease now locked order,
      order.Perm (claimIDs credit limit now locked w.outbox) ∧ w.leasesHold now = true ∧
      w'.outbox = updateIDs order (Delivery.lease worker (now + lease)) w.outbox ∧
      w'.hands = w.hands ++ returned order w'.outbox) ∨
    (∃ before after r, ∃ s : Settlement, ∃ now, w.hands = before ++ r :: after ∧ w'.hands = before ++ after ∧
      w.leasesHold now = true ∧ w'.outbox = (s.write r now w.outbox).2) := by
  cases h with
  | insert => exact Or.inl rfl
  | @claim worker credit limit lease now locked order lost horder =>
    obtain ⟨rfl, hleases⟩ := orderly_claim horderly
    refine Or.inr (Or.inl ⟨worker, credit, limit, lease, now, locked, order, horder, hleases, rfl, ?_⟩)
    simp only [World.hands, Bool.false_eq_true, if_false, List.flatMap_append, List.flatMap_cons,
      List.flatMap_nil, List.append_nil]
    rfl
  | move hd h =>
    refine Or.inl ?_
    rw [hands_split rfl, hands_split hd, h.hand_eq fun i => orderly_moves horderly]
  | @settle _ now before d r s d' after notes hd h =>
    refine Or.inr (Or.inr ⟨before.flatMap Dispatch.hand, d'.hand ++ after.flatMap Dispatch.hand, r, s,
      now, ?_, hands_split rfl, orderly_settles horderly h, rfl⟩)
    rw [hands_split hd, h.hand_eq]
    rfl
  | abandon hd h =>
    rw [not_orderly_abandons h] at horderly
    cases horderly
  | land => cases horderly
  | confirm => exact Or.inl rfl
  | operationFailed => exact Or.inl rfl
  | resend => exact Or.inl rfl
  | requeue => exact Or.inl rfl

theorem Settled.nodup_step (hw : Settled max w) (hu : UniqueKey (·.id) w.outbox)
    (h : Step codec max w act w') (horderly : orderly w act = true) :
    (w'.hands.map Row.id).Nodup := by
  rcases h.hands horderly with hsame | ⟨worker, credit, limit, lease, now, locked, order, horder,
    hleases, hrows, hhands⟩ | ⟨before, after, r, s, now, hsplit, hhands, -, -⟩
  · rw [hsame]
    exact hw.nodup
  · rw [hhands, hrows, List.map_append]
    refine List.nodup_append.mpr ⟨hw.nodup, nodup_returned hu horder _ _, fun i hi j hj hij => ?_⟩
    obtain ⟨r, hr, rfl⟩ := List.mem_map.mp hi
    obtain ⟨c, hc, rfl⟩ := List.mem_map.mp hj
    have hid : r.id ∈ order := hij ▸ (mem_returned hc).1
    exact hw.not_in_hand hleases hr (horder.mem_iff.mp hid)
  · have hnodup := hw.nodup
    rw [hsplit] at hnodup
    rw [hhands]
    exact hnodup.sublist (((List.sublist_cons_self r after).append_left before).map Row.id)

/-- A statement that leaves alone the row of a claim in hand, or takes it out of delivery. -/
theorem Settled.held_map (hw : Settled max w) {g : Delivery P → Delivery P}
    (hhands : w'.hands = w.hands) (hrows : w'.outbox = w.outbox.map g)
    (hg : ∀ r ∈ w.hands, ∀ d ∈ w.outbox, d.id = r.id → g d = d ∨ ¬ (g d).Active)
    (hid : ∀ d ∈ w.outbox, (g d).id = d.id) :
    ∀ r ∈ w'.hands, ∀ d ∈ w'.outbox, d.id = r.id → r.Holds d ∨ ¬ d.Active := by
  intro r hr d' hd' hdid
  rw [hhands] at hr
  rw [hrows] at hd'
  obtain ⟨d, hd, rfl⟩ := List.mem_map.mp hd'
  rw [hid d hd] at hdid
  rcases hg r hr d hd hdid with hsame | hinactive
  · rw [hsame]
    exact hw.held r hr d hd hdid
  · exact Or.inr hinactive

theorem not_active_of_failed {d : Delivery P} (h : d.status = .failed) : ¬ d.Active := by
  simp [Delivery.Active, h]

theorem not_active_of_confirmed {d : Delivery P} (h : d.status = .confirmed) : ¬ d.Active := by
  simp [Delivery.Active, h]

theorem Tracked.known_hand (hw : Tracked codec max w) {r : Row P} (hr : r ∈ w.hands) :
    ∃ x ∈ w.outbox, x.id = r.id := by
  obtain ⟨d, hd, hr⟩ := List.mem_flatMap.mp hr
  obtain ⟨x, hx, hid, -⟩ := hw.known d hd r hr
  exact ⟨x, hx, hid⟩

theorem Settled.held_claim (hw : Settled max w) (hu : UniqueKey (·.id) w.outbox) {worker : String}
    {credit : Bool} {limit : ℕ} {expires now : ℤ} {locked order : List ℕ}
    (horder : order.Perm (claimIDs credit limit now locked w.outbox))
    (hleases : w.leasesHold now = true) {r : Row P} {d : Delivery P}
    (hr : r ∈ w.hands ++ returned order (updateIDs order (Delivery.lease worker expires) w.outbox))
    (hd : d ∈ updateIDs order (Delivery.lease worker expires) w.outbox) (hid : d.id = r.id) :
    r.Holds d ∨ ¬ d.Active := by
  have hunique : UniqueKey (·.id) (updateIDs order (Delivery.lease worker expires) w.outbox) :=
    (@evolves_claim _ w.log w.log _ _ _ _ _ _ _ _ hu horder).unique
  rcases List.mem_append.mp hr with hold | hnew
  · have hother : r.id ∉ order := fun h => hw.not_in_hand hleases hold (horder.mem_iff.mp h)
    obtain ⟨x, hx, rfl⟩ := List.mem_map.mp hd
    by_cases hmem : x.id ∈ order
    · rw [if_pos hmem, lease_id] at hid
      exact absurd (hid ▸ hmem) hother
    · rw [if_neg hmem] at hid ⊢
      exact hw.held r hold x hx hid
  · obtain ⟨hmem, y, hy, hyid, rfl⟩ := mem_returned hnew
    obtain rfl : d = y := hunique.eq hd hy hid
    obtain ⟨x, hx, rfl⟩ := List.mem_map.mp hd
    by_cases hxmem : x.id ∈ order
    · obtain ⟨x₀, hx₀, hxid, hdue⟩ := mem_claimIDs (horder.mem_iff.mp hxmem)
      obtain rfl := hu.eq hx₀ hx hxid
      simp only [due, Bool.and_eq_true, beq_iff_eq] at hdue
      rw [if_pos hxmem]
      exact Or.inl ⟨hdue.1.1.1, rfl, rfl, rfl⟩
    · rw [if_neg hxmem] at hmem
      exact absurd hmem hxmem

theorem Settled.held_step (hw : Settled max w) (htracked : Tracked codec max w)
    (h : Step codec max w act w') (horderly : orderly w act = true) :
    ∀ r ∈ w'.hands, ∀ d ∈ w'.outbox, d.id = r.id → r.Holds d ∨ ¬ d.Active := by
  cases h with
  | insert h =>
    intro r hr d hd hid
    obtain ⟨rfl, hfresh⟩ := insertOutbox_eq h
    rcases List.mem_append.mp hd with hd | hd
    · exact hw.held r hr d hd hid
    · obtain ⟨x, hx, hxid⟩ := htracked.known_hand hr
      rw [List.mem_singleton.mp hd] at hid
      exact absurd (hxid.trans hid.symm) (hfresh x hx)
  | @claim worker credit limit lease now locked order lost horder =>
    obtain ⟨rfl, hleases⟩ := orderly_claim horderly
    intro r hr d hd hid
    refine hw.held_claim htracked.unique horder hleases ?_ hd hid
    simpa [World.hands, Dispatch.hand] using hr
  | move hd h =>
    refine hw.held_map ?_ (List.map_id _).symm (fun r _ d _ _ => Or.inl rfl) fun d _ => rfl
    rw [hands_split rfl, hands_split hd, h.hand_eq fun i => orderly_moves horderly]
  | @settle _ now before x r s x' after notes hx h =>
    have hhands : w.hands = before.flatMap Dispatch.hand ++ r :: (x'.hand ++ after.flatMap Dispatch.hand) := by
      rw [hands_split hx, h.hand_eq]
      rfl
    have hnodup := hw.nodup
    rw [hhands, List.map_append, List.map_cons, List.nodup_middle, List.nodup_cons] at hnodup
    intro r' hr' d' hd' hid
    rw [hands_split rfl] at hr'
    have hother : r'.id ≠ r.id := by
      intro heq
      refine hnodup.1 (heq ▸ ?_)
      rw [← List.map_append]
      exact List.mem_map_of_mem hr'
    have hr : r' ∈ w.hands := by
      rw [hhands]
      rcases List.mem_append.mp hr' with hmem | hmem
      · exact List.mem_append_left _ hmem
      · exact List.mem_append_right _ (List.mem_cons_of_mem _ hmem)
    simp only [s.write_eq, guarded] at hd'
    obtain ⟨d, hd, rfl⟩ := List.mem_map.mp hd'
    by_cases hholds : r.holds now d = true
    · simp only [hholds, if_true, (settlement_keeps s).1] at hid
      simp only [Row.holds, Bool.and_eq_true, beq_iff_eq] at hholds
      exact absurd (hid.symm.trans hholds.1.1.1.1) hother
    · rw [if_neg hholds] at hid ⊢
      exact hw.held r' hr d hd hid
  | abandon hd h =>
    rw [not_orderly_abandons h] at horderly
    cases horderly
  | land => cases horderly
  | confirm =>
    refine hw.held_map rfl rfl (fun r _ d _ _ => ?_) fun d _ => by split <;> rfl
    split
    · exact Or.inr (not_active_of_confirmed rfl)
    · exact Or.inl rfl
  | operationFailed =>
    refine hw.held_map rfl rfl (fun r _ d _ _ => ?_) fun d _ => by split <;> rfl
    split
    · exact Or.inr (not_active_of_failed rfl)
    · exact Or.inl rfl
  | resend =>
    refine hw.held_map rfl rfl (fun r hr d hd hid => ?_) fun d _ => by split <;> rfl
    split
    · next hmem =>
      -- a row that was sent is not in hand
      obtain ⟨x, hx, hxid, hstale⟩ := mem_staleIDs hmem
      obtain rfl := htracked.unique.eq hx hd hxid
      simp only [stale, Bool.and_eq_true, beq_iff_eq] at hstale
      have hsent : x.status = .sent := hstale.1.1
      rcases hw.held r hr x hd hid with hholds | hinactive
      · have hpending := hholds.pending
        rw [hsent] at hpending
        cases hpending
      · exact absurd (Or.inr hsent) hinactive
    · exact Or.inl rfl
  | requeue =>
    refine hw.held_map rfl rfl (fun r hr d hd hid => Or.inl ?_) fun d _ => by split <;> rfl
    have hother := List.all_eq_true.mp horderly r hr
    rw [bne_iff_ne] at hother
    refine if_neg fun hcond => hother ?_
    simp only [Bool.and_eq_true, beq_iff_eq] at hcond
    rw [← hid, hcond.1]

/-- Once a claim in hand is settled as failed, its row is out of delivery. -/
theorem Settled.failed_inactive (hw : Settled max w) {r : Row P} (hr : r ∈ w.hands) {now : ℤ}
    (hleases : w.leasesHold now = true) {code : String} {d' : Delivery P}
    (hd' : d' ∈ ((Settlement.failed code).write r now w.outbox).2) (hid : d'.id = r.id) :
    ¬ d'.Active := by
  rw [Settlement.write_eq, guarded] at hd'
  obtain ⟨d, hd, rfl⟩ := List.mem_map.mp hd'
  by_cases hholds : r.holds now d = true
  · rw [if_pos hholds]
    exact not_active_of_failed rfl
  · rw [if_neg hholds] at hid ⊢
    rcases hw.held r hr d hd hid with h | hinactive
    · exact absurd (h.holds hid (leasesHold_iff.mp hleases r hr d hd hid)) hholds
    · exact hinactive

/-! ## The balance of claims -/

/-- What a step does to the claims of a row: each is open or has come to something, or the
row is out of delivery, or the count starts again. -/
inductive Balance (w w' : World P) (id : ℕ) : Prop
  | kept {notes} (hlog : w'.log = notes ++ w.log) (hquiet : ∀ n ∈ notes, n.requeues id = false)
    (heq : notes.countP (Note.ends id) + opens id w'.dispatches =
      opens id w.dispatches + notes.countP (Note.claims id))
  | dropped {notes} (hlog : w'.log = notes ++ w.log)
    (hquiet : ∀ n ∈ notes, n.requeues id = false)
    (hle : notes.countP (Note.ends id) + opens id w'.dispatches ≤
      opens id w.dispatches + notes.countP (Note.claims id))
    (hinactive : ∀ d ∈ w'.outbox, d.id = id → ¬ d.Active)
  | requeued (hlog : w'.log = .requeued id :: w.log) (hnone : opens id w'.dispatches = 0)

theorem countP_eq_zero_of_silent {notes : List (Note P)} {p : Note P → Bool}
    (h : ∀ n ∈ notes, p n = false) : notes.countP p = 0 :=
  List.countP_eq_zero.mpr fun n hn => by simp [h n hn]

theorem giveUp_ends {r : Row P} {s : Settlement} {n id : ℕ} :
    (giveUp r s n).countP (Note.ends id) = 0 := by
  unfold giveUp
  split
  · split <;> rfl
  · rfl

/-- The end of a publication is noted where its claim is closed. -/
theorem Moves.ends_eq {d d' : Dispatch P} {notes : List (Note P)}
    (h : Moves codec max act d d' notes) (hact : ∀ i, act ≠ .crash i) (id : ℕ) :
    notes.countP (Note.ends id) + (d'.opened.countP fun r => r.id == id) =
      d.opened.countP fun r => r.id == id := by
  cases h with
  | exhausted => exact Nat.zero_add _
  | unpublishable => exact Nat.zero_add _
  | publish => exact Nat.zero_add _
  | published =>
    simp [Dispatch.opened, Note.ends, Note.errs, Note.acks, Note.handsBack, List.countP_cons,
      Nat.add_comm]
  | refused =>
    simp [Dispatch.opened, Note.ends, Note.errs, Note.acks, Note.handsBack, List.countP_cons,
      Nat.add_comm]
  | stop => exact Nat.zero_add _
  | crash => exact absurd rfl (hact _)

theorem opens_eq_zero {id : ℕ} (h : ∀ r ∈ w.hands, r.id ≠ id) : opens id w.dispatches = 0 := by
  refine List.countP_eq_zero.mpr fun r hr hid => ?_
  obtain ⟨d, hd, hr⟩ := List.mem_flatMap.mp hr
  exact h r (List.mem_flatMap.mpr ⟨d, hd, opened_subset d hr⟩) (beq_iff_eq.mp hid)

/-- A settlement of a claim that has come to nothing takes the row out of delivery. -/
theorem Settled.balance_settle (hw : Settled max w) {now : ℤ} {before after : List (Dispatch P)}
    {d d' : Dispatch P} {r : Row P} {s : Settlement} {notes : List (Note P)}
    (hd : w.dispatches = before ++ d :: after) (h : Settles act now d r s d' notes)
    (hleases : w.leasesHold now = true) (id : ℕ) :
    Balance w { w with
      outbox := (s.write r now w.outbox).2
      dispatches := before ++ d' :: after
      log := notes ++ (giveUp r s (s.write r now w.outbox).1 ++ w.log) } id := by
  have hquiet : ∀ n ∈ notes ++ giveUp r s (s.write r now w.outbox).1, n.requeues id = false := by
    intro n hn
    rcases List.mem_append.mp hn with hn | hn
    · exact (h.silent n hn).2
    · exact (giveUp_silent n hn).2
  have hclaims : (notes ++ giveUp r s (s.write r now w.outbox).1).countP (Note.claims id) = 0 := by
    refine countP_eq_zero_of_silent fun n hn => ?_
    rcases List.mem_append.mp hn with hn | hn
    · exact (h.silent n hn).1
    · exact (giveUp_silent n hn).1
  have hends : (notes ++ giveUp r s (s.write r now w.outbox).1).countP (Note.ends id) =
      notes.countP (Note.ends id) := by
    rw [List.countP_append, giveUp_ends, Nat.add_zero]
  have hmem : d ∈ w.dispatches := hd ▸ List.mem_append_right _ List.mem_cons_self
  cases h with
  | @settle i now r s tried rest =>
    cases tried with
    | true =>
      refine .kept (List.append_assoc _ _ _).symm hquiet ?_
      rw [hends, hclaims, hd, opens_split, opens_split]
      exact Nat.zero_add _
    | false =>
      obtain ⟨code, rfl, -⟩ := hw.untried _ hmem r s rfl
      have hr : r ∈ w.hands := List.mem_flatMap.mpr ⟨_, hmem, List.mem_cons_self⟩
      by_cases hid : r.id = id
      · refine .dropped (List.append_assoc _ _ _).symm hquiet ?_ fun x hx hxid =>
          hw.failed_inactive hr hleases hx (hxid.trans hid.symm)
        rw [hends, hclaims, hd, opens_split, opens_split]
        simp only [Dispatch.opened, Bool.false_eq_true, if_false, List.nil_append,
          List.singleton_append, List.countP_nil, Nat.zero_add, Nat.add_zero]
        exact Nat.add_le_add_left (List.sublist_cons_self _ _).countP_le _
      · refine .kept (List.append_assoc _ _ _).symm hquiet ?_
        rw [hends, hclaims, hd, opens_split, opens_split]
        simp [Dispatch.opened, hid]
  | handBack =>
    refine .kept (List.append_assoc _ _ _).symm hquiet ?_
    rw [hends, hclaims, hd, opens_split, opens_split]
    simp [Dispatch.opened, Note.ends, Note.errs, Note.acks, Note.handsBack, List.countP_cons]
    omega

theorem Settled.balance (hw : Settled max w) (h : Step codec max w act w')
    (horderly : orderly w act = true) (id : ℕ) : Balance w w' id := by
  have hsame : ∀ notes : List (Note P), (∀ n ∈ notes, n.requeues id = false) →
      notes.countP (Note.ends id) = notes.countP (Note.claims id) →
      w'.log = notes ++ w.log → w'.dispatches = w.dispatches → Balance w w' id := by
    intro notes hquiet hcount hlog hdispatches
    refine .kept hlog hquiet ?_
    rw [hdispatches, hcount, Nat.add_comm]
  cases h with
  | insert => exact hsame [] (fun n hn => by cases hn) rfl rfl rfl
  | @claim worker credit limit lease now locked order lost horder =>
    obtain ⟨rfl, -⟩ := orderly_claim horderly
    refine .kept rfl (requeues_claimed_note _) ?_
    have hends : ∀ batch : List (Row P), (batch.map Note.claimed).countP (Note.ends id) = 0 :=
      fun batch => by
        refine countP_eq_zero_of_silent fun n hn => ?_
        obtain ⟨r, -, rfl⟩ := List.mem_map.mp hn
        rfl
    rw [hends, countP_claims, if_neg Bool.false_ne_true, opens_split, List.append_nil,
      Nat.zero_add, List.count, List.countP_map]
    rfl
  | move hd h =>
    refine .kept rfl (fun n hn => (h.silent n hn).2) ?_
    have hends := h.ends_eq (fun i => orderly_moves horderly) id
    rw [countP_eq_zero_of_silent fun n hn => (h.silent n hn).1, hd, opens_split, opens_split]
    omega
  | settle hd h => exact hw.balance_settle hd h (orderly_settles horderly h) id
  | abandon hd h =>
    rw [not_orderly_abandons h] at horderly
    cases horderly
  | land => cases horderly
  | @confirm key now =>
    refine hsame [.resulted key] (fun n hn => ?_) rfl rfl rfl
    rw [List.mem_singleton.mp hn]
    rfl
  | @operationFailed key code =>
    refine hsame [.resulted key] (fun n hn => ?_) rfl rfl rfl
    rw [List.mem_singleton.mp hn]
    rfl
  | resend => exact hsame [] (fun n hn => by cases hn) rfl rfl rfl
  | @requeue i now _ =>
    by_cases hid : i = id
    · subst hid
      refine .requeued rfl (opens_eq_zero fun r hr => ?_)
      simpa using List.all_eq_true.mp horderly r hr
    · refine hsame [.requeued i] (fun n hn => ?_) rfl rfl rfl
      rw [List.mem_singleton.mp hn]
      exact beq_eq_false_iff_ne.mpr hid

theorem Settled.atMost_step (hw : Settled max w) (h : Step codec max w act w')
    (horderly : orderly w act = true) (id : ℕ) :
    since (Note.ends id) id w'.log + opens id w'.dispatches ≤ since (Note.claims id) id w'.log := by
  have hold := hw.atMost id
  cases hw.balance h horderly id with
  | kept hlog hquiet heq =>
    rw [hlog, since_append hquiet, since_append hquiet]
    omega
  | dropped hlog hquiet hle _ =>
    rw [hlog, since_append hquiet, since_append hquiet]
    omega
  | requeued hlog hnone => rw [hlog, since_requeued, since_requeued, hnone]

theorem Settled.exact_step (hw : Settled max w) (hcounted : Counted w)
    (hu : UniqueKey (·.id) w.outbox) (h : Step codec max w act w') (horderly : orderly w act = true) :
    ∀ d' ∈ w'.outbox, d'.Active → since (Note.ends d'.id) d'.id w'.log + opens d'.id w'.dispatches =
      since (Note.claims d'.id) d'.id w'.log := by
  intro d' hd' hactive
  have hatMost := hw.atMost_step h horderly d'.id
  have hold : ∀ d ∈ w.outbox, d'.id = d.id → d.Active →
      since (Note.ends d'.id) d'.id w'.log + opens d'.id w'.dispatches =
        since (Note.claims d'.id) d'.id w'.log := by
    intro d hd hid hd_active
    have hexact := hw.exact_of_active d hd hd_active
    rw [← hid] at hexact
    cases hw.balance h horderly d'.id with
    | kept hlog hquiet heq =>
      rw [hlog, since_append hquiet, since_append hquiet]
      omega
    | dropped _ _ _ hinactive => exact absurd hactive (hinactive d' hd' rfl)
    | requeued hlog hnone => rw [hlog, since_requeued, since_requeued, hnone]
  cases h.leased hu d' hd' with
  | inserted hlog hnew _ _ =>
    have hzero := hcounted.since_eq_zero hnew
    rw [hlog] at hatMost ⊢
    omega
  | kept hd hid _ _ hkeeps _ _ => exact hold _ hd hid (hkeeps hactive)
  | claimed hd hid _ _ _ _ _ hd_active => exact hold _ hd hid hd_active
  | requeued hlog _ _ =>
    rw [hlog, since_requeued, since_requeued] at hatMost ⊢
    omega

/-! ## Errors -/

theorem since_errs_of_quiet {notes log : List (Note P)} {id : ℕ}
    (h : ∀ n ∈ notes, n.errs id = false ∧ n.requeues id = false) :
    since (Note.errs id) id (notes ++ log) = since (Note.errs id) id log := by
  rw [since_append fun n hn => (h n hn).2, countP_eq_zero_of_silent fun n hn => (h n hn).1,
    Nat.zero_add]

theorem giveUp_quiet {r : Row P} {s : Settlement} {n id : ℕ} :
    ∀ note ∈ giveUp r s n, note.errs id = false ∧ note.requeues id = false := by
  intro note hnote
  refine ⟨?_, (giveUp_silent note hnote).2⟩
  unfold giveUp at hnote
  split at hnote
  · split at hnote
    · rw [List.mem_singleton.mp hnote]
      rfl
    · cases hnote
  · cases hnote

/-- An error is noted when a dispatch decides what to do about it. -/
theorem Moves.errs {d d' : Dispatch P} {notes : List (Note P)}
    (h : Moves codec max act d d' notes) (id : ℕ) :
    (∀ n ∈ notes, n.errs id = false ∧ n.requeues id = false) ∨
    ∃ r e delay, d.phase = .publishing r ∧ r.id = id ∧ notes = [.refused r.id] ∧
      d'.phase = .settling r (afterError max r e delay) true := by
  cases h with
  | exhausted => exact Or.inl fun n hn => by cases hn
  | unpublishable => exact Or.inl fun n hn => by cases hn
  | publish =>
    refine Or.inl fun n hn => ?_
    rw [List.mem_singleton.mp hn]
    exact ⟨rfl, rfl⟩
  | published =>
    refine Or.inl fun n hn => ?_
    rw [List.mem_singleton.mp hn]
    exact ⟨rfl, rfl⟩
  | @refused i e delay r rest =>
    by_cases hid : r.id = id
    · exact Or.inr ⟨r, e, delay, rfl, hid, rfl, rfl⟩
    · refine Or.inl fun n hn => ?_
      rw [List.mem_singleton.mp hn]
      exact ⟨beq_eq_false_iff_ne.mpr hid, rfl⟩
  | stop => exact Or.inl fun n hn => by cases hn
  | crash => exact Or.inl fun n hn => by cases hn

theorem Step.errs (h : Step codec max w act w') (id : ℕ) :
    since (Note.errs id) id w'.log ≤ since (Note.errs id) id w.log ∨
    ∃ x ∈ w.dispatches, ∃ r e delay, x.phase = .publishing r ∧ r.id = id ∧
      since (Note.errs id) id w'.log = since (Note.errs id) id w.log + 1 ∧
      ∃ x' ∈ w'.dispatches, x'.phase = .settling r (afterError max r e delay) true := by
  cases h with
  | insert => exact Or.inl (Nat.le_refl _)
  | claim =>
    refine Or.inl (since_errs_of_quiet fun n hn => ?_).le
    obtain ⟨r, -, rfl⟩ := List.mem_map.mp hn
    exact ⟨rfl, rfl⟩
  | move hd h =>
    rcases h.errs id with hquiet | ⟨r, e, delay, hphase, rfl, rfl, hphase'⟩
    · exact Or.inl (since_errs_of_quiet hquiet).le
    · refine Or.inr ⟨_, hd ▸ List.mem_append_right _ List.mem_cons_self, r, e, delay, hphase, rfl,
        ?_, _, List.mem_append_right _ List.mem_cons_self, hphase'⟩
      rw [since_append fun n hn => by rw [List.mem_singleton.mp hn]; rfl]
      simp [Note.errs, Nat.add_comm]
  | settle hd h =>
    refine Or.inl (le_of_eq ?_)
    rw [since_errs_of_quiet fun n hn => ?_, since_errs_of_quiet giveUp_quiet]
    cases h with
    | settle => cases hn
    | handBack =>
      rw [List.mem_singleton.mp hn]
      exact ⟨rfl, rfl⟩
  | abandon => exact Or.inl (Nat.le_refl _)
  | land => exact Or.inl (since_errs_of_quiet giveUp_quiet).le
  | @confirm key _ =>
    refine Or.inl (@since_errs_of_quiet _ [.resulted key] w.log id fun n hn => ?_).le
    rw [List.mem_singleton.mp hn]
    exact ⟨rfl, rfl⟩
  | @operationFailed key _ =>
    refine Or.inl (@since_errs_of_quiet _ [.resulted key] w.log id fun n hn => ?_).le
    rw [List.mem_singleton.mp hn]
    exact ⟨rfl, rfl⟩
  | resend => exact Or.inl (Nat.le_refl _)
  | @requeue i now _ =>
    by_cases hid : i = id
    · subst hid
      simp only [since_requeued]
      exact Or.inl (Nat.zero_le _)
    · refine Or.inl (@since_errs_of_quiet _ [.requeued i] w.log id fun n hn => ?_).le
      rw [List.mem_singleton.mp hn]
      exact ⟨rfl, beq_eq_false_iff_ne.mpr hid⟩

/-- A settlement that was decided is still to come, or is carried out by the step. -/
theorem Step.settling (h : Step codec max w act w') (horderly : orderly w act = true)
    {x : Dispatch P} (hx : x ∈ w.dispatches) {r : Row P} {s : Settlement} {tried : Bool}
    (hphase : x.phase = .settling r s tried) : x ∈ w'.dispatches ∨
      ∃ now, w.leasesHold now = true ∧ w'.outbox = (s.write r now w.outbox).2 := by
  have hsplit : ∀ {before after : List (Dispatch P)} {d : Dispatch P},
      w.dispatches = before ++ d :: after → x = d ∨ ∀ d', x ∈ before ++ d' :: after := by
    intro before after d hd
    rw [hd] at hx
    rcases List.mem_append.mp hx with hmem | hmem
    · exact Or.inr fun d' => List.mem_append_left _ hmem
    · rcases List.mem_cons.mp hmem with heq | hmem
      · exact Or.inl heq
      · exact Or.inr fun d' => List.mem_append_right _ (List.mem_cons_of_mem _ hmem)
  cases h with
  | insert => exact Or.inl hx
  | claim =>
    refine Or.inl ?_
    dsimp only
    split
    · exact hx
    · exact List.mem_append_left _ hx
  | move hd h =>
    rcases hsplit hd with rfl | hmem
    · cases h with
      | crash => exact absurd rfl (orderly_moves horderly)
      | exhausted => cases hphase
      | unpublishable => cases hphase
      | publish => cases hphase
      | published => cases hphase
      | refused => cases hphase
      | stop => cases hphase
    · exact Or.inl (hmem _)
  | settle hd h =>
    have hleases := orderly_settles horderly h
    rcases hsplit hd with rfl | hmem
    · cases h with
      | settle =>
        obtain ⟨rfl, rfl, -⟩ := Phase.settling.inj hphase
        exact Or.inr ⟨_, hleases, rfl⟩
      | handBack => cases hphase
    · exact Or.inl (hmem _)
  | abandon hd h =>
    rw [not_orderly_abandons h] at horderly
    cases horderly
  | land => cases horderly
  | confirm => exact Or.inl hx
  | operationFailed => exact Or.inl hx
  | resend => exact Or.inl hx
  | requeue => exact Or.inl hx

theorem afterError_failed {r : Row P} {e : PublishError} {delay : ℕ} {code : String}
    (h : afterError max r e delay = .failed code) :
    code = codeUnpublishable ∨ max ≤ r.attempts := by
  unfold afterError at h
  split at h
  · next hcond =>
    rw [Bool.or_eq_true, decide_eq_true_eq] at hcond
    obtain rfl := Settlement.failed.inj h
    exact hcond.imp_left failureCode_eq_unpublishable.mpr
  · cases h

theorem afterError_cases (max : ℕ) (r : Row P) (e : PublishError) (delay : ℕ) :
    (∃ code, afterError max r e delay = .failed code) ∨ r.attempts < max := by
  unfold afterError
  split
  · exact Or.inl ⟨_, rfl⟩
  · next hcond =>
    rw [Bool.or_eq_true, decide_eq_true_eq, not_or, Nat.not_le] at hcond
    exact Or.inr hcond.2

theorem since_errs_le (id : ℕ) (log : List (Note P)) :
    since (Note.errs id) id log ≤ since (Note.ends id) id log := by
  rw [since_ends]
  omega

/-- A claim in hand of a row in delivery counts the claims of the row. -/
theorem Settled.attempts_eq (hw : Settled max w) (hcounted : Counted w) {r : Row P}
    (hr : r ∈ w.hands) {d : Delivery P} (hd : d ∈ w.outbox) (hid : r.id = d.id)
    (hactive : d.Active) :
    since (Note.ends d.id) d.id w.log + opens d.id w.dispatches = r.attempts := by
  have hholds := (hw.held r hr d hd hid.symm).resolve_right fun h => h hactive
  rw [hw.exact_of_active d hd hactive, ← hcounted.attempts d hd, hholds.attempts]

/-- A row that is in delivery before and after a step. -/
theorem Settled.spare_kept (hw : Settled max w) (hcounted : Counted w)
    (h : Step codec max w act w') (horderly : orderly w act = true) {d d' : Delivery P}
    (hd : d ∈ w.outbox) (hd' : d' ∈ w'.outbox) (hid : d'.id = d.id) (hactive : d.Active)
    (hactive' : d'.Active) : since (Note.errs d.id) d.id w'.log < max ∨
      ∃ x ∈ w'.dispatches, ∃ r code, x.phase = .settling r (.failed code) true ∧ r.id = d.id := by
  rcases hw.spare d hd hactive with hless | ⟨x, hx, r, code, hphase, hrid⟩
  · rcases h.errs d.id with hle | ⟨x, hx, r, e, delay, hphase, hrid, herrs, x', hx', hphase'⟩
    · exact Or.inl (Nat.lt_of_le_of_lt hle hless)
    · rcases afterError_cases max r e delay with ⟨code, hfailed⟩ | hattempts
      · exact Or.inr ⟨x', hx', r, code, hfailed ▸ hphase', hrid⟩
      · -- the claim itself is one that has not come to anything before
        have hopen : r ∈ x.opened := by
          rw [Dispatch.opened, hphase]
          exact List.mem_cons_self
        have hr : r ∈ w.hands := List.mem_flatMap.mpr ⟨x, hx, opened_subset x hopen⟩
        have hpositive : 0 < opens d.id w.dispatches :=
          List.countP_pos_iff.mpr ⟨r, List.mem_flatMap.mpr ⟨x, hx, hopen⟩, beq_iff_eq.mpr hrid⟩
        have hcount := hw.attempts_eq hcounted hr hd hrid hactive
        have hle := since_errs_le d.id w.log
        exact Or.inl (by omega)
  · rcases h.settling horderly hx hphase with hx' | ⟨now, hleases, hrows⟩
    · exact Or.inr ⟨x, hx', r, code, hphase, hrid⟩
    · have hr : r ∈ w.hands := by
        refine List.mem_flatMap.mpr ⟨x, hx, ?_⟩
        rw [Dispatch.hand, hphase]
        exact List.mem_cons_self
      rw [hrows] at hd'
      exact absurd hactive' (hw.failed_inactive hr hleases hd' (hid.trans hrid.symm))

theorem Settled.spare_step (hmax : 1 ≤ max) (hw : Settled max w) (hcounted : Counted w)
    (hu : UniqueKey (·.id) w.outbox) (h : Step codec max w act w') (horderly : orderly w act = true) :
    ∀ d' ∈ w'.outbox, d'.Active → since (Note.errs d'.id) d'.id w'.log < max ∨
      ∃ x ∈ w'.dispatches, ∃ r code, x.phase = .settling r (.failed code) true ∧ r.id = d'.id := by
  intro d' hd' hactive
  cases h.leased hu d' hd' with
  | inserted hlog hnew _ _ =>
    have hzero := hcounted.since_eq_zero hnew
    have hatMost := hw.atMost d'.id
    have hle := since_errs_le d'.id w.log
    rw [hlog]
    exact Or.inl (by omega)
  | kept hd hid _ _ hkeeps _ _ =>
    rw [hid]
    exact hw.spare_kept hcounted h horderly hd hd' hid (hkeeps hactive) hactive
  | claimed hd hid _ _ _ _ _ hd_active =>
    rw [hid]
    exact hw.spare_kept hcounted h horderly hd hd' hid hd_active hactive
  | requeued hlog _ _ =>
    rw [hlog, since_requeued]
    exact Or.inl hmax

/-! ## Phases -/

theorem Settled.publishing_step (hw : Settled max w) (h : Step codec max w act w') :
    ∀ x ∈ w'.dispatches, ∀ r, x.phase = .publishing r → r.attempts ≤ max := by
  intro x hx r hphase
  rcases h.dispatches hx with hold | ⟨d, hd, notes, hmoves, -⟩ | ⟨d, hd, -, hready | hback | hended⟩ |
    ⟨order, rfl⟩
  · exact hw.publishing x hold r hphase
  · cases hmoves with
    | publish hattempts => exact Phase.publishing.inj hphase ▸ hattempts
    | exhausted => cases hphase
    | unpublishable => cases hphase
    | published => cases hphase
    | refused => cases hphase
    | stop => cases hphase
    | crash => cases hphase
  · rw [hready] at hphase
    cases hphase
  · rw [hback] at hphase
    cases hphase
  · rw [hended] at hphase
    cases hphase
  · cases hphase

theorem Settled.untried_step (hw : Settled max w) (h : Step codec max w act w') :
    ∀ x ∈ w'.dispatches, ∀ r s, x.phase = .settling r s false →
      ∃ code, s = .failed code ∧ (code = codeUnpublishable ∨ max < r.attempts) := by
  intro x hx r s hphase
  rcases h.dispatches hx with hold | ⟨d, hd, notes, hmoves, -⟩ | ⟨d, hd, -, hready | hback | hended⟩ |
    ⟨order, rfl⟩
  · exact hw.untried x hold r s hphase
  · cases hmoves with
    | exhausted hattempts =>
      obtain ⟨rfl, rfl, -⟩ := Phase.settling.inj hphase
      exact ⟨_, rfl, Or.inr hattempts⟩
    | @unpublishable i delay r' rest e _ herror =>
      obtain ⟨rfl, rfl, -⟩ := Phase.settling.inj hphase
      have hunpublishable := messageFromOutbox_error herror
      refine ⟨failureCode e, ?_, Or.inl (failureCode_eq_unpublishable.mpr hunpublishable)⟩
      rw [afterError, hunpublishable, Bool.true_or, if_pos rfl]
    | publish => cases hphase
    | published => cases hphase
    | refused => cases hphase
    | stop => cases hphase
    | crash => cases hphase
  · rw [hready] at hphase
    cases hphase
  · rw [hback] at hphase
    cases hphase
  · rw [hended] at hphase
    cases hphase
  · cases hphase

theorem Settled.tried_step (hw : Settled max w) (h : Step codec max w act w') :
    ∀ x ∈ w'.dispatches, ∀ r code, x.phase = .settling r (.failed code) true →
      code = codeUnpublishable ∨ r.attempts = max := by
  intro x hx r code hphase
  rcases h.dispatches hx with hold | ⟨d, hd, notes, hmoves, -⟩ | ⟨d, hd, -, hready | hback | hended⟩ |
    ⟨order, rfl⟩
  · exact hw.tried x hold r code hphase
  · cases hmoves with
    | refused =>
      obtain ⟨rfl, hfailed, -⟩ := Phase.settling.inj hphase
      have hle := hw.publishing _ hd _ rfl
      exact (afterError_failed hfailed).imp_right fun hge => Nat.le_antisymm hle hge
    | exhausted => cases hphase
    | unpublishable => exact absurd (Phase.settling.inj hphase).2.2 Bool.false_ne_true
    | publish => cases hphase
    | published => cases hphase
    | stop => cases hphase
    | crash => cases hphase
  · rw [hready] at hphase
    cases hphase
  · rw [hback] at hphase
    cases hphase
  · rw [hended] at hphase
    cases hphase
  · cases hphase

theorem Settled.step (hmax : 1 ≤ max) (hw : Settled max w) (htracked : Tracked codec max w)
    (hcounted : Counted w) (h : Step codec max w act w') (horderly : orderly w act = true) :
    Settled max w' where
  nodup := hw.nodup_step htracked.unique h horderly
  held := hw.held_step htracked h horderly
  atMost := hw.atMost_step h horderly
  exact_of_active := hw.exact_step hcounted htracked.unique h horderly
  spare := hw.spare_step hmax hcounted htracked.unique h horderly
  publishing := hw.publishing_step h
  untried := hw.untried_step h
  tried := hw.tried_step h

theorem OrderlyRun.run (h : OrderlyRun codec max w w') : Run codec max w w' := by
  induction h with
  | refl => exact .refl
  | tail _ hstep ih =>
    obtain ⟨act, -, hact⟩ := hstep
    exact ih.tail ⟨act, hact⟩

theorem settled_of_run (hmax : 1 ≤ max) (h : OrderlyRun codec max .initial w) : Settled max w := by
  induction h with
  | refl => exact settled_initial
  | @tail v v' hrun hstep ih =>
    obtain ⟨hcounted, htracked⟩ := counted_of_run (OrderlyRun.run hrun)
    obtain ⟨act, horderly, hact⟩ := hstep
    exact ih.step hmax htracked hcounted (step_sound hact) horderly

/-! ## Rows that are given up -/

/-- A row is given up by the settlement of a claim. -/
theorem Step.gaveUp (h : Step codec max w act w') (horderly : orderly w act = true) {r : Row P}
    {code : String} (hgave : w'.log = .gaveUp r code :: w.log) :
    ∃ before rest tried after now,
      w.dispatches = before ++ ⟨rest, .settling r (.failed code) tried⟩ :: after ∧
      ∃ d ∈ w.outbox, r.holds now d = true := by
  have hnotes : ∀ {notes : List (Note P)}, notes ++ w.log = .gaveUp r code :: w.log →
      .gaveUp r code ∈ notes := by
    intro notes hlog
    rw [List.append_cancel_right (hlog.trans List.singleton_append.symm)]
    exact List.mem_singleton_self _
  have hnone : w.log ≠ .gaveUp r code :: w.log := fun hlog => by
    have hlength := congrArg List.length hlog
    rw [List.length_cons] at hlength
    omega
  cases h with
  | insert => exact absurd hgave hnone
  | claim =>
    obtain ⟨_, _, heq⟩ := List.mem_map.mp (hnotes hgave)
    cases heq
  | move hd h =>
    have hmem := hnotes hgave
    cases h with
    | exhausted => cases hmem
    | unpublishable => cases hmem
    | publish => cases List.mem_singleton.mp hmem
    | published => cases List.mem_singleton.mp hmem
    | refused => cases List.mem_singleton.mp hmem
    | stop => cases hmem
    | crash => cases hmem
  | @settle _ now before d r' s d' after notes hd h =>
    have hmem := hnotes ((List.append_assoc _ _ _).trans hgave)
    cases h with
    | settle =>
      unfold giveUp at hmem
      split at hmem
      · split at hmem
        · next hchanged =>
          obtain ⟨rfl, rfl⟩ := Note.gaveUp.inj (List.mem_singleton.mp hmem)
          rw [Settlement.write_eq] at hchanged
          exact ⟨before, _, _, after, now, hd, List.countP_pos_iff.mp hchanged⟩
        · cases hmem
      · cases hmem
    | handBack => cases List.mem_singleton.mp hmem
  | abandon => exact absurd hgave hnone
  | land => cases horderly
  | confirm => cases hgave
  | operationFailed => cases hgave
  | resend => exact absurd hgave hnone
  | requeue => cases hgave

/-- A claim that is being settled is the only one of its row in hand. -/
theorem Settled.only_hand (hw : Settled max w) {before after : List (Dispatch P)}
    {rest : List (Row P)} {r : Row P} {s : Settlement} {tried : Bool}
    (hd : w.dispatches = before ++ ⟨rest, .settling r s tried⟩ :: after) {r' : Row P}
    (hr' : r' ∈ before.flatMap Dispatch.hand ++ (rest ++ after.flatMap Dispatch.hand)) :
    r'.id ≠ r.id := by
  have hnodup := hw.nodup
  rw [hands_split hd, List.map_append] at hnodup
  change (_ ++ r.id :: (rest ++ after.flatMap Dispatch.hand).map Row.id).Nodup at hnodup
  rw [List.nodup_middle, ← List.map_append, List.nodup_cons] at hnodup
  exact fun hid => hnodup.1 (hid ▸ List.mem_map_of_mem hr')

/-- The claims of the row that are open: the one being settled, if it was not published. -/
theorem Settled.opens_settling (hw : Settled max w) {before after : List (Dispatch P)}
    {rest : List (Row P)} {r : Row P} {s : Settlement} {tried : Bool}
    (hd : w.dispatches = before ++ ⟨rest, .settling r s tried⟩ :: after) :
    opens r.id w.dispatches = if tried then 0 else 1 := by
  have hothers : opens r.id (before ++ after) = 0 := by
    refine List.countP_eq_zero.mpr fun r' hr' hid => ?_
    obtain ⟨x, hx, hr'⟩ := List.mem_flatMap.mp hr'
    have hhand := opened_subset x hr'
    refine hw.only_hand hd ?_ (beq_iff_eq.mp hid)
    rcases List.mem_append.mp hx with hx | hx
    · exact List.mem_append_left _ (List.mem_flatMap.mpr ⟨x, hx, hhand⟩)
    · exact List.mem_append_right _ (List.mem_append_right _ (List.mem_flatMap.mpr ⟨x, hx, hhand⟩))
  have hrest : (rest.countP fun r' => r'.id == r.id) = 0 := by
    refine List.countP_eq_zero.mpr fun r' hr' hid => ?_
    exact hw.only_hand hd (List.mem_append_right _ (List.mem_append_left _ hr')) (beq_iff_eq.mp hid)
  rw [hd, opens_split, hothers]
  cases tried <;> simp [Dispatch.opened, hrest]

/-- No other dispatch settles a claim of the row after an error. -/
theorem Settled.errs_lt (hw : Settled max w) {before after : List (Dispatch P)}
    {rest : List (Row P)} {r : Row P} {s : Settlement}
    (hd : w.dispatches = before ++ ⟨rest, .settling r s false⟩ :: after) {d : Delivery P}
    (hmem : d ∈ w.outbox) (hid : d.id = r.id) (hactive : d.Active) :
    since (Note.errs r.id) r.id w.log < max := by
  rw [← hid]
  refine (hw.spare d hmem hactive).resolve_right ?_
  rintro ⟨x, hx, r', code, hphase, hrid⟩
  have hhand : r' ∈ x.hand := by
    rw [Dispatch.hand, hphase]
    exact List.mem_cons_self
  rw [hd] at hx
  rcases List.mem_append.mp hx with hx | hx
  · refine hw.only_hand hd ?_ (hrid.trans hid)
    exact List.mem_append_left _ (List.mem_flatMap.mpr ⟨x, hx, hhand⟩)
  · rcases List.mem_cons.mp hx with rfl | hx
    · exact absurd (Phase.settling.inj hphase).2.2 Bool.false_ne_true
    · refine hw.only_hand hd ?_ (hrid.trans hid)
      exact List.mem_append_right _ (List.mem_append_right _ (List.mem_flatMap.mpr ⟨x, hx, hhand⟩))

/-- A row that could be published is given up after as many failed publications as attempts
are allowed exactly if none of its claims was confirmed by the broker or handed back. -/
theorem gaveUp_after_errors_iff (hmax : 1 ≤ max) (h : OrderlyRun codec max .initial w)
    (horderly : orderly w act = true) (hstep : step codec max w act = some w') {r : Row P}
    {code : String} (hgave : w'.log = .gaveUp r code :: w.log) :
    (code = codeUnpublishable ∨ max ≤ since (Note.errs r.id) r.id w.log) ↔
      (code = codeUnpublishable ∨ since (Note.acks r.id) r.id w.log = 0 ∧
        since (Note.handsBack r.id) r.id w.log = 0) := by
  have hw := settled_of_run hmax h
  obtain ⟨hcounted, -⟩ := counted_of_run h.run
  obtain ⟨before, rest, tried, after, now, hd, d, hmem, hholds⟩ :=
    (step_sound hstep).gaveUp horderly hgave
  simp only [Row.holds, Bool.and_eq_true, beq_iff_eq] at hholds
  obtain ⟨⟨⟨⟨hid, hpending⟩, -⟩, -⟩, -⟩ := hholds
  have hx : ⟨rest, .settling r (.failed code) tried⟩ ∈ w.dispatches :=
    hd ▸ List.mem_append_right _ List.mem_cons_self
  have hr : r ∈ w.hands := List.mem_flatMap.mpr ⟨_, hx, List.mem_cons_self⟩
  have hcount := hw.attempts_eq hcounted hr hmem hid.symm (Or.inl hpending)
  rw [hid, since_ends, hw.opens_settling hd] at hcount
  cases tried with
  | true =>
    rcases hw.tried _ hx r code rfl with hunpublishable | hattempts
    · exact iff_of_true (Or.inl hunpublishable) (Or.inl hunpublishable)
    · rw [if_pos rfl] at hcount
      refine or_congr_right ?_
      omega
  | false =>
    obtain ⟨_, heq, hcause⟩ := hw.untried _ hx r _ rfl
    obtain rfl := Settlement.failed.inj heq
    rcases hcause with hunpublishable | hattempts
    · exact iff_of_true (Or.inl hunpublishable) (Or.inl hunpublishable)
    · have hless := hw.errs_lt hd hmem hid (Or.inl hpending)
      rw [if_neg Bool.false_ne_true] at hcount
      refine or_congr_right ?_
      omega

end

/-! ## Runs -/

/-- Steps that are all orderly. -/
def orderlySteps (codec : Codec P) (max : ℕ) (w : World P) : List (Act P) → Option (World P)
  | [] => some w
  | act :: acts => if orderly w act then
      (step codec max w act).bind fun w' => orderlySteps codec max w' acts
    else none

theorem orderlyRun_of_steps {w w' : World P} {acts : List (Act P)}
    (h : orderlySteps codec max w acts = some w') : OrderlyRun codec max w w' := by
  induction acts generalizing w with
  | nil =>
    cases Option.some.inj h
    exact .refl
  | cons act acts ih =>
    unfold orderlySteps at h
    split at h
    · next horderly =>
      obtain ⟨v, hv, hrest⟩ := Option.bind_eq_some_iff.mp h
      exact .head ⟨act, horderly, hv⟩ (ih hrest)
    · cases h

namespace Sample

/-- The broker refuses the only attempt that is allowed. -/
def refusing : List (Act Unit) :=
  [.insert command 1, claimBy "a" 1, .take 0 0, .refused 0 .unroutable 0]

/-- The broker confirms the only attempt that is allowed, and the sweep sends the command
again. -/
def unanswered : List (Act Unit) := sending ++ [.resend 5 10 9 [], claimBy "a" 10, .take 1 0]

end Sample

theorem gaveUp_after_errors_iff_sample : ∃ w w' : World Unit,
    OrderlyRun Sample.plainCodec 1 .initial w ∧
    step Sample.plainCodec 1 w (.settle 0 2) = some w' ∧
    w'.log = .gaveUp ⟨1, Sample.command, "a", 1⟩ "UNROUTABLE" :: w.log ∧
    1 ≤ since (Note.errs 1) 1 w.log := by
  have hrun : (orderlySteps Sample.plainCodec 1 .initial Sample.refusing).any (fun w =>
      orderly w (.settle 0 2) && (step Sample.plainCodec 1 w (.settle 0 2)).any fun w' =>
        w'.log == .gaveUp ⟨1, Sample.command, "a", 1⟩ "UNROUTABLE" :: w.log &&
        (since (Note.acks 1) 1 w.log == 0 && since (Note.handsBack 1) 1 w.log == 0)) = true := by
    decide +kernel
  obtain ⟨w, hw, hcheck⟩ := (Option.any_eq_true _ _).mp hrun
  obtain ⟨horderly, hsettle⟩ := (Bool.and_eq_true _ _).mp hcheck
  obtain ⟨w', hw', hcheck'⟩ := (Option.any_eq_true _ _).mp hsettle
  simp only [Bool.and_eq_true, beq_iff_eq] at hcheck'
  obtain ⟨hlog, hacks, hback⟩ := hcheck'
  have hiff := gaveUp_after_errors_iff (Nat.le_refl 1) (orderlyRun_of_steps hw) horderly hw' hlog
  exact ⟨w, w', orderlyRun_of_steps hw, hw', hlog,
    (hiff.mpr (Or.inr ⟨hacks, hback⟩)).resolve_left (by decide)⟩

/-- A command that was only ever confirmed by the broker is given up, though no publication
has failed and no result was received. -/
theorem confirmed_command_gaveUp : ∃ w w' : World Unit,
    OrderlyRun Sample.plainCodec 1 .initial w ∧ orderly w (.settle 1 11) = true ∧
    step Sample.plainCodec 1 w (.settle 1 11) = some w' ∧
    w'.log = .gaveUp ⟨1, Sample.command, "a", 2⟩ codeAttemptsExhausted :: w.log ∧
    w'.outbox.map (·.status) = [.failed] ∧ since (Note.acks 1) 1 w.log = 1 ∧
    since (Note.errs 1) 1 w.log = 0 ∧ .resulted "k" ∉ w'.log := by
  have hrun : (orderlySteps Sample.plainCodec 1 .initial Sample.unanswered).any (fun w =>
      orderly w (.settle 1 11) && (step Sample.plainCodec 1 w (.settle 1 11)).any fun w' =>
        decide (w'.log = .gaveUp ⟨1, Sample.command, "a", 2⟩ codeAttemptsExhausted :: w.log ∧
          w'.outbox.map (·.status) = [.failed] ∧ since (Note.acks 1) 1 w.log = 1 ∧
          since (Note.errs 1) 1 w.log = 0 ∧ .resulted "k" ∉ w'.log)) = true := by
    decide +kernel
  obtain ⟨w, hw, hcheck⟩ := (Option.any_eq_true _ _).mp hrun
  obtain ⟨horderly, hsettle⟩ := (Bool.and_eq_true _ _).mp hcheck
  obtain ⟨w', hw', hcheck'⟩ := (Option.any_eq_true _ _).mp hsettle
  exact ⟨w, w', orderlyRun_of_steps hw, horderly, hw', of_decide_eq_true hcheck'⟩

end FocServices.Messaging
