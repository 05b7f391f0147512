import FocServices.Messaging.Lifecycle

/-!
# Claims of outbox rows

A claim is known by the name of its worker and the number of attempts. The counter grows
with every claim and starts again with a requeue, so that the pair can come back only under
the same name after a requeue. Then a write of the earlier claim is taken for one of the
later.
-/

namespace FocServices.Messaging

open Txn

variable {P : Type} {codec : Codec P} {max : ℕ}

/-! ## The log since the last requeue -/

def Note.requeues (id : ℕ) : Note P → Bool
  | .requeued i => i == id
  | _ => false

def Note.claims (id : ℕ) : Note P → Bool
  | .claimed r => r.id == id
  | _ => false

/-- What happened since a row was inserted or last requeued. -/
def recent (id : ℕ) (log : List (Note P)) : List (Note P) := log.takeWhile fun n => !n.requeues id

/-- How often it happened since a row was inserted or last requeued. -/
def since (p : Note P → Bool) (id : ℕ) (log : List (Note P)) : ℕ := (recent id log).countP p

/-- The latest claim of a row since it was last requeued. -/
def lastClaim (id : ℕ) (log : List (Note P)) : Option (Row P) :=
  (recent id log).findSome? fun
    | .claimed r => if r.id = id then some r else none
    | _ => none

section

variable {id : ℕ} {log notes : List (Note P)} {p : Note P → Bool}

theorem recent_append (h : ∀ n ∈ notes, n.requeues id = false) :
    recent id (notes ++ log) = notes ++ recent id log := by
  refine List.takeWhile_append_of_pos fun n hn => ?_
  rw [h n hn]
  rfl

theorem since_append (h : ∀ n ∈ notes, n.requeues id = false) :
    since p id (notes ++ log) = notes.countP p + since p id log := by
  rw [since, recent_append h, List.countP_append, since]

theorem since_requeued : since p id (.requeued id :: log) = 0 := by
  simp [since, recent, Note.requeues]

theorem lastClaim_append (h : ∀ n ∈ notes, n.claims id = false ∧ n.requeues id = false) :
    lastClaim id (notes ++ log) = lastClaim id log := by
  rw [lastClaim, recent_append fun n hn => (h n hn).2, List.findSome?_append]
  have hnone : (notes.findSome? fun
      | .claimed r => if r.id = id then some r else none
      | _ => none) = none := by
    refine List.findSome?_eq_none_iff.mpr fun n hn => ?_
    split
    · next r => exact if_neg (by simpa [Note.claims] using (h _ hn).1)
    · rfl
  rw [hnone, Option.none_or, lastClaim]

theorem requeues_claimed_note (batch : List (Row P)) :
    ∀ n ∈ batch.map Note.claimed, n.requeues id = false := by
  intro n hn
  obtain ⟨r, -, rfl⟩ := List.mem_map.mp hn
  rfl

end

/-! ## What a step does to the lease of a row -/

/-- A row that may still be published or answered. -/
def Delivery.Active (d : Delivery P) : Prop := d.status = .pending ∨ d.status = .sent

/-- How the lease of a row and the log come about. -/
inductive Leased (w w' : World P) (d' : Delivery P) : Prop
  | inserted (hlog : w'.log = w.log) (hnew : ∀ d ∈ w.outbox, d.id ≠ d'.id)
    (hattempts : d'.attempts = 0) (howner : d'.leaseOwner = none)
  | kept {d notes} (hd : d ∈ w.outbox) (hid : d'.id = d.id) (hattempts : d'.attempts = d.attempts)
    (howner : d'.leaseOwner = d.leaseOwner ∨ d'.leaseOwner = none) (hactive : d'.Active → d.Active)
    (hlog : w'.log = notes ++ w.log)
    (hsilent : ∀ n ∈ notes, n.claims d.id = false ∧ n.requeues d.id = false)
  | claimed {d} {batch : List (Row P)} (hd : d ∈ w.outbox) (hid : d'.id = d.id)
    (hattempts : d'.attempts = d.attempts + 1) (hlog : w'.log = batch.map .claimed ++ w.log)
    (hbatch : (batch.map Row.id).Nodup) (hmem : d'.row ∈ batch)
    (howner : d'.leaseOwner = some d'.row.leaseOwner) (hactive : d.Active)
  | requeued (hlog : w'.log = .requeued d'.id :: w.log) (hattempts : d'.attempts = 0)
    (howner : d'.leaseOwner = none)

theorem giveUp_silent {r : Row P} {s : Settlement} {n : ℕ} {id : ℕ} :
    ∀ note ∈ giveUp r s n, note.claims id = false ∧ note.requeues id = false := by
  intro note hnote
  unfold giveUp at hnote
  split at hnote
  · split at hnote
    · rw [List.mem_singleton.mp hnote]
      exact ⟨rfl, rfl⟩
    · cases hnote
  · cases hnote

theorem Moves.silent {act : Act P} {d d' : Dispatch P} {notes : List (Note P)}
    (h : Moves codec max act d d' notes) {id : ℕ} :
    ∀ note ∈ notes, note.claims id = false ∧ note.requeues id = false := by
  intro note hnote
  cases h with
  | exhausted => cases hnote
  | unpublishable => cases hnote
  | publish => rw [List.mem_singleton.mp hnote]; exact ⟨rfl, rfl⟩
  | published => rw [List.mem_singleton.mp hnote]; exact ⟨rfl, rfl⟩
  | refused => rw [List.mem_singleton.mp hnote]; exact ⟨rfl, rfl⟩
  | stop => cases hnote
  | crash => cases hnote

theorem Settles.silent {act : Act P} {now : ℤ} {d d' : Dispatch P} {r : Row P} {s : Settlement}
    {notes : List (Note P)} (h : Settles act now d r s d' notes) {id : ℕ} :
    ∀ note ∈ notes, note.claims id = false ∧ note.requeues id = false := by
  intro note hnote
  cases h with
  | settle => cases hnote
  | handBack => rw [List.mem_singleton.mp hnote]; exact ⟨rfl, rfl⟩

theorem settlement_frees (s : Settlement) {now : ℤ} {d : Delivery P} :
    (s.change now d).leaseOwner = none := by
  cases s <;> rfl

section

variable {w w' : World P} {act : Act P}

/-- A statement that leaves the attempts alone and frees leases at most. -/
theorem leased_map {g : Delivery P → Delivery P} {notes : List (Note P)}
    (hrows : w'.outbox = w.outbox.map g) (hlog : w'.log = notes ++ w.log)
    (hg : ∀ d ∈ w.outbox, (g d).id = d.id ∧ (g d).attempts = d.attempts ∧
      ((g d).leaseOwner = d.leaseOwner ∨ (g d).leaseOwner = none) ∧ ((g d).Active → d.Active))
    (hsilent : ∀ id, ∀ n ∈ notes, n.claims id = false ∧ n.requeues id = false) :
    ∀ d' ∈ w'.outbox, Leased w w' d' := by
  intro d' hd'
  rw [hrows] at hd'
  obtain ⟨d, hd, rfl⟩ := List.mem_map.mp hd'
  obtain ⟨hid, hattempts, howner, hactive⟩ := hg d hd
  exact .kept hd hid hattempts howner hactive hlog (hsilent d.id)

theorem leased_settle {r : Row P} {s : Settlement} {now : ℤ} {notes : List (Note P)}
    (hrows : w'.outbox = (s.write r now w.outbox).2) (hlog : w'.log = notes ++ w.log)
    (hsilent : ∀ id, ∀ n ∈ notes, n.claims id = false ∧ n.requeues id = false) :
    ∀ d' ∈ w'.outbox, Leased w w' d' := by
  refine leased_map (hrows.trans (congrArg Prod.snd (s.write_eq r now w.outbox))) hlog
    (fun d _ => ?_) hsilent
  split
  · next hholds =>
    simp only [Row.holds, Bool.and_eq_true, beq_iff_eq] at hholds
    exact ⟨(settlement_keeps s).1, (settlement_keeps s).2, Or.inr (settlement_frees s),
      fun _ => Or.inl hholds.1.1.1.2⟩
  · exact ⟨rfl, rfl, Or.inl rfl, fun h => h⟩

/-- A claim returns each row it has leased once. -/
theorem nodup_returned {rows : List (Delivery P)} {credit : Bool} {limit : ℕ} {now : ℤ}
    {locked order : List ℕ} (hu : UniqueKey (·.id) rows)
    (horder : order.Perm (claimIDs credit limit now locked rows)) (worker : String) (expires : ℤ) :
    ((returned order (updateIDs order (Delivery.lease worker expires) rows)).map Row.id).Nodup := by
  have hids : (returned order (updateIDs order (Delivery.lease worker expires) rows)).map Row.id =
      order := by
    refine ids_returned fun id hid => ?_
    obtain ⟨d, hd, rfl, -⟩ := mem_claimIDs (horder.mem_iff.mp hid)
    exact ⟨_, List.mem_map_of_mem hd, by rw [if_pos hid, lease_id]⟩
  rw [hids]
  exact horder.nodup_iff.mpr (nodup_claimIDs hu)

theorem mem_returned_of {rows : List (Delivery P)} {order : List ℕ} (hu : UniqueKey (·.id) rows)
    {d : Delivery P} (hd : d ∈ rows) (hid : d.id ∈ order) : d.row ∈ returned order rows :=
  List.mem_filterMap.mpr ⟨d.id, hid, by rw [hu.findRow_eq hd rfl]; rfl⟩

theorem Step.leased (hw : UniqueKey (·.id) w.outbox) (h : Step codec max w act w') :
    ∀ d' ∈ w'.outbox, Leased w w' d' := by
  cases h with
  | insert h =>
    intro d' hd'
    obtain ⟨rfl, hfresh⟩ := insertOutbox_eq h
    rcases List.mem_append.mp hd' with hd' | hd'
    · exact .kept hd' rfl rfl (Or.inl rfl) (fun h => h) (List.nil_append _).symm
        fun n hn => (nomatch hn)
    · rw [List.mem_singleton.mp hd']
      exact .inserted rfl hfresh rfl rfl
  | @claim worker credit limit lease now locked order lost horder =>
    intro d' hd'
    have hu : UniqueKey (·.id) (updateIDs order (Delivery.lease worker (now + lease)) w.outbox) :=
      (@evolves_claim _ w.log w.log _ _ _ _ _ _ _ _ hw horder).unique
    obtain ⟨d, hd, rfl⟩ := List.mem_map.mp hd'
    by_cases hmem : d.id ∈ order
    · rw [if_pos hmem] at hd' ⊢
      obtain ⟨x, hx, hxid, hdue⟩ := mem_claimIDs (horder.mem_iff.mp hmem)
      obtain rfl := hw.eq hx hd hxid
      simp only [due, Bool.and_eq_true, beq_iff_eq] at hdue
      exact .claimed hd rfl rfl rfl (nodup_returned hw horder _ _) (mem_returned_of hu hd' hmem) rfl
        (Or.inl hdue.1.1.1)
    · rw [if_neg hmem]
      refine .kept hd rfl rfl (Or.inl rfl) (fun h => h) rfl fun n hn => ?_
      obtain ⟨r, hr, rfl⟩ := List.mem_map.mp hn
      refine ⟨beq_eq_false_iff_ne.mpr fun hid => hmem ?_, rfl⟩
      rw [← hid]
      exact (mem_returned hr).1
  | move hd h =>
    exact leased_map (List.map_id _).symm rfl (fun d _ => ⟨rfl, rfl, Or.inl rfl, fun h => h⟩)
      fun id => h.silent
  | settle hd h =>
    refine leased_settle rfl (List.append_assoc _ _ _).symm fun id n hn => ?_
    rcases List.mem_append.mp hn with hn | hn
    · exact h.silent n hn
    · exact giveUp_silent n hn
  | abandon hd h =>
    exact leased_map (List.map_id _).symm (List.nil_append _).symm
      (fun d _ => ⟨rfl, rfl, Or.inl rfl, fun h => h⟩) fun id n hn => (nomatch hn)
  | land hj => exact leased_settle rfl rfl fun id => giveUp_silent
  | @confirm key now =>
    refine leased_map rfl (List.singleton_append (x := Note.resulted key)).symm (fun d _ => ?_)
      fun id n hn => ?_
    · split
      · exact ⟨rfl, rfl, Or.inr rfl, fun h => h.elim (fun h => by cases h) fun h => by cases h⟩
      · exact ⟨rfl, rfl, Or.inl rfl, fun h => h⟩
    · rw [List.mem_singleton.mp hn]
      exact ⟨rfl, rfl⟩
  | @operationFailed key code =>
    refine leased_map rfl (List.singleton_append (x := Note.resulted key)).symm (fun d _ => ?_)
      fun id n hn => ?_
    · split
      · exact ⟨rfl, rfl, Or.inr rfl, fun h => h.elim (fun h => by cases h) fun h => by cases h⟩
      · exact ⟨rfl, rfl, Or.inl rfl, fun h => h⟩
    · rw [List.mem_singleton.mp hn]
      exact ⟨rfl, rfl⟩
  | resend =>
    refine leased_map rfl (List.nil_append _).symm (fun d hd => ?_) fun id n hn => (nomatch hn)
    split
    · next hid =>
      obtain ⟨x, hx, hxid, hstale⟩ := mem_staleIDs hid
      obtain rfl := hw.eq hx hd hxid
      simp only [stale, Bool.and_eq_true, beq_iff_eq] at hstale
      exact ⟨rfl, rfl, Or.inr rfl, fun _ => Or.inr hstale.1.1⟩
    · exact ⟨rfl, rfl, Or.inl rfl, fun h => h⟩
  | @requeue id now h =>
    intro d' hd'
    obtain ⟨x, hx, hxid, hfailed⟩ := h
    obtain ⟨d, hd, rfl⟩ := List.mem_map.mp hd'
    split
    · next hcond =>
      simp only [Bool.and_eq_true, beq_iff_eq] at hcond
      exact .requeued (by rw [← hcond.1]) rfl rfl
    · next hcond =>
      have hother : d.id ≠ id := by
        intro hid
        obtain rfl := hw.eq hd hx (hid.trans hxid.symm)
        simp [hid, hfailed] at hcond
      refine .kept hd rfl rfl (Or.inl rfl) (fun h => h)
        (List.singleton_append (x := Note.requeued id)).symm fun n hn => ?_
      rw [List.mem_singleton.mp hn]
      exact ⟨rfl, beq_eq_false_iff_ne.mpr (Ne.symm hother)⟩

/-! ## Fencing -/

/-- What the counter and the owner of a lease say about the log. -/
structure Counted (w : World P) : Prop where
  attempts : ∀ d ∈ w.outbox, d.attempts = since (Note.claims d.id) d.id w.log
  owner : ∀ d ∈ w.outbox, ∀ name, d.leaseOwner = some name →
    ∃ c, lastClaim d.id w.log = some c ∧ c.leaseOwner = name
  recorded : ∀ newer c older, w.log = newer ++ .claimed c :: older →
    c.attempts = since (Note.claims c.id) c.id older + 1
  exists_row : ∀ c, .claimed c ∈ w.log → ∃ d ∈ w.outbox, d.id = c.id

theorem counted_initial : Counted (.initial : World P) :=
  ⟨fun _ h => (nomatch h), fun _ h => (nomatch h), fun newer c older h => by
    simp [World.initial] at h, fun _ h => (nomatch h)⟩

/-- A row nobody has claimed. -/
theorem Counted.since_eq_zero (hw : Counted w) {id : ℕ} (h : ∀ d ∈ w.outbox, d.id ≠ id) :
    since (Note.claims id) id w.log = 0 := by
  refine List.countP_eq_zero.mpr fun n hn hclaims => ?_
  unfold Note.claims at hclaims
  split at hclaims
  · next r =>
    obtain ⟨d, hd, hid⟩ := hw.exists_row r ((List.takeWhile_sublist _).subset hn)
    exact h d hd (hid.trans (beq_iff_eq.mp hclaims))
  · cases hclaims

theorem countP_claims {batch : List (Row P)} (id : ℕ) :
    (batch.map Note.claimed).countP (Note.claims id) = (batch.map Row.id).count id := by
  rw [List.countP_map, List.count, List.countP_map]
  rfl

theorem lastClaim_claimed {batch : List (Row P)} {r : Row P} {log : List (Note P)}
    (hbatch : (batch.map Row.id).Nodup) (hr : r ∈ batch) :
    lastClaim r.id (batch.map .claimed ++ log) = some r := by
  obtain ⟨before, after, rfl⟩ := List.append_of_mem hr
  have hbefore : ∀ x ∈ before, x.id ≠ r.id := by
    intro x hx hid
    rw [List.map_append, List.map_cons, List.nodup_append] at hbatch
    exact hbatch.2.2 x.id (List.mem_map_of_mem hx) r.id List.mem_cons_self hid
  rw [List.map_append, List.append_assoc, lastClaim_append]
  · simp [lastClaim, recent, Note.requeues]
  · intro n hn
    obtain ⟨x, hx, rfl⟩ := List.mem_map.mp hn
    exact ⟨beq_eq_false_iff_ne.mpr (hbefore x hx), rfl⟩

/-- The claims that a step adds to the log. -/
theorem Step.claims (hw : UniqueKey (·.id) w.outbox) (h : Step codec max w act w') :
    (∃ notes, w'.log = notes ++ w.log ∧ ∀ id, ∀ n ∈ notes, n.claims id = false) ∨
    ∃ batch : List (Row P), w'.log = batch.map .claimed ++ w.log ∧ (batch.map Row.id).Nodup ∧
      ∀ c ∈ batch, ∃ d ∈ w.outbox, d.id = c.id ∧ c.attempts = d.attempts + 1 := by
  have hnone : (∃ notes, w.log = notes ++ w.log ∧ ∀ id, ∀ n ∈ notes, n.claims id = false) :=
    ⟨[], rfl, fun _ _ hn => (nomatch hn)⟩
  have hone : ∀ note : Note P, (∀ id, note.claims id = false) →
      ∃ notes, note :: w.log = notes ++ w.log ∧ ∀ id, ∀ n ∈ notes, n.claims id = false := by
    intro note hnote
    refine ⟨[note], rfl, fun id n hn => ?_⟩
    rw [List.mem_singleton.mp hn]
    exact hnote id
  cases h with
  | insert => exact Or.inl hnone
  | @claim worker credit limit lease now locked order lost horder =>
    refine Or.inr ⟨_, rfl, nodup_returned hw horder _ _, fun c hc => ?_⟩
    obtain ⟨hid, x, hx, hxid, rfl⟩ := mem_returned hc
    obtain ⟨d, hd, rfl⟩ := List.mem_map.mp hx
    by_cases hmem : d.id ∈ order
    · rw [if_pos hmem]
      exact ⟨d, hd, rfl, rfl⟩
    · rw [if_neg hmem] at hid
      exact absurd hid hmem
  | move hd h => exact Or.inl ⟨_, rfl, fun id n hn => (h.silent n hn).1⟩
  | settle hd h =>
    refine Or.inl ⟨_, (List.append_assoc _ _ _).symm, fun id n hn => ?_⟩
    rcases List.mem_append.mp hn with hn | hn
    · exact (h.silent n hn).1
    · exact (giveUp_silent n hn).1
  | abandon => exact Or.inl hnone
  | land => exact Or.inl ⟨_, rfl, fun id n hn => (giveUp_silent n hn).1⟩
  | confirm => exact Or.inl (hone _ fun _ => rfl)
  | operationFailed => exact Or.inl (hone _ fun _ => rfl)
  | resend => exact Or.inl hnone
  | requeue => exact Or.inl (hone _ fun _ => rfl)

/-- An element of two lists in a row is in the first or in the second. -/
theorem split_append {α : Type} {a b before after : List α} {x : α}
    (h : a ++ b = before ++ x :: after) :
    (∃ mid, a = before ++ x :: mid ∧ after = mid ++ b) ∨
      ∃ mid, b = mid ++ x :: after ∧ before = a ++ mid := by
  rcases List.append_eq_append_iff.mp h with ⟨mid, hbefore, hb⟩ | ⟨mid, ha, hcons⟩
  · exact Or.inr ⟨mid, hb, hbefore⟩
  · cases mid with
    | nil => exact Or.inr ⟨[], hcons.symm, by rw [ha, List.append_nil, List.append_nil]⟩
    | cons y mid =>
      obtain ⟨rfl, hafter⟩ := List.cons.inj hcons
      exact Or.inl ⟨mid, ha, hafter⟩

theorem not_claimed_of_silent {c : Row P} {n : Note P} (h : n.claims c.id = false) :
    n ≠ .claimed c := by
  rintro rfl
  simp [Note.claims] at h

theorem Counted.recorded_step (hw : Counted w) (hu : UniqueKey (·.id) w.outbox)
    (h : Step codec max w act w') : ∀ newer c older, w'.log = newer ++ .claimed c :: older →
    c.attempts = since (Note.claims c.id) c.id older + 1 := by
  intro newer c older hlog
  rcases h.claims hu with ⟨notes, hnotes, hsilent⟩ | ⟨batch, hbatch, hnodup, hrows⟩
  · rw [hnotes] at hlog
    rcases split_append hlog with ⟨mid, hmid, -⟩ | ⟨mid, hmid, -⟩
    · have hmem : .claimed c ∈ notes := hmid ▸ List.mem_append_right _ List.mem_cons_self
      exact absurd rfl (not_claimed_of_silent (hsilent c.id _ hmem))
    · exact hw.recorded mid c older hmid
  · rw [hbatch] at hlog
    rcases split_append hlog with ⟨mid, hmid, rfl⟩ | ⟨mid, hmid, -⟩
    · obtain ⟨before, rest, rfl, -, hrest⟩ := List.map_eq_append_iff.mp hmid
      obtain ⟨c', after, rfl, hc, rfl⟩ := List.map_eq_cons_iff.mp hrest
      obtain rfl := Note.claimed.inj hc
      obtain ⟨d, hd, hid, hattempts⟩ := hrows c' (List.mem_append_right _ List.mem_cons_self)
      have hother : (after.map Note.claimed).countP (Note.claims c'.id) = 0 := by
        rw [countP_claims]
        refine List.count_eq_zero_of_not_mem fun hmem => ?_
        rw [List.map_append, List.map_cons] at hnodup
        exact (List.nodup_cons.mp (List.nodup_append.mp hnodup).2.1).1 hmem
      rw [since_append (requeues_claimed_note after), hother, Nat.zero_add, hattempts, ← hid,
        hw.attempts d hd]
    · exact hw.recorded mid c older hmid

theorem Counted.step (hw : Counted w) (hu : UniqueKey (·.id) w.outbox)
    (hforward : ∀ d ∈ w.outbox, ∃ d' ∈ w'.outbox, d'.id = d.id) (h : Step codec max w act w') :
    Counted w' := by
  have hleased := h.leased hu
  refine ⟨fun d' hd' => ?_, fun d' hd' name hname => ?_, hw.recorded_step hu h, fun c hc => ?_⟩
  · cases hleased d' hd' with
    | inserted hlog hnew hattempts _ => rw [hattempts, hlog, hw.since_eq_zero hnew]
    | kept hd hid hattempts _ _ hlog hsilent =>
      have hzero : ∀ notes : List (Note P), (∀ n ∈ notes, n.claims d'.id = false ∧
          n.requeues d'.id = false) → notes.countP (Note.claims d'.id) = 0 := fun notes h =>
        List.countP_eq_zero.mpr fun n hn => by simp [(h n hn).1]
      rw [← hid] at hsilent
      rw [hattempts, hlog, since_append fun n hn => (hsilent n hn).2, hzero _ hsilent, Nat.zero_add,
        hw.attempts _ hd, hid]
    | @claimed d batch hd hid hattempts hlog hbatch hmem _ _ =>
      have hcount : (batch.map Row.id).count d'.id = 1 :=
        List.count_eq_one_of_mem hbatch (List.mem_map_of_mem (f := Row.id) hmem)
      rw [hattempts, hlog, since_append (requeues_claimed_note batch), countP_claims, hcount,
        hw.attempts d hd, hid, Nat.add_comm]
    | requeued hlog hattempts _ => rw [hattempts, hlog, since_requeued]
  · cases hleased d' hd' with
    | inserted _ _ _ howner => rw [howner] at hname; cases hname
    | kept hd hid _ howner _ hlog hsilent =>
      rcases howner with howner | howner
      · obtain ⟨c, hc, hcname⟩ := hw.owner _ hd name (howner ▸ hname)
        exact ⟨c, by rw [hlog, hid, lastClaim_append hsilent, hc], hcname⟩
      · rw [howner] at hname
        cases hname
    | @claimed d batch hd hid _ hlog hbatch hmem howner _ =>
      refine ⟨d'.row, by rw [hlog]; exact lastClaim_claimed hbatch hmem, ?_⟩
      exact Option.some.inj (howner.symm.trans hname)
    | requeued _ _ howner => rw [howner] at hname; cases hname
  · have hrow : ∃ d ∈ w.outbox, d.id = c.id := by
      rcases h.claims hu with ⟨notes, hnotes, hsilent⟩ | ⟨batch, hbatch, -, hrows⟩
      · rw [hnotes] at hc
        rcases List.mem_append.mp hc with hc | hc
        · exact absurd rfl (not_claimed_of_silent (hsilent c.id _ hc))
        · exact hw.exists_row c hc
      · rw [hbatch] at hc
        rcases List.mem_append.mp hc with hc | hc
        · obtain ⟨c', hc', heq⟩ := List.mem_map.mp hc
          cases heq
          obtain ⟨d, hd, hid, -⟩ := hrows c hc'
          exact ⟨d, hd, hid⟩
        · exact hw.exists_row c hc
    obtain ⟨d, hd, hid⟩ := hrow
    obtain ⟨d', hd', hid'⟩ := hforward d hd
    exact ⟨d', hd', hid'.trans hid⟩

theorem counted_of_run (h : Run codec max .initial w) : Counted w ∧ Tracked codec max w := by
  induction h with
  | refl => exact ⟨counted_initial, tracked_initial⟩
  | @tail v v' _ hstep ih =>
    obtain ⟨hcounted, htracked⟩ := ih
    obtain ⟨act, hact⟩ := hstep
    have hstep := step_sound hact
    refine ⟨hcounted.step htracked.unique (fun d hd => ?_) hstep, htracked.step hstep⟩
    obtain ⟨d', hd', hprogress⟩ := (htracked.evolves hstep).forward d hd
    exact ⟨d', hd', hprogress.id⟩

theorem since_claimed {id : ℕ} {r : Row P} {log : List (Note P)} (hid : r.id = id) :
    since (Note.claims id) id (.claimed r :: log) = since (Note.claims id) id log + 1 := by
  have happend := @since_append P id log [.claimed r] (Note.claims id) fun n hn => by
    rw [List.mem_singleton.mp hn]
    rfl
  have hclaims : Note.claims id (.claimed r) = true := beq_iff_eq.mpr hid
  rw [List.singleton_append, List.countP_singleton, if_pos hclaims] at happend
  rw [happend, Nat.add_comm]

/-- Where the latest claim of a row stands in the log. -/
theorem lastClaim_eq_some {id : ℕ} {c : Row P} {log : List (Note P)}
    (h : lastClaim id log = some c) : c.id = id ∧ ∃ after before, log = after ++ .claimed c :: before ∧
      ∀ n ∈ after, n.claims id = false ∧ n.requeues id = false := by
  induction log with
  | nil => cases h
  | cons n log ih =>
    by_cases hrequeues : n.requeues id = true
    · simp [lastClaim, recent, hrequeues] at h
    by_cases hclaims : n.claims id = true
    · unfold Note.claims at hclaims
      split at hclaims
      · next r =>
        have hid := beq_iff_eq.mp hclaims
        simp only [lastClaim, recent, Note.requeues, Bool.not_false, List.takeWhile_cons_of_pos,
          List.findSome?_cons, hid, if_true, Option.some.injEq] at h
        subst h
        exact ⟨hid, [], log, rfl, fun n hn => (nomatch hn)⟩
      · cases hclaims
    · have hsilent : n.claims id = false ∧ n.requeues id = false :=
        ⟨Bool.eq_false_iff.mpr hclaims, Bool.eq_false_iff.mpr hrequeues⟩
      have hone : lastClaim id (n :: log) = lastClaim id log :=
        @lastClaim_append P id log [n] fun n' hn' => by
          rw [List.mem_singleton.mp hn']
          exact hsilent
      obtain ⟨hid, after, before, rfl, hafter⟩ := ih (hone ▸ h)
      refine ⟨hid, n :: after, before, rfl, fun n' hn' => ?_⟩
      rcases List.mem_cons.mp hn' with rfl | hn'
      · exact hsilent
      · exact hafter n' hn'

theorem requeued_of_requeues {id : ℕ} {n : Note P} (h : n.requeues id = true) :
    n = .requeued id := by
  unfold Note.requeues at h
  split at h
  · rw [beq_iff_eq.mp h]
  · cases h

/-- After a claim, no claim under the same name follows a requeue of the row. -/
def NameUnused (r : Row P) (newer : List (Note P)) : Prop :=
  ∀ after before, newer = after ++ .requeued r.id :: before →
    ∀ c, .claimed c ∈ after → c.id = r.id → c.leaseOwner ≠ r.leaseOwner

/-- The latest claim of a row that was claimed again came after the earlier one. -/
theorem latest_claim_later {log newer older : List (Note P)} {r r' c : Row P}
    (hlog : log = newer ++ .claimed r :: older) (hlater : .claimed r' ∈ newer) (hid : r'.id = r.id)
    (hc : lastClaim r.id log = some c) : c.id = r.id ∧ ∃ after mid,
      newer = after ++ .claimed c :: mid ∧
      ∀ n ∈ after, n.claims r.id = false ∧ n.requeues r.id = false := by
  obtain ⟨hcid, after, before, hsplit, hafter⟩ := lastClaim_eq_some hc
  refine ⟨hcid, ?_⟩
  rcases split_append (hlog.symm.trans hsplit) with ⟨mid, hmid, -⟩ | ⟨mid, -, rfl⟩
  · exact ⟨after, mid, hmid, hafter⟩
  · -- then the later claim would be newer than the latest
    have hsilent := (hafter _ (List.mem_append_left _ hlater)).1
    rw [← hid] at hsilent
    exact absurd rfl (not_claimed_of_silent hsilent)

/-- Once a row was claimed again, no write of an earlier claim changes it, unless a claim
under the same name followed a requeue. -/
theorem stale_claims_fenced (h : Run codec max .initial w) {newer older : List (Note P)}
    {r r' : Row P} (hlog : w.log = newer ++ .claimed r :: older) (hlater : .claimed r' ∈ newer)
    (hid : r'.id = r.id) (hname : NameUnused r newer) (s : Settlement) (now : ℤ) :
    s.write r now w.outbox = (0, w.outbox) := by
  obtain ⟨hw, -⟩ := counted_of_run h
  have hnone : ∀ d ∈ w.outbox, r.holds now d = false := by
    intro d hd
    refine Bool.eq_false_iff.mpr fun hholds => ?_
    simp only [Row.holds, Bool.and_eq_true, beq_iff_eq] at hholds
    obtain ⟨⟨⟨⟨hdid, -⟩, howner⟩, hattempts⟩, -⟩ := hholds
    obtain ⟨c, hc, hcname⟩ := hw.owner d hd _ howner
    rw [hdid] at hc
    obtain ⟨hcid, after, mid, rfl, hafter⟩ := latest_claim_later hlog hlater hid hc
    have hquiet : ∀ n ∈ mid, n.requeues r.id = false := by
      intro n hn
      refine Bool.eq_false_iff.mpr fun hrequeues => ?_
      obtain ⟨m₁, m₂, rfl⟩ := List.append_of_mem (requeued_of_requeues hrequeues ▸ hn)
      refine hname (after ++ .claimed c :: m₁) m₂ ?_ c
        (List.mem_append_right _ List.mem_cons_self) hcid hcname
      rw [List.append_assoc, List.cons_append]
    have hold : r.attempts = _ := hw.recorded _ r older hlog
    have hnow : d.attempts = _ := hw.attempts d hd
    rw [hdid, hlog, List.append_assoc, since_append fun n hn => (hafter n hn).2, List.cons_append,
      since_claimed hcid, since_append hquiet, since_claimed rfl] at hnow
    omega
  rw [s.write_eq, guarded]
  refine Prod.ext (List.countP_eq_zero.mpr fun d hd => by simp [hnone d hd]) ?_
  calc w.outbox.map (fun d => if r.holds now d then s.change now d else d)
      = w.outbox.map fun d => d := List.map_congr_left fun d hd => by simp [hnone d hd]
    _ = w.outbox := List.map_id' _

end

/-! ## Runs -/

namespace Sample

/-- A worker claims the command twice. In between the operation has failed and an
administrator has requeued the row. -/
def reclaimed : List (Act Unit) :=
  [.insert command 1, claimBy "a" 1, .operationFailed "k" "REFUSED", .requeue 1 2, claimBy "a" 3]

/-- The lease of the first claim runs out before another worker claims the row. -/
def overtaken : List (Act Unit) := [.insert command 1, claimBy "a" 1, claimBy "b" 200]

end Sample

theorem stale_claims_fenced_sample : ∃ w : World Unit,
    w.log = [.claimed ⟨1, Sample.command, "b", 2⟩, .claimed ⟨1, Sample.command, "a", 1⟩] ∧
    ∀ (s : Settlement) (now : ℤ),
      s.write ⟨1, Sample.command, "a", 1⟩ now w.outbox = (0, w.outbox) := by
  have hrun : (steps Sample.plainCodec 3 .initial Sample.overtaken).any (fun w =>
      w.log == [.claimed ⟨1, Sample.command, "b", 2⟩, .claimed ⟨1, Sample.command, "a", 1⟩]) =
      true := by decide +kernel
  obtain ⟨w, hw, hlog⟩ := (Option.any_eq_true _ _).mp hrun
  have hlog := beq_iff_eq.mp hlog
  refine ⟨w, hlog, fun s now => ?_⟩
  refine @stale_claims_fenced _ _ _ w (run_of_steps hw) [.claimed ⟨1, Sample.command, "b", 2⟩] []
    _ _ hlog (List.mem_singleton_self _) rfl (fun after before h => ?_) s now
  cases after with
  | nil => cases h
  | cons x after => simp at h

/-- After the second claim under the same name, a write of the first claim marks the row as
sent. -/
theorem reclaimed_row_marked : ∃ w : World Unit, Run Sample.plainCodec 3 .initial w ∧
    w.log = [.claimed ⟨1, Sample.command, "a", 1⟩, .requeued 1, .resulted "k",
      .claimed ⟨1, Sample.command, "a", 1⟩] ∧
    (markSent ⟨1, Sample.command, "a", 1⟩ 4 w.outbox).2.map (·.status) = [.sent] ∧
    w.outbox.map (·.status) = [.pending] := by
  have hrun : (steps Sample.plainCodec 3 .initial Sample.reclaimed).any (fun w =>
      w.log == [.claimed ⟨1, Sample.command, "a", 1⟩, .requeued 1, .resulted "k",
        .claimed ⟨1, Sample.command, "a", 1⟩] &&
      ((markSent ⟨1, Sample.command, "a", 1⟩ 4 w.outbox).2.map (·.status) == [.sent] &&
        w.outbox.map (·.status) == [.pending])) = true := by decide +kernel
  obtain ⟨w, hw, hcheck⟩ := (Option.any_eq_true _ _).mp hrun
  simp only [Bool.and_eq_true, beq_iff_eq] at hcheck
  exact ⟨w, run_of_steps hw, hcheck.1, hcheck.2.1, hcheck.2.2⟩

end FocServices.Messaging
