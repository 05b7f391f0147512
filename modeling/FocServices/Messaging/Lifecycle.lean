import FocServices.Messaging.Dispatcher

/-!
# The lifecycle of outbox rows

What one statement can do to a row, whoever issues it and however late, and from it what
holds of a row over every run: which statuses it leaves and reaches, how often it is
published, and that every publication carries the same message.
-/

namespace FocServices.Messaging

open Txn

variable {P : Type} {codec : Codec P} {max : ℕ}

/-! ## Statements on rows -/

/-- What a settlement makes of the row it applies to. -/
def Settlement.change (s : Settlement) (now : ℤ) (d : Delivery P) : Delivery P :=
  match s with
  | .sent => { d with
    status := .sent, sentAt := some now, leaseOwner := none, leaseExpiresAt := none,
    lastFailureCode := none }
  | .rescheduled delay code => { d with
    nextAttemptAt := now + delay, leaseOwner := none, leaseExpiresAt := none,
    lastFailureCode := some code }
  | .failed code => { d with
    status := .failed, leaseOwner := none, leaseExpiresAt := none, lastFailureCode := some code }

theorem Settlement.write_eq (s : Settlement) (r : Row P) (now : ℤ) (rows : List (Delivery P)) :
    s.write r now rows = guarded r now (s.change now) rows := by
  cases s <;> rfl

section

variable {rows : List (Delivery P)} {credit : Bool} {limit : ℕ} {timeout now : ℤ} {id : ℕ}
  {locked order : List ℕ}

theorem mem_claimIDs (h : id ∈ claimIDs credit limit now locked rows) :
    ∃ d ∈ rows, d.id = id ∧ due credit now d = true := by
  obtain ⟨d, hd, rfl⟩ := List.mem_map.mp h
  have hfree := List.mem_filter.mp (List.mem_mergeSort.mp (List.mem_of_mem_take hd))
  exact ⟨d, hfree.1, rfl, ((Bool.and_eq_true _ _).mp hfree.2).1⟩

theorem nodup_claimIDs (h : UniqueKey (·.id) rows) :
    (claimIDs credit limit now locked rows).Nodup := by
  refine List.Nodup.sublist ((List.take_sublist _ _).map _) ?_
  refine ((List.mergeSort_perm _ _).map Delivery.id).nodup_iff.mpr ?_
  exact List.Nodup.sublist (List.filter_sublist.map Delivery.id) h

@[simp] theorem lease_id {worker : String} {expires : ℤ} {d : Delivery P} :
    (d.lease worker expires).id = d.id := rfl

@[simp] theorem lease_attempts {worker : String} {expires : ℤ} {d : Delivery P} :
    (d.lease worker expires).attempts = d.attempts + 1 := rfl

theorem mem_staleIDs (h : id ∈ staleIDs timeout limit now locked rows) :
    ∃ d ∈ rows, d.id = id ∧ stale timeout now d = true := by
  obtain ⟨d, hd, rfl⟩ := List.mem_map.mp h
  have hfree := List.mem_filter.mp (List.mem_mergeSort.mp (List.mem_of_mem_take hd))
  exact ⟨d, hfree.1, rfl, ((Bool.and_eq_true _ _).mp hfree.2).1⟩

theorem mem_returned {r : Row P} (h : r ∈ returned order rows) :
    r.id ∈ order ∧ ∃ d ∈ rows, d.id = r.id ∧ r = d.row := by
  obtain ⟨id, hid, hr⟩ := List.mem_filterMap.mp h
  obtain ⟨d, hfind, rfl⟩ := Option.map_eq_some_iff.mp hr
  obtain ⟨hd, rfl⟩ := mem_of_findRow hfind
  exact ⟨hid, d, hd, rfl, rfl⟩

/-- A claim returns every row it has leased, once. -/
theorem ids_returned (h : ∀ id ∈ order, ∃ d ∈ rows, d.id = id) :
    (returned order rows).map (·.id) = order := by
  induction order with
  | nil => rfl
  | cons id order ih =>
    have hsome : (findRow (·.id) id rows).isSome = true :=
      findRow_isSome.mpr (h id List.mem_cons_self)
    obtain ⟨d, hd⟩ := Option.isSome_iff_exists.mp hsome
    have hid := (mem_of_findRow hd).2
    have hrest := ih fun id hid => h id (List.mem_cons_of_mem _ hid)
    simp only [returned, List.filterMap_cons, hd, Option.map_some, List.map_cons] at hrest ⊢
    rw [hrest]
    exact congrArg (· :: order) hid

end

/-! ## What a step does to a row -/

/-- The number of requeues of a row. -/
def requeues (id : ℕ) (log : List (Note P)) : ℕ := log.countP fun
  | .requeued i => i == id
  | _ => false

/-- The number of calls of the publisher for a row. -/
def calls (id : ℕ) (log : List (Note P)) : ℕ := log.countP fun
  | .called i _ => i == id
  | _ => false

/-- What a row may become. -/
structure Progress (log log' : List (Note P)) (d d' : Delivery P) : Prop where
  id : d'.id = d.id
  content : d'.content = d.content
  confirmed : d.status = .confirmed → d' = d
  failed : d.status = .failed → d'.status = .failed ∨ requeues d.id log < requeues d.id log'
  event : d.status = .sent → isCredit d.content.kind = false → d'.status = .sent
  acked : d'.status = .sent → d.status = .sent ∨ .acked d.id ∈ log'
  resulted : d'.status = .confirmed → d.status = .confirmed ∨
    isCredit d.content.kind = true ∧ .resulted d.content.idempotencyKey ∈ log'

section

variable {log log' log'' : List (Note P)} {d d' d'' : Delivery P} {r : Row P} {now : ℤ}

theorem Progress.refl (log log' : List (Note P)) (d : Delivery P) : Progress log log' d d :=
  ⟨rfl, rfl, fun _ => rfl, Or.inl, fun h _ => h, Or.inl, Or.inl⟩

theorem requeues_mono (h : log <:+ log') (id : ℕ) : requeues id log ≤ requeues id log' :=
  h.sublist.countP_le

theorem Progress.trans (h : Progress log log' d d') (h' : Progress log' log'' d' d'')
    (hlog : log <:+ log') (hlog' : log' <:+ log'') : Progress log log'' d d'' := by
  refine ⟨h'.id.trans h.id, h'.content.trans h.content, fun hd => ?_, fun hd => ?_,
    fun hd hkind => ?_, fun hd => ?_, fun hd => ?_⟩
  · have hsame := h.confirmed hd
    exact (h'.confirmed (hsame ▸ hd)).trans hsame
  · rcases h.failed hd with hfailed | hless
    · rcases h'.failed hfailed with hfailed' | hless
      · exact Or.inl hfailed'
      · rw [h.id] at hless
        exact Or.inr (Nat.lt_of_le_of_lt (requeues_mono hlog d.id) hless)
    · exact Or.inr (Nat.lt_of_lt_of_le hless (requeues_mono hlog' d.id))
  · exact h'.event (h.event hd hkind) (h.content ▸ hkind)
  · rcases h'.acked hd with hsent | hacked
    · exact (h.acked hsent).imp_right fun hacked => hlog'.subset hacked
    · exact Or.inr (h.id ▸ hacked)
  · rcases h'.resulted hd with hconfirmed | hresult
    · exact (h.resulted hconfirmed).imp_right fun hresult => ⟨hresult.1, hlog'.subset hresult.2⟩
    · exact Or.inr (h.content ▸ hresult)

/-- A row that is pending may become anything but confirmed, and sent if it was acknowledged. -/
theorem progress_of_pending (hd : d.status = .pending) (hid : d'.id = d.id)
    (hcontent : d'.content = d.content) (hconfirmed : d'.status ≠ .confirmed)
    (hsent : d'.status = .sent → .acked d.id ∈ log') : Progress log log' d d' := by
  refine ⟨hid, hcontent, fun h => ?_, fun h => ?_, fun h => ?_, fun h => Or.inr (hsent h),
    fun h => absurd h hconfirmed⟩
  · rw [hd] at h
    cases h
  · rw [hd] at h
    cases h
  · rw [hd] at h
    cases h

theorem progress_settle {s : Settlement} (h : r.holds now d = true)
    (hsent : s = .sent → .acked r.id ∈ log') : Progress log log' d (s.change now d) := by
  simp only [Row.holds, Bool.and_eq_true, beq_iff_eq] at h
  obtain ⟨⟨⟨⟨hid, hpending⟩, -⟩, -⟩, -⟩ := h
  cases s with
  | sent =>
    exact progress_of_pending hpending rfl rfl (fun h => by cases h) fun _ => hid ▸ hsent rfl
  | rescheduled delay code =>
    exact progress_of_pending hpending rfl rfl (by simp [Settlement.change, hpending])
      (by simp [Settlement.change, hpending])
  | failed code =>
    exact progress_of_pending hpending rfl rfl (fun h => by cases h) fun h => by cases h

end

/-- What a statement does to the table. -/
structure Evolves (log log' : List (Note P)) (rows rows' : List (Delivery P)) : Prop where
  unique : UniqueKey (·.id) rows'
  forward : ∀ d ∈ rows, ∃ d' ∈ rows', Progress log log' d d'
  backward : ∀ d' ∈ rows', (∃ d ∈ rows, Progress log log' d d') ∨
    d'.status = .pending ∧ ∀ d ∈ rows, d.id ≠ d'.id

section

variable {log log' : List (Note P)} {rows : List (Delivery P)}

theorem evolves_map {g : Delivery P → Delivery P} (hu : UniqueKey (·.id) rows)
    (hg : ∀ d ∈ rows, Progress log log' d (g d)) : Evolves log log' rows (rows.map g) := by
  refine ⟨?_, fun d hd => ⟨g d, List.mem_map_of_mem hd, hg d hd⟩, fun d' hd' => ?_⟩
  · have hids : (rows.map g).map Delivery.id = rows.map Delivery.id := by
      rw [List.map_map]
      exact List.map_congr_left fun d hd => (hg d hd).id
    rw [UniqueKey, hids]
    exact hu
  · obtain ⟨d, hd, rfl⟩ := List.mem_map.mp hd'
    exact Or.inl ⟨d, hd, hg d hd⟩

theorem evolves_refl (hu : UniqueKey (·.id) rows) : Evolves log log' rows rows :=
  ⟨hu, fun d hd => ⟨d, hd, .refl _ _ d⟩, fun d hd => Or.inl ⟨d, hd, .refl _ _ d⟩⟩

theorem insertOutbox_eq {content : Content P} {id : ℕ} {rows' : List (Delivery P)}
    (h : insertOutbox content id rows = some rows') :
    rows' = rows ++ [⟨id, content, .pending, 0, content.createdAt, none, none, none, none, none⟩] ∧
      ∀ d ∈ rows, d.id ≠ id := by
  unfold insertOutbox at h
  split at h
  · next hfresh =>
    refine ⟨(Option.some.inj h).symm, fun d hd => ?_⟩
    have hall := List.all_eq_true.mp ((Bool.and_eq_true _ _).mp hfresh).2 d hd
    simp only [Bool.and_eq_true, bne_iff_ne] at hall
    exact hall.1
  · cases h

theorem evolves_insert {content : Content P} {id : ℕ} {rows' : List (Delivery P)}
    (hu : UniqueKey (·.id) rows) (h : insertOutbox content id rows = some rows') :
    Evolves log log' rows rows' := by
  obtain ⟨rfl, hids⟩ := insertOutbox_eq h
  refine ⟨uniqueKey_append_singleton.mpr ⟨hu, hids⟩, fun d hd =>
    ⟨d, List.mem_append_left _ hd, .refl _ _ d⟩, fun d' hd' => ?_⟩
  rcases List.mem_append.mp hd' with hd' | hd'
  · exact Or.inl ⟨d', hd', .refl _ _ d'⟩
  · rw [List.mem_singleton.mp hd']
    exact Or.inr ⟨rfl, hids⟩

theorem evolves_settle {r : Row P} {s : Settlement} {now : ℤ} (hu : UniqueKey (·.id) rows)
    (hsent : s = .sent → .acked r.id ∈ log') :
    Evolves log log' rows (s.write r now rows).2 := by
  rw [s.write_eq]
  refine evolves_map hu fun d _ => ?_
  split
  · next hholds => exact progress_settle hholds hsent
  · exact .refl _ _ d

theorem evolves_claim {credit : Bool} {limit : ℕ} {now : ℤ} {locked order : List ℕ}
    {worker : String} {expires : ℤ} (hu : UniqueKey (·.id) rows)
    (horder : order.Perm (claimIDs credit limit now locked rows)) :
    Evolves log log' rows (updateIDs order (Delivery.lease worker expires) rows) := by
  refine evolves_map hu fun d hd => ?_
  split
  · next hid =>
    obtain ⟨d₀, hd₀, hid₀, hdue⟩ := mem_claimIDs (horder.mem_iff.mp hid)
    obtain rfl := hu.eq hd₀ hd hid₀
    simp only [due, Bool.and_eq_true, beq_iff_eq] at hdue
    have hpending : d₀.status = .pending := hdue.1.1.1
    exact progress_of_pending hpending rfl rfl (by simp [Delivery.lease, hpending])
      (by simp [Delivery.lease, hpending])
  · exact .refl _ _ d

theorem evolves_confirm {key : String} {now : ℤ} (hu : UniqueKey (·.id) rows)
    (hresult : .resulted key ∈ log') : Evolves log log' rows (confirmByKey key now rows) := by
  refine evolves_map hu fun d _ => ?_
  split
  · next hawaits =>
    simp only [awaits, Bool.and_eq_true, beq_iff_eq, Bool.or_eq_true] at hawaits
    obtain ⟨⟨rfl, hcredit⟩, hstatus⟩ := hawaits
    refine ⟨rfl, rfl, fun h => ?_, fun h => ?_, fun _ hkind => ?_, fun h => (by cases h),
      fun _ => Or.inr ⟨hcredit, hresult⟩⟩
    · simp [h] at hstatus
    · simp [h] at hstatus
    · rw [hcredit] at hkind
      cases hkind
  · exact .refl _ _ d

theorem evolves_markFailed {key code : String} (hu : UniqueKey (·.id) rows) :
    Evolves log log' rows (markFailedByKey key code rows) := by
  refine evolves_map hu fun d _ => ?_
  split
  · next hawaits =>
    simp only [awaits, Bool.and_eq_true, beq_iff_eq, Bool.or_eq_true] at hawaits
    obtain ⟨⟨rfl, hcredit⟩, hstatus⟩ := hawaits
    refine ⟨rfl, rfl, fun h => ?_, fun _ => Or.inl rfl, fun _ hkind => ?_, fun h => (by cases h),
      fun h => by cases h⟩
    · simp [h] at hstatus
    · rw [hcredit] at hkind
      cases hkind
  · exact .refl _ _ d

theorem evolves_resend {timeout now : ℤ} {limit : ℕ} {locked : List ℕ}
    (hu : UniqueKey (·.id) rows) :
    Evolves log log' rows (resendUnconfirmed timeout limit now locked rows) := by
  refine evolves_map hu fun d hd => ?_
  split
  · next hid =>
    obtain ⟨d₀, hd₀, hid₀, hstale⟩ := mem_staleIDs hid
    obtain rfl := hu.eq hd₀ hd hid₀
    simp only [stale, Bool.and_eq_true, beq_iff_eq] at hstale
    obtain ⟨⟨hsent, hcredit⟩, -⟩ := hstale
    refine ⟨rfl, rfl, fun h => ?_, fun h => ?_, fun _ hkind => ?_, fun h => (by cases h),
      fun h => by cases h⟩
    · rw [hsent] at h
      cases h
    · rw [hsent] at h
      cases h
    · rw [hcredit] at hkind
      cases hkind
  · exact .refl _ _ d

theorem evolves_requeue {id : ℕ} {now : ℤ} (hu : UniqueKey (·.id) rows) :
    Evolves log (.requeued id :: log) rows (requeue id now rows) := by
  refine evolves_map hu fun d _ => ?_
  split
  · next hfailed =>
    simp only [Bool.and_eq_true, beq_iff_eq] at hfailed
    obtain ⟨rfl, hfailed⟩ := hfailed
    refine ⟨rfl, rfl, fun h => ?_, fun _ => Or.inr ?_, fun h => ?_, fun h => (by cases h),
      fun h => by cases h⟩
    · rw [hfailed] at h
      cases h
    · simp [requeues]
    · rw [hfailed] at h
      cases h
  · exact .refl _ _ d

end

/-! ## What holds in every state -/

/-- The rows a dispatch has in hand, the one it is working on first. -/
def Dispatch.hand (d : Dispatch P) : List (Row P) :=
  (match d.phase with
    | .publishing r | .settling r _ _ => [r]
    | .ready | .handingBack | .ended => []) ++ d.rows

/-- The rows that may still be published. -/
def waiting (max id : ℕ) (dispatches : List (Dispatch P)) : ℕ :=
  (dispatches.flatMap (·.rows)).countP fun r => r.id == id && decide (r.attempts ≤ max)

structure Tracked (codec : Codec P) (max : ℕ) (w : World P) : Prop where
  unique : UniqueKey (·.id) w.outbox
  sent : ∀ d ∈ w.outbox, d.status = .sent → .acked d.id ∈ w.log
  confirmed : ∀ d ∈ w.outbox, d.status = .confirmed →
    isCredit d.content.kind = true ∧ .resulted d.content.idempotencyKey ∈ w.log
  settling : ∀ d ∈ w.dispatches, ∀ r tried, d.phase = .settling r .sent tried → .acked r.id ∈ w.log
  late : ∀ r, (r, .sent) ∈ w.late → .acked r.id ∈ w.log
  known : ∀ d ∈ w.dispatches, ∀ r ∈ d.hand, ∃ x ∈ w.outbox, x.id = r.id ∧ x.content = r.content
  called : ∀ id m, .called id m ∈ w.log → ∃ x ∈ w.outbox, x.id = id ∧
    messageFromOutbox codec x.content = .ok m
  bound : ∀ x ∈ w.outbox, calls x.id w.log + waiting max x.id w.dispatches ≤
    max * requeues x.id w.log + min x.attempts max

theorem tracked_initial : Tracked codec max (.initial : World P) :=
  ⟨List.nodup_nil, fun _ h => (nomatch h), fun _ h => (nomatch h), fun _ h => (nomatch h),
    fun _ h => (nomatch h), fun _ h => (nomatch h), fun _ _ h => (nomatch h), fun _ h => (nomatch h)⟩

section

variable {w w' : World P} {act : Act P}

theorem log_suffix (h : Step codec max w act w') : w.log <:+ w'.log := by
  cases h with
  | insert => exact List.suffix_refl _
  | claim => exact List.suffix_append _ _
  | move => exact List.suffix_append _ _
  | settle => exact (List.suffix_append _ _).trans (List.suffix_append _ _)
  | abandon => exact List.suffix_refl _
  | land => exact List.suffix_append _ _
  | confirm => exact List.suffix_cons _ _
  | operationFailed => exact List.suffix_cons _ _
  | resend => exact List.suffix_refl _
  | requeue => exact List.suffix_cons _ _

/-- A write that marks a row as sent belongs to a publication that was acknowledged. -/
theorem Settles.acked {now : ℤ} {d d' : Dispatch P} {r : Row P} {s : Settlement}
    {notes : List (Note P)} (h : Settles act now d r s d' notes) (hs : s = .sent) :
    ∃ tried, d.phase = .settling r .sent tried := by
  cases h with
  | settle => exact ⟨_, by rw [hs]⟩
  | handBack => cases hs

/-- What any step does to the table. -/
theorem Tracked.evolves (hw : Tracked codec max w) (h : Step codec max w act w') :
    Evolves w.log w'.log w.outbox w'.outbox := by
  cases h with
  | insert h => exact evolves_insert hw.unique h
  | claim horder => exact evolves_claim hw.unique horder
  | move => exact evolves_refl hw.unique
  | settle hd h =>
    refine evolves_settle hw.unique fun hs => ?_
    obtain ⟨tried, hphase⟩ := h.acked hs
    have hacked := hw.settling _ (hd ▸ List.mem_append_right _ List.mem_cons_self) _ tried hphase
    exact List.mem_append_right _ (List.mem_append_right _ hacked)
  | abandon => exact evolves_refl hw.unique
  | land hj =>
    refine evolves_settle hw.unique fun hs => ?_
    exact List.mem_append_right _ (hw.late _ (hs ▸ List.mem_of_getElem? hj))
  | confirm => exact evolves_confirm hw.unique List.mem_cons_self
  | operationFailed => exact evolves_markFailed hw.unique
  | resend => exact evolves_resend hw.unique
  | requeue => exact evolves_requeue hw.unique

end

/-! ### Dispatches -/

section

variable {act : Act P} {d d' : Dispatch P} {r : Row P} {s : Settlement} {notes : List (Note P)}
  {now : ℤ} {id : ℕ}

theorem Moves.hand_subset (h : Moves codec max act d d' notes) : d'.hand ⊆ d.hand := by
  cases h with
  | exhausted => exact List.Subset.refl _
  | unpublishable => exact List.Subset.refl _
  | publish => exact List.Subset.refl _
  | published => exact List.Subset.refl _
  | refused => exact List.Subset.refl _
  | stop => exact List.Subset.refl _
  | crash => exact List.nil_subset _

theorem Settles.hand_subset (h : Settles act now d r s d' notes) : d'.hand ⊆ d.hand := by
  cases h with
  | settle => exact List.subset_cons_self _ _
  | handBack => exact List.subset_cons_self _ _

theorem Abandons.hand_subset (h : Abandons act d r s d') : d'.hand ⊆ d.hand := by
  cases h with
  | settle => exact List.nil_subset _
  | handBack => exact List.subset_cons_self _ _

theorem afterError_ne_sent {e : PublishError} {delay : ℕ} : afterError max r e delay ≠ .sent := by
  unfold afterError
  split <;> simp

/-- A claim is settled as sent only after an acknowledgement. -/
theorem Moves.settling_sent {tried : Bool} (h : Moves codec max act d d' notes)
    (hphase : d'.phase = .settling r .sent tried) : .acked r.id ∈ notes := by
  cases h with
  | exhausted => cases hphase
  | unpublishable => exact absurd (Phase.settling.inj hphase).2.1 afterError_ne_sent
  | publish => cases hphase
  | published =>
    obtain ⟨rfl, -, -⟩ := Phase.settling.inj hphase
    exact List.mem_singleton_self _
  | refused => exact absurd (Phase.settling.inj hphase).2.1 afterError_ne_sent
  | stop => cases hphase
  | crash => cases hphase

theorem Moves.called {m : Message P} (h : Moves codec max act d d' notes)
    (hm : .called id m ∈ notes) :
    ∃ r ∈ d.hand, r.id = id ∧ messageFromOutbox codec r.content = .ok m := by
  cases h with
  | exhausted => cases hm
  | unpublishable => cases hm
  | @publish i delay r rest m₀ _ hok =>
    obtain ⟨rfl, rfl⟩ := Note.called.inj (List.mem_singleton.mp hm)
    exact ⟨r, List.mem_cons_self, rfl, hok⟩
  | published => cases List.mem_singleton.mp hm
  | refused => cases List.mem_singleton.mp hm
  | stop => cases hm
  | crash => cases hm

/-- The rows of a dispatch that may still be published. -/
abbrev Dispatch.waiting (max id : ℕ) (d : Dispatch P) : ℕ :=
  d.rows.countP fun r => r.id == id && decide (r.attempts ≤ max)

theorem waiting_split {before after : List (Dispatch P)} :
    waiting max id (before ++ d :: after) =
      waiting max id (before ++ after) + d.waiting max id := by
  simp only [waiting, Dispatch.waiting, List.flatMap_append, List.flatMap_cons,
    List.countP_append]
  omega

theorem calls_append (log log' : List (Note P)) :
    calls id (log ++ log') = calls id log + calls id log' := List.countP_append

theorem requeues_append (log log' : List (Note P)) :
    requeues id (log ++ log') = requeues id log + requeues id log' := List.countP_append

/-- A call of the publisher uses up a row that was waiting for it. -/
theorem Moves.calls_le (h : Moves codec max act d d' notes) (id : ℕ) :
    calls id notes + d'.waiting max id ≤ d.waiting max id := by
  cases h with
  | exhausted => exact (Nat.zero_add _).le.trans (List.sublist_cons_self _ _).countP_le
  | unpublishable => exact (Nat.zero_add _).le.trans (List.sublist_cons_self _ _).countP_le
  | publish hattempts =>
    simp only [calls, Dispatch.waiting, List.countP_cons, List.countP_nil, hattempts, decide_true,
      Bool.and_true]
    omega
  | published => exact (Nat.zero_add _).le
  | refused => exact (Nat.zero_add _).le
  | stop => exact (Nat.zero_add _).le
  | crash => exact Nat.zero_le _

theorem Moves.requeues_eq (h : Moves codec max act d d' notes) : requeues id notes = 0 := by
  cases h <;> rfl

theorem Settles.counts (h : Settles act now d r s d' notes) (max id : ℕ) :
    calls id notes = 0 ∧ requeues id notes = 0 ∧ d'.waiting max id ≤ d.waiting max id := by
  cases h with
  | settle => exact ⟨rfl, rfl, Nat.le_refl _⟩
  | handBack => exact ⟨rfl, rfl, (List.sublist_cons_self _ _).countP_le⟩

theorem Abandons.waiting_le (h : Abandons act d r s d') (max id : ℕ) :
    d'.waiting max id ≤ d.waiting max id := by
  cases h with
  | settle => exact Nat.zero_le _
  | handBack => exact (List.sublist_cons_self _ _).countP_le

@[simp] theorem calls_giveUp (r : Row P) (s : Settlement) (n : ℕ) :
    calls id (giveUp r s n) = 0 := by
  unfold giveUp
  split
  · split <;> rfl
  · rfl

@[simp] theorem requeues_giveUp (r : Row P) (s : Settlement) (n : ℕ) :
    requeues id (giveUp r s n) = 0 := by
  unfold giveUp
  split
  · split <;> rfl
  · rfl

@[simp] theorem calls_claimed (batch : List (Row P)) : calls id (batch.map .claimed) = 0 := by
  simp [calls, List.countP_map, List.countP_eq_zero]

@[simp] theorem requeues_claimed (batch : List (Row P)) : requeues id (batch.map .claimed) = 0 := by
  simp [requeues, List.countP_map, List.countP_eq_zero]

@[simp] theorem calls_resulted (key : String) (log : List (Note P)) :
    calls id (.resulted key :: log) = calls id log := by
  simp [calls]

@[simp] theorem requeues_resulted (key : String) (log : List (Note P)) :
    requeues id (.resulted key :: log) = requeues id log := by
  simp [requeues]

end

/-! ### Steps -/

section

variable {w w' : World P} {act : Act P}

theorem Evolves.known {log log' : List (Note P)} {rows rows' : List (Delivery P)}
    (h : Evolves log log' rows rows') {r : Row P}
    (hr : ∃ x ∈ rows, x.id = r.id ∧ x.content = r.content) :
    ∃ x ∈ rows', x.id = r.id ∧ x.content = r.content := by
  obtain ⟨x, hx, hid, hcontent⟩ := hr
  obtain ⟨x', hx', hprogress⟩ := h.forward x hx
  exact ⟨x', hx', hprogress.id.trans hid, hprogress.content.trans hcontent⟩

/-- The dispatches after a step: each is an old one that went on, or the new one of a claim. -/
theorem Step.dispatches (h : Step codec max w act w') {d' : Dispatch P} (hd' : d' ∈ w'.dispatches) :
    d' ∈ w.dispatches ∨
    (∃ d ∈ w.dispatches, ∃ notes, Moves codec max act d d' notes ∧ w'.log = notes ++ w.log) ∨
    (∃ d ∈ w.dispatches, d'.hand ⊆ d.hand ∧ (d'.phase = .ready ∨ d'.phase = .handingBack ∨
      d'.phase = .ended)) ∨
    (∃ order, d' = ⟨returned order w'.outbox, .ready⟩) := by
  cases h with
  | insert => exact Or.inl hd'
  | @claim _ _ _ _ _ _ order lost _ =>
    simp only at hd'
    split at hd'
    · exact Or.inl hd'
    · rcases List.mem_append.mp hd' with hd' | hd'
      · exact Or.inl hd'
      · exact Or.inr (Or.inr (Or.inr ⟨order, List.mem_singleton.mp hd'⟩))
  | move hd h =>
    simp only [hd] at hd' ⊢
    rcases List.mem_append.mp hd' with hd' | hd'
    · exact Or.inl (List.mem_append_left _ hd')
    · rcases List.mem_cons.mp hd' with rfl | hd'
      · exact Or.inr (Or.inl ⟨_, List.mem_append_right _ List.mem_cons_self, _, h, rfl⟩)
      · exact Or.inl (List.mem_append_right _ (List.mem_cons_of_mem _ hd'))
  | settle hd h =>
    simp only [hd] at hd' ⊢
    rcases List.mem_append.mp hd' with hd' | hd'
    · exact Or.inl (List.mem_append_left _ hd')
    · rcases List.mem_cons.mp hd' with rfl | hd'
      · refine Or.inr (Or.inr (Or.inl ⟨_, List.mem_append_right _ List.mem_cons_self,
          h.hand_subset, ?_⟩))
        cases h with
        | settle => exact Or.inl rfl
        | handBack => exact Or.inr (Or.inl rfl)
      · exact Or.inl (List.mem_append_right _ (List.mem_cons_of_mem _ hd'))
  | abandon hd h =>
    simp only [hd] at hd' ⊢
    rcases List.mem_append.mp hd' with hd' | hd'
    · exact Or.inl (List.mem_append_left _ hd')
    · rcases List.mem_cons.mp hd' with rfl | hd'
      · refine Or.inr (Or.inr (Or.inl ⟨_, List.mem_append_right _ List.mem_cons_self,
          h.hand_subset, ?_⟩))
        cases h with
        | settle => exact Or.inr (Or.inr rfl)
        | handBack => exact Or.inr (Or.inl rfl)
      · exact Or.inl (List.mem_append_right _ (List.mem_cons_of_mem _ hd'))
  | land => exact Or.inl hd'
  | confirm => exact Or.inl hd'
  | operationFailed => exact Or.inl hd'
  | resend => exact Or.inl hd'
  | requeue => exact Or.inl hd'

/-- The bound on publications where a step leaves the attempts of the rows alone. -/
theorem Tracked.bound_map (hw : Tracked codec max w) {g : Delivery P → Delivery P}
    (hrows : w'.outbox = w.outbox.map g) (hg : ∀ x, (g x).id = x.id ∧ (g x).attempts = x.attempts)
    (hcalls : ∀ id, calls id w'.log + waiting max id w'.dispatches ≤
      calls id w.log + waiting max id w.dispatches)
    (hrequeues : ∀ id, requeues id w'.log = requeues id w.log) :
    ∀ x ∈ w'.outbox, calls x.id w'.log + waiting max x.id w'.dispatches ≤
      max * requeues x.id w'.log + min x.attempts max := by
  intro x' hx'
  rw [hrows] at hx'
  obtain ⟨x, hx, rfl⟩ := List.mem_map.mp hx'
  rw [(hg x).1, (hg x).2, hrequeues]
  exact (hcalls x.id).trans (hw.bound x hx)

/-- Of the rows a claim returns, at most the row itself may be published. -/
theorem waiting_returned {rows : List (Delivery P)} {order : List ℕ} (hu : UniqueKey (·.id) rows)
    (horder : order.Nodup) {x : Delivery P} (hx : x ∈ rows) :
    (⟨returned order rows, .ready⟩ : Dispatch P).waiting max x.id ≤
      if x.id ∈ order ∧ x.attempts ≤ max then 1 else 0 := by
  split
  · have hsublist : ((returned order rows).map Row.id).Sublist (order.map fun id => id) := by
      refine sublist_filterMap fun id _ r hr => ?_
      obtain ⟨d, hfind, rfl⟩ := Option.map_eq_some_iff.mp hr
      exact (mem_of_findRow hfind).2
    rw [List.map_id'] at hsublist
    calc (returned order rows).countP (fun r => r.id == x.id && decide (r.attempts ≤ max))
        ≤ (returned order rows).countP (fun r => r.id == x.id) :=
          List.countP_mono_left fun r _ h => ((Bool.and_eq_true _ _).mp h).1
      _ = ((returned order rows).map Row.id).count x.id := by
          rw [List.count, List.countP_map]
          rfl
      _ ≤ 1 := List.nodup_iff_count_le_one.mp (horder.sublist hsublist) x.id
  · next hnot =>
    refine (List.countP_eq_zero.mpr fun r hr hwaits => hnot ?_).le
    obtain ⟨hid, d, hd, hdr, rfl⟩ := mem_returned hr
    simp only [Bool.and_eq_true, beq_iff_eq, decide_eq_true_eq] at hwaits
    obtain rfl : d = x := hu.eq hd hx hwaits.1
    exact ⟨hid, hwaits.2⟩

/-- The bound after a claim: the row may be published once more if the counter allows it. -/
theorem Tracked.bound_claim (hw : Tracked codec max w) {credit : Bool} {limit : ℕ} {now : ℤ}
    {locked order : List ℕ} {worker : String} {expires : ℤ}
    (horder : order.Perm (claimIDs credit limit now locked w.outbox)) {x : Delivery P}
    (hx : x ∈ updateIDs order (Delivery.lease worker expires) w.outbox) :
    calls x.id w.log + waiting max x.id w.dispatches +
      (⟨returned order (updateIDs order (Delivery.lease worker expires) w.outbox), .ready⟩ :
        Dispatch P).waiting max x.id ≤ max * requeues x.id w.log + min x.attempts max := by
  have hu : UniqueKey (·.id) (updateIDs order (Delivery.lease worker expires) w.outbox) :=
    (@evolves_claim _ w.log w.log _ _ _ _ _ _ _ _ hw.unique horder).unique
  have hnew := @waiting_returned _ max _ _ hu (horder.nodup_iff.mpr (nodup_claimIDs hw.unique)) x hx
  obtain ⟨d, hd, rfl⟩ := List.mem_map.mp hx
  have hold := hw.bound d hd
  by_cases hmem : d.id ∈ order
  · rw [if_pos hmem] at hnew ⊢
    simp only [lease_id, lease_attempts, hmem, true_and] at hnew ⊢
    split at hnew <;> omega
  · rw [if_neg hmem] at hnew ⊢
    simp only [hmem, false_and, if_false] at hnew
    omega

theorem settlement_keeps (s : Settlement) {now : ℤ} {d : Delivery P} :
    (s.change now d).id = d.id ∧ (s.change now d).attempts = d.attempts := by
  cases s <;> exact ⟨rfl, rfl⟩

theorem Tracked.calls_eq_zero (hw : Tracked codec max w) {id : ℕ} (h : ∀ d ∈ w.outbox, d.id ≠ id) :
    calls id w.log = 0 := by
  refine List.countP_eq_zero.mpr fun note hnote hcalled => ?_
  split at hcalled
  · next i m =>
    obtain ⟨x, hx, hid, -⟩ := hw.called i m hnote
    exact h x hx (hid.trans (beq_iff_eq.mp hcalled))
  · cases hcalled

theorem Tracked.waiting_eq_zero (hw : Tracked codec max w) {id : ℕ}
    (h : ∀ d ∈ w.outbox, d.id ≠ id) : waiting max id w.dispatches = 0 := by
  refine List.countP_eq_zero.mpr fun r hr hwaits => ?_
  obtain ⟨d, hd, hr⟩ := List.mem_flatMap.mp hr
  obtain ⟨x, hx, hid, -⟩ := hw.known d hd r (List.mem_append_right _ hr)
  exact h x hx (hid.trans (beq_iff_eq.mp ((Bool.and_eq_true _ _).mp hwaits).1))

theorem Tracked.bound_step (hw : Tracked codec max w) (h : Step codec max w act w') :
    ∀ x ∈ w'.outbox, calls x.id w'.log + waiting max x.id w'.dispatches ≤
      max * requeues x.id w'.log + min x.attempts max := by
  cases h with
  | insert h =>
    intro x hx
    obtain ⟨rfl, hfresh⟩ := insertOutbox_eq h
    rcases List.mem_append.mp hx with hx | hx
    · exact hw.bound x hx
    · -- nothing is known of the new row yet
      rw [List.mem_singleton.mp hx]
      have hcalls : calls _ w.log = 0 := hw.calls_eq_zero hfresh
      have hwaiting : waiting max _ w.dispatches = 0 := hw.waiting_eq_zero hfresh
      simp only [hcalls, hwaiting]
      exact Nat.zero_le _
  | claim horder =>
    intro x hx
    have hclaim := hw.bound_claim horder hx
    simp only [calls_append, requeues_append, calls_claimed, requeues_claimed, Nat.zero_add]
    split
    · exact (Nat.le_add_right _ _).trans hclaim
    · rw [waiting_split, List.append_nil]
      omega
  | move hd h =>
    refine hw.bound_map (List.map_id _).symm (fun _ => ⟨rfl, rfl⟩) (fun id => ?_) fun id => ?_
    · have hcalls := h.calls_le id
      simp only [hd, waiting_split, calls_append]
      omega
    · rw [requeues_append, h.requeues_eq, Nat.zero_add]
  | settle hd h =>
    refine hw.bound_map (congrArg Prod.snd (Settlement.write_eq _ _ _ _)) (fun x => ?_)
      (fun id => ?_) fun id => ?_
    · split
      · exact settlement_keeps _
      · exact ⟨rfl, rfl⟩
    · obtain ⟨hcalls, -, hwaiting⟩ := h.counts max id
      simp only [hd, waiting_split, calls_append, calls_giveUp, hcalls]
      omega
    · simp only [requeues_append, requeues_giveUp, (h.counts max id).2.1,
        Nat.zero_add]
  | abandon hd h =>
    refine hw.bound_map (List.map_id _).symm (fun _ => ⟨rfl, rfl⟩) (fun id => ?_) fun id => rfl
    have hwaiting := h.waiting_le max id
    simp only [hd, waiting_split]
    omega
  | land hj =>
    refine hw.bound_map (congrArg Prod.snd (Settlement.write_eq _ _ _ _)) (fun x => ?_)
      (fun id => ?_) fun id => ?_
    · split
      · exact settlement_keeps _
      · exact ⟨rfl, rfl⟩
    · rw [calls_append, calls_giveUp, Nat.zero_add]
    · rw [requeues_append, requeues_giveUp, Nat.zero_add]
  | confirm =>
    refine hw.bound_map rfl (fun x => ?_) (fun id => ?_) fun id => requeues_resulted _ _
    · split <;> exact ⟨rfl, rfl⟩
    · rw [calls_resulted]
  | operationFailed =>
    refine hw.bound_map rfl (fun x => ?_) (fun id => ?_) fun id => requeues_resulted _ _
    · split <;> exact ⟨rfl, rfl⟩
    · rw [calls_resulted]
  | resend =>
    refine hw.bound_map rfl (fun x => ?_) (fun id => Nat.le_refl _) fun id => rfl
    split <;> exact ⟨rfl, rfl⟩
  | @requeue id now _ =>
    intro x hx
    obtain ⟨d, hd, rfl⟩ := List.mem_map.mp hx
    have hold := hw.bound d hd
    have hcalls : ∀ i, calls i (.requeued id :: w.log) = calls i w.log := fun i => by simp [calls]
    have hmore := Nat.mul_le_mul_left max (requeues_mono (List.suffix_cons (.requeued id) w.log) d.id)
    simp only [hcalls]
    split
    · next hcond =>
      simp only [Bool.and_eq_true, beq_iff_eq] at hcond
      have hone : requeues d.id (.requeued id :: w.log) = requeues d.id w.log + 1 := by
        simp [requeues, hcond.1]
      simp only [hone, Nat.mul_add, Nat.mul_one]
      omega
    · omega

/-- A write that is still on its way was so before, or has just been left behind. -/
theorem Step.late (h : Step codec max w act w') {r : Row P} (hr : (r, .sent) ∈ w'.late) :
    (r, .sent) ∈ w.late ∨ ∃ d ∈ w.dispatches, ∃ tried, d.phase = .settling r .sent tried := by
  cases h with
  | insert => exact Or.inl hr
  | claim => exact Or.inl hr
  | move => exact Or.inl hr
  | settle => exact Or.inl hr
  | abandon hd h =>
    rcases List.mem_cons.mp hr with heq | hr
    · cases h with
      | settle =>
        cases heq
        exact Or.inr ⟨_, hd ▸ List.mem_append_right _ List.mem_cons_self, _, rfl⟩
      | handBack => cases heq
    · exact Or.inl hr
  | land => exact Or.inl (List.mem_of_mem_eraseIdx hr)
  | confirm => exact Or.inl hr
  | operationFailed => exact Or.inl hr
  | resend => exact Or.inl hr
  | requeue => exact Or.inl hr

theorem not_called_giveUp {id : ℕ} {m : Message P} {r : Row P} {s : Settlement} {n : ℕ} :
    .called id m ∉ giveUp r s n := by
  unfold giveUp
  split
  · split <;> simp
  · simp

/-- A call of the publisher that is new in the log was made for a row in hand. -/
theorem Step.called (h : Step codec max w act w') {id : ℕ} {m : Message P}
    (hm : .called id m ∈ w'.log) :
    .called id m ∈ w.log ∨ ∃ d ∈ w.dispatches, ∃ r ∈ d.hand, r.id = id ∧
      messageFromOutbox codec r.content = .ok m := by
  cases h with
  | insert => exact Or.inl hm
  | claim =>
    rcases List.mem_append.mp hm with hm | hm
    · obtain ⟨_, _, heq⟩ := List.mem_map.mp hm
      cases heq
    · exact Or.inl hm
  | move hd h =>
    rcases List.mem_append.mp hm with hm | hm
    · exact Or.inr ⟨_, hd ▸ List.mem_append_right _ List.mem_cons_self, h.called hm⟩
    · exact Or.inl hm
  | settle hd h =>
    rcases List.mem_append.mp hm with hnew | hold
    · cases h with
      | settle => cases hnew
      | handBack => cases List.mem_singleton.mp hnew
    · exact Or.inl ((List.mem_append.mp hold).resolve_left not_called_giveUp)
  | abandon => exact Or.inl hm
  | land => exact Or.inl ((List.mem_append.mp hm).resolve_left not_called_giveUp)
  | confirm => exact Or.inl ((List.mem_cons.mp hm).resolve_left (by simp))
  | operationFailed => exact Or.inl ((List.mem_cons.mp hm).resolve_left (by simp))
  | resend => exact Or.inl hm
  | requeue => exact Or.inl ((List.mem_cons.mp hm).resolve_left (by simp))

theorem Tracked.step (hw : Tracked codec max w) (h : Step codec max w act w') :
    Tracked codec max w' := by
  have hrows := hw.evolves h
  have hlog := log_suffix h
  constructor
  case unique => exact hrows.unique
  case sent =>
    intro d' hd' hsent
    rcases hrows.backward d' hd' with ⟨d, hd, hprogress⟩ | ⟨hpending, -⟩
    · rw [hprogress.id]
      exact (hprogress.acked hsent).elim (fun hsent => hlog.subset (hw.sent d hd hsent))
        fun hacked => hacked
    · rw [hpending] at hsent
      cases hsent
  case confirmed =>
    intro d' hd' hconfirmed
    rcases hrows.backward d' hd' with ⟨d, hd, hprogress⟩ | ⟨hpending, -⟩
    · rw [hprogress.content]
      rcases hprogress.resulted hconfirmed with hconfirmed | hresult
      · obtain ⟨hcredit, hresult⟩ := hw.confirmed d hd hconfirmed
        exact ⟨hcredit, hlog.subset hresult⟩
      · exact hresult
    · rw [hpending] at hconfirmed
      cases hconfirmed
  case settling =>
    intro d' hd' r tried hphase
    rcases h.dispatches hd' with hd' | ⟨d, -, notes, hmoves, hnotes⟩ | ⟨d, -, -, hquiet⟩ |
      ⟨order, rfl⟩
    · exact hlog.subset (hw.settling d' hd' r tried hphase)
    · rw [hnotes]
      exact List.mem_append_left _ (hmoves.settling_sent hphase)
    · rw [hphase] at hquiet
      rcases hquiet with h | h | h <;> cases h
    · cases hphase
  case late =>
    intro r hr
    rcases h.late hr with hr | ⟨d, hd, tried, hphase⟩
    · exact hlog.subset (hw.late r hr)
    · exact hlog.subset (hw.settling d hd r tried hphase)
  case known =>
    intro d' hd' r hr
    rcases h.dispatches hd' with hd' | ⟨d, hd, _, hmoves, -⟩ | ⟨d, hd, hsubset, -⟩ | ⟨order, rfl⟩
    · exact hrows.known (hw.known d' hd' r hr)
    · exact hrows.known (hw.known d hd r (hmoves.hand_subset hr))
    · exact hrows.known (hw.known d hd r (hsubset hr))
    · obtain ⟨-, x, hx, hid, rfl⟩ := mem_returned hr
      exact ⟨x, hx, hid, rfl⟩
  case called =>
    intro id m hm
    have hcontent : ∃ x ∈ w.outbox, x.id = id ∧ messageFromOutbox codec x.content = .ok m := by
      rcases h.called hm with hm | ⟨d, hd, r, hr, hid, hok⟩
      · exact hw.called id m hm
      · obtain ⟨x, hx, hxid, hxcontent⟩ := hw.known d hd r hr
        exact ⟨x, hx, hxid.trans hid, hxcontent ▸ hok⟩
    obtain ⟨x, hx, hid, hok⟩ := hcontent
    obtain ⟨x', hx', hprogress⟩ := hrows.forward x hx
    exact ⟨x', hx', hprogress.id.trans hid, hprogress.content ▸ hok⟩
  case bound => exact hw.bound_step h

/-- From a tracked state on, every state is tracked and every row makes progress. -/
theorem Tracked.run (hw : Tracked codec max w) (h : Run codec max w w') :
    Tracked codec max w' ∧ w.log <:+ w'.log ∧
      ∀ d ∈ w.outbox, ∃ d' ∈ w'.outbox, Progress w.log w'.log d d' := by
  induction h with
  | refl => exact ⟨hw, List.suffix_refl _, fun d hd => ⟨d, hd, .refl _ _ d⟩⟩
  | @tail v v' _ hstep ih =>
    obtain ⟨hv, hlog, hforward⟩ := ih
    obtain ⟨act, hact⟩ := hstep
    have hstep := step_sound hact
    refine ⟨hv.step hstep, hlog.trans (log_suffix hstep), fun d hd => ?_⟩
    obtain ⟨x, hx, hprogress⟩ := hforward d hd
    obtain ⟨x', hx', hprogress'⟩ := (hv.evolves hstep).forward x hx
    exact ⟨x', hx', hprogress.trans hprogress' hlog (log_suffix hstep)⟩

/-- The lifecycle of rows between two moments of a run. -/
structure Lifecycle (max : ℕ) (w w' : World P) : Prop where
  /-- A confirmed row is never changed again. -/
  confirmedStays : ∀ d ∈ w.outbox, d.status = .confirmed →
    d ∈ w'.outbox ∧ ∀ d' ∈ w'.outbox, d'.id = d.id → d' = d
  /-- Only a credit row whose result was received is confirmed. -/
  confirmedOnly : ∀ d ∈ w'.outbox, d.status = .confirmed →
    isCredit d.content.kind = true ∧ .resulted d.content.idempotencyKey ∈ w'.log
  /-- Only a requeue makes a failed row anything else. -/
  failedLeft : ∀ d ∈ w.outbox, d.status = .failed → ∀ d' ∈ w'.outbox, d'.id = d.id →
    d'.status = .failed ∨ requeues d.id w.log < requeues d.id w'.log
  /-- A row is sent only after a publication of it was confirmed by the broker. -/
  sentAcked : ∀ d ∈ w'.outbox, d.status = .sent → .acked d.id ∈ w'.log
  /-- An event that was sent stays so. -/
  eventStays : ∀ d ∈ w.outbox, d.status = .sent → isEvent d.content.kind = true →
    ∀ d' ∈ w'.outbox, d'.id = d.id → d'.status = .sent
  /-- The number of publications is bounded. -/
  callsBounded : ∀ id, calls id w'.log ≤ max * (1 + requeues id w'.log)
  /-- All publications of a row carry the same message. -/
  sameMessage : ∀ id m m', .called id m ∈ w'.log → .called id m' ∈ w'.log → m = m'

/-- For every interleaving of dispatches, sweeps, credit results and requeues, with crashes,
lost replies and late writes, rows go through their lifecycle. -/
theorem rows_follow_lifecycle (h : Run codec max .initial w) (h' : Run codec max w w') :
    Lifecycle max w w' := by
  obtain ⟨hw, -, -⟩ := tracked_initial.run h
  obtain ⟨hw', -, hforward⟩ := hw.run h'
  have hone : ∀ d ∈ w.outbox, ∀ d' ∈ w'.outbox, d'.id = d.id → Progress w.log w'.log d d' := by
    intro d hd d' hd' hid
    obtain ⟨x, hx, hprogress⟩ := hforward d hd
    rwa [hw'.unique.eq hd' hx (hid.trans hprogress.id.symm)]
  constructor
  case confirmedStays =>
    intro d hd hconfirmed
    obtain ⟨x, hx, hprogress⟩ := hforward d hd
    have hsame := hprogress.confirmed hconfirmed
    exact ⟨hsame ▸ hx, fun d' hd' hid => (hone d hd d' hd' hid).confirmed hconfirmed⟩
  case confirmedOnly => exact hw'.confirmed
  case failedLeft => exact fun d hd hfailed d' hd' hid => (hone d hd d' hd' hid).failed hfailed
  case sentAcked => exact hw'.sent
  case eventStays =>
    exact fun d hd hsent hkind d' hd' hid =>
      (hone d hd d' hd' hid).event hsent (not_isCredit_of_isEvent hkind)
  case callsBounded =>
    intro id
    by_cases hid : ∃ d ∈ w'.outbox, d.id = id
    · obtain ⟨d, hd, rfl⟩ := hid
      have hbound := hw'.bound d hd
      rw [Nat.mul_add, Nat.mul_one]
      omega
    · rw [hw'.calls_eq_zero fun d hd hd' => hid ⟨d, hd, hd'⟩]
      exact Nat.zero_le _
  case sameMessage =>
    intro id m m' hm hm'
    obtain ⟨x, hx, hid, hok⟩ := hw'.called id m hm
    obtain ⟨x', hx', hid', hok'⟩ := hw'.called id m' hm'
    rw [hw'.unique.eq hx hx' (hid.trans hid'.symm), hok'] at hok
    exact (Except.ok.inj hok).symm

end

/-! ## A run -/

namespace Sample

/-- Payloads that all read as the same command. -/
def plainCodec : Codec Unit where
  header _ := some ⟨"e", 1, 1⟩
  isObject _ := true
  command _ := some ⟨"e", 1, "r", "", 5, 0, 0⟩
  marshals _ := true

def command : Content Unit := ⟨"credit.reserve", "k", "e", (), 1⟩

/-- A worker claims the row that is due at this time. -/
def claimBy (worker : String) (now : ℤ) : Act Unit :=
  .claim worker true 10 100 now [] [1] false

/-- A command is sent, and its result is overdue. -/
def sending : List (Act Unit) :=
  [.insert command 1, claimBy "a" 1, .take 0 0, .published 0, .settle 0 2]

/-- It is sent again while the result arrives. -/
def confirming : List (Act Unit) :=
  [.resend 5 10 9 [], claimBy "b" 10, .take 1 0, .confirm "k" 11, .published 1, .settle 1 12]

end Sample

theorem rows_follow_lifecycle_sample : ∃ w w' : World Unit,
    w.outbox.map (·.status) = [.sent] ∧ w'.outbox.map (·.status) = [.confirmed] ∧
    calls 1 w'.log = 2 ∧ Lifecycle 3 w w' := by
  have hrun : (steps Sample.plainCodec 3 .initial Sample.sending).any (fun w =>
      w.outbox.map (·.status) == [.sent] &&
      (steps Sample.plainCodec 3 w Sample.confirming).any fun w' =>
        w'.outbox.map (·.status) == [.confirmed] && calls 1 w'.log == 2) = true := by
    decide +kernel
  obtain ⟨w, hw, hcheck⟩ := (Option.any_eq_true _ _).mp hrun
  obtain ⟨hsent, hlater⟩ := (Bool.and_eq_true _ _).mp hcheck
  obtain ⟨w', hw', hcheck'⟩ := (Option.any_eq_true _ _).mp hlater
  obtain ⟨hconfirmed, hcalls⟩ := (Bool.and_eq_true _ _).mp hcheck'
  exact ⟨w, w', beq_iff_eq.mp hsent, beq_iff_eq.mp hconfirmed, beq_iff_eq.mp hcalls,
    rows_follow_lifecycle (run_of_steps hw) (run_of_steps hw')⟩

end FocServices.Messaging
