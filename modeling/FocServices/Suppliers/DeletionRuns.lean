import FocServices.Suppliers.Workflow

/-!
# Supplier deletion over whole runs

Any number of requests, reconcilers and late messages, in any order of their calls and with any
failures. `Moves` is what one call of a worker may do to the two services, and all that the
other workers rely on.
-/

namespace FocServices.Suppliers

open Txn

/-! ## What a call may do -/

/-- The states that an operation may come to. -/
def DeletionState.leadsTo : DeletionState → DeletionState → Bool
  | .requested, _ => true
  | .releasePending, st => st == .releasePending || st == .rejectedActiveErrands
  | .commitPending, st => st.deleted
  | st, st' => st == st'

/-- What order-service has confirmed when an operation ends. -/
def DeletionState.fence : DeletionState → Option FenceState
  | .completed => some .committed
  | .rejectedActiveErrands => some .released
  | _ => none

theorem leadsTo_trans {a b c : DeletionState} (h : a.leadsTo b = true) (h' : b.leadsTo c = true) :
    a.leadsTo c = true := by
  revert h h'
  cases a <;> cases b <;> cases c <;> decide

/-- An operation and what may have become of it. -/
structure Follows (o o' : Operation) : Prop where
  id : o'.id = o.id
  supplierID : o'.supplierID = o.supplierID
  state : o.state.leadsTo o'.state = true
  attempts : o.attemptCount ≤ o'.attemptCount
  deletedAt : ∀ d ∈ o.deletedAt, o'.deletedAt = some d
  ended : o.state.pending = false → o' = o

theorem Follows.refl (o : Operation) : Follows o o :=
  ⟨rfl, rfl, by cases o.state <;> rfl, Nat.le_refl _, fun _ h => h, fun _ => rfl⟩

theorem Follows.trans {o o' o'' : Operation} (h : Follows o o') (h' : Follows o' o'') :
    Follows o o'' := by
  refine ⟨h'.id.trans h.id, h'.supplierID.trans h.supplierID, leadsTo_trans h.state h'.state,
    h.attempts.trans h'.attempts, fun d hd => h'.deletedAt d (h.deletedAt d hd), fun hend => ?_⟩
  obtain rfl := h.ended hend
  exact h'.ended hend

/-- The state of the fence of an operation. -/
def Site.fenceState (s : Site) (id : String) : Option FenceState := (s.fences id).map (·.state)

/-- What call `u` may do: it touches operations only under its own claims, and a closed fence
stays as it is. -/
structure Moves (u : ℕ) (s s' : Site) : Prop where
  claims : s.claims <+: s'.claims
  rows : ∀ o ∈ s'.operations, o ∈ s.operations ∨ ∀ c ∈ o.claimID, s'.claims[c]? = some u
  kept : ∀ o ∈ s.operations, ∃ o' ∈ s'.operations, Follows o o'
  fences : ∀ id st, st ≠ .open → s.fenceState id = some st → s'.fenceState id = some st

theorem Moves.refl (u : ℕ) (s : Site) : Moves u s s :=
  ⟨List.prefix_refl _, fun _ h => Or.inl h, fun o h => ⟨o, h, .refl o⟩, fun _ _ _ h => h⟩

/-! ## The invariant -/

/-- A valid row, which is due only after what has happened to it. -/
structure Operation.Sound (o : Operation) : Prop extends o.Valid where
  due : ∀ next ∈ o.nextAttemptAt, o.requestedAt ≤ next ∧ ∀ d ∈ o.deletedAt, d ≤ next

/-- When the operations on a supplier say that it was deleted. -/
def deletions (supplierID : String) (operations : List Operation) : List ℤ :=
  operations.filterMap fun o => if o.supplierID = supplierID then o.deletedAt else none

/-- An operation as the databases have it. -/
structure Operation.Stored (s : Site) (o : Operation) : Prop where
  sound : o.Sound
  claimed : ∀ c ∈ o.claimID, c < s.claims.length
  fence : ∀ st, o.state.fence = some st → s.fenceState o.id = some st
  owner : ∃ x ∈ s.suppliers, x.id = o.supplierID

/-- The databases between calls. -/
structure Sane (s : Site) : Prop where
  ids : UniqueKey Operation.id s.operations
  rows : ∀ o ∈ s.operations, o.Stored s
  supplierIDs : UniqueKey SupplierRow.id s.suppliers
  deleted : ∀ x ∈ s.suppliers, deletions x.id s.operations = x.deletedAt.toList

/-! ## Updates -/

/-- The time of a claim is not before what has happened to the row. -/
def Operation.Before (now : ℤ) (o : Operation) : Prop :=
  o.requestedAt ≤ now ∧ ∀ d ∈ o.deletedAt, d ≤ now

/-- A change of a row under claim `c`. -/
structure Step (c : ℕ) (now : ℤ) (o o' : Operation) : Prop where
  sound : o'.Sound
  follows : Follows o o'
  before : o'.Before now
  claim : ∀ c' ∈ o'.claimID, c' = c

/-- An update that may be made under a claim. -/
structure Update.Fits (u : Update) (c : ℕ) (now : ℤ) : Prop where
  held : ∀ o, u.guard o = true → o.claimID = some c
  step : ∀ o, u.guard o = true → o.Sound → o.Before now → Step c now o (u.change o)

theorem heldBy_iff {c : ℕ} {now : ℤ} {o : Operation} : o.heldBy c now = true ↔ o.claimID = some c ∧
    o.leaseExpiresAt.isSome = true ∧ ∀ lease ∈ o.leaseExpiresAt, now < lease := by
  cases h : o.leaseExpiresAt <;> simp [Operation.heldBy, h]

section

variable {c : ℕ} {now : ℤ}

/-- The transitions of the workflow. -/
theorem fits_transition {u : Update} (sup : String) (hu : u = markReleasePending c now ∨
    u = markRejectedActiveErrands c now ∨ u = markCommitPending sup c now ∨
    u = completeDeletion c now) : u.Fits c now := by
  constructor <;> intro o h
  · rcases hu with rfl | rfl | rfl | rfl <;>
      simp_all [markReleasePending, markRejectedActiveErrands, markCommitPending,
        completeDeletion, heldBy_iff]
  · rintro ⟨⟨hattempts, hpair, -, hdeleted, hcompleted, -, -, hafter, -⟩, -⟩ ⟨hb, hb'⟩
    rcases hu with rfl | rfl | rfl | rfl <;>
      simp only [markReleasePending, markRejectedActiveErrands, markCommitPending,
        completeDeletion, Bool.and_eq_true, beq_iff_eq, heldBy_iff] at h ⊢
    all_goals
      refine ⟨⟨⟨hattempts, ?_, ?_, ?_, ?_, ?_, hb, ?_, ?_⟩, ?_⟩, ?_, ⟨hb, ?_⟩, ?_⟩
      case refine_9 => constructor <;>
        simp_all [DeletionState.leadsTo, DeletionState.pending, DeletionState.deleted]
      all_goals simp_all [DeletionState.deleted, DeletionState.pending]

theorem fits_scheduleDeletionRetry {next : Option ℤ} (hnext : ∀ n ∈ next, now ≤ n) :
    (scheduleDeletionRetry c next now).Fits c now := by
  constructor <;> intro o h <;>
    simp only [scheduleDeletionRetry, Bool.and_eq_true, heldBy_iff] at h ⊢ <;>
    obtain ⟨hstate, hclaim, -⟩ := h
  · exact hclaim
  · rintro ⟨hs, hdue⟩ ⟨hb, hb'⟩
    refine ⟨⟨⟨hs.attempts, rfl, ?_, hs.deletedState, hs.completedState, ?_, hb,
      hs.deletedAfterRequest, hs.completedAfterDelete⟩, fun n hn =>
        ⟨hb.trans (hnext n hn), fun d hd => (hb' d hd).trans (hnext n hn)⟩⟩,
      ⟨rfl, rfl, (Follows.refl o).state, Nat.le_refl _, fun _ h => h, ?_⟩,
      ⟨hb, hb'⟩, ?_⟩ <;> simp_all

theorem step_claimDeletion {o : Operation} {lease : ℤ} (hlease : now < lease)
    (h : o.claimable now = true) (hs : o.Sound) :
    Step c now o ((claimDeletion c now lease).change o) := by
  simp only [Operation.claimable, Bool.and_eq_true, decide_eq_true_eq,
    Option.any_eq_true] at h
  obtain ⟨⟨⟨hstate, hcount⟩, next, hnext, hdue⟩, -⟩ := h
  obtain ⟨hb, hb'⟩ := hs.due next hnext
  refine ⟨⟨⟨⟨hs.attempts.1, hcount⟩, rfl, ?_, hs.deletedState, hs.completedState, ?_,
    hb.trans hdue, hs.deletedAfterRequest, hs.completedAfterDelete⟩, hs.due⟩,
    ⟨rfl, rfl, (Follows.refl o).state, Nat.le_succ _, fun _ h => h, ?_⟩,
    ⟨hb.trans hdue, fun d hd => (hb' d hd).trans hdue⟩, ?_⟩ <;> simp_all [claimDeletion]

end

/-! ## Calls keep the invariant -/

/-- The rows claimed since are from before `now`. -/
def Timely (now : ℤ) (s s' : Site) : Prop :=
  ∀ o ∈ s'.operations, o ∈ s.operations ∨ ∀ c ∈ o.claimID, o.Before now

/-- A call of worker `t` takes the databases from `s` to `s'`. -/
structure Leads (t : ℕ) (now : ℤ) (s s' : Site) : Prop where
  sane : Sane s'
  moves : Moves t s s'
  timely : Timely now s s'

section

variable {t c : ℕ} {now : ℤ} {s : Site} {o : Operation}

theorem Sane.stays (hs : Sane s) : Leads t now s s := ⟨hs, .refl t s, fun _ h => .inl h⟩

/-- One row changes, and perhaps the row of its supplier. -/
theorem Sane.replace (hs : Sane s) {f : Operation → Operation} {xs : List SupplierRow}
    (ho : o ∈ s.operations) (hclaim : s.claims[c]? = some t) (h : Step c now o (f o))
    (hfence : ∀ st, (f o).state.fence = some st → s.fenceState o.id = some st)
    {s' : Site} (hs' : s' = ⟨xs, updateRow Operation.id o.id f s.operations, s.fences, s.claims⟩)
    (hids : xs.map SupplierRow.id = s.suppliers.map SupplierRow.id)
    (hdeleted : ∀ l₁ l₂, s.operations = l₁ ++ o :: l₂ → ∀ x ∈ xs,
      deletions x.id (l₁ ++ f o :: l₂) = x.deletedAt.toList) : Leads t now s s' := by
  obtain ⟨l₁, l₂, hrows, hnew⟩ := hs.ids.updateRow_split (f := f) ho rfl
  rw [hnew] at hs'
  subst hs'
  have hmem : ∀ o' ∈ l₁ ++ f o :: l₂, o' ∈ s.operations ∨ o' = f o := by
    simp only [hrows, List.mem_append, List.mem_cons]
    tauto
  have hc : ∀ c' ∈ (f o).claimID, s.claims[c']? = some t := fun c' h' => h.claim c' h' ▸ hclaim
  have howner : ∀ o' ∈ s.operations, ∃ x ∈ xs, x.id = o'.supplierID := fun o' ho' => by
    simpa only [← List.mem_map, hids] using (hs.rows o' ho').owner
  refine ⟨⟨?_, fun o' ho' => ?_, ?_, hdeleted l₁ l₂ hrows⟩,
    ⟨List.prefix_refl _, fun o' ho' => ?_, ?_, fun _ _ _ h => h⟩, fun o' ho' => ?_⟩
  · simpa [UniqueKey, hrows, h.follows.id] using hs.ids
  · obtain ho' | rfl := hmem o' ho'
    · exact { hs.rows o' ho' with owner := howner o' ho' }
    · exact ⟨h.sound, fun c' h' => (List.getElem?_eq_some_iff.mp (hc c' h')).1,
        fun st hst => h.follows.id ▸ hfence st hst, h.follows.supplierID ▸ howner o ho⟩
  · rw [UniqueKey, hids]
    exact hs.supplierIDs
  · obtain ho' | rfl := hmem o' ho'
    exacts [.inl ho', .inr hc]
  · simp only [hrows, List.mem_append, List.mem_cons]
    rintro o' (ho' | rfl | ho')
    exacts [⟨o', by tauto, .refl o'⟩, ⟨f o', by tauto, h.follows⟩, ⟨o', by tauto, .refl o'⟩]
  · obtain ho' | rfl := hmem o' ho'
    exacts [.inl ho', .inr fun _ _ => h.before]

theorem Sane.update (hs : Sane s) {id : String} {u : Update} (hclaim : s.claims[c]? = some t)
    (h : ∀ o ∈ s.operations, u.guard o = true →
      Step c now o (u.change o) ∧ (u.change o).deletedAt = o.deletedAt ∧
      ∀ st, (u.change o).state.fence = some st → s.fenceState id = some st) :
    Leads t now s (s.update id u).2 := by
  rw [Site.update]
  split
  · next o hfind =>
    obtain ⟨hfind, hguard⟩ := Option.filter_eq_some_iff.mp hfind
    obtain ⟨ho, rfl⟩ := mem_of_findRow hfind
    obtain ⟨hstep, hdeleted, hfence⟩ := h o ho hguard
    refine hs.replace ho hclaim hstep hfence rfl rfl fun l₁ l₂ hrows x hx => ?_
    rw [← hs.deleted x hx, hrows]
    simp only [deletions, List.filterMap_append, List.filterMap_cons, hstep.follows.supplierID,
      hdeleted]
  · exact hs.stays

theorem Sane.deleteCurrent (hs : Sane s) {sup id : String} (hclaim : s.claims[c]? = some t)
    (hbefore : ∀ o ∈ s.operations, o.claimID = some c → o.Before now) :
    Leads t now s (s.deleteCurrent sup id c now).2 := by
  rw [Site.deleteCurrent]
  split
  · exact hs.stays
  · next x hfind =>
    obtain ⟨hfind, hlive⟩ := Option.filter_eq_some_iff.mp hfind
    obtain ⟨hx, rfl⟩ := mem_of_findRow hfind
    split
    · exact hs.stays
    rw [Site.update]
    cases hrow : (findRow Operation.id id s.operations).filter
      (markCommitPending x.id c now).guard with
    | none => exact hs.stays
    | some o =>
      obtain ⟨hfind, hguard⟩ := Option.filter_eq_some_iff.mp hrow
      obtain ⟨ho, rfl⟩ := mem_of_findRow hfind
      have hfits : Update.Fits _ c now := fits_transition x.id (.inr (.inr (.inl rfl)))
      have hsup : o.supplierID = x.id := by
        simp only [markCommitPending, Bool.and_eq_true, beq_iff_eq] at hguard
        exact hguard.1
      refine hs.replace ho hclaim (hfits.step o hguard (hs.rows o ho).sound
        (hbefore o ho (hfits.held o hguard))) nofun rfl (map_updateRow fun _ _ => rfl)
        fun l₁ l₂ hrows y hy => ?_
      -- the supplier was live: no operation on it has a deletion time
      have hnone := hs.deleted x hx
      simp only [Option.isNone_iff_eq_none.mp hlive, hrows, deletions] at hnone
      obtain rfl | ⟨hy, hne⟩ := hs.supplierIDs.mem_updateRow hx hy
      · simp_all [deletions, markCommitPending]
      · rw [← hs.deleted y hy, hrows]
        simp [deletions, markCommitPending, hsup, Ne.symm hne]

theorem fenceState_order {id id' : String} {m : Order} {st : FenceState} (hst : st ≠ .open)
    (h : s.fenceState id' = some st) : (s.order id m).fenceState id' = some st := by
  obtain ⟨⟨sup, st⟩, hf, rfl⟩ := Option.map_eq_some_iff.mp h
  by_cases hid : id' = id
  · subst hid
    cases m <;> cases st <;> simp_all [Site.fenceState, Site.order, Order.apply]
  · simp_all [Site.fenceState, Site.order]

theorem DeletionState.fence_ne_open {st : DeletionState} {f : FenceState} (h : st.fence = some f) :
    f ≠ .open := by
  cases st <;> simp [DeletionState.fence] at h <;> simp [← h]

theorem Operation.Stored.mono {s' : Site} (h : o.Stored s) (hm : Moves t s s')
    (hsup : s'.suppliers = s.suppliers) : o.Stored s' :=
  ⟨h.sound, fun c hc => (h.claimed c hc).trans_le hm.claims.length_le,
    fun st hst => hm.fences _ st (DeletionState.fence_ne_open hst) (h.fence st hst), hsup ▸ h.owner⟩

/-- A call that touches no operation. -/
theorem Sane.leads {s' : Site} (hs : Sane s) (hops : s'.operations = s.operations)
    (hsup : s'.suppliers = s.suppliers) (hclaims : s.claims <+: s'.claims)
    (hfences : ∀ id st, st ≠ .open → s.fenceState id = some st → s'.fenceState id = some st) :
    Leads t now s s' := by
  have hm : Moves t s s' := ⟨hclaims, fun o h => .inl (hops ▸ h),
    fun o h => ⟨o, hops ▸ h, .refl o⟩, hfences⟩
  exact ⟨⟨hops ▸ hs.ids, fun o ho => (hs.rows o (hops ▸ ho)).mono hm hsup, hsup ▸ hs.supplierIDs,
    fun x hx => hops ▸ hs.deleted x (hsup ▸ hx)⟩, hm, fun o h => .inl (hops ▸ h)⟩

theorem Sane.createOrGet (hs : Sane s) {op sup : String} {n : ℕ} {at' : ℤ} (hn : 0 < n) :
    Leads t now s (s.createOrGet op sup n at').2 := by
  rw [Site.createOrGet]
  split
  · next id supplier _ _ =>
    cases hfind : findRow Operation.id id s.operations with
    | some row => exact hs.stays
    | none =>
      dsimp only
      split
      · next hsup =>
        have hm : Moves t s (s.setOperations (s.operations ++ [.new id supplier n at'])) :=
          ⟨List.prefix_refl _, by simp +contextual [Site.setOperations, Operation.new, or_imp],
            fun o ho => ⟨o, List.mem_append_left _ ho, .refl o⟩, fun _ _ _ h => h⟩
        have hnew : (Operation.new id supplier n at').Sound := by
          refine ⟨⟨⟨hn, Nat.zero_le n⟩, rfl, ?_, rfl, ?_, ?_, le_refl _, ?_, ?_⟩, ?_⟩ <;>
            simp [Operation.new, DeletionState.pending]
        refine ⟨⟨uniqueKey_append_singleton.mpr ⟨hs.ids, findRow_eq_none.mp hfind⟩,
          fun o ho => ?_, hs.supplierIDs, fun x hx => ?_⟩, hm, fun o ho => ?_⟩
        · obtain ho | ho := List.mem_append.mp ho
          · exact (hs.rows o ho).mono hm rfl
          · obtain rfl := List.mem_singleton.mp ho
            exact ⟨hnew, nofun, nofun, findRow_isSome.mp hsup⟩
        · rw [← hs.deleted x hx]
          simp [Site.setOperations, deletions, Operation.new]
        · obtain ho | ho := List.mem_append.mp ho
          · exact .inl ho
          · obtain rfl := List.mem_singleton.mp ho
            exact .inr nofun
      · exact hs.stays
  · exact hs.stays

end

/-! ## What the workers rely on -/

/-- Worker `t` may hold claim `c`, which it made at time `now`. -/
structure Holds (t c : ℕ) (now : ℤ) (s : Site) : Prop where
  owner : s.claims[c]? = some t
  before : ∀ o ∈ s.operations, o.claimID = some c → o.Before now

/-- What neither the other workers nor the worker itself undoes. -/
def Steady (t : ℕ) (now : ℤ) (K : Site → Prop) : Prop :=
  ∀ u s s', Moves u s s' → (u = t → Timely now s s') → K s → K s'

abbrev Safe {α : Type} (t : ℕ) (p : Work α) (s : Site) : Prop :=
  p.Ensures service Sane Moves t (fun _ _ => True) s

/-- The calls that need no claim. -/
def Ask.Free : Ask → Prop
  | .claim _ _ _ _ | .transition _ _ | .deleteCurrent _ _ _ _ => False
  | .createOrGet _ _ maxAttempts _ => 0 < maxAttempts
  | _ => True

section

variable {α β : Type} {t c : ℕ} {now : ℤ} {s : Site} {K : Site → Prop} {q : Ask}
  {f : q.Reply → Work α}

theorem steady_holds : Steady t now (Holds t c now) := by
  intro u s s' hm hself h
  obtain ⟨l, hl⟩ := hm.claims
  have howner : s'.claims[c]? = some t := by
    rw [← hl, List.getElem?_append_left (List.getElem?_eq_some_iff.mp h.owner).1]
    exact h.owner
  refine ⟨howner, fun o ho hc => ?_⟩
  -- a row that another worker wrote has a claim of that worker
  obtain hold | hnew := hm.rows o ho
  · exact h.before o hold hc
  · obtain rfl := Option.some.inj ((hnew c hc).symm.trans howner)
    exact (hself rfl o ho).elim (h.before o · hc) (· c hc)

theorem steady_true (now : ℤ) : Steady t now fun _ => True := fun _ _ _ _ _ h => h

theorem Steady.fenced (hK : Steady t now K) {id : String} {st : FenceState} (hst : st ≠ .open) :
    Steady t now fun s => K s ∧ s.fenceState id = some st :=
  fun u s s' hm hself h => ⟨hK u s s' hm hself h.1, hm.fences id st hst h.2⟩

/-- One call: what is steady is known when it is made and afterwards. -/
theorem Steady.ask (hK : Steady t now K) (hs : K s)
    (h : ∀ ch s, Sane s → K s → Leads t now s (exec ch t q s).2 ∧
      (K (exec ch t q s).2 → Safe t (f (exec ch t q s).1) (exec ch t q s).2)) :
    Safe t (Suppliers.ask q >>= f) s := by
  intro ch s₁ reply s₂ hmeanwhile hsane hexec
  have hs₁ := hmeanwhile.keeps (fun u s s' hne hm => hK u s s' hm (absurd · hne)) hs
  obtain ⟨hleads, hsafe⟩ := h ch s₁ hsane hs₁
  obtain ⟨rfl, rfl⟩ := Prod.mk.inj (Option.some.inj hexec)
  exact ⟨hleads.sane, hleads.moves, hsafe (hK t s₁ _ hleads.moves (fun _ => hleads.timely) hs₁)⟩

theorem Fate.of_cases {failed : β} {x : β × Site} {P : Site → Prop} (fate : Fate) (h : P x.2)
    (hs : P s) : P (fate.of failed s x).2 := by
  cases fate <;> assumption

theorem Sane.exec (hs : Sane s) (hq : q.Free) (ch : Choice) :
    Leads t now s (Suppliers.exec ch t q s).2 := by
  have horder : ∀ id m, Leads t now s (s.order id m) := fun id m =>
    hs.leads rfl rfl (List.prefix_refl _) fun _ _ => fenceState_order
  cases q with
  | claim | transition | deleteCurrent => exact hq.elim
  | now => exact hs.stays
  | newClaimID => exact hs.leads rfl rfl (List.prefix_append _ _) fun _ _ _ h => h
  | createOrGet => exact Fate.of_cases ch.fate (hs.createOrGet hq) hs.stays
  | getDeletion | listClaimable | inspect => exact Fate.of_cases ch.fate hs.stays hs.stays
  | acquire | close => exact Fate.of_cases ch.fate (horder _ _) hs.stays
  | deliver => exact horder _ _

theorem Steady.free (hK : Steady t now K) (hq : q.Free) (hs : K s)
    (h : ∀ a s, K s → Safe t (f a) s) : Safe t (Suppliers.ask q >>= f) s :=
  hK.ask hs fun ch _ hsane _ => ⟨hsane.exec hq ch, h _ _⟩

theorem safe_free (hq : q.Free) (h : ∀ a s, Safe t (f a) s) : Safe t (ask q >>= f) s :=
  (steady_true 0).free hq trivial fun a s _ => h a s

theorem Safe.bind {p : Work β} {g : β → Work α} (hp : Safe t p s) (h : ∀ a s, Safe t (g a) s) :
    Safe t (p >>= g) s :=
  ensures_bind.mpr (ensures_mono hp fun
    | .ok a, s, _ => h a s
    | .error e, _, _ => e.elim)

theorem Steady.transition (hK : Steady t now K) (hholds : ∀ s, K s → Holds t c now s) {id : String}
    {u : Update} {f : Bool → Work α} (hu : u.Fits c now)
    (hsame : ∀ o, (u.change o).deletedAt = o.deletedAt)
    (hfence : ∀ s o, K s → u.guard o = true → ∀ st, (u.change o).state.fence = some st →
      s.fenceState id = some st)
    (hs : K s) (h : ∀ a s, K s → Safe t (f a) s) :
    Safe t (Suppliers.ask (.transition id u) >>= f) s :=
  hK.ask hs fun ch s hsane hs => ⟨Fate.of_cases ch.fate
    (hsane.update (hholds s hs).owner fun o ho hguard => ⟨hu.step o hguard (hsane.rows o ho).sound
      ((hholds s hs).before o ho (hu.held o hguard)), hsame o, hfence s o hs hguard⟩)
    hsane.stays, h _ _⟩

theorem DeletionState.fence_of_pending {st : DeletionState} (h : st.pending = true) :
    st.fence = none := by
  cases st <;> first | rfl | cases h

theorem fenceState_of_view {id : String} {active : Bool} {st : FenceState}
    (h : (s.view id active).any (·.state == st) = true) : s.fenceState id = some st := by
  cases hf : s.fences id <;> simp_all [Site.view, Site.fenceState]

theorem fenceState_of_close {ch : Choice} {id : String} {st : FenceState}
    (h : (exec ch t (.close id st) s).1 = true) :
    (exec ch t (.close id st) s).2.fenceState id = some st := by
  obtain ⟨_ | _ | _, _, _⟩ := ch
  exacts [fenceState_of_view h, (nomatch h), (nomatch h)]

/-! ## The workflow -/

section

variable (r : Operation) (hs : Holds t c now s)
include hs

theorem safe_retry {next : Option ℤ} {f : Bool → Work α} (hnext : ∀ n ∈ next, now ≤ n)
    (h : ∀ a s, Safe t (f a) s) :
    Safe t (ask (.transition r.id (scheduleDeletionRetry c next now)) >>= f) s := by
  refine steady_holds.transition (fun _ h => h) (fits_scheduleDeletionRetry hnext) (fun _ => rfl)
    (fun s o _ hguard st hst => ?_) hs fun a s _ => h a s
  simp only [scheduleDeletionRetry, Bool.and_eq_true] at hguard hst
  rw [DeletionState.fence_of_pending hguard.1] at hst
  cases hst

theorem safe_scheduleRetry (outcome : Outcome) : Safe t (scheduleRetry r c now outcome) s := by
  refine safe_retry r hs (fun n hn => ?_) fun _ _ => trivial
  split at hn
  · simp only [Option.mem_def, Option.some.injEq, defaultRetryBackoff] at hn
    omega
  · cases hn

theorem safe_finish {u : Update} {st : FenceState} (hst : st ≠ .open) (hu : u.Fits c now)
    (hchange : ∀ o, (u.change o).deletedAt = o.deletedAt ∧ (u.change o).state.fence = some st)
    (hfenced : s.fenceState r.id = some st) (outcome : Outcome) :
    Safe t (finish r u outcome) s := by
  refine (steady_holds.fenced hst).transition (fun _ h => h.1) hu (fun o => (hchange o).1)
    (fun s o hK _ st' hst' => ?_) ⟨hs, hfenced⟩ fun a _ _ => by cases a <;> trivial
  rw [← hst', (hchange o).2]
  exact hK.2

theorem safe_release : Safe t (release r c now) s := by
  refine steady_holds.ask hs fun ch s hsane hs => ⟨hsane.exec (by trivial) ch, fun hs => ?_⟩
  split
  · next h =>
    exact safe_finish r hs (by decide) (fits_transition "" (.inr (.inl rfl)))
      (fun o => ⟨rfl, rfl⟩) (fenceState_of_close h) _
  · exact safe_scheduleRetry r hs _

theorem safe_commit : Safe t (commit r c now) s := by
  have hfinish : ∀ s, Holds t c now s → s.fenceState r.id = some .committed →
      Safe t (finish r (completeDeletion c now) .completed) s := fun s hs hf =>
    safe_finish r hs (by decide) (fits_transition "" (.inr (.inr (.inr rfl))))
      (fun o => ⟨rfl, rfl⟩) hf _
  refine steady_holds.ask hs fun ch s hsane hs => ⟨hsane.exec (by trivial) ch, fun hs => ?_⟩
  split
  · next h => exact hfinish _ hs (fenceState_of_close h)
  · refine steady_holds.ask hs fun ch s hsane hs => ⟨hsane.exec (by trivial) ch, fun hs => ?_⟩
    split
    · next h =>
      obtain ⟨_ | _ | _, _, _⟩ := ch
      exacts [hfinish _ hs (fenceState_of_view h), (nomatch h), (nomatch h)]
    · exact safe_scheduleRetry r hs _

theorem safe_deleteFenced : Safe t (deleteFenced r c now) s := by
  refine steady_holds.ask hs fun ch s hsane hs => ⟨Fate.of_cases ch.fate
    (hsane.deleteCurrent hs.owner hs.before) hsane.stays, fun hs => ?_⟩
  split
  · exact safe_commit r hs
  · refine steady_holds.free trivial hs fun a s hs => ?_
    split
    · exact steady_holds.free trivial hs fun _ _ _ => trivial
    · trivial

theorem safe_acquired (fence : Fence) : Safe t (acquired r c now fence) s := by
  rw [acquired]
  split
  · exact safe_scheduleRetry r hs _
  split
  · split
    · refine steady_holds.transition (fun _ h => h) (fits_transition "" (.inl rfl)) (fun _ => rfl)
        (fun _ _ _ _ _ h => nomatch h) hs fun a s hs => ?_
      split
      · exact safe_release r hs
      · trivial
    · exact safe_deleteFenced r hs
  · exact safe_deleteFenced r hs
  · exact safe_retry r hs nofun fun _ _ => trivial

theorem safe_advance : Safe t (advance r c now) s := by
  rw [advance]
  split
  · refine steady_holds.free trivial hs fun a s hs => ?_
    split
    · exact safe_acquired r hs _
    · refine steady_holds.free trivial hs fun a s hs => ?_
      split
      · exact safe_acquired r hs _
      · exact safe_scheduleRetry r hs _
  · exact safe_release r hs
  · exact safe_commit r hs
  all_goals trivial

end

/-- A worker makes a claim id and claims an operation with it. -/
theorem safe_claim {id : String} {g : ℕ → Option (Option Operation) → Work α}
    (h : ∀ c a s, Holds t c now s → Safe t (g c a) s) :
    Safe t (ask .newClaimID >>= fun c =>
      ask (.claim id c now (now + defaultLeaseDuration)) >>= g c) s := by
  refine (steady_true now).ask trivial fun ch s hsane _ =>
    ⟨hsane.exec (by trivial) ch, fun _ => ?_⟩
  -- the claim id is new, so no row has it yet
  have hs : Holds t s.claims.length now { s with claims := s.claims ++ [t] } :=
    ⟨by simp, fun o ho hc => absurd ((hsane.rows o ho).claimed _ hc) (lt_irrefl _)⟩
  refine steady_holds.ask hs fun ch s hsane hs => ⟨?_, h _ _ _⟩
  simp only [exec]
  split
  · refine Fate.of_cases ch.fate (hsane.update hs.owner fun o ho hguard =>
      ⟨step_claimDeletion (by simp [defaultLeaseDuration]) hguard (hsane.rows o ho).sound, rfl,
        fun st hst => ?_⟩) hsane.stays
    simp only [claimDeletion, Operation.claimable, Bool.and_eq_true] at hguard hst
    rw [DeletionState.fence_of_pending hguard.1.1.1] at hst
    cases hst
  · exact hsane.stays

theorem safe_reconcile (records : List Operation) : Safe t (reconcile records) s := by
  induction records generalizing s with
  | nil => trivial
  | cons r records ih =>
    refine safe_free trivial fun now s => safe_claim fun c a s hs => ?_
    split
    · exact (safe_advance _ hs).bind fun _ _ => ih.bind fun _ _ => trivial
    · exact ih

theorem safe_body : ∀ job : Job, Safe t (body job) s
  | .delete _ _ => by
    refine safe_free trivial fun now s =>
      Safe.bind (p := createOrGetDeletion _ _ _) ?_ fun a s => ?_
    · exact safe_free (Nat.succ_pos 4) fun a s => by cases a <;> trivial
    · split
      case h_4 =>
        split
        · trivial
        split
        · trivial
        refine safe_claim fun c a s hs => ?_
        split
        case h_3 => exact (safe_advance _ hs).bind fun _ _ => trivial
        all_goals trivial
      all_goals trivial
  | .reconcile => by
    refine Safe.bind (p := reconcileOnce) ?_ fun _ _ => trivial
    refine safe_free trivial fun now s => ?_
    exact safe_free trivial fun _ _ => safe_reconcile _
  | .deliver _ _ => safe_free trivial fun _ _ => trivial

end

/-! ## Runs -/

abbrev World := Traffic Job Ask Ask.Reply Empty (Option Outcome) Site

/-- A run from the time before the first deletion. -/
structure Site.Reaches (s : Site) (w : World) : Prop where
  ids : UniqueKey SupplierRow.id s.suppliers
  live : ∀ x ∈ s.suppliers, x.deletedAt = none
  operations : s.operations = []
  run : Traffic.Run service body (.initial s) w

/-- A request deletes a supplier. -/
theorem reaches_completed : ∃ (s : Site) (w w' : World), s.Reaches w ∧
    Traffic.Run service body w w' ∧ w.store.operations.map (·.state) = [.requested] ∧
    w'.store.operations.map (·.state) = [.completed] := by
  let s : Site := { suppliers := [⟨"00000000-0000-4000-8000-000000000001", 0, none⟩] }
  have h : ((Traffic.initial s).performAll service body (.start (.delete
      "00000000-0000-4000-8000-000000000002" "00000000-0000-4000-8000-000000000001") ::
      List.replicate 4 (.advance 0 {}))).any (fun w =>
        w.store.operations.map (·.state) = [.requested] ∧
        (w.performAll service body (List.replicate 4 (.advance 0 {}))).any fun w' =>
          w'.store.operations.map (·.state) = [.completed]) = true := by decide
  simp only [Option.any_eq_true, decide_eq_true_eq] at h
  obtain ⟨w, hw, hstate, w', hw', hstate'⟩ := h
  exact ⟨s, w, w', ⟨by simp [s, UniqueKey], by simp [s], rfl, Traffic.run_of_performAll hw⟩,
    Traffic.run_of_performAll hw', hstate, hstate'⟩

section

variable {s : Site} {w w' : World}

theorem Site.Reaches.trans (h : s.Reaches w) (h' : Traffic.Run service body w w') : s.Reaches w' :=
  { h with run := Relation.ReflTransGen.trans h.run h' }

theorem guarded (h : s.Reaches w) : w.Guarded service Sane Moves fun _ _ _ _ => True := by
  have hsane : Sane s := ⟨by simp [h.operations, UniqueKey], by simp [h.operations], h.ids,
    fun x hx => by simp [h.operations, h.live x hx, deletions]⟩
  exact (Traffic.Guarded.run (Traffic.guarded_initial hsane) (fun _ job _ _ _ => safe_body job)
    (fun _ _ _ _ _ _ _ _ _ => trivial) Moves.refl (fun t s h => ⟨h, .refl t s⟩)
    (fun _ _ _ _ _ => trivial) h.run).1

/-- The `CHECK` constraints hold. -/
theorem operations_valid (h : s.Reaches w) : ∀ o ∈ w.store.operations, o.Valid :=
  fun o ho => ((guarded h).store.rows o ho).sound.toValid

theorem operations_valid_completed : ∃ w : World,
    w.store.operations.map (·.state) = [.completed] ∧ ∀ o ∈ w.store.operations, o.Valid :=
  let ⟨_, _, w', h, h', _, hw⟩ := reaches_completed
  ⟨w', hw, operations_valid (h.trans h')⟩

/-- A supplier is deleted by exactly one operation, at the time that both record. -/
theorem supplier_deleted_once (h : s.Reaches w) : ∀ x ∈ w.store.suppliers,
    deletions x.id w.store.operations = x.deletedAt.toList :=
  (guarded h).store.deleted

theorem supplier_deleted_once_completed : ∃ w : World,
    w.store.operations.map (·.state) = [.completed] ∧ ∀ x ∈ w.store.suppliers,
      deletions x.id w.store.operations = x.deletedAt.toList :=
  let ⟨_, _, w', h, h', _, hw⟩ := reaches_completed
  ⟨w', hw, supplier_deleted_once (h.trans h')⟩

/-- An operation ends only after order-service has committed or released its fence. -/
theorem ended_operations_fenced (h : s.Reaches w) : ∀ o ∈ w.store.operations,
    (o.state = .completed → w.store.fenceState o.id = some .committed) ∧
    (o.state = .rejectedActiveErrands → w.store.fenceState o.id = some .released) := by
  intro o ho
  constructor <;> intro hst <;> exact ((guarded h).store.rows o ho).fence _ (hst ▸ rfl)

theorem ended_operations_fenced_completed : ∃ w : World,
    ∃ o ∈ w.store.operations, w.store.fenceState o.id = some .committed := by
  obtain ⟨_, _, w', h, h', _, hw⟩ := reaches_completed
  obtain ⟨o, ho, hstate⟩ := List.mem_map.mp (hw ▸ List.mem_cons_self)
  exact ⟨w', o, ho, (ended_operations_fenced (h.trans h') o ho).1 hstate⟩

/-- What becomes of an operation in the rest of a run. -/
theorem operations_follow (h : s.Reaches w) (h' : Traffic.Run service body w w') :
    ∀ o ∈ w.store.operations, ∃ o' ∈ w'.store.operations, Follows o o' := by
  intro o ho
  -- what has become of the operation joins the invariant
  let P (s : Site) := Sane s ∧ ∃ o' ∈ s.operations, Follows o o'
  have hP : ∀ u s s', Moves u s s' → P s → Sane s' → P s' := by
    rintro u s s' hm ⟨-, o', ho', hf⟩ hs
    obtain ⟨o'', ho'', hf'⟩ := hm.kept o' ho'
    exact ⟨hs, o'', ho'', hf.trans hf'⟩
  have hw := guarded h
  have hw' : w.Guarded service P Moves fun _ _ _ _ => True :=
    ⟨hw.fresh, ⟨hw.store, o, ho, .refl o⟩, fun t job rest hrun =>
      (hw.running t job rest hrun).strengthen (fun _ h => h.1) hP, fun _ _ _ _ => trivial⟩
  exact (hw'.run (fun _ job _ _ _ => (safe_body job).strengthen (fun _ h => h.1) hP)
    (fun _ _ _ _ _ _ _ _ _ => trivial) Moves.refl (fun t s h => ⟨h, .refl t s⟩)
    (fun _ _ _ _ _ => trivial) h').1.store.2

theorem operations_follow_completed : ∃ w w' : World,
    w.store.operations.map (·.state) = [.requested] ∧
    w'.store.operations.map (·.state) = [.completed] ∧
    ∀ o ∈ w.store.operations, ∃ o' ∈ w'.store.operations, Follows o o' :=
  let ⟨_, w, w', h, h', hw, hw'⟩ := reaches_completed
  ⟨w, w', hw, hw', operations_follow h h'⟩

end

end FocServices.Suppliers
