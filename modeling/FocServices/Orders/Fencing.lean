import FocServices.Orders.Tasks

/-!
# Fences among other transactions

What the fence service does while errands are created and edited. `Watched` is what an
answer without active errands stands for: as long as the fence is not released, no active
errand refers to the supplier. It holds from the answer on.
-/

namespace FocServices.Orders

open Txn Relation

/-- The fence of the operation is about the supplier, and unless it is released no active
errand refers to the supplier. -/
def Watched (operationID supplierID : String) (s : Tables) : Prop :=
  ∃ f, s.fenceOf operationID = some f ∧ f.supplierID = supplierID ∧
    (f.state ≠ .released → ∀ e ∈ s.errands, ¬ e.Refers supplierID)

/-- A count of zero means that nothing refers to the supplier: a pending edit that the
count cannot read makes it fail. -/
theorem not_refers_of_countActive {s : Tables} {supplierID : String}
    (h : s.countActive supplierID = .ok 0) : ∀ e ∈ s.errands, ¬ e.Refers supplierID := by
  unfold Tables.countActive at h
  split at h
  · cases h
  next hreadable =>
  have hunused := List.countP_eq_zero.mp (Except.ok.inj h)
  rintro e he ⟨hactive, href⟩
  have huses := hunused e he
  unfold Errand.uses at huses
  rw [hactive] at huses
  rcases href with hsame | ⟨p, hp, hread⟩
  · simp [hsame] at huses
  · have hsupplier : e.pendingSupplier = some (castUUID p.details.supplierID) := by
      simp [Errand.pendingSupplier, hp]
    cases hcast : castUUID p.details.supplierID with
    | none =>
      rw [hcast] at hsupplier hread
      have hscan := hread.resolve_right (by simp)
      refine hreadable (List.any_eq_true.mpr ⟨e, he, ?_⟩)
      by_cases hsame : e.details.supplierID = supplierID
      · simp [hsame] at huses
      · simp [hactive, hsame, hsupplier]
    | some id =>
      have hid : id = supplierID := by
        rcases hread with hscan | hcast'
        · exact (scanUUID_eq_castUUID hscan hcast).symm
        · exact Option.some.inj (hcast.symm.trans hcast')
      simp [hsupplier, hcast, hid] at huses

theorem findRow_insert_fence {fences : List Fence} {operationID supplierID : String}
    (hnone : findRow Fence.operationID operationID fences = none) :
    findRow Fence.operationID operationID (fences ++ [⟨operationID, supplierID, .open⟩]) =
      some ⟨operationID, supplierID, .open⟩ := by
  rw [findRow_append_singleton, hnone, if_pos rfl]
  rfl

theorem findRow_close_fence {fences : List Fence} {f : Fence} {state : FenceState}
    (hf : findRow Fence.operationID f.operationID fences = some f) :
    findRow Fence.operationID f.operationID (updateRow Fence.operationID f.operationID
      (fun f => { f with state := state }) fences) = some { f with state := state } := by
  have hkeep : ∀ r : Fence, r.operationID = f.operationID →
      ({ r with state := state } : Fence).operationID = r.operationID := fun _ _ => rfl
  rw [findRow_updateRow hkeep, hf, Option.map_some, if_pos rfl]

section Stable

variable {hash : String → ℤ} {ok : Tables → Errand → Transition → Prop}
  {locks : List (Lock × Mode)} {s s' : Tables} {operationID supplierID : String}

/-- A fence keeps its supplier. -/
theorem Change.fence_supplier (h : Change hash ok locks s s') {f : Fence}
    (hf : s.fenceOf operationID = some f) :
    ∃ f', s'.fenceOf operationID = some f' ∧ f'.supplierID = f.supplierID ∧
      (f.state = .released → f'.state = .released) := by
  rcases h.fenceOf operationID with hsame | ⟨-, ⟨hnone, -⟩ | ⟨f₀, state, hf₀, hopen, hf'⟩⟩
  · exact ⟨f, hsame.trans hf, rfl, id⟩
  · rw [hf] at hnone
    cases hnone
  · obtain rfl := Option.some.inj (hf.symm.trans hf₀)
    refine ⟨_, hf', rfl, fun hreleased => ?_⟩
    rw [hopen] at hreleased
    cases hreleased

/-- While the fence is not released, the supplier is fenced. -/
theorem fenced_of_fence {f : Fence} (hf : s.fenceOf operationID = some f)
    (hstate : f.state ≠ .released) : s.fenced f.supplierID = true :=
  List.any_eq_true.mpr ⟨f, (mem_of_findRow hf).1, by simpa using hstate⟩

theorem Watched.change (hs : Sane s) (h : Change hash ok locks s s')
    (hw : Watched operationID supplierID s) : Watched operationID supplierID s' := by
  obtain ⟨f, hf, rfl, hfree⟩ := hw
  obtain ⟨f', hf', hsupplier, hreleased⟩ := h.fence_supplier hf
  refine ⟨f', hf', hsupplier, fun hstate => ?_⟩
  have hstate' : f.state ≠ .released := fun heq => hstate (hreleased heq)
  rcases h.refers hs (hfree hstate') with hfree' | ⟨-, hopen⟩
  · exact hfree'
  · rw [fenced_of_fence hf hstate'] at hopen
    cases hopen

theorem Watched.evolves (hs : Sane s) (h : Evolves (Commits hash ok) s s')
    (hw : Watched operationID supplierID s) : Watched operationID supplierID s' :=
  (hs.evolves h (fun _ _ _ hs hchange hw => hw.change hs hchange) hw).2

theorem Sane.fence_supplier (hs : Sane s) (h : Evolves (Commits hash ok) s s')
    (hf : ∃ f, s.fenceOf operationID = some f ∧ f.supplierID = supplierID) :
    ∃ f, s'.fenceOf operationID = some f ∧ f.supplierID = supplierID := by
  refine (hs.evolves (P := fun s => ∃ f, s.fenceOf operationID = some f ∧
    f.supplierID = supplierID) h ?_ hf).2
  rintro s s' locks - hchange ⟨f, hcur, hsupplier⟩
  obtain ⟨f', hf', hsame, -⟩ := hchange.fence_supplier hcur
  exact ⟨f', hf', hsame.trans hsupplier⟩

end Stable

/-! ## The statements of the fence service -/

section Rules

variable {hash : String → ℤ} {ok : Tables → Errand → Transition → Prop}
  (own : Tables → Errand → Transition → Prop)
  {tr : Trail Stmt.Reply Write Lock} {s : Tables} {P : Tables → Tables → Prop} {α : Type}

theorem secure_opsUUID {final : Except StoreError α → Trail Stmt.Reply Write Lock → Tables → Prop}
    {value : String} {f : String → Tx α} (herr : ∀ err tr s, final (.error err) tr s)
    (h : ∀ id, scanUUID value = some id → Secure hash ok final (f id) tr s) :
    Secure hash ok final (opsUUID value >>= f) tr s := by
  unfold opsUUID
  split
  · next id hid => exact h id hid
  · exact herr _ _ _

theorem secure_orOpsFail {final : Except StoreError α → Trail Stmt.Reply Write Lock → Tables → Prop}
    {β : Type} {reply : Except DBError β} {f : β → Tx α}
    (herr : ∀ err tr s, final (.error err) tr s)
    (h : ∀ b, reply = .ok b → Secure hash ok final (f b) tr s) :
    Secure hash ok final (orOpsFail reply >>= f) tr s := by
  cases reply with
  | ok b => exact h b rfl
  | error err => exact herr _ _ _

/-- The answer tells whether an errand referred to the supplier at the time of the count. -/
theorem secure_withActiveErrands
    {final : Except StoreError FenceAnswer → Trail Stmt.Reply Write Lock → Tables → Prop}
    {stored : Fence} (hcanonical : Canonical stored.supplierID) (hP : Ensures hash ok tr s P)
    (hview : ∀ s v, P s v → v.errands = s.errands)
    (herr : ∀ err tr s, final (.error err) tr s)
    (h : ∀ tr' s' active, tr.Extends tr' → Disturbed (Commits hash ok) tr'.locks s s' →
      (active = false → ∀ e ∈ s.errands, ¬ e.Refers stored.supplierID) →
      Ensures hash ok tr' s' P →
      final (.ok ⟨stored.operationID, stored.supplierID, stored.state, active⟩) tr' s') :
    Secure hash ok final (withActiveErrands stored) tr s := by
  unfold withActiveErrands
  refine secure_opsUUID herr fun id hid => ?_
  obtain rfl := Option.some.inj (hcanonical.symm.trans hid)
  refine secure_query fun grantable a ha s₁ hs₁ => ?_
  subst ha
  refine secure_orOpsFail herr fun count hcount => ?_
  refine h _ s₁ _ (tr.extends_add _ _) hs₁ ?_ (hP.read rfl hs₁)
  intro hactive
  have hzero : count = 0 := by simpa using hactive
  subst hzero
  have hnone := not_refers_of_countActive hcount
  rwa [hview _ _ hP.now] at hnone

theorem secure_audit {final : Except StoreError Unit → Trail Stmt.Reply Write Lock → Tables → Prop}
    {actor action operationID : String} (hP : Ensures hash ok tr s P)
    (herr : ∀ err tr s, final (.error err) tr s)
    (h : ∀ tr' s', tr.Extends tr' → Ensures hash ok tr' s' (fun s v' => ∃ v record, P s v ∧
      v' = { v with audit := v.audit ++ [record] }) → final (.ok ()) tr' s') :
    Secure hash ok final (audit actor action operationID) tr s := by
  unfold audit
  split
  · exact herr _ _ _
  · refine secure_query fun grantable a ha s₁ hs₁ => ?_
    subst ha
    refine h _ s₁ (tr.extends_add _ _) ((hP.add hs₁).mono ?_)
    rintro s v' ⟨v, hv, rfl⟩
    exact ⟨v, _, hv, rfl⟩

theorem getFence_cases (grantable : Lock → Mode → Bool) (operationID : String) (s : Tables) :
    (∃ f, s.fenceOf operationID = some f ∧
      exec hash grantable (.getFence operationID) s = ⟨.ok f, [], []⟩) ∨
      exec hash grantable (.getFence operationID) s = ⟨.error .noRows, [], []⟩ := by
  simp only [exec]
  split
  · next f hf => exact Or.inl ⟨f, hf, rfl⟩
  · exact Or.inr rfl

/-- What fence transactions keep: they change no errand, and what they write may be
committed. -/
def Undisturbing (hash : String → ℤ) (ok : Tables → Errand → Transition → Prop)
    (locks : List (Lock × Mode)) (s v : Tables) : Prop :=
  Sane s ∧ v.errands = s.errands ∧ Commits hash ok locks s v

theorem Undisturbing.audit {locks locks' : List (Lock × Mode)} {s v : Tables}
    (h : Undisturbing hash ok locks s v) (hsub : locks ⊆ locks') (record : AuditRecord) :
    Undisturbing hash ok locks' s { v with audit := v.audit ++ [record] } :=
  ⟨h.1, h.2.1, (h.2.2.mono hsub).tail (.idle rfl rfl rfl rfl)⟩

/-- Inspecting a fence: an answer without active errands stands for a watched supplier. -/
theorem secure_inspect
    {final : Except StoreError FenceAnswer → Trail Stmt.Reply Write Lock → Tables → Prop}
    {operationID : String} (hP : Ensures hash ok tr s fun s v => v = s ∧ Sane s)
    (herr : ∀ err tr s, final (.error err) tr s)
    (h : ∀ tr' s' answer, Ensures hash ok tr' s' (fun s v => Commits hash own tr'.locks s v ∧
      (answer.hasActiveErrands = false → Watched answer.operationID answer.supplierID v)) →
      final (.ok answer) tr' s') :
    Secure hash ok final (inspect operationID) tr s := by
  unfold inspect
  refine secure_opsUUID herr fun operation _ => ?_
  refine secure_query fun grantable a ha s₁ hs₁ => ?_
  rcases getFence_cases grantable operation _ with ⟨f, hf, hanswer⟩ | hanswer
  · obtain rfl := ha.symm.trans hanswer
    obtain ⟨hview, hsane⟩ := hP.now
    rw [hview] at hf
    have hop : f.operationID = operation := (mem_of_findRow hf).2
    have hcanonical := hsane.fenceSuppliers f (mem_of_findRow hf).1
    have hP₁ := hP.read (q := .getFence operation) (a := ⟨.ok f, [], []⟩) rfl hs₁
    refine secure_withActiveErrands hcanonical hP₁ (fun s v hv => by rw [hv.1]) herr ?_
    intro tr' s' active hext hs' hfree hP'
    refine h tr' s' _ fun s₂ h₂ => ?_
    rw [(hP' s₂ h₂).1]
    refine ⟨.refl, fun hactive => ?_⟩
    -- at the time of the count the supplier was watched
    obtain ⟨f₁, hf₁, hsame⟩ := hsane.fence_supplier hs₁.evolves ⟨f, hf, rfl⟩
    have hwatched : Watched operation f.supplierID s₁ := ⟨f₁, hf₁, hsame, fun _ => hfree hactive⟩
    rw [← hop] at hwatched
    exact hwatched.evolves hP₁.now.2 (Disturbed.evolves (hs'.trans h₂))
  · obtain rfl := ha.symm.trans hanswer
    exact herr _ _ _

theorem insertFence_cases (grantable : Lock → Mode → Bool) (operationID supplierID : String)
    (s : Tables) :
    ((s.fenceOf operationID).isSome = true ∧
      exec hash grantable (.insertFence operationID supplierID) s = ⟨.ok 0, [], []⟩) ∨
      s.fenceOf operationID = none ∧ exec hash grantable (.insertFence operationID supplierID) s =
        ⟨.ok 1, [.insertFence ⟨operationID, supplierID, .open⟩],
          [(.fence operationID, .exclusive)]⟩ := by
  simp only [exec]
  split_ifs with hsome
  · exact Or.inl ⟨hsome, rfl⟩
  · exact Or.inr ⟨by simpa using hsome, rfl⟩

/-- The answer of a fence transaction and its audit row. -/
theorem secure_answer
    {final : Except StoreError FenceAnswer → Trail Stmt.Reply Write Lock → Tables → Prop}
    {stored : Fence} {actor action operationID : String}
    (hcanonical : Canonical stored.supplierID)
    (hP : Ensures hash ok tr s fun s v => Undisturbing hash own tr.locks s v ∧
      ∃ f, v.fenceOf stored.operationID = some f ∧ f.supplierID = stored.supplierID)
    (herr : ∀ err tr s, final (.error err) tr s)
    (h : ∀ tr' s' active, Ensures hash ok tr' s' (fun s v => Commits hash own tr'.locks s v ∧
      (active = false → (.supplier (hash stored.supplierID), .exclusive) ∈ tr.locks →
        Watched stored.operationID stored.supplierID v)) →
      final (.ok ⟨stored.operationID, stored.supplierID, stored.state, active⟩) tr' s') :
    Secure hash ok final (withActiveErrands stored >>= fun result =>
      audit actor action operationID >>= fun _ => .pure result) tr s := by
  rw [Secure, safe_bind]
  refine secure_withActiveErrands hcanonical hP (fun s v hv => hv.1.2.1)
    (fun err tr s => herr err tr s) ?_
  intro tr₁ s₁ active hext₁ hs₁ hfree hP₁
  -- under the exclusive lock nothing has referred to the supplier since the count
  have hP₂ : Ensures hash ok tr₁ s₁ fun s v => (Undisturbing hash own tr.locks s v ∧
      ∃ f, v.fenceOf stored.operationID = some f ∧ f.supplierID = stored.supplierID) ∧
      (active = false → (.supplier (hash stored.supplierID), .exclusive) ∈ tr.locks →
        ∀ e ∈ s.errands, ¬ e.Refers stored.supplierID) := by
    intro s₂ h₂
    refine ⟨hP₁ s₂ h₂, fun hactive hlock => ?_⟩
    exact hP.now.1.1.locked_unused (hs₁.trans h₂) (hext₁.locks hlock) (hfree hactive)
  change Secure hash ok final (audit actor action operationID >>= fun _ => .pure _) tr₁ s₁
  rw [Secure, safe_bind]
  refine secure_audit hP₂ (fun err tr s => herr err tr s) fun tr₂ s₂ hext₂ hP₃ => ?_
  refine h tr₂ s₂ _ (hP₃.mono ?_)
  rintro s v' ⟨v, record, ⟨⟨hundisturbing, f, hf, hsupplier⟩, hunused⟩, rfl⟩
  obtain ⟨-, herrands, hcommits⟩ := hundisturbing.audit (hext₁.trans hext₂).locks record
  refine ⟨hcommits, fun hactive hlock => ⟨f, hf, hsupplier, fun _ => ?_⟩⟩
  have hnone := hunused hactive hlock
  rw [← herrands] at hnone
  exact hnone

/-- What acquiring does once there is a fence of the operation. -/
theorem secure_acquired
    {final : Except StoreError FenceAnswer → Trail Stmt.Reply Write Lock → Tables → Prop}
    {actor operation operationID supplier storedID : String}
    (hexclusive : (.supplier (hash supplier), .exclusive) ∈ tr.locks)
    (hP : Ensures hash ok tr s fun s v => Undisturbing hash own tr.locks s v ∧
      ∃ f, v.fenceOf operation = some f ∧ f.supplierID = storedID)
    (hcanonical : Canonical storedID)
    (herr : ∀ err tr s, final (.error err) tr s)
    (h : ∀ tr' s' answer, Ensures hash ok tr' s' (fun s v => Commits hash own tr'.locks s v ∧
      (answer.hasActiveErrands = false → Watched answer.operationID answer.supplierID v)) →
      final (.ok answer) tr' s') :
    Secure hash ok final (query (.getFence operation) >>= fun reply => orOpsFail reply >>=
      fun stored => if stored.supplierID ≠ supplier then .fail (.ops .fenceSupplierMismatch)
        else withActiveErrands stored >>= fun result =>
          audit actor "supplier_fence.acquire" operationID >>= fun _ => .pure result) tr s := by
  refine secure_query fun grantable a ha s₁ hs₁ => ?_
  rcases getFence_cases grantable operation _ with ⟨stored, hstored, hanswer⟩ | hanswer
  · obtain rfl := ha.symm.trans hanswer
    obtain ⟨-, f, hf, rfl⟩ := hP.now
    obtain rfl := Option.some.inj (hstored.symm.trans hf)
    obtain rfl : stored.operationID = operation := (mem_of_findRow hf).2
    change Secure hash ok final (if stored.supplierID ≠ supplier then _ else _) _ _
    by_cases hmatch : stored.supplierID = supplier
    · rw [if_neg (not_not_intro hmatch)]
      have hsub := (tr.extends_add (.getFence stored.operationID) ⟨.ok stored, [], []⟩).locks
      have hP₁ := hP.read (q := .getFence stored.operationID) (a := ⟨.ok stored, [], []⟩) rfl hs₁
      refine secure_answer own hcanonical (hP₁.mono ?_) herr fun tr' s' active hanswer => ?_
      · rintro s v ⟨⟨hsane, herrands, hcommits⟩, hfence⟩
        exact ⟨⟨hsane, herrands, hcommits.mono hsub⟩, hfence⟩
      · refine h tr' s' _ (hanswer.mono ?_)
        rintro s v ⟨hcommits, hwatched⟩
        exact ⟨hcommits, fun hactive => hwatched hactive (hmatch ▸ hsub hexclusive)⟩
    · rw [if_pos hmatch]
      exact herr _ _ _
  · obtain rfl := ha.symm.trans hanswer
    exact herr _ _ _

/-- Acquiring a fence: an answer without active errands stands for a watched supplier. -/
theorem secure_acquire
    {final : Except StoreError FenceAnswer → Trail Stmt.Reply Write Lock → Tables → Prop}
    {actor operationID supplierID : String}
    (hP : Ensures hash ok tr s fun s v => v = s ∧ Sane s)
    (herr : ∀ err tr s, final (.error err) tr s)
    (h : ∀ tr' s' answer, Ensures hash ok tr' s' (fun s v => Commits hash own tr'.locks s v ∧
      (answer.hasActiveErrands = false → Watched answer.operationID answer.supplierID v)) →
      final (.ok answer) tr' s') :
    Secure hash ok final (acquire actor operationID supplierID) tr s := by
  unfold acquire
  refine secure_opsUUID herr fun supplier hsupplier => ?_
  have hcanonical : Canonical supplier := canonical_of_scanUUID hsupplier
  refine secure_query fun grantable a ha s₁ hs₁ => ?_
  subst ha
  have hP₁ := hP.read rfl hs₁
  have hexclusive : ((.supplier (hash supplier), .exclusive) : Lock × Mode) ∈ (tr.add _
      (answerTo hash grantable (.lockSupplierForFence supplier) tr s)).locks :=
    List.mem_append_right _ (List.mem_singleton_self _)
  generalize tr.add _ (answerTo hash grantable (.lockSupplierForFence supplier) tr s) = tr₁ at *
  refine secure_opsUUID herr fun operation _ => ?_
  refine secure_query fun grantable a ha s₂ hs₂ => ?_
  rcases insertFence_cases grantable operation supplier _ with
    ⟨hsome, hanswer⟩ | ⟨hnone, hanswer⟩
  · -- the fence exists, and keeps its supplier
    obtain rfl := ha.symm.trans hanswer
    obtain ⟨hview, hsane⟩ := hP₁.now
    rw [hview] at hsome
    obtain ⟨f, hf⟩ := Option.isSome_iff_exists.mp hsome
    have hP₂ := hP₁.read (q := .insertFence operation supplier) (a := ⟨.ok 0, [], []⟩) rfl hs₂
    refine secure_acquired own (List.mem_append_left _ hexclusive) (fun s hs => ?_)
      (hsane.fenceSuppliers f (mem_of_findRow hf).1) herr h
    obtain ⟨hview', hsane'⟩ := hP₂ s hs
    rw [hview']
    have hfence := hsane.fence_supplier (Disturbed.evolves (hs₂.trans hs)) ⟨f, hf, rfl⟩
    exact ⟨⟨hsane', rfl, .refl⟩, hfence⟩
  · -- the fence is new, and under its lock nobody else inserts it
    obtain rfl := ha.symm.trans hanswer
    obtain ⟨hview, hsane⟩ := hP₁.now
    rw [hview] at hnone
    refine secure_acquired own (List.mem_append_left _ hexclusive) (fun s hs => ?_) hcanonical herr h
    obtain ⟨v, ⟨rfl, hsane'⟩, hview'⟩ := hP₁.add hs₂ s hs
    rw [hview']
    have hlock : (Lock.fence operation, Mode.exclusive) ∈
        tr₁.locks ++ [(Lock.fence operation, Mode.exclusive)] :=
      List.mem_append_right _ (List.mem_singleton_self _)
    have hnone' := (hsane.locked_fence (hs₂.trans hs) hlock).trans hnone
    exact ⟨⟨hsane', rfl, .single (.fence operation supplier hnone' hcanonical hlock
      (List.mem_append_left _ hexclusive) rfl rfl rfl rfl)⟩, _, findRow_insert_fence hnone', rfl⟩

theorem closeFence_cases (grantable : Lock → Mode → Bool) (operationID : String)
    (state : FenceState) (s : Tables) :
    (∃ f, s.fenceOf operationID = some f ∧ f.state = .open ∧
      exec hash grantable (.closeFence operationID state) s =
        ⟨.ok { f with state := state }, [.closeFence operationID state],
          [(.fence operationID, .exclusive)]⟩) ∨
      exec hash grantable (.closeFence operationID state) s = ⟨.error .noRows, [], []⟩ := by
  simp only [exec]
  split
  · next f hf =>
    split_ifs with hopen
    · exact Or.inl ⟨f, hf, hopen, rfl⟩
    · exact Or.inr rfl
  · exact Or.inr rfl

/-- Closing a fence leaves a fence of the operation with the same supplier. -/
theorem secure_closeFence
    {final : Except StoreError Fence → Trail Stmt.Reply Write Lock → Tables → Prop}
    {operation : String} {state : FenceState}
    (hP : Ensures hash ok tr s fun s v => v = s ∧ Sane s)
    (herr : ∀ err tr s, final (.error err) tr s)
    (h : ∀ tr' s' stored, Canonical stored.supplierID → Ensures hash ok tr' s' (fun s v =>
      Undisturbing hash own tr'.locks s v ∧
        ∃ f, v.fenceOf stored.operationID = some f ∧ f.supplierID = stored.supplierID) →
      final (.ok stored) tr' s') :
    Secure hash ok final (closeFence operation state) tr s := by
  unfold closeFence
  refine secure_query fun grantable a ha s₁ hs₁ => ?_
  obtain ⟨hview, hsane⟩ := hP.now
  rcases closeFence_cases grantable operation state _ with ⟨f, hf, hopen, hanswer⟩ | hanswer
  · obtain rfl := ha.symm.trans hanswer
    rw [hview] at hf
    obtain ⟨hmem, rfl⟩ := mem_of_findRow hf
    refine h _ s₁ { f with state := state } (hsane.fenceSuppliers f hmem) fun s hs => ?_
    obtain ⟨v, ⟨rfl, hsane'⟩, hview'⟩ := hP.add hs₁ s hs
    rw [hview']
    have hlock : (Lock.fence f.operationID, Mode.exclusive) ∈
        tr.locks ++ [(Lock.fence f.operationID, Mode.exclusive)] :=
      List.mem_append_right _ (List.mem_singleton_self _)
    have hcur := (hsane.locked_fence (hs₁.trans hs) hlock).trans hf
    exact ⟨⟨hsane', rfl, .single (.close f state hcur hopen hlock rfl rfl rfl rfl)⟩, _,
      findRow_close_fence (f := f) hcur, rfl⟩
  · obtain rfl := ha.symm.trans hanswer
    have hP₁ := hP.read (q := .closeFence operation state) (a := ⟨.error .noRows, [], []⟩) rfl hs₁
    refine secure_query fun grantable a ha s₂ hs₂ => ?_
    obtain ⟨hview₁, hsane₁⟩ := hP₁.now
    rcases getFence_cases grantable operation _ with ⟨f, hf, hanswer'⟩ | hanswer'
    · obtain rfl := ha.symm.trans hanswer'
      rw [hview₁] at hf
      obtain ⟨hmem, rfl⟩ := mem_of_findRow hf
      change Secure hash ok final (if f.state ≠ state then _ else _) _ _
      by_cases hstate : f.state = state
      · rw [if_neg (not_not_intro hstate)]
        refine h _ s₂ f (hsane₁.fenceSuppliers f hmem) fun s hs => ?_
        obtain ⟨hview₂, hsane₂⟩ := hP₁.read (q := .getFence f.operationID)
          (a := ⟨.ok f, [], []⟩) rfl hs₂ s hs
        rw [hview₂]
        have hfence := hsane₁.fence_supplier (Disturbed.evolves (hs₂.trans hs)) ⟨f, hf, rfl⟩
        exact ⟨⟨hsane₂, rfl, .refl⟩, hfence⟩
      · rw [if_pos hstate]
        exact herr _ _ _
    · obtain rfl := ha.symm.trans hanswer'
      exact herr _ _ _

/-- Committing or releasing a fence. -/
theorem secure_close
    {final : Except StoreError FenceAnswer → Trail Stmt.Reply Write Lock → Tables → Prop}
    {actor action operationID : String} {state : FenceState}
    (hP : Ensures hash ok tr s fun s v => v = s ∧ Sane s)
    (herr : ∀ err tr s, final (.error err) tr s)
    (h : ∀ tr' s' answer, Ensures hash ok tr' s' (fun s v => Commits hash own tr'.locks s v) →
      final (.ok answer) tr' s') :
    Secure hash ok final (close actor action operationID state) tr s := by
  unfold close
  refine secure_opsUUID herr fun operation _ => ?_
  rw [Secure, safe_bind]
  refine secure_closeFence own hP (fun err tr s => herr err tr s) ?_
  intro tr' s' stored hcanonical hP'
  exact secure_answer own hcanonical hP' herr fun tr'' s'' active hanswer =>
    h tr'' s'' _ (hanswer.mono fun s v hv => hv.1)

end Rules

end FocServices.Orders
