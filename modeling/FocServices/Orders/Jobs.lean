import FocServices.Orders.Statements
import Mathlib.Logic.Relation

/-!
# Transactions of the order service are steps

`Job` lists the transactions of the order service. Each one, run to its end, is a
sequence of steps, so the outbox stays in order over every run. On the way no insert
into the outbox fails: the rows of a transition have new keys, and their errand exists.
-/

namespace FocServices.Orders

open Txn Relation

/-! ## Jobs -/

/-- The transactions of the order service. -/
inductive Job where
  | create (e : Errand) (t : Transition)
  | apply (t : Transition)
  | claimDue (kind : DueKind) (now limit : ℤ)
      (decide : Errand → Except StoreError (Option Transition))
  | recordRejection (r : Rejection)
  | remind (kind : ReminderKind) (c : ReminderCandidate) (now : ℤ)
  | acquire (actor operationID supplierID : String)
  | inspect (operationID : String)
  | commit (actor operationID : String)
  | release (actor operationID : String)

/-- What a job returns. -/
inductive JobResult where
  | created (stored : Errand) (isNew : Bool)
  | applied (stored : Errand)
  | claimed (transitions : ℕ)
  | recorded
  | reminded (inserted : Bool)
  | fence (answer : FenceAnswer)
  deriving DecidableEq, Repr

def Job.body : Job → Tx JobResult
  | .create e t => do
    let (stored, isNew) ← Orders.create e t
    return .created stored isNew
  | .apply t => return .applied (← Orders.apply t)
  | .claimDue kind now limit decide => return .claimed (← Orders.claimDue kind now limit decide)
  | .recordRejection r => do
    Orders.recordRejection r
    return .recorded
  | .remind kind c now => return .reminded (← insertCurrentReminder kind c now)
  | .acquire actor operationID supplierID =>
    return .fence (← Orders.acquire actor operationID supplierID)
  | .inspect operationID => return .fence (← Orders.inspect operationID)
  | .commit actor operationID => return .fence (← Orders.commit actor operationID)
  | .release actor operationID => return .fence (← Orders.release actor operationID)

/-- The transitions of a job are decided by `next`: for a new errand with a generated
identifier, for an errand as it is stored in `s`, or for the errands of a batch. -/
def Job.Follows (may : Errand → Event → EventInput → Prop) (s : Tables) : Job → Prop
  | .create e t => Canonical e.id ∧ ∃ actor input now, next e .submit actor input now = .ok t
  | .apply t => ∃ e ∈ s.errands, ∃ ev actor input now,
      next e ev actor input now = .ok t ∧ may e ev input
  | .claimDue _ _ _ decide => ∀ e t, decide e = .ok (some t) → ∃ ev actor input now,
      next e ev actor input now = .ok t ∧ may e ev input
  | _ => True

theorem Job.Follows.mono {may may' : Errand → Event → EventInput → Prop} {s : Tables} {job : Job}
    (h : job.Follows may s) (hmay : ∀ e ev input, may e ev input → may' e ev input) :
    job.Follows may' s := by
  cases job with
  | create => exact h
  | apply t =>
    obtain ⟨e, he, ev, actor, input, now, hnext, hev⟩ := h
    exact ⟨e, he, ev, actor, input, now, hnext, hmay _ _ _ hev⟩
  | claimDue kind now limit decide =>
    intro e t ht
    obtain ⟨ev, actor, input, now, hnext, hev⟩ := h e t ht
    exact ⟨ev, actor, input, now, hnext, hmay _ _ _ hev⟩
  | _ => trivial

/-- A body that ends well has made steps. -/
def Steps (may : Errand → Event → EventInput → Prop) (s : Tables) {α : Type} :
    Except StoreError α → Tables → ℕ → Prop
  | .ok _, s', _ => ReflTransGen (Step may) s s'
  | .error _, _, _ => True

section Specs

variable {hash : String → ℤ} {may : Errand → Event → EventInput → Prop} {s : Tables} {n : ℕ}

theorem wp_return {α β : Type} {p : Tx α} {f : α → β}
    (h : (engine hash).wp OutboxAccepted (Steps may s) p s n) :
    (engine hash).wp OutboxAccepted (Steps may s) (p >>= fun a => .pure (f a)) s n := by
  rw [Engine.wp_bind]
  refine Engine.wp_mono h fun r s' n' hr => ?_
  cases r with
  | ok a => exact hr
  | error e => trivial

theorem apply_spec (hk : Keyed s) {t : Transition} (ht : (Job.apply t).Follows may s) :
    (engine hash).wp OutboxAccepted (Steps may s) (apply t) s n := by
  obtain ⟨e, he, ev, actor, input, now, hnext, hmay⟩ := ht
  have hid := (hk.regular e he).canonical
  have htID : t.errandID = e.id := (next_for hnext).errandID
  have hfind : s.errandOf e.id = some e := hk.unique.findRow_eq he rfl
  unfold apply
  split
  · trivial
  rw [htID, hid]
  have hanswer : exec hash (fun _ _ => true) (.getErrandForUpdate e.id) s =
      ⟨.ok e, [], [(.errand e.id, .exclusive)]⟩ := by simp only [exec, hfind]
  refine wp_query hanswer trivial ?_
  refine wp_applyLocked hk he hnext (fun _ _ _ => trivial) ?_
  intro row s' n' hrow herrands houtbox
  exact .single (.apply e ev actor input now t row he hnext hmay hrow herrands houtbox)

theorem create_spec (hk : Keyed s) {e : Errand} {t : Transition}
    (ht : (Job.create e t).Follows may s) :
    (engine hash).wp OutboxAccepted (Steps may s) (create e t) s n := by
  obtain ⟨hid, actor, input, now, hnext⟩ := ht
  have hm := next_move hnext
  unfold create
  split
  · trivial
  split
  · trivial
  refine wp_check (fun _ _ _ => trivial) fun row hrow => ?_
  have hst := insertParams_ok hrow
  have hrowID : row.id = e.id := hst.id_eq hid
  rcases getErrandByCreateKey_answer _ e.requesterID e.createIdempotencyKey with
    ⟨existing, hanswer⟩ | hanswer
  · exact wp_query hanswer trivial .refl
  refine wp_query hanswer trivial ?_
  rw [Engine.wp_bind]
  refine wp_checkFence lenient_outboxAccepted (fun _ _ _ => trivial) fun _ n => ?_
  rcases insertErrand_answer _ row with ⟨err, hanswer⟩ | ⟨-, hnew, -, hanswer⟩
  · refine wp_query hanswer trivial ?_
    cases err with
    | noRows =>
      rcases getErrandByCreateKey_answer _ e.requesterID e.createIdempotencyKey with
        ⟨existing, hanswer⟩ | hanswer
      · exact wp_query hanswer trivial .refl
      · exact wp_query hanswer trivial trivial
    | _ => trivial
  refine wp_query hanswer trivial ?_
  rw [hrowID] at hnew
  have hr : Replaces s ((engine hash).applyAll [.insertErrand row] s) e row :=
    replaces_create hk (status_of_submit hnext) hid hrowID hnew rfl
  have hemits := hm.emitsFresh fun h => absurd (status_of_submit hnext) h
  rw [Engine.wp_bind]
  refine wp_writeTransitionRows (fun err s n => trivial) hst.canonical
      (fun r hr => (hm.errandID_rows r hr).trans hrowID.symm) ?_ (hemits.nodup hid)
      (fun r hmem => hk.key_free hr hm hmem) ?_
  · have hmem := (hr.mem row).mpr (Or.inl rfl)
    simpa [Tables.hasErrand] using ⟨_, hmem, rfl⟩
  · intro transitions reviews n
    exact .single (.create e actor input now t row hnext hid hrow hnew rfl rfl)

/-- The decided transitions belong to errands of the batch, in the batch's order. -/
theorem decideAll_ok {decide : Errand → Except StoreError (Option Transition)}
    (hdecide : ∀ e t, decide e = .ok (some t) → t.errandID = e.id) {batch : List Errand}
    {decided : List Transition} (h : decideAll decide batch = .ok decided) :
    (∀ t ∈ decided, ∃ e ∈ batch, decide e = .ok (some t)) ∧
      (decided.map Transition.errandID).Sublist (batch.map Errand.id) := by
  induction batch generalizing decided with
  | nil =>
    cases h
    exact ⟨by simp, List.Sublist.refl _⟩
  | cons e batch ih =>
    simp only [decideAll, bind_eq_ok] at h
    obtain ⟨decision, hdecision, rest, hrest, h⟩ := h
    cases h
    obtain ⟨hmem, hsub⟩ := ih hrest
    cases decision with
    | none =>
      refine ⟨fun t ht => ?_, hsub.trans (List.sublist_cons_self _ _)⟩
      obtain ⟨e', he', hdec⟩ := hmem t ht
      exact ⟨e', List.mem_cons_of_mem _ he', hdec⟩
    | some t =>
      rw [Option.toList_some, List.singleton_append, List.forall_mem_cons]
      refine ⟨⟨⟨e, List.mem_cons_self, hdecision⟩, fun t' ht' => ?_⟩, ?_⟩
      · obtain ⟨e', he', hdec⟩ := hmem t' ht'
        exact ⟨e', List.mem_cons_of_mem _ he', hdec⟩
      · rw [List.map_cons, List.map_cons, hdecide e t hdecision]
        exact hsub.cons_cons _

/-- A batch holds stored errands, none twice. -/
theorem batch_ok (hunique : UniqueKey Errand.id s.errands) (grantable : Lock → Mode → Bool) (kind : DueKind) (now : ℤ)
    (limit : ℕ) : (∀ e ∈ (s.claimable grantable kind now).take limit, e ∈ s.errands) ∧
      UniqueKey Errand.id ((s.claimable grantable kind now).take limit) := by
  have hperm : (s.claimable grantable kind now).Perm
      (s.errands.filter fun e => kind.due e now && grantable (.errand e.id) .exclusive) :=
    List.perm_insertionSort _ _
  constructor
  · intro e he
    exact (List.mem_filter.mp (hperm.mem_iff.mp (List.mem_of_mem_take he))).1
  · have hfilter : ((s.errands.filter fun e =>
        kind.due e now && grantable (.errand e.id) .exclusive).map Errand.id).Nodup :=
      hunique.sublist (List.filter_sublist.map _)
    have hsorted := (hperm.map Errand.id).nodup_iff.mpr hfilter
    exact hsorted.sublist ((List.take_sublist _ _).map _)

/-- A decided batch is applied errand by errand. -/
theorem applyDecided_spec {s₀ : Tables} {locked : String → Option Errand} {ts : List Transition}
    (hk : Keyed s) (hsteps : ReflTransGen (Step may) s₀ s)
    (hts : ∀ t ∈ ts, ∃ e ∈ s.errands, locked e.id = some e ∧ ∃ ev actor input now,
      next e ev actor input now = .ok t ∧ may e ev input)
    (hnodup : (ts.map Transition.errandID).Nodup) :
    (engine hash).wp OutboxAccepted (Steps may s₀) (applyDecided locked ts) s n := by
  induction ts generalizing s locked n with
  | nil => exact hsteps
  | cons t ts ih =>
    obtain ⟨e, he, hlocked, ev, actor, input, now, hnext, hmay⟩ := hts t List.mem_cons_self
    have htID : t.errandID = e.id := (next_for hnext).errandID
    rw [List.map_cons, List.nodup_cons] at hnodup
    unfold applyDecided
    rw [htID, hlocked]
    dsimp only
    split
    · trivial
    rw [Engine.wp_bind]
    refine wp_applyLocked hk he hnext (fun _ _ _ => trivial) ?_
    intro row s' n' hrow herrands houtbox
    have hstep : Step may s s' :=
      .apply e ev actor input now t row he hnext hmay hrow herrands houtbox
    refine ih (hk.step hstep) (hsteps.tail hstep) ?_ hnodup.2
    intro t' ht'
    obtain ⟨e', he', hlocked', ev', actor', input', now', hnext', hmay'⟩ :=
      hts t' (List.mem_cons_of_mem _ ht')
    have hne : e'.id ≠ e.id := by
      rw [← (next_for hnext').errandID, ← htID]
      exact fun heq => hnodup.1 (heq ▸ List.mem_map_of_mem ht')
    refine ⟨e', ?_, by rw [if_neg hne]; exact hlocked', ev', actor', input', now', hnext', hmay'⟩
    rw [herrands]
    exact mem_updateRow.mpr ⟨e', he', if_neg hne⟩

theorem claimDue_spec (hk : Keyed s) {kind : DueKind} {now limit : ℤ}
    {decide : Errand → Except StoreError (Option Transition)}
    (ht : (Job.claimDue kind now limit decide).Follows may s) :
    (engine hash).wp OutboxAccepted (Steps may s) (claimDue kind now limit decide) s n := by
  unfold claimDue
  split
  · trivial
  refine ⟨trivial, ?_⟩
  set batch := (s.claimable (fun _ _ => true) kind now).take (min limit.toNat maxInt32)
  obtain ⟨hbatch, hunique⟩ := batch_ok hk.unique (fun _ _ => true) kind now (min limit.toNat maxInt32)
  change (engine hash).wp OutboxAccepted (Steps may s)
    (check (decideAll decide batch) >>= fun decided => _) s (n + 1)
  refine wp_check (fun _ _ _ => trivial) fun decided hdecided => ?_
  have hid : ∀ e t, decide e = .ok (some t) → t.errandID = e.id := by
    intro e t hdec
    obtain ⟨ev, actor, input, now, hnext, -⟩ := ht e t hdec
    exact (next_for hnext).errandID
  obtain ⟨hmem, hsub⟩ := decideAll_ok hid hdecided
  refine wp_return (applyDecided_spec hk .refl ?_ (hunique.sublist hsub))
  intro t htm
  obtain ⟨e, he, hdec⟩ := hmem t htm
  exact ⟨e, hbatch e he, hunique.findRow_eq he rfl, ht e t hdec⟩

theorem wp_insertOutboxIfAbsent {row : OutboxRow} (hkey : NoteKey row.idempotencyKey)
    (hkind : ∃ name, row.kind = .event name) :
    (engine hash).wp OutboxAccepted (Steps may s)
      (query (.insertOutboxIfAbsent row) >>= fun reply => orFail reply >>= fun _ => .pure ())
      s n := by
  rcases insertOutboxIfAbsent_answer _ row with ⟨_, _, hanswer⟩ | hanswer | ⟨_, hfresh, hanswer⟩
  · exact wp_query hanswer trivial trivial
  · exact wp_query hanswer trivial .refl
  · exact wp_query hanswer trivial (.single (.note row hkey hkind hfresh rfl rfl))

theorem recordRejection_spec (r : Rejection) :
    (engine hash).wp OutboxAccepted (Steps may s) (recordRejection r) s n := by
  unfold recordRejection
  split
  · trivial
  split
  · trivial
  next id hid =>
  cases hfind : s.errandOf id with
  | none =>
    have hanswer : exec hash (fun _ _ => true) (.getErrand id) s = ⟨.error .noRows, [], []⟩ := by
      simp only [exec, hfind]
    exact wp_query hanswer trivial trivial
  | some e =>
    have hanswer : exec hash (fun _ _ => true) (.getErrand id) s = ⟨.ok e, [], []⟩ := by
      simp only [exec, hfind]
    refine wp_query hanswer trivial ?_
    have hkey : NoteKey (rejectionKey r.errandID r.action r.requestID) :=
      noteKey_rejectionKey r.action r.requestID (by rw [hid]; rfl)
    exact wp_insertOutboxIfAbsent hkey ⟨_, rfl⟩

theorem insertCurrentReminder_spec (kind : ReminderKind) (c : ReminderCandidate) (now : ℤ) :
    (engine hash).wp OutboxAccepted (Steps may s) (insertCurrentReminder kind c now) s n := by
  unfold insertCurrentReminder
  split
  · trivial
  next id hid =>
  have hkey : NoteKey (reminderRow kind c now).idempotencyKey :=
    noteKey_reminder kind c.version (by rw [hid]; rfl)
  rcases insertCurrentReminder_answer _ { reminderRow kind c now with errandID := id } c.status
    c.version with ⟨_, hanswer⟩ | ⟨_, hfresh, hanswer⟩
  · exact wp_query hanswer trivial .refl
  · exact wp_query hanswer trivial (.single
      (.note { reminderRow kind c now with errandID := id } hkey ⟨_, rfl⟩ hfresh rfl rfl))

/-- The statements of the fence service. -/
def Stmt.ofFences : Stmt → Bool
  | .lockSupplierForFence _ | .insertFence _ _ | .getFence _ | .closeFence _ _
  | .countActiveErrandsForSupplier _ | .insertAudit _ => true
  | _ => false

theorem ofFences_frame {q : Stmt} (hq : q.ofFences = true) (s : Tables) :
    OutboxAccepted q ((engine hash).execAlone n q s).reply ∧
      ((engine hash).storeAfter n q s).errands = s.errands ∧
      ((engine hash).storeAfter n q s).outbox = s.outbox := by
  refine ⟨?_, ?_⟩
  · cases q with
    | insertOutbox row => cases hq
    | _ => trivial
  · change ((engine hash).applyAll (exec hash (fun _ _ => true) q s).writes s).errands = s.errands ∧
      ((engine hash).applyAll (exec hash (fun _ _ => true) q s).writes s).outbox = s.outbox
    cases q with
    | lockSupplierForFence id | countActiveErrandsForSupplier id | insertAudit record =>
      exact ⟨rfl, rfl⟩
    | insertFence operationID supplierID =>
      simp only [exec]
      split <;> exact ⟨rfl, rfl⟩
    | getFence operationID =>
      simp only [exec]
      split <;> exact ⟨rfl, rfl⟩
    | closeFence operationID state =>
      simp only [exec]
      split
      · split <;> exact ⟨rfl, rfl⟩
      · exact ⟨rfl, rfl⟩
    | _ => cases hq

/-- A body made of statements of the fence service touches no errand. -/
theorem fence_spec {α : Type} {p : Tx α}
    (hp : p.Conforms (fun _ q => q.ofFences = true) (fun _ _ => True) []) :
    (engine hash).wp OutboxAccepted (Steps may s) p s n := by
  refine Engine.wp_mono (Engine.wp_invariant
    (I := fun s' => s'.errands = s.errands ∧ s'.outbox = s.outbox) ?_ hp ⟨rfl, rfl⟩) ?_
  · intro q n s' hq hs'
    obtain ⟨hreply, herrands, houtbox⟩ := ofFences_frame hq s'
    exact ⟨hreply, herrands.trans hs'.1, houtbox.trans hs'.2⟩
  · intro r s' n' h
    cases r with
    | ok a => exact .single (.idle h.1 h.2)
    | error e => trivial

theorem conforms_opsUUID {α : Type} {before : Program.Log Stmt.Reply → Stmt → Prop}
    {after : Program.Log Stmt.Reply → α → Prop} {log : Program.Log Stmt.Reply} {value : String}
    {f : String → Tx α} (h : ∀ id, scanUUID value = some id → (f id).Conforms before after log) :
    (opsUUID value >>= f).Conforms before after log := by
  unfold opsUUID
  split
  · next id hid => exact h id hid
  · trivial

theorem conforms_orOpsFail {α β : Type} {before : Program.Log Stmt.Reply → Stmt → Prop}
    {after : Program.Log Stmt.Reply → α → Prop} {log : Program.Log Stmt.Reply}
    {reply : Except DBError β} {f : β → Tx α}
    (h : ∀ b, reply = .ok b → (f b).Conforms before after log) :
    (orOpsFail reply >>= f).Conforms before after log := by
  cases reply with
  | ok b => exact h b rfl
  | error e => trivial

theorem audit_conforms {actor action operationID : String} {log : Program.Log Stmt.Reply} :
    (audit actor action operationID).Conforms (fun _ q => q.ofFences = true) (fun _ _ => True)
      log := by
  unfold audit
  split
  · trivial
  · refine ⟨rfl, fun reply => ?_⟩
    cases reply <;> trivial

theorem withActiveErrands_conforms {stored : Fence} {log : Program.Log Stmt.Reply} :
    (withActiveErrands stored).Conforms (fun _ q => q.ofFences = true) (fun _ _ => True) log :=
  conforms_opsUUID fun _ _ => ⟨rfl, fun _ => conforms_orOpsFail fun _ _ => trivial⟩

/-- The answer of a fence route and its audit row. -/
theorem answer_conforms {stored : Fence} {actor action operationID : String}
    {log : Program.Log Stmt.Reply} :
    (withActiveErrands stored >>= fun result => audit actor action operationID >>= fun _ =>
      .pure result).Conforms (fun _ q => q.ofFences = true) (fun _ _ => True) log :=
  Program.conforms_bind withActiveErrands_conforms fun _ _ _ =>
    Program.conforms_bind audit_conforms fun _ _ _ => trivial

theorem acquire_conforms (actor operationID supplierID : String) :
    (acquire actor operationID supplierID).Conforms (fun _ q => q.ofFences = true)
      (fun _ _ => True) [] := by
  refine conforms_opsUUID fun _ _ => ⟨rfl, fun _ => conforms_orOpsFail fun _ _ => ?_⟩
  refine conforms_opsUUID fun _ _ => ⟨rfl, fun _ => conforms_orOpsFail fun _ _ => ?_⟩
  refine ⟨rfl, fun _ => conforms_orOpsFail fun stored _ => ?_⟩
  split
  · trivial
  · exact answer_conforms

theorem inspect_conforms (operationID : String) :
    (inspect operationID).Conforms (fun _ q => q.ofFences = true) (fun _ _ => True) [] :=
  conforms_opsUUID fun _ _ => ⟨rfl, fun _ =>
    conforms_orOpsFail fun _ _ => withActiveErrands_conforms⟩

theorem closeFence_conforms {operation : String} {state : FenceState}
    {log : Program.Log Stmt.Reply} :
    (closeFence operation state).Conforms (fun _ q => q.ofFences = true) (fun _ _ => True) log := by
  unfold closeFence
  refine ⟨rfl, fun reply => ?_⟩
  cases reply with
  | ok stored => trivial
  | error e =>
    cases e with
    | noRows =>
      refine ⟨rfl, fun _ => conforms_orOpsFail fun current _ => ?_⟩
      split <;> trivial
    | _ => trivial

theorem close_conforms (actor action operationID : String) (state : FenceState) :
    (close actor action operationID state).Conforms (fun _ q => q.ofFences = true)
      (fun _ _ => True) [] :=
  conforms_opsUUID fun _ _ => Program.conforms_bind closeFence_conforms fun _ _ _ => answer_conforms

/-- Every job, run to its end, is a sequence of steps, and its inserts into the outbox
are accepted. -/
theorem Job.spec (hk : Keyed s) {job : Job} (hjob : job.Follows may s) :
    (engine hash).wp OutboxAccepted (Steps may s) job.body s n := by
  cases job with
  | create e t => exact wp_return (create_spec hk hjob)
  | apply t => exact wp_return (apply_spec hk hjob)
  | claimDue kind now limit decide => exact wp_return (claimDue_spec hk hjob)
  | recordRejection r => exact wp_return (recordRejection_spec r)
  | remind kind c now => exact wp_return (insertCurrentReminder_spec kind c now)
  | acquire actor operationID supplierID =>
    exact wp_return (fence_spec (acquire_conforms actor operationID supplierID))
  | inspect operationID => exact wp_return (fence_spec (inspect_conforms operationID))
  | commit actor operationID => exact wp_return (fence_spec (close_conforms actor _ operationID _))
  | release actor operationID => exact wp_return (fence_spec (close_conforms actor _ operationID _))

end Specs

/-! ## Runs -/

/-- The tables after a job that runs alone. No statement uses its serial number. -/
def Job.perform (hash : String → ℤ) (job : Job) (s : Tables) : Tables :=
  ((engine hash).atomically job.body s 0).2.1

/-- The tables that jobs reach one after another, each with transitions decided on the
tables it starts from. -/
inductive Reached (hash : String → ℤ) (may : Errand → Event → EventInput → Prop) :
    Tables → Prop where
  | start : Reached hash may {}
  | perform {s : Tables} (job : Job) (hs : Reached hash may s) (hjob : job.Follows may s) :
      Reached hash may (job.perform hash s)

section Runs

variable {hash : String → ℤ} {may : Errand → Event → EventInput → Prop} {s : Tables}

theorem Job.perform_steps (hk : Keyed s) {job : Job} (hjob : job.Follows may s) :
    ReflTransGen (Step may) s (job.perform hash s) := by
  have hspec : (engine hash).wp OutboxAccepted (Steps may s) job.body s 0 := Job.spec hk hjob
  rcases Engine.wp_atomically hspec with ⟨a, -, hsteps⟩ | ⟨e, -, hsame⟩
  · exact hsteps
  · rw [Job.perform, hsame]

theorem Keyed.steps {s' : Tables} (hk : Keyed s) (hsteps : ReflTransGen (Step may) s s') :
    Keyed s' := by
  induction hsteps with
  | refl => exact hk
  | tail _ hstep ih => exact ih.step hstep

theorem Reached.keyed (hs : Reached hash may s) : Keyed s := by
  induction hs with
  | start => exact keyed_empty
  | perform job _ hjob ih => exact ih.steps (Job.perform_steps ih hjob)

/-- Whatever jobs have run, no insert of a transition's rows into the outbox fails in the
next one, no two rows share a key, and the adjustments of each errand have ascending
sequence numbers. -/
theorem outbox_in_order (hs : Reached hash may s) (job : Job) (hjob : job.Follows may s) :
    (engine hash).AllReplies OutboxAccepted job.body s 0 ∧
      UniqueKey OutboxRow.idempotencyKey s.outbox ∧
      ∀ errandID, (s.adjustSeqs errandID).Pairwise (· < ·) :=
  ⟨Engine.wp_allReplies (Job.spec hs.keyed hjob), hs.keyed.distinct, hs.keyed.ascending⟩

/-- An errand to submit. -/
def sampleErrand : Errand where
  id := "11111111-1111-4111-8111-111111111111"
  requesterID := "auth0|requester"
  createIdempotencyKey := "create-1"
  details :=
    { supplierID := "22222222-2222-4222-8222-222222222222"
      supplierVersionID := "33333333-3333-4333-8333-333333333333"
      deliveryBuildingID := "44444444-4444-4444-8444-444444444444"
      deliveryBuildingSnapshot := .value "COM1"
      deliveryDetail := "level 2"
      items := .array ["kopi"]
      notes := ""
      contactName := "Requester"
      contactMobile := "91234567"
      reward := 5
      acceptanceDeadline := 7200000000000 }

/-- The first job of a run submits an errand. -/
theorem outbox_in_order_submit : ∃ t,
    next sampleErrand .submit ⟨.requester, "auth0|requester"⟩ {} 0 = .ok t ∧
      (engine fun _ => 0).AllReplies OutboxAccepted (Job.create sampleErrand t).body {} 0 := by
  have hsubmits : (next sampleErrand .submit ⟨.requester, "auth0|requester"⟩ {} 0).toOption.isSome =
      true := by decide
  have hstart : Reached (fun _ => 0) (fun _ _ _ => True) {} := .start
  cases hnext : next sampleErrand .submit ⟨.requester, "auth0|requester"⟩ {} 0 with
  | ok t =>
    exact ⟨t, rfl, (outbox_in_order hstart (.create sampleErrand t)
      ⟨by decide, _, _, _, hnext⟩).1⟩
  | error e =>
    rw [hnext] at hsubmits
    cases hsubmits

end Runs

end FocServices.Orders
