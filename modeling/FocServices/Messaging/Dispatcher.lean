import FocServices.Messaging.Outbox
import Mathlib.Data.List.Perm.Basic
import Mathlib.Logic.Relation

/-!
# The outbox dispatcher

Any number of dispatches run at the same time. Each has claimed a batch and handles its rows
one after another: it publishes the row, and settles the claim with a write that the lease
guards. Between any two of these steps other dispatches, the sweep for unconfirmed commands,
credit results and requeues may come. A dispatch may crash, the reply of a statement may be
lost, and a write whose reply was lost may still arrive later. The log keeps what happened.
-/

namespace FocServices.Messaging

open Txn

variable {P : Type}

/-- The writes that end a claim. -/
inductive Settlement where
  | sent
  | rescheduled (delay : ℕ) (code : String)
  | failed (code : String)
  deriving DecidableEq, Repr

def Settlement.write (s : Settlement) (r : Row P) (now : ℤ) (rows : List (Delivery P)) :
    ℕ × List (Delivery P) :=
  match s with
  | .sent => markSent r now rows
  | .rescheduled delay code => reschedule r delay code now rows
  | .failed code => markFailed r code now rows

/-- Where a dispatch is. `tried` tells whether the publisher was called for the row whose
claim is being settled. -/
inductive Phase (P : Type) where
  | ready
  | publishing (r : Row P)
  | settling (r : Row P) (s : Settlement) (tried : Bool)
  | handingBack
  | ended
  deriving DecidableEq, Repr

/-- A call of `dispatch`: the rows it has not taken yet, and where it is. -/
structure Dispatch (P : Type) where
  rows : List (Row P)
  phase : Phase P
  deriving DecidableEq, Repr

/-- What happened, as far as the lifecycle of rows is concerned. -/
inductive Note (P : Type) where
  | claimed (r : Row P)
  | called (id : ℕ) (m : Message P)
  | acked (id : ℕ)
  | refused (id : ℕ)
  | handedBack (id : ℕ)
  | resulted (key : String)
  | requeued (id : ℕ)
  | gaveUp (r : Row P) (code : String)
  deriving DecidableEq, Repr

/-- The table, the dispatches, the writes that may still arrive, and the log, newest first. -/
structure World (P : Type) where
  outbox : List (Delivery P)
  dispatches : List (Dispatch P)
  late : List (Row P × Settlement)
  log : List (Note P)
  deriving DecidableEq, Repr

def World.initial : World P := ⟨[], [], [], []⟩

inductive Act (P : Type) where
  | insert (content : Content P) (id : ℕ)
  /-- `lost` tells that the reply of the claim was lost. -/
  | claim (worker : String) (credit : Bool) (limit : ℕ) (lease now : ℤ) (locked order : List ℕ)
      (lost : Bool)
  | take (i : ℕ) (delay : ℕ)
  | published (i : ℕ)
  | refused (i : ℕ) (e : PublishError) (delay : ℕ)
  | settle (i : ℕ) (now : ℤ)
  | settleFails (i : ℕ)
  | stop (i : ℕ)
  | handBack (i : ℕ) (now : ℤ)
  | handBackFails (i : ℕ)
  | crash (i : ℕ)
  | land (j : ℕ) (now : ℤ)
  | confirm (key : String) (now : ℤ)
  | operationFailed (key code : String)
  | resend (timeout : ℤ) (limit : ℕ) (now : ℤ) (locked : List ℕ)
  | requeue (id : ℕ) (now : ℤ)
  deriving DecidableEq, Repr

/-- What `handle` decides after an error, where `delay` is what the backoff draws. -/
def afterError (max : ℕ) (r : Row P) (e : PublishError) (delay : ℕ) : Settlement :=
  if e.isUnpublishable || decide (max ≤ r.attempts) then .failed (failureCode e)
  else .rescheduled delay (failureCode e)

/-- The first part of `handle`: up to the call of the publisher. -/
def handle (codec : Codec P) (max : ℕ) (r : Row P) (delay : ℕ) : Phase P × List (Note P) :=
  -- a worker died during the last allowed attempt
  if max < r.attempts then (.settling r (.failed codeAttemptsExhausted) false, [])
  else match messageFromOutbox codec r.content with
    | .ok m => (.publishing r, [.called r.id m])
    | .error e => (.settling r (afterError max r e delay) false, [])

/-- A dispatcher gives a row up when its write changes the row. -/
def giveUp (r : Row P) (s : Settlement) (changed : ℕ) : List (Note P) :=
  match s with
  | .failed code => if 0 < changed then [.gaveUp r code] else []
  | _ => []

namespace World

/-- Dispatch `i` goes on. -/
def move (w : World P) (i : ℕ) (d : Dispatch P) (notes : List (Note P)) : World P :=
  { w with dispatches := w.dispatches.set i d, log := notes ++ w.log }

/-- Execute a write that settles a claim. -/
def write (w : World P) (r : Row P) (s : Settlement) (now : ℤ) : World P :=
  { w with
    outbox := (s.write r now w.outbox).2
    log := giveUp r s (s.write r now w.outbox).1 ++ w.log }

end World

variable (codec : Codec P) (max : ℕ)

def step (w : World P) : Act P → Option (World P)
  | .insert content id => (insertOutbox content id w.outbox).map fun rows => { w with outbox := rows }
  | .claim worker credit limit lease now locked order lost =>
    if worker = "" ∨ limit < 1 ∨ 500 < limit ∨ lease < 1 ∨
        order.isPerm (claimIDs credit limit now locked w.outbox) = false then none
    else
      let rows := updateIDs order (Delivery.lease worker (now + lease)) w.outbox
      let batch := returned order rows
      some { w with
        outbox := rows
        dispatches := if lost then w.dispatches else w.dispatches ++ [⟨batch, .ready⟩]
        log := batch.map .claimed ++ w.log }
  | .take i delay =>
    match w.dispatches[i]? with
    | some ⟨r :: rest, .ready⟩ =>
      some (w.move i ⟨rest, (handle codec max r delay).1⟩ (handle codec max r delay).2)
    | _ => none
  | .published i =>
    match w.dispatches[i]? with
    | some ⟨rest, .publishing r⟩ => some (w.move i ⟨rest, .settling r .sent true⟩ [.acked r.id])
    | _ => none
  | .refused i e delay =>
    match w.dispatches[i]? with
    | some ⟨rest, .publishing r⟩ =>
      some (w.move i ⟨rest, .settling r (afterError max r e delay) true⟩ [.refused r.id])
    | _ => none
  | .settle i now =>
    match w.dispatches[i]? with
    | some ⟨rest, .settling r s _⟩ => some ((w.write r s now).move i ⟨rest, .ready⟩ [])
    | _ => none
  | .settleFails i =>
    -- the rest of the batch stays leased
    match w.dispatches[i]? with
    | some ⟨_, .settling r s _⟩ =>
      some ({ w with late := (r, s) :: w.late }.move i ⟨[], .ended⟩ [])
    | _ => none
  | .stop i =>
    match w.dispatches[i]? with
    | some ⟨rows, .ready⟩ => some (w.move i ⟨rows, .handingBack⟩ [])
    | _ => none
  | .handBack i now =>
    match w.dispatches[i]? with
    | some ⟨r :: rest, .handingBack⟩ =>
      some ((w.write r (.rescheduled 0 codeWorkerStopped) now).move i ⟨rest, .handingBack⟩
        [.handedBack r.id])
    | _ => none
  | .handBackFails i =>
    match w.dispatches[i]? with
    | some ⟨r :: rest, .handingBack⟩ =>
      some ({ w with late := (r, .rescheduled 0 codeWorkerStopped) :: w.late }.move i
        ⟨rest, .handingBack⟩ [])
    | _ => none
  | .crash i =>
    match w.dispatches[i]? with
    | some _ => some (w.move i ⟨[], .ended⟩ [])
    | none => none
  | .land j now =>
    match w.late[j]? with
    | some rs => some ({ w with late := w.late.eraseIdx j }.write rs.1 rs.2 now)
    | none => none
  | .confirm key now =>
    if key = "" then none
    else some { w with outbox := confirmByKey key now w.outbox, log := .resulted key :: w.log }
  | .operationFailed key code =>
    if key = "" ∨ code = "" then none
    else some { w with outbox := markFailedByKey key code w.outbox, log := .resulted key :: w.log }
  | .resend timeout limit now locked =>
    if timeout < 1 ∨ limit < 1 ∨ 500 < limit then none
    else some { w with outbox := resendUnconfirmed timeout limit now locked w.outbox }
  | .requeue id now =>
    if w.outbox.any fun d => d.id == id && d.status == .failed then
      some { w with outbox := requeue id now w.outbox, log := .requeued id :: w.log }
    else none

def steps (w : World P) : List (Act P) → Option (World P)
  | [] => some w
  | act :: acts => (step codec max w act).bind fun w' => steps w' acts

/-- Runs from one state to another. -/
def Run (w w' : World P) : Prop :=
  Relation.ReflTransGen (fun w w' => ∃ act, step codec max w act = some w') w w'

/-! ## Everything a step can do -/

/-- How a dispatch goes on without a statement. -/
inductive Moves : Act P → Dispatch P → Dispatch P → List (Note P) → Prop
  | exhausted {i delay r rest} (h : max < r.attempts) :
    Moves (.take i delay) ⟨r :: rest, .ready⟩
      ⟨rest, .settling r (.failed codeAttemptsExhausted) false⟩ []
  | unpublishable {i delay r rest e} (h : r.attempts ≤ max)
    (herror : messageFromOutbox codec r.content = .error e) :
    Moves (.take i delay) ⟨r :: rest, .ready⟩ ⟨rest, .settling r (afterError max r e delay) false⟩ []
  | publish {i delay r rest m} (h : r.attempts ≤ max)
    (hok : messageFromOutbox codec r.content = .ok m) :
    Moves (.take i delay) ⟨r :: rest, .ready⟩ ⟨rest, .publishing r⟩ [.called r.id m]
  | published {i r rest} :
    Moves (.published i) ⟨rest, .publishing r⟩ ⟨rest, .settling r .sent true⟩ [.acked r.id]
  | refused {i e delay r rest} :
    Moves (.refused i e delay) ⟨rest, .publishing r⟩
      ⟨rest, .settling r (afterError max r e delay) true⟩ [.refused r.id]
  | stop {i rows} : Moves (.stop i) ⟨rows, .ready⟩ ⟨rows, .handingBack⟩ []
  | crash {i d} : Moves (.crash i) d ⟨[], .ended⟩ []

/-- How a dispatch settles a claim, and what is noted besides giving the row up. -/
inductive Settles : Act P → ℤ → Dispatch P → Row P → Settlement → Dispatch P → List (Note P) → Prop
  | settle {i now r s tried rest} :
    Settles (.settle i now) now ⟨rest, .settling r s tried⟩ r s ⟨rest, .ready⟩ []
  | handBack {i now r rest} :
    Settles (.handBack i now) now ⟨r :: rest, .handingBack⟩ r (.rescheduled 0 codeWorkerStopped)
      ⟨rest, .handingBack⟩ [.handedBack r.id]

/-- How a dispatch leaves a write behind whose reply was lost. -/
inductive Abandons : Act P → Dispatch P → Row P → Settlement → Dispatch P → Prop
  | settle {i r s tried rest} : Abandons (.settleFails i) ⟨rest, .settling r s tried⟩ r s ⟨[], .ended⟩
  | handBack {i r rest} :
    Abandons (.handBackFails i) ⟨r :: rest, .handingBack⟩ r (.rescheduled 0 codeWorkerStopped)
      ⟨rest, .handingBack⟩

inductive Step : World P → Act P → World P → Prop
  | insert {w content id rows} (h : insertOutbox content id w.outbox = some rows) :
    Step w (.insert content id) { w with outbox := rows }
  | claim {w worker credit limit lease now locked order lost}
    (horder : order.Perm (claimIDs credit limit now locked w.outbox)) :
    Step w (.claim worker credit limit lease now locked order lost) { w with
      outbox := updateIDs order (Delivery.lease worker (now + lease)) w.outbox
      dispatches := if lost then w.dispatches else w.dispatches ++
        [⟨returned order (updateIDs order (Delivery.lease worker (now + lease)) w.outbox), .ready⟩]
      log := (returned order (updateIDs order (Delivery.lease worker (now + lease)) w.outbox)).map
        .claimed ++ w.log }
  | move {w act before d d' after notes} (hd : w.dispatches = before ++ d :: after)
    (h : Moves codec max act d d' notes) :
    Step w act { w with dispatches := before ++ d' :: after, log := notes ++ w.log }
  | settle {w act now before d r s d' after notes} (hd : w.dispatches = before ++ d :: after)
    (h : Settles act now d r s d' notes) :
    Step w act { w with
      outbox := (s.write r now w.outbox).2
      dispatches := before ++ d' :: after
      log := notes ++ (giveUp r s (s.write r now w.outbox).1 ++ w.log) }
  | abandon {w act before d r s d' after} (hd : w.dispatches = before ++ d :: after)
    (h : Abandons act d r s d') :
    Step w act { w with dispatches := before ++ d' :: after, late := (r, s) :: w.late }
  | land {w j now r s} (hj : w.late[j]? = some (r, s)) :
    Step w (.land j now) { w with
      outbox := (s.write r now w.outbox).2
      late := w.late.eraseIdx j
      log := giveUp r s (s.write r now w.outbox).1 ++ w.log }
  | confirm {w key now} :
    Step w (.confirm key now)
      { w with outbox := confirmByKey key now w.outbox, log := .resulted key :: w.log }
  | operationFailed {w key code} :
    Step w (.operationFailed key code)
      { w with outbox := markFailedByKey key code w.outbox, log := .resulted key :: w.log }
  | resend {w timeout limit now locked} :
    Step w (.resend timeout limit now locked)
      { w with outbox := resendUnconfirmed timeout limit now locked w.outbox }
  | requeue {w id now} (h : ∃ d ∈ w.outbox, d.id = id ∧ d.status = .failed) :
    Step w (.requeue id now)
      { w with outbox := requeue id now w.outbox, log := .requeued id :: w.log }

theorem exists_split {α : Type} {l : List α} {i : ℕ} {a : α} (h : l[i]? = some a) :
    ∃ before after, l = before ++ a :: after ∧ ∀ b, l.set i b = before ++ b :: after := by
  induction l generalizing i with
  | nil => cases h
  | cons x l ih =>
    cases i with
    | zero =>
      cases Option.some.inj h
      exact ⟨[], l, rfl, fun _ => rfl⟩
    | succ i =>
      obtain ⟨before, after, hl, hset⟩ := ih h
      exact ⟨x :: before, after, congrArg (x :: ·) hl, fun b => congrArg (x :: ·) (hset b)⟩

variable {codec max}

theorem handle_moves (i : ℕ) (r : Row P) (rest : List (Row P)) (delay : ℕ) :
    Moves codec max (.take i delay) ⟨r :: rest, .ready⟩ ⟨rest, (handle codec max r delay).1⟩
      (handle codec max r delay).2 := by
  unfold handle
  split
  · next h => exact .exhausted h
  · next h =>
    split
    · next m hok => exact .publish (Nat.le_of_not_lt h) hok
    · next e herror => exact .unpublishable (Nat.le_of_not_lt h) herror

theorem move_of_split {w : World P} {act : Act P} {i : ℕ} {d d' : Dispatch P}
    {notes : List (Note P)} (hi : w.dispatches[i]? = some d) (h : Moves codec max act d d' notes) :
    Step codec max w act (w.move i d' notes) := by
  obtain ⟨before, after, hd, hset⟩ := exists_split hi
  rw [World.move, hset]
  exact .move hd h

/-- The inversion of a step. -/
theorem step_sound {w w' : World P} {act : Act P} (h : step codec max w act = some w') :
    Step codec max w act w' := by
  cases act with
  | insert content id =>
    obtain ⟨rows, hrows, rfl⟩ := Option.map_eq_some_iff.mp h
    exact .insert hrows
  | claim worker credit limit lease now locked order lost =>
    simp only [step] at h
    split at h
    · cases h
    · next hparams =>
      cases Option.some.inj h
      simp only [not_or, Bool.not_eq_false] at hparams
      exact .claim (List.isPerm_iff.mp hparams.2.2.2.2)
  | take i delay =>
    simp only [step] at h
    split at h
    · next r rest hi =>
      cases Option.some.inj h
      exact move_of_split hi (handle_moves i r rest delay)
    · cases h
  | published i =>
    simp only [step] at h
    split at h
    · next rest r hi =>
      cases Option.some.inj h
      exact move_of_split hi .published
    · cases h
  | refused i e delay =>
    simp only [step] at h
    split at h
    · next rest r hi =>
      cases Option.some.inj h
      exact move_of_split hi .refused
    · cases h
  | settle i now =>
    simp only [step] at h
    split at h
    · next rest r s tried hi =>
      cases Option.some.inj h
      obtain ⟨before, after, hd, hset⟩ := exists_split hi
      simp only [World.move, World.write, hset]
      exact .settle hd .settle
    · cases h
  | settleFails i =>
    simp only [step] at h
    split at h
    · next rest r s tried hi =>
      cases Option.some.inj h
      obtain ⟨before, after, hd, hset⟩ := exists_split hi
      simp only [World.move, hset]
      exact .abandon hd .settle
    · cases h
  | stop i =>
    simp only [step] at h
    split at h
    · next rows hi =>
      cases Option.some.inj h
      exact move_of_split hi .stop
    · cases h
  | handBack i now =>
    simp only [step] at h
    split at h
    · next r rest hi =>
      cases Option.some.inj h
      obtain ⟨before, after, hd, hset⟩ := exists_split hi
      simp only [World.move, World.write, hset]
      exact .settle hd .handBack
    · cases h
  | handBackFails i =>
    simp only [step] at h
    split at h
    · next r rest hi =>
      cases Option.some.inj h
      obtain ⟨before, after, hd, hset⟩ := exists_split hi
      simp only [World.move, hset]
      exact .abandon hd .handBack
    · cases h
  | crash i =>
    simp only [step] at h
    split at h
    · next d hi =>
      cases Option.some.inj h
      exact move_of_split hi .crash
    · cases h
  | land j now =>
    simp only [step] at h
    split at h
    · next rs hj =>
      cases Option.some.inj h
      exact .land hj
    · cases h
  | confirm key now =>
    simp only [step] at h
    split at h
    · cases h
    · cases Option.some.inj h
      exact .confirm
  | operationFailed key code =>
    simp only [step] at h
    split at h
    · cases h
    · cases Option.some.inj h
      exact .operationFailed
  | resend timeout limit now locked =>
    simp only [step] at h
    split at h
    · cases h
    · cases Option.some.inj h
      exact .resend
  | requeue id now =>
    simp only [step] at h
    split at h
    · next hfailed =>
      cases Option.some.inj h
      obtain ⟨d, hd, hcond⟩ := List.any_eq_true.mp hfailed
      simp only [Bool.and_eq_true, beq_iff_eq] at hcond
      exact .requeue ⟨d, hd, hcond⟩
    · cases h

theorem run_of_steps {w w' : World P} {acts : List (Act P)}
    (h : steps codec max w acts = some w') : Run codec max w w' := by
  induction acts generalizing w with
  | nil =>
    cases Option.some.inj h
    exact .refl
  | cons act acts ih =>
    obtain ⟨v, hv, hrest⟩ := Option.bind_eq_some_iff.mp h
    exact .head ⟨act, hv⟩ (ih hrest)

end FocServices.Messaging
