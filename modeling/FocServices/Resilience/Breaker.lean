import Mathlib.Algebra.Group.Nat.Defs
import Mathlib.Data.Int.Notation
import Mathlib.Data.List.Basic
import Mathlib.Tactic.Common

/-!
# The circuit breaker

Calls to a dependency are admitted by `allow` and reported by `record`, each under the lock
of the breaker. Calls overlap and end in any order. A history lists what happened in the
breaker's own terms (who was admitted, what was recorded, when the state changed); what the
breaker keeps of it is a count, a flag and a generation number.
-/

namespace FocServices.Resilience

/-! ## The breaker -/

/-- `State`. -/
inductive CircuitState where
  | closed
  | open
  | halfOpen
  deriving DecidableEq, Repr

/-- How a finished call affects the breaker. -/
inductive Outcome where
  | success
  | failure
  | ignored
  deriving DecidableEq, Repr

/-- `BreakerConfig`. The decision whether an error counts may be missing, and may panic. -/
structure BreakerConfig (ε : Type) where
  name : String
  failureThreshold : ℤ
  coolDown : ℤ
  isFailure : Option (ε → Option Bool) := none

def BreakerConfig.validate {ε : Type} (c : BreakerConfig ε) : Except String Unit :=
  if c.name = "" then .error "resilience: breaker name is required"
  else if c.failureThreshold < 1 then
    .error "resilience: breaker failure threshold must be at least 1"
  else if c.coolDown ≤ 0 then .error "resilience: breaker cool-down must be positive"
  else .ok ()

/-- The fields of `Breaker` that its lock protects. The generation is a `uint64`, which
`setState` lets wrap around. -/
structure Breaker where
  state : CircuitState := .closed
  failures : ℕ := 0
  openedAt : ℤ := 0
  trial : Bool := false
  generation : ℕ := 0
  deriving DecidableEq, Repr

/-- An admitted call. -/
structure Ticket where
  generation : ℕ
  trial : Bool := false
  deriving DecidableEq, Repr

section Breaker

variable {ε : Type} (cfg : BreakerConfig ε) (now : ℤ)

/-- `setStateLocked`. -/
def Breaker.setState (b : Breaker) (s : CircuitState) : Breaker where
  state := s
  failures := 0
  openedAt := if s = .open then now else b.openedAt
  trial := false
  generation := (b.generation + 1) % 2 ^ 64

/-- `coolDownLocked`. -/
def Breaker.coolDown (b : Breaker) : Breaker :=
  if b.state = .open ∧ b.openedAt + cfg.coolDown ≤ now then b.setState now .halfOpen else b

/-- `allow`; no ticket stands for `ErrCircuitOpen`. -/
def Breaker.allow (b : Breaker) : Option Ticket × Breaker :=
  let b := b.coolDown cfg now
  match b.state with
  | .open => (none, b)
  | .halfOpen =>
    if b.trial then (none, b)
    else (some { generation := b.generation, trial := true }, { b with trial := true })
  | .closed => (some { generation := b.generation }, b)

/-- `record`. -/
def Breaker.record (b : Breaker) (t : Ticket) (o : Outcome) : Breaker :=
  if t.generation ≠ b.generation then b
  else if t.trial then
    match o with
    | .success => b.setState now .closed
    | .failure => b.setState now .open
    | .ignored => { b with trial := false }
  else
    match o with
    | .success => { b with failures := 0 }
    | .failure =>
      if cfg.failureThreshold ≤ (b.failures + 1 : ℕ) then b.setState now .open
      else { b with failures := b.failures + 1 }
    | .ignored => b

end Breaker

/-! ## Calls -/

/-- How the function of a call ends: it panics, or it returns with or without an error,
while the caller's context, or the one of the call, is done or not. -/
inductive Ending (ε : Type) where
  | panicked
  | returned (err : Option ε) (ctxDone callCtxDone : Bool)
  deriving DecidableEq, Repr

/-- `Breaker.isFailure`; `none` if the decision panics. -/
def BreakerConfig.counts {ε : Type} (cfg : BreakerConfig ε) (err : ε) : Option Bool :=
  match cfg.isFailure with
  | none => some true
  | some isFailure => isFailure err

/-- The outcome that the `switch` of `Do` records, if it comes to that. -/
def BreakerConfig.outcome {ε : Type} (cfg : BreakerConfig ε) (err : Option ε)
    (ctxDone callCtxDone : Bool) : Option Outcome :=
  match err with
  | none => some .success
  | some err =>
    if ctxDone then some .ignored
    else if callCtxDone then some .failure
    else (cfg.counts err).map fun counts => if counts then .failure else .ignored

/-- What the deferred function of `Do` records. -/
def deferredRecords (recorded : Bool) : List Outcome := if recorded then [] else [.failure]

/-- The outcomes that `Do` records after its function has ended, in order. `recorded` is set
before the `switch`, and the deferred function runs whether or not the `switch` panics. -/
def BreakerConfig.records {ε : Type} (cfg : BreakerConfig ε) : Ending ε → List Outcome
  | .panicked => deferredRecords false
  | .returned err ctxDone callCtxDone =>
    (cfg.outcome err ctxDone callCtxDone).toList ++ deferredRecords true

/-- Where an admitted call stands: its function runs, or it has these outcomes to record. -/
inductive Phase where
  | running
  | recording (outcomes : List Outcome)
  deriving DecidableEq, Repr

/-- An admitted call. -/
structure Flight where
  ticket : Ticket
  phase : Phase := .running
  deriving DecidableEq, Repr

/-- The call is not over. -/
def Flight.unfinished (f : Flight) : Bool := f.phase ≠ .recording []

/-! ## Histories -/

/-- What happens in a breaker. Calls are numbered in the order of their admission. -/
inductive Item where
  | admitted (call : ℕ) (trial : Bool) (time : ℤ)
  | refused (time : ℤ)
  | recorded (call : ℕ) (outcome : Outcome)
  | changed (state : CircuitState) (time : ℤ)
  deriving DecidableEq, Repr

def Item.isChange : Item → Bool
  | .changed _ _ => true
  | _ => false

/-- A history, newest item first. -/
abbrev History := List Item

namespace History

/-- What happened since the last change of the state. -/
def period (h : History) : History := h.takeWhile fun i => !i.isChange

/-- The number of state changes. -/
def changes (h : History) : ℕ := h.countP Item.isChange

/-- The call was admitted since the last change of the state. -/
def admits (h : History) (call : ℕ) : Bool :=
  h.period.any fun i => match i with
    | .admitted call' _ _ => call' = call
    | _ => false

/-- The outcomes recorded since the last change of the state, of calls admitted since then. -/
def outcomes (h : History) : List Outcome :=
  h.period.filterMap fun i => match i with
    | .recorded call o => if h.admits call then some o else none
    | _ => none

/-- The failures among them since the last success. -/
def streak (h : History) : ℕ := (h.outcomes.takeWhile (· ≠ .success)).count .failure

/-- How often an outcome of the call was recorded. -/
def recordings (h : History) (call : ℕ) : ℕ :=
  h.countP fun i => match i with
    | .recorded call' _ => call' = call
    | _ => false

end History

/-! ## The breaker among its calls -/

/-- A breaker with its clock, the calls it has admitted and its history. -/
structure Circuit where
  breaker : Breaker := {}
  clock : ℤ := 0
  calls : List Flight := []
  history : History := []
  deriving DecidableEq, Repr

/-- What may happen next. Each event comes at a time of the clock. -/
inductive CircuitEvent (ε : Type) where
  | begin
  | observe
  | ends (call : ℕ) (ending : Ending ε)
  | record (call : ℕ)
  deriving DecidableEq, Repr

/-- The change of the state that took place, if one did. -/
def changeItem (before after : Breaker) (now : ℤ) : History :=
  if before.state = after.state then [] else [.changed after.state now]

section Circuit

variable {ε : Type} (cfg : BreakerConfig ε)

/-- One event at a time. `none` if it cannot happen. -/
def Circuit.step (s : Circuit) (now : ℤ) (ev : CircuitEvent ε) : Option Circuit :=
  if now < s.clock then none
  else match ev with
    | .begin =>
      let cooled := s.breaker.coolDown cfg now
      let history := changeItem s.breaker cooled now ++ s.history
      match s.breaker.allow cfg now with
      | (none, b) =>
        some { s with breaker := b, clock := now, history := .refused now :: history }
      | (some t, b) =>
        some { breaker := b, clock := now, calls := s.calls ++ [{ ticket := t }],
               history := .admitted s.calls.length t.trial now :: history }
    | .observe =>
      let cooled := s.breaker.coolDown cfg now
      some { s with
        breaker := cooled, clock := now, history := changeItem s.breaker cooled now ++ s.history }
    | .ends call ending =>
      match s.calls[call]? with
      | some ⟨t, .running⟩ =>
        some { s with clock := now, calls := s.calls.set call ⟨t, .recording (cfg.records ending)⟩ }
      | _ => none
    | .record call =>
      match s.calls[call]? with
      | some ⟨t, .recording (o :: rest)⟩ =>
        let b := s.breaker.record cfg now t o
        some { breaker := b, clock := now, calls := s.calls.set call ⟨t, .recording rest⟩,
               history := changeItem s.breaker b now ++ .recorded call o :: s.history }
      | _ => none

/-- `IsFailure` does not panic on the error that the call ends with. -/
def Ending.Tame : Ending ε → Prop
  | .returned (some err) false false => cfg.counts err ≠ none
  | _ => True

def CircuitEvent.Tame : CircuitEvent ε → Prop
  | .ends _ ending => ending.Tame cfg
  | _ => True

/-- The circuits that events lead to in which no decision about an error panics, and fewer
state changes than the generation can count. -/
inductive Reached : Circuit → Prop where
  | start : Reached {}
  | step {s s' : Circuit} {now : ℤ} {ev : CircuitEvent ε} (h : Reached s)
      (hstep : s.step cfg now ev = some s') (htame : ev.Tame cfg)
      (hfew : s'.history.changes < 2 ^ 64) : Reached s'

end Circuit

/-! ## Histories one item at a time -/

namespace History

variable {h : History} {call call' : ℕ} {trial : Bool} {time : ℤ} {o : Outcome} {i : Item}
  {state : CircuitState}

theorem period_cons (hi : i.isChange = false) : period (i :: h) = i :: h.period := by
  simp [period, hi]

@[simp] theorem changes_changed : changes (.changed state time :: h) = h.changes + 1 :=
  List.countP_cons_of_pos rfl

theorem changes_cons (hi : i.isChange = false) : changes (i :: h) = h.changes :=
  List.countP_cons_of_neg (by simp [hi])

@[simp] theorem admits_changed : admits (.changed state time :: h) call = false := rfl

@[simp] theorem admits_refused : admits (.refused time :: h) call = h.admits call := by
  simp [admits, period_cons (i := .refused time) rfl]

@[simp] theorem admits_recorded : admits (.recorded call' o :: h) call = h.admits call := by
  simp [admits, period_cons (i := .recorded call' o) rfl]

@[simp] theorem admits_admitted :
    admits (.admitted call' trial time :: h) call = (call' = call || h.admits call) := by
  simp [admits, period_cons (i := .admitted call' trial time) rfl]

@[simp] theorem streak_changed : streak (.changed state time :: h) = 0 := rfl

@[simp] theorem streak_refused : streak (.refused time :: h) = h.streak := by
  simp [streak, outcomes, period_cons (i := .refused time) rfl]

/-- Admitting a call of which nothing is recorded does not change what counts. -/
theorem streak_admitted (hnew : ∀ o, .recorded call o ∉ h) :
    streak (.admitted call trial time :: h) = h.streak := by
  have hperiod : ∀ i ∈ h.period, i ∈ h := fun i hi => (List.takeWhile_prefix _).subset hi
  have houtcomes : outcomes (.admitted call trial time :: h) = h.outcomes := by
    simp only [outcomes, period_cons (i := .admitted call trial time) rfl, admits_admitted]
    rw [List.filterMap_cons]
    refine List.filterMap_congr fun i hi => ?_
    cases i with
    | recorded call' o =>
      have hne : call ≠ call' := fun heq => hnew o (heq ▸ hperiod _ hi)
      simp [hne]
    | _ => rfl
  rw [streak, houtcomes, streak]

theorem outcomes_recorded : outcomes (.recorded call o :: h) =
    if h.admits call then o :: h.outcomes else h.outcomes := by
  simp only [outcomes, period_cons (i := .recorded call o) rfl, admits_recorded,
    List.filterMap_cons]
  split <;> simp_all

theorem streak_recorded_stale (hstale : h.admits call = false) :
    streak (.recorded call o :: h) = h.streak := by
  simp [streak, outcomes_recorded, hstale]

theorem streak_recorded (hcurrent : h.admits call = true) :
    streak (.recorded call o :: h) =
      match o with
      | .success => 0
      | .failure => h.streak + 1
      | .ignored => h.streak := by
  cases o <;> simp [streak, outcomes_recorded, hcurrent]

end History

end FocServices.Resilience
