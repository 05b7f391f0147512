import FocServices.Resilience.Breaker

/-!
# What the circuit breaker guarantees

One invariant ties the count, the flag and the generation of the breaker to its calls and its
history. What each event does follows from it, and what holds at every moment.
-/

namespace FocServices.Resilience

/-! ## The invariant -/

/-- An unfinished trial. -/
def Flight.tries (f : Flight) : Bool := f.ticket.trial && f.unfinished

/-- Admissions after an opening come no earlier than the end of the cool-down. -/
def History.Cooled (coolDown : ℤ) (h : History) : Prop :=
  h.Pairwise fun later earlier => ∀ call trial time opened,
    later = .admitted call trial time → earlier = .changed .open opened → opened + coolDown ≤ time

/-- How often the outcome of a call is recorded before it is over. -/
def Phase.due : Phase → ℕ
  | .running => 1
  | .recording outcomes => outcomes.length

/-- What holds between the breaker, its calls and its history. -/
structure Circuit.Kept {ε : Type} (cfg : BreakerConfig ε) (s : Circuit) : Prop where
  generation : s.breaker.generation = s.history.changes
  older : ∀ f ∈ s.calls, f.ticket.generation ≤ s.breaker.generation
  current : ∀ call f, s.calls[call]? = some f →
    (f.ticket.generation = s.breaker.generation ↔ s.history.admits call = true)
  place : ∀ f ∈ s.calls, f.ticket.generation = s.breaker.generation →
    s.breaker.state = if f.ticket.trial then .halfOpen else .closed
  failures : s.breaker.failures = if s.breaker.state = .closed then s.history.streak else 0
  trials : ∀ f ∈ s.calls, f.tries = true → f.ticket.generation = s.breaker.generation
  single : s.calls.countP Flight.tries = if s.breaker.trial then 1 else 0
  opened : ∀ time, .changed .open time ∈ s.history →
    s.breaker.state = .open ∧ time = s.breaker.openedAt ∨ time + cfg.coolDown ≤ s.clock
  cooled : s.history.Cooled cfg.coolDown
  known : ∀ call o, .recorded call o ∈ s.history → call < s.calls.length
  once : ∀ call f, s.calls[call]? = some f → s.history.recordings call + f.phase.due = 1

section Kept

variable {ε : Type} {cfg : BreakerConfig ε} {s s' : Circuit} {now : ℤ} {ev : CircuitEvent ε}

theorem kept_start : Circuit.Kept cfg {} := by
  constructor <;> simp [History.changes, History.streak, History.outcomes, History.period,
    History.Cooled]

/-- The flag is up while a trial is unfinished. -/
theorem Circuit.Kept.trial_iff (h : s.Kept cfg) :
    s.breaker.trial = true ↔ ∃ f ∈ s.calls, f.tries = true := by
  have hsingle := h.single
  rw [← List.countP_pos_iff, hsingle]
  cases s.breaker.trial <;> simp

/-- A change of the state, while no trial is unfinished. -/
theorem Circuit.Kept.change (h : s.Kept cfg) (hnow : s.clock ≤ now) (state : CircuitState)
    (hnone : ∀ f ∈ s.calls, f.tries = false) (hfew : s.history.changes + 1 < 2 ^ 64)
    (hleft : s.breaker.state = .open → s.breaker.openedAt + cfg.coolDown ≤ now) :
    Circuit.Kept cfg { s with
      breaker := s.breaker.setState now state
      clock := now
      history := .changed state now :: s.history } := by
  have hgeneration : (s.breaker.setState now state).generation = s.breaker.generation + 1 := by
    change (s.breaker.generation + 1) % 2 ^ 64 = _
    rw [h.generation]
    exact Nat.mod_eq_of_lt hfew
  have hlater : ∀ f ∈ s.calls,
      f.ticket.generation ≠ (s.breaker.setState now state).generation := by
    intro f hf
    have hle := h.older f hf
    rw [hgeneration]
    omega
  constructor
  case generation =>
    rw [hgeneration, h.generation]
    exact History.changes_changed.symm
  case older =>
    intro f hf
    have hle := h.older f hf
    change f.ticket.generation ≤ (s.breaker.setState now state).generation
    omega
  case current =>
    intro call f hf
    exact iff_of_false (hlater f (List.mem_of_getElem? hf)) (by simp)
  case place => exact fun f hf heq => absurd heq (hlater f hf)
  case failures =>
    change 0 = if state = .closed then 0 else 0
    split <;> rfl
  case trials =>
    intro f hf htries
    rw [hnone f hf] at htries
    cases htries
  case single => exact List.countP_eq_zero.mpr fun f hf => by simp [hnone f hf]
  case opened =>
    intro time htime
    rcases List.mem_cons.mp htime with heq | hold
    · cases heq
      exact Or.inl ⟨rfl, rfl⟩
    · right
      rcases h.opened time hold with ⟨hopen, rfl⟩ | hle
      · exact hleft hopen
      · exact Int.le_trans hle hnow
  case cooled =>
    refine List.pairwise_cons.mpr ⟨fun _ _ call trial time opened hlater => ?_, h.cooled⟩
    cases hlater
  case known =>
    intro call o hmem
    rcases List.mem_cons.mp hmem with heq | hold
    · cases heq
    · exact h.known call o hold
  case once =>
    intro call f hf
    have hrecordings : History.recordings (.changed state now :: s.history) call =
      s.history.recordings call := List.countP_cons_of_neg (by simp)
    change History.recordings (.changed state now :: s.history) call + _ = 1
    rw [hrecordings]
    exact h.once call f hf

/-- An open breaker has no unfinished trial. -/
theorem Circuit.Kept.idle (h : s.Kept cfg) (hstate : s.breaker.state ≠ .halfOpen) :
    ∀ f ∈ s.calls, f.tries = false := by
  intro f hf
  by_contra htries
  have htries : f.tries = true := by simpa using htries
  have hplace := h.place f hf (h.trials f hf htries)
  rw [if_pos (Bool.and_eq_true_iff.mp htries).1] at hplace
  exact hstate hplace

/-- Time passes. -/
theorem Circuit.Kept.wait (h : s.Kept cfg) (hnow : s.clock ≤ now) :
    Circuit.Kept cfg { s with clock := now } :=
  { h with opened := fun time htime => (h.opened time htime).imp_right fun hle =>
      Int.le_trans hle hnow }

theorem changeItem_self (b : Breaker) : changeItem b b now = [] := if_pos rfl

/-- Time passes, and the breaker may become half-open. -/
theorem Circuit.Kept.cool (h : s.Kept cfg) (hnow : s.clock ≤ now)
    (hfew : (changeItem s.breaker (s.breaker.coolDown cfg now) now ++ s.history).changes <
      2 ^ 64) :
    Circuit.Kept cfg { s with
      breaker := s.breaker.coolDown cfg now
      clock := now
      history := changeItem s.breaker (s.breaker.coolDown cfg now) now ++ s.history } := by
  unfold Breaker.coolDown at hfew ⊢
  split at hfew
  · next hopen =>
    rw [if_pos hopen]
    obtain ⟨hopen, helapsed⟩ := hopen
    have hitem : changeItem s.breaker (s.breaker.setState now .halfOpen) now =
        [.changed .halfOpen now] := by simp [changeItem, Breaker.setState, hopen]
    rw [hitem, List.singleton_append, History.changes_changed] at hfew
    rw [hitem]
    exact h.change hnow .halfOpen (h.idle (by simp [hopen])) hfew fun _ => helapsed
  · next hstill =>
    rw [if_neg hstill, changeItem_self]
    exact h.wait hnow

theorem Circuit.Kept.refuse (h : s.Kept cfg) :
    Circuit.Kept cfg { s with history := .refused s.clock :: s.history } := by
  have hmem : ∀ {i : Item}, i ∈ Item.refused s.clock :: s.history → i ≠ .refused s.clock →
      i ∈ s.history := fun hi hne => (List.mem_cons.mp hi).resolve_left hne
  refine { h with generation := ?_, current := ?_, failures := ?_, opened := ?_, cooled := ?_,
                  known := ?_, once := ?_ }
  · exact h.generation.trans (History.changes_cons rfl).symm
  · intro call f hf
    rw [History.admits_refused]
    exact h.current call f hf
  · rw [History.streak_refused]
    exact h.failures
  · exact fun time htime => h.opened time (hmem htime (by simp))
  · refine List.pairwise_cons.mpr ⟨fun _ _ call trial time opened hlater => ?_, h.cooled⟩
    cases hlater
  · exact fun call o hrecorded => h.known call o (hmem hrecorded (by simp))
  · intro call f hf
    have hrecordings : History.recordings (.refused s.clock :: s.history) call =
      s.history.recordings call := List.countP_cons_of_neg (by simp)
    rw [hrecordings]
    exact h.once call f hf

/-- A call is admitted, as a trial or not. -/
theorem Circuit.Kept.admitted (h : s.Kept cfg) (trial : Bool)
    (hplace : s.breaker.state = if trial then .halfOpen else .closed)
    (hfree : trial = true → s.breaker.trial = false) :
    Circuit.Kept cfg { s with
      breaker := { s.breaker with trial := s.breaker.trial || trial }
      calls := s.calls ++ [{ ticket := { generation := s.breaker.generation, trial := trial } }]
      history := .admitted s.calls.length trial s.clock :: s.history } := by
  have hmem : ∀ {i : Item}, i ∈ Item.admitted s.calls.length trial s.clock :: s.history →
      i ≠ .admitted s.calls.length trial s.clock → i ∈ s.history :=
    fun hi hne => (List.mem_cons.mp hi).resolve_left hne
  have hunrecorded : ∀ o, .recorded s.calls.length o ∉ s.history := fun o hrecorded =>
    Nat.lt_irrefl _ (h.known _ o hrecorded)
  have hrecordings : ∀ call, History.recordings
      (.admitted s.calls.length trial s.clock :: s.history) call = s.history.recordings call :=
    fun call => List.countP_cons_of_neg (by simp)
  have hnever : s.history.recordings s.calls.length = 0 := by
    refine List.countP_eq_zero.mpr fun i hi => ?_
    cases i with
    | recorded call o =>
      rw [decide_eq_true_eq]
      rintro rfl
      exact hunrecorded o hi
    | _ => exact Bool.false_ne_true
  -- a call is one of the old ones, or the new one
  have hsplit : ∀ {call : ℕ} {f : Flight}, (s.calls ++ [Flight.mk
      { generation := s.breaker.generation, trial := trial } .running])[call]? = some f →
      s.calls[call]? = some f ∨ call = s.calls.length ∧
        f = ⟨{ generation := s.breaker.generation, trial := trial }, .running⟩ := by
    intro call f hf
    rcases Nat.lt_trichotomy call s.calls.length with hlt | rfl | hgt
    · rw [List.getElem?_append_left hlt] at hf
      exact Or.inl hf
    · simp at hf
      exact Or.inr ⟨rfl, hf.symm⟩
    · rw [List.getElem?_eq_none (by simp; omega)] at hf
      cases hf
  constructor
  case generation => exact h.generation.trans (History.changes_cons rfl).symm
  case older =>
    refine List.forall_mem_append.mpr ⟨h.older, ?_⟩
    simp
  case current =>
    intro call f hf
    rw [History.admits_admitted, Bool.or_eq_true, decide_eq_true_eq]
    rcases hsplit hf with hold | ⟨rfl, rfl⟩
    · have hne : s.calls.length ≠ call := by
        rintro rfl
        simp at hold
      rw [h.current call f hold]
      simp [hne]
    · simp
  case place =>
    refine List.forall_mem_append.mpr ⟨h.place, fun f hf _ => ?_⟩
    rw [List.mem_singleton.mp hf]
    exact hplace
  case failures =>
    rw [History.streak_admitted hunrecorded]
    exact h.failures
  case trials =>
    refine List.forall_mem_append.mpr ⟨h.trials, fun f hf _ => ?_⟩
    rw [List.mem_singleton.mp hf]
  case single =>
    rw [List.countP_append, h.single]
    cases trial with
    | false => simp [Flight.tries]
    | true => simp [hfree rfl, Flight.tries, Flight.unfinished]
  case opened => exact fun time htime => h.opened time (hmem htime (by simp))
  case cooled =>
    refine List.pairwise_cons.mpr ⟨fun i hi call trial' time opened hlater hopened => ?_, h.cooled⟩
    cases hlater
    subst hopened
    refine (h.opened opened hi).resolve_left fun hopen => ?_
    rw [hopen.1] at hplace
    split at hplace <;> cases hplace
  case known =>
    intro call o hrecorded
    have hlt := h.known call o (hmem hrecorded (by simp))
    rw [List.length_append]
    omega
  case once =>
    intro call f hf
    rw [hrecordings]
    rcases hsplit hf with hold | ⟨rfl, rfl⟩
    · exact h.once call f hold
    · rw [hnever]
      rfl

/-- What `record` does apart from changing the state. -/
def Breaker.note (b : Breaker) (t : Ticket) (o : Outcome) : Breaker :=
  if t.generation ≠ b.generation then b
  else if t.trial then { b with trial := false }
  else match o with
    | .success => { b with failures := 0 }
    | .failure => { b with failures := b.failures + 1 }
    | .ignored => b

/-- The state that `record` changes to, if it does. -/
def Breaker.verdict (cfg : BreakerConfig ε) (b : Breaker) (t : Ticket) (o : Outcome) :
    Option CircuitState :=
  if t.generation ≠ b.generation then none
  else if t.trial then
    match o with
    | .success => some .closed
    | .failure => some .open
    | .ignored => none
  else if o = .failure ∧ cfg.failureThreshold ≤ (b.failures + 1 : ℕ) then some .open
  else none

theorem record_eq (b : Breaker) (t : Ticket) (o : Outcome) :
    b.record cfg now t o = match b.verdict cfg t o with
      | some state => (b.note t o).setState now state
      | none => b.note t o := by
  unfold Breaker.record Breaker.verdict Breaker.note
  split
  · rfl
  split
  · cases o <;> rfl
  · cases o with
    | failure =>
      by_cases hthreshold : cfg.failureThreshold ≤ (b.failures + 1 : ℕ)
      · simp only [hthreshold, and_self, if_true]
        rfl
      · simp only [hthreshold, and_false, if_false]
    | _ => rfl

@[simp] theorem note_generation (b : Breaker) (t : Ticket) (o : Outcome) :
    (b.note t o).generation = b.generation := by
  unfold Breaker.note
  split
  · rfl
  split
  · rfl
  · cases o <;> rfl

@[simp] theorem note_state (b : Breaker) (t : Ticket) (o : Outcome) :
    (b.note t o).state = b.state := by
  unfold Breaker.note
  split
  · rfl
  split
  · rfl
  · cases o <;> rfl

@[simp] theorem note_openedAt (b : Breaker) (t : Ticket) (o : Outcome) :
    (b.note t o).openedAt = b.openedAt := by
  unfold Breaker.note
  split
  · rfl
  split
  · rfl
  · cases o <;> rfl

/-- The outcome of a call is noted. -/
theorem Circuit.Kept.note (h : s.Kept cfg) {call : ℕ} {t : Ticket} {o : Outcome}
    {rest : List Outcome} (hf : s.calls[call]? = some ⟨t, .recording (o :: rest)⟩) :
    Circuit.Kept cfg { s with
      breaker := s.breaker.note t o
      calls := s.calls.set call ⟨t, .recording rest⟩
      history := .recorded call o :: s.history } := by
  obtain ⟨hlt, hget⟩ := List.getElem?_eq_some_iff.mp hf
  have hmem : ⟨t, .recording (o :: rest)⟩ ∈ s.calls := List.mem_of_getElem? hf
  obtain ⟨rfl, hfirst⟩ : rest = [] ∧ s.history.recordings call = 0 := by
    have honce := h.once call _ hf
    simp only [Phase.due, List.length_cons] at honce
    exact ⟨List.length_eq_zero_iff.mp (by omega), by omega⟩
  have hitems : ∀ {i : Item}, i ∈ Item.recorded call o :: s.history → i ≠ .recorded call o →
      i ∈ s.history := fun hi hne => (List.mem_cons.mp hi).resolve_left hne
  -- the other calls are as they were, and this one has its ticket
  have hcalls : ∀ {call' : ℕ} {f : Flight},
      (s.calls.set call ⟨t, .recording []⟩)[call']? = some f →
      call' = call ∧ f = ⟨t, .recording []⟩ ∨ call' ≠ call ∧ s.calls[call']? = some f := by
    intro call' f hf'
    by_cases heq : call = call'
    · rw [← heq, List.getElem?_set_self hlt] at hf'
      exact Or.inl ⟨heq.symm, (Option.some.inj hf').symm⟩
    · rw [List.getElem?_set_ne heq] at hf'
      exact Or.inr ⟨fun heq' => heq heq'.symm, hf'⟩
  have htickets : ∀ f ∈ s.calls.set call ⟨t, .recording []⟩, ∃ f' ∈ s.calls,
      f.ticket = f'.ticket ∧ (f.tries = true → f'.tries = true) := by
    intro f hf'
    rcases List.mem_or_eq_of_mem_set hf' with hold | rfl
    · exact ⟨f, hold, rfl, id⟩
    · exact ⟨_, hmem, rfl, by simp [Flight.tries, Flight.unfinished]⟩
  constructor
  case generation =>
    rw [note_generation]
    exact h.generation.trans (History.changes_cons rfl).symm
  case older =>
    intro f hf'
    obtain ⟨f', hold, hticket, -⟩ := htickets f hf'
    rw [note_generation, hticket]
    exact h.older f' hold
  case current =>
    intro call' f hf'
    rw [History.admits_recorded, note_generation]
    rcases hcalls hf' with ⟨rfl, rfl⟩ | ⟨-, hold⟩
    · exact (h.current _ _ hf :)
    · exact h.current call' f hold
  case place =>
    intro f hf' hgeneration
    obtain ⟨f', hold, hticket, -⟩ := htickets f hf'
    rw [note_generation, hticket] at hgeneration
    rw [note_state, hticket]
    exact h.place f' hold hgeneration
  case failures =>
    have hcurrent := h.current call _ hf
    have hplace := h.place _ hmem
    have hfailures := h.failures
    rw [note_state]
    unfold Breaker.note
    split
    · next hstale =>
      rw [History.streak_recorded_stale (by simpa using mt hcurrent.mpr hstale)]
      exact hfailures
    next hsame =>
    have hsame : t.generation = s.breaker.generation := not_not.mp hsame
    rw [hplace hsame] at hfailures ⊢
    cases htrial : t.trial with
    | true => simpa [htrial] using hfailures
    | false =>
      simp only [htrial, Bool.false_eq_true, if_false, if_true] at hfailures ⊢
      rw [History.streak_recorded (hcurrent.mp hsame)]
      cases o <;> simp [hfailures]
  case trials =>
    intro f hf' htries
    obtain ⟨f', hold, hticket, htried⟩ := htickets f hf'
    rw [note_generation, hticket]
    exact h.trials f' hold (htried htries)
  case single =>
    rw [List.countP_set hlt, hget, h.single]
    cases htrial : t.trial with
    | false =>
      have hflag : (s.breaker.note t o).trial = s.breaker.trial := by
        unfold Breaker.note
        rw [htrial]
        split
        · rfl
        · cases o <;> rfl
      simp [Flight.tries, htrial, hflag]
    | true =>
      -- the trial is the only one, and takes the flag with it
      have htries : Flight.tries ⟨t, .recording [o]⟩ = true := by
        simp [Flight.tries, Flight.unfinished, htrial]
      have hsame : t.generation = s.breaker.generation := h.trials _ hmem htries
      have hflag : (s.breaker.note t o).trial = false := by
        simp [Breaker.note, hsame, htrial]
      rw [hflag]
      simp [Flight.tries, Flight.unfinished, htrial]
      split <;> rfl
  case opened =>
    intro time htime
    rw [note_state, note_openedAt]
    exact h.opened time (hitems htime (by simp))
  case cooled =>
    refine List.pairwise_cons.mpr ⟨fun _ _ call trial time opened hlater => ?_, h.cooled⟩
    cases hlater
  case known =>
    intro call' o' hrecorded
    rw [List.length_set]
    rcases List.mem_cons.mp hrecorded with heq | hold
    · cases heq
      exact hlt
    · exact h.known call' o' hold
  case once =>
    intro call' f hf'
    rcases hcalls hf' with ⟨rfl, rfl⟩ | ⟨hne, hold⟩
    · have hrecordings : History.recordings (.recorded call' o :: s.history) call' =
        s.history.recordings call' + 1 := List.countP_cons_of_pos (by simp)
      rw [hrecordings, hfirst]
      rfl
    · have hrecordings : History.recordings (.recorded call o :: s.history) call' =
        s.history.recordings call' := List.countP_cons_of_neg (by simpa using hne.symm)
      rw [hrecordings]
      exact h.once call' f hold

/-- A tame ending is recorded once. -/
theorem length_records {ending : Ending ε} (htame : ending.Tame cfg) :
    (cfg.records ending).length = 1 := by
  cases ending with
  | panicked => rfl
  | returned err ctxDone callCtxDone =>
    cases err with
    | none => rfl
    | some err =>
      cases ctxDone with
      | true => rfl
      | false =>
        cases callCtxDone with
        | true => rfl
        | false =>
          have hcounts : cfg.counts err ≠ none := htame
          obtain ⟨counts, heq⟩ := Option.ne_none_iff_exists'.mp hcounts
          simp [BreakerConfig.records, BreakerConfig.outcome, deferredRecords, heq]

/-- The function of a call ends. -/
theorem Circuit.Kept.ends (h : s.Kept cfg) {call : ℕ} {t : Ticket} {ending : Ending ε}
    (hf : s.calls[call]? = some ⟨t, .running⟩) (htame : ending.Tame cfg) :
    Circuit.Kept cfg
      { s with calls := s.calls.set call ⟨t, .recording (cfg.records ending)⟩ } := by
  obtain ⟨hlt, hget⟩ := List.getElem?_eq_some_iff.mp hf
  have hmem : ⟨t, .running⟩ ∈ s.calls := List.mem_of_getElem? hf
  have hlength := length_records htame
  have htries : Flight.tries ⟨t, .recording (cfg.records ending)⟩ = Flight.tries ⟨t, .running⟩ := by
    have hnonempty : cfg.records ending ≠ [] := by
      intro hempty
      rw [hempty] at hlength
      cases hlength
    simp [Flight.tries, Flight.unfinished, hnonempty]
  have hcalls : ∀ {call' : ℕ} {f : Flight},
      (s.calls.set call ⟨t, .recording (cfg.records ending)⟩)[call']? = some f →
      ∃ f', s.calls[call']? = some f' ∧ f.ticket = f'.ticket ∧ f.phase.due = f'.phase.due := by
    intro call' f hf'
    by_cases heq : call = call'
    · rw [← heq, List.getElem?_set_self hlt] at hf'
      obtain rfl := Option.some.inj hf'
      exact ⟨⟨t, .running⟩, heq ▸ hf, rfl, hlength⟩
    · rw [List.getElem?_set_ne heq] at hf'
      exact ⟨f, hf', rfl, rfl⟩
  have htickets : ∀ f ∈ s.calls.set call ⟨t, .recording (cfg.records ending)⟩, ∃ f' ∈ s.calls,
      f.ticket = f'.ticket ∧ f.tries = f'.tries := by
    intro f hf'
    rcases List.mem_or_eq_of_mem_set hf' with hold | rfl
    · exact ⟨f, hold, rfl, rfl⟩
    · exact ⟨_, hmem, rfl, htries⟩
  refine { h with older := ?_, current := ?_, place := ?_, trials := ?_, single := ?_,
                  known := ?_, once := ?_ }
  · intro f hf'
    obtain ⟨f', hold, hticket, -⟩ := htickets f hf'
    rw [hticket]
    exact h.older f' hold
  · intro call' f hf'
    obtain ⟨f', hold, hticket, -⟩ := hcalls hf'
    rw [hticket]
    exact h.current call' f' hold
  · intro f hf'
    obtain ⟨f', hold, hticket, -⟩ := htickets f hf'
    rw [hticket]
    exact h.place f' hold
  · intro f hf'
    obtain ⟨f', hold, hticket, hsame⟩ := htickets f hf'
    rw [hticket, hsame]
    exact h.trials f' hold
  · have hpositive : Flight.tries ⟨t, .running⟩ = true → 0 < s.calls.countP Flight.tries :=
      fun h => List.countP_pos_iff.mpr ⟨_, hmem, h⟩
    rw [List.countP_set hlt, hget, htries, ← h.single]
    split
    · next htried =>
      have := hpositive htried
      omega
    · rfl
  · intro call' o hrecorded
    rw [List.length_set]
    exact h.known call' o hrecorded
  · intro call' f hf'
    obtain ⟨f', hold, -, hdue⟩ := hcalls hf'
    rw [hdue]
    exact h.once call' f' hold

/-- The state changes to which `record` can lead. -/
theorem Circuit.Kept.verdict (h : s.Kept cfg) {call : ℕ} {f : Flight} {o : Outcome}
    {state : CircuitState} (hf : s.calls[call]? = some f)
    (hverdict : s.breaker.verdict cfg f.ticket o = some state) :
    s.history.admits call = true ∧ (s.breaker.state = .halfOpen ∧ f.ticket.trial = true ∧
        (o = .success ∧ state = .closed ∨ o = .failure ∧ state = .open) ∨
      s.breaker.state = .closed ∧ f.ticket.trial = false ∧ o = .failure ∧ state = .open ∧
        cfg.failureThreshold ≤ (s.breaker.failures + 1 : ℕ)) := by
  have hplace := h.place f (List.mem_of_getElem? hf)
  unfold Breaker.verdict at hverdict
  split at hverdict
  · cases hverdict
  next hsame =>
  have hsame : f.ticket.generation = s.breaker.generation := not_not.mp hsame
  refine ⟨(h.current call f hf).mp hsame, ?_⟩
  split at hverdict
  · next htrial =>
    have hhalf := hplace hsame
    rw [if_pos htrial] at hhalf
    cases o with
    | success => exact Or.inl ⟨hhalf, htrial, Or.inl ⟨rfl, (Option.some.inj hverdict).symm⟩⟩
    | failure => exact Or.inl ⟨hhalf, htrial, Or.inr ⟨rfl, (Option.some.inj hverdict).symm⟩⟩
    | ignored => cases hverdict
  · next htrial =>
    have hclosed := hplace hsame
    rw [if_neg htrial] at hclosed
    split at hverdict
    · next hreached =>
      exact Or.inr ⟨hclosed, by simpa using htrial, hreached.1,
        (Option.some.inj hverdict).symm, hreached.2⟩
    · cases hverdict

/-- The outcome of a call is recorded. -/
theorem Circuit.Kept.record (h : s.Kept cfg) {call : ℕ} {t : Ticket} {o : Outcome}
    {rest : List Outcome} (hf : s.calls[call]? = some ⟨t, .recording (o :: rest)⟩)
    (hnow : s.clock ≤ now)
    (hfew : (changeItem s.breaker (s.breaker.record cfg now t o) now ++
      .recorded call o :: s.history).changes < 2 ^ 64) :
    Circuit.Kept cfg
      { breaker := s.breaker.record cfg now t o
        clock := now
        calls := s.calls.set call ⟨t, .recording rest⟩
        history := changeItem s.breaker (s.breaker.record cfg now t o) now ++
          .recorded call o :: s.history } := by
  have hnoted := h.note hf
  rw [record_eq] at hfew ⊢
  cases hverdict : s.breaker.verdict cfg t o with
  | none =>
    have hitem : changeItem s.breaker (s.breaker.note t o) now = [] :=
      if_pos (note_state _ _ _).symm
    simp only [hverdict, hitem, List.nil_append] at hfew ⊢
    exact hnoted.wait hnow
  | some state =>
    obtain ⟨hadmits, hcases⟩ := h.verdict hf hverdict
    have hdiffers : s.breaker.state ≠ state := by
      rcases hcases with ⟨hhalf, -, ⟨-, rfl⟩ | ⟨-, rfl⟩⟩ | ⟨hclosed, -, -, rfl, -⟩
      · simp [hhalf]
      · simp [hhalf]
      · simp [hclosed]
    have hitem : changeItem s.breaker ((s.breaker.note t o).setState now state) now =
        [.changed state now] := if_neg hdiffers
    -- the trial that the state changes on was the last one
    have hflag : (s.breaker.note t o).trial ≠ true := by
      intro htrial
      have hhalf : s.breaker.state = .halfOpen := by
        by_contra hnot
        obtain ⟨f, hmem, htries⟩ := hnoted.trial_iff.mp htrial
        rw [hnoted.idle (by simpa using hnot) f hmem] at htries
        cases htries
      rcases hcases with ⟨-, htrial', -⟩ | ⟨hclosed, -⟩
      · have hsame : t.generation = s.breaker.generation := (h.current call _ hf).mpr hadmits
        have htrial' : t.trial = true := htrial'
        simp [Breaker.note, hsame, htrial'] at htrial
      · rw [hclosed] at hhalf
        cases hhalf
    have hnone : ∀ f ∈ s.calls.set call ⟨t, .recording rest⟩, f.tries = false := by
      intro f hmem
      by_contra htries
      exact hflag (hnoted.trial_iff.mpr ⟨f, hmem, by simpa using htries⟩)
    simp only [hverdict, hitem, List.singleton_append, History.changes_changed] at hfew ⊢
    refine hnoted.change hnow state hnone hfew fun hopen => ?_
    rw [note_state] at hopen
    rcases hcases with ⟨hhalf, -⟩ | ⟨hclosed, -⟩
    · rw [hhalf] at hopen
      cases hopen
    · rw [hclosed] at hopen
      cases hopen

/-- What `begin` does: the breaker cools down, and then refuses or admits the call. -/
theorem step_begin (hstep : s.step cfg now .begin = some s') :
    s.clock ≤ now ∧ ∃ cooled : Circuit, cooled = { s with
        breaker := s.breaker.coolDown cfg now
        clock := now
        history := changeItem s.breaker (s.breaker.coolDown cfg now) now ++ s.history } ∧
      ((cooled.breaker.state = .open ∨ cooled.breaker.state = .halfOpen ∧
            cooled.breaker.trial = true) ∧
          s' = { cooled with history := .refused cooled.clock :: cooled.history } ∨
        ∃ trial : Bool, cooled.breaker.state = (if trial then .halfOpen else .closed) ∧
          (trial = true → cooled.breaker.trial = false) ∧
          s' = { cooled with
            breaker := { cooled.breaker with trial := cooled.breaker.trial || trial }
            calls := cooled.calls ++
              [{ ticket := { generation := cooled.breaker.generation, trial := trial } }]
            history := .admitted cooled.calls.length trial cooled.clock :: cooled.history }) := by
  unfold Circuit.step at hstep
  split at hstep
  · cases hstep
  next hclock =>
  refine ⟨by omega, _, rfl, ?_⟩
  dsimp only [Breaker.allow] at hstep ⊢
  generalize s.breaker.coolDown cfg now = b at hstep ⊢
  obtain ⟨state, failures, openedAt, trial, generation⟩ := b
  cases state with
  | «open» => exact Or.inl ⟨Or.inl rfl, (Option.some.inj hstep).symm⟩
  | closed =>
    refine Or.inr ⟨false, rfl, fun h => absurd h Bool.false_ne_true, ?_⟩
    rw [Bool.or_false]
    exact (Option.some.inj hstep).symm
  | halfOpen =>
    cases trial with
    | true => exact Or.inl ⟨Or.inr ⟨rfl, rfl⟩, (Option.some.inj hstep).symm⟩
    | false => exact Or.inr ⟨true, rfl, fun _ => rfl, (Option.some.inj hstep).symm⟩

theorem step_observe (hstep : s.step cfg now .observe = some s') :
    s.clock ≤ now ∧ s' = { s with
      breaker := s.breaker.coolDown cfg now
      clock := now
      history := changeItem s.breaker (s.breaker.coolDown cfg now) now ++ s.history } := by
  unfold Circuit.step at hstep
  split at hstep
  · cases hstep
  next hclock => exact ⟨Int.not_lt.mp hclock, (Option.some.inj hstep).symm⟩

theorem step_ends {call : ℕ} {ending : Ending ε}
    (hstep : s.step cfg now (.ends call ending) = some s') :
    s.clock ≤ now ∧ ∃ t, s.calls[call]? = some ⟨t, .running⟩ ∧ s' = { s with
      clock := now
      calls := s.calls.set call ⟨t, .recording (cfg.records ending)⟩ } := by
  unfold Circuit.step at hstep
  split at hstep
  · cases hstep
  next hclock =>
  dsimp only at hstep
  split at hstep
  · next t hf => exact ⟨Int.not_lt.mp hclock, t, hf, (Option.some.inj hstep).symm⟩
  · cases hstep

theorem step_record {call : ℕ} (hstep : s.step cfg now (.record call) = some s') :
    s.clock ≤ now ∧ ∃ t o rest, s.calls[call]? = some ⟨t, .recording (o :: rest)⟩ ∧ s' =
      { breaker := s.breaker.record cfg now t o
        clock := now
        calls := s.calls.set call ⟨t, .recording rest⟩
        history := changeItem s.breaker (s.breaker.record cfg now t o) now ++
          .recorded call o :: s.history } := by
  unfold Circuit.step at hstep
  split at hstep
  · cases hstep
  next hclock =>
  dsimp only at hstep
  split at hstep
  · next t o rest hf =>
    exact ⟨Int.not_lt.mp hclock, t, o, rest, hf, (Option.some.inj hstep).symm⟩
  · cases hstep

theorem Circuit.Kept.step (h : s.Kept cfg) (hstep : s.step cfg now ev = some s')
    (htame : ev.Tame cfg) (hfew : s'.history.changes < 2 ^ 64) : s'.Kept cfg := by
  cases ev with
  | begin =>
    obtain ⟨hnow, cooled, rfl, ⟨-, rfl⟩ | ⟨trial, hplace, hfree, rfl⟩⟩ := step_begin hstep
    · exact (h.cool hnow (by rwa [History.changes_cons rfl] at hfew)).refuse
    · exact (h.cool hnow (by rwa [History.changes_cons rfl] at hfew)).admitted trial hplace hfree
  | observe =>
    obtain ⟨hnow, rfl⟩ := step_observe hstep
    exact h.cool hnow hfew
  | ends call ending =>
    obtain ⟨hnow, t, hf, rfl⟩ := step_ends hstep
    exact (h.ends hf htame).wait hnow
  | record call =>
    obtain ⟨hnow, t, o, rest, hf, rfl⟩ := step_record hstep
    exact h.record hf hnow hfew

theorem coolDown_cases (b : Breaker) : b.coolDown cfg now = b ∨
    b.state = .open ∧ b.openedAt + cfg.coolDown ≤ now ∧
      b.coolDown cfg now = b.setState now .halfOpen := by
  unfold Breaker.coolDown
  split
  · next hopen => exact Or.inr ⟨hopen.1, hopen.2, rfl⟩
  · exact Or.inl rfl

/-- The count of failures stays below the threshold. -/
theorem below_step (hcfg : 1 ≤ cfg.failureThreshold)
    (h : (s.breaker.failures : ℤ) < cfg.failureThreshold)
    (hstep : s.step cfg now ev = some s') :
    (s'.breaker.failures : ℤ) < cfg.failureThreshold := by
  have hcooled : ((s.breaker.coolDown cfg now).failures : ℤ) < cfg.failureThreshold := by
    rcases @coolDown_cases ε cfg now s.breaker with hsame | ⟨-, -, hset⟩
    · rw [hsame]
      exact h
    · rw [hset]
      change ((0 : ℕ) : ℤ) < _
      omega
  cases ev with
  | begin =>
    obtain ⟨-, cooled, rfl, ⟨-, rfl⟩ | ⟨trial, -, -, rfl⟩⟩ := step_begin hstep
    · exact hcooled
    · exact hcooled
  | observe =>
    obtain ⟨-, rfl⟩ := step_observe hstep
    exact hcooled
  | ends call ending =>
    obtain ⟨-, t, -, rfl⟩ := step_ends hstep
    exact h
  | record call =>
    obtain ⟨-, t, o, rest, -, rfl⟩ := step_record hstep
    have hzero : ((0 : ℕ) : ℤ) < cfg.failureThreshold := by omega
    change ((s.breaker.record cfg now t o).failures : ℤ) < _
    unfold Breaker.record
    split
    · exact h
    split
    · cases o
      · exact hzero
      · exact hzero
      · exact h
    · cases o with
      | success => exact hzero
      | failure =>
        dsimp only
        split
        · exact hzero
        · next hbelow => exact Int.not_le.mp hbelow
      | ignored => exact h

theorem Reached.kept (hcfg : cfg.validate = .ok ()) (h : Reached cfg s) :
    s.Kept cfg ∧ (s.breaker.failures : ℤ) < cfg.failureThreshold := by
  have hthreshold : 1 ≤ cfg.failureThreshold := by
    unfold BreakerConfig.validate at hcfg
    split at hcfg
    · cases hcfg
    split at hcfg
    · cases hcfg
    · omega
  induction h with
  | start => exact ⟨kept_start, by change ((0 : ℕ) : ℤ) < _; omega⟩
  | step h hstep htame hfew ih =>
    exact ⟨ih.1.step hstep htame hfew, below_step hthreshold ih.2 hstep⟩

end Kept

/-! ## What the breaker guarantees -/

/-- What holds at every moment. -/
structure Circuit.Sound {ε : Type} (cfg : BreakerConfig ε) (s : Circuit) : Prop where
  oneTrial : s.calls.countP (fun f => f.tries && f.ticket.generation = s.breaker.generation) ≤ 1
  cooled : s.history.Cooled cfg.coolDown
  once : ∀ call f, s.calls[call]? = some f →
    s.history.recordings call = if f.unfinished then 0 else 1
  notStuck : s.breaker.state = .halfOpen → ∀ now, (s.breaker.allow cfg now).1 = none →
    ∃ f ∈ s.calls, f.tries = true

/-- The last thing that happened, apart from a change of the state, is that this outcome of
an unfinished trial was recorded. -/
def Circuit.TrialEnds (s s' : Circuit) (now : ℤ) (o : Outcome) : Prop :=
  ∃ call f, s.calls[call]? = some f ∧ f.tries = true ∧
    s'.history = changeItem s.breaker s'.breaker now ++ .recorded call o :: s.history

/-- What one event does. -/
structure Circuit.StepSound {ε : Type} (cfg : BreakerConfig ε) (s : Circuit) (now : ℤ)
    (ev : CircuitEvent ε) (s' : Circuit) : Prop where
  admits : s'.calls.length ≠ s.calls.length → s'.breaker.state ≠ .open ∧
    (s'.breaker.state = .halfOpen → ∀ f ∈ s.calls, f.tries = false)
  opens : s.breaker.state = .closed → s'.breaker.state ≠ .halfOpen ∧
    ∀ h, s'.history = changeItem s.breaker s'.breaker now ++ h →
      (s'.breaker.state = .open ↔ (h.streak : ℤ) = cfg.failureThreshold)
  tried : s.breaker.state = .halfOpen →
    (s'.breaker.state = .closed ↔ s.TrialEnds s' now .success) ∧
    (s'.breaker.state = .open ↔ s.TrialEnds s' now .failure)
  stale : ∀ call, ev = .record call → s.history.admits call = false → s'.breaker = s.breaker

section Sound

variable {ε : Type} {cfg : BreakerConfig ε} {s s' : Circuit} {now : ℤ} {ev : CircuitEvent ε}

theorem Circuit.Kept.sound (h : s.Kept cfg) : s.Sound cfg := by
  constructor
  case oneTrial =>
    have hsingle := h.single
    have hle : s.calls.countP (fun f => f.tries && f.ticket.generation = s.breaker.generation) ≤
        s.calls.countP Flight.tries :=
      List.countP_mono_left fun f _ htries => (Bool.and_eq_true_iff.mp htries).1
    rw [hsingle] at hle
    split at hle <;> omega
  case cooled => exact h.cooled
  case once =>
    intro call f hf
    have honce := h.once call f hf
    obtain ⟨t, phase⟩ := f
    cases phase with
    | running =>
      change s.history.recordings call + 1 = 1 at honce
      simpa [Flight.unfinished] using honce
    | recording outcomes =>
      cases outcomes with
      | nil => exact honce
      | cons o rest =>
        change s.history.recordings call + (rest.length + 1) = 1 at honce
        simp only [Flight.unfinished, ne_eq, Phase.recording.injEq, reduceCtorEq,
          not_false_eq_true, decide_true, if_true]
        omega
  case notStuck =>
    intro hhalf now hrefused
    refine h.trial_iff.mp ?_
    have hcooled : s.breaker.coolDown cfg now = s.breaker := if_neg (by simp [hhalf])
    by_contra htrial
    simp [Breaker.allow, hcooled, hhalf, htrial] at hrefused

/-- An event that records nothing leaves a breaker that is not open in its state. -/
theorem silent_step (hev : ∀ call, ev ≠ .record call) (hstate : s.breaker.state ≠ .open)
    (hstep : s.step cfg now ev = some s') :
    s'.breaker.state = s.breaker.state ∧ (s'.history = s.history ∨
      s'.history = .refused now :: s.history ∨
      ∃ trial, s'.history = .admitted s.calls.length trial now :: s.history) := by
  have hcooled : s.breaker.coolDown cfg now = s.breaker := if_neg fun hopen => hstate hopen.1
  cases ev with
  | begin =>
    obtain ⟨-, cooled, rfl, ⟨-, rfl⟩ | ⟨trial, -, -, rfl⟩⟩ := step_begin hstep
    · simp [hcooled, changeItem_self]
    · simp [hcooled, changeItem_self]
  | observe =>
    obtain ⟨-, rfl⟩ := step_observe hstep
    simp [hcooled, changeItem_self]
  | ends call ending =>
    obtain ⟨-, t, -, rfl⟩ := step_ends hstep
    exact ⟨rfl, Or.inl rfl⟩
  | record call => exact absurd rfl (hev call)

theorem changeItem_same {b b' : Breaker} (h : b'.state = b.state) : changeItem b b' now = [] :=
  if_pos h.symm

/-- The state after an outcome is recorded. -/
theorem record_state (b : Breaker) (t : Ticket) (o : Outcome) :
    (b.record cfg now t o).state = (b.verdict cfg t o).getD b.state := by
  rw [record_eq]
  cases b.verdict cfg t o with
  | none => exact note_state b t o
  | some state => rfl

/-- What the outcome of a trial decides. -/
theorem verdict_trial {b : Breaker} {t : Ticket} {o : Outcome} (hsame : t.generation = b.generation)
    (htrial : t.trial = true) : b.verdict cfg t o =
      match o with
      | .success => some .closed
      | .failure => some .open
      | .ignored => none := by
  simp [Breaker.verdict, hsame, htrial]

/-- The closed breaker opens when the threshold is reached. -/
theorem Circuit.Kept.opens (h : s.Kept cfg)
    (hbelow : (s.breaker.failures : ℤ) < cfg.failureThreshold)
    (hstep : s.step cfg now ev = some s') (hclosed : s.breaker.state = .closed) :
    s'.breaker.state ≠ .halfOpen ∧ ∀ h, s'.history = changeItem s.breaker s'.breaker now ++ h →
      (s'.breaker.state = .open ↔ (h.streak : ℤ) = cfg.failureThreshold) := by
  have hstreak : s.breaker.failures = s.history.streak := by rw [h.failures, if_pos hclosed]
  by_cases hev : ∃ call, ev = .record call
  · obtain ⟨call, rfl⟩ := hev
    obtain ⟨-, t, o, rest, hf, rfl⟩ := step_record hstep
    have hnoted :
        (s.breaker.note t o).failures = History.streak (.recorded call o :: s.history) := by
      rw [(h.note hf).failures, if_pos ((note_state _ _ _).trans hclosed)]
    dsimp only
    rw [record_state]
    cases hverdict : s.breaker.verdict cfg t o with
    | none =>
      refine ⟨by simp [hclosed], fun h' hhistory => ?_⟩
      obtain rfl := List.append_cancel_left hhistory
      have hnew : ((s.breaker.note t o).failures : ℤ) < cfg.failureThreshold := by
        have hbelow' := below_step (by omega) hbelow hstep
        rwa [record_eq, hverdict] at hbelow'
      rw [hnoted] at hnew
      simp only [Option.getD_none, hclosed, reduceCtorEq, false_iff]
      omega
    | some state =>
      obtain ⟨hadmits, ⟨hhalf, -⟩ | ⟨-, htrial, rfl, rfl, hreached⟩⟩ := h.verdict hf hverdict
      · rw [hclosed] at hhalf
        cases hhalf
      refine ⟨by simp, fun h' hhistory => ?_⟩
      obtain rfl := List.append_cancel_left hhistory
      have hcount : History.streak (.recorded call .failure :: s.history) =
          s.history.streak + 1 := by rw [History.streak_recorded hadmits]
      rw [hcount, ← hstreak]
      simp only [Option.getD_some, true_iff]
      omega
  · have hsilent := silent_step (fun call heq => hev ⟨call, heq⟩) (by simp [hclosed]) hstep
    obtain ⟨hstate, hhistory⟩ := hsilent
    refine ⟨by simp [hstate, hclosed], fun h' heq => ?_⟩
    rw [changeItem_same hstate, List.nil_append] at heq
    subst heq
    have hsame : s'.history.streak = s.history.streak := by
      have hnew : ∀ o, .recorded s.calls.length o ∉ s.history := fun o hrecorded =>
        Nat.lt_irrefl _ (h.known _ o hrecorded)
      rcases hhistory with heq | heq | ⟨trial, heq⟩
      · rw [heq]
      · rw [heq, History.streak_refused]
      · rw [heq, History.streak_admitted hnew]
    rw [hsame, ← hstreak, hstate, hclosed]
    simp only [reduceCtorEq, false_iff]
    omega

/-- The half-open breaker changes on the outcome of its trial. -/
theorem Circuit.Kept.tried (h : s.Kept cfg) (hstep : s.step cfg now ev = some s')
    (hhalf : s.breaker.state = .halfOpen) :
    (s'.breaker.state = .closed ↔ s.TrialEnds s' now .success) ∧
    (s'.breaker.state = .open ↔ s.TrialEnds s' now .failure) := by
  by_cases hev : ∃ call, ev = .record call
  · obtain ⟨call, rfl⟩ := hev
    obtain ⟨-, t, o, rest, hf, heq⟩ := step_record hstep
    have hbreaker : s'.breaker = s.breaker.record cfg now t o := by rw [heq]
    have hhistory : s'.history = changeItem s.breaker s'.breaker now ++
        .recorded call o :: s.history := by rw [heq]
    -- the outcome of a trial decides
    have hends : ∀ o', s.TrialEnds s' now o' ↔ o = o' ∧ t.trial = true := by
      intro o'
      constructor
      · rintro ⟨call', f, hf', htries, hhistory'⟩
        have hitem := List.append_cancel_left (hhistory.symm.trans hhistory')
        cases (List.cons.inj hitem).1
        obtain rfl := Option.some.inj (hf.symm.trans hf')
        exact ⟨rfl, (Bool.and_eq_true_iff.mp htries).1⟩
      · rintro ⟨rfl, htrial⟩
        exact ⟨call, _, hf, by simp [Flight.tries, Flight.unfinished, htrial], hhistory⟩
    have hcurrent : t.trial = true → t.generation = s.breaker.generation := fun htrial =>
      h.trials _ (List.mem_of_getElem? hf) (by simp [Flight.tries, Flight.unfinished, htrial])
    have hother : t.trial = false → s.breaker.verdict cfg t o = none := by
      intro htrial
      by_contra hsome
      obtain ⟨state, hverdict⟩ := Option.ne_none_iff_exists'.mp hsome
      obtain ⟨-, ⟨-, htrial', -⟩ | ⟨hclosed, -⟩⟩ := h.verdict hf hverdict
      · exact Bool.false_ne_true (htrial.symm.trans htrial')
      · rw [hhalf] at hclosed
        cases hclosed
    rw [hends, hends, hbreaker, record_state, hhalf]
    cases htrial : t.trial with
    | true =>
      rw [verdict_trial (hcurrent htrial) htrial]
      cases o <;> simp
    | false =>
      rw [hother htrial]
      simp
  · obtain ⟨hstate, hhistory⟩ :=
      silent_step (fun call heq => hev ⟨call, heq⟩) (by simp [hhalf]) hstep
    have hnot : ∀ o, ¬ s.TrialEnds s' now o := by
      rintro o ⟨call, f, -, -, heq⟩
      rw [changeItem_same hstate, List.nil_append] at heq
      rcases hhistory with hsame | hrefused | ⟨trial, hadmitted⟩
      · rw [hsame] at heq
        exact absurd (congrArg List.length heq) (by simp)
      · cases (List.cons.inj (hrefused.symm.trans heq)).1
      · cases (List.cons.inj (hadmitted.symm.trans heq)).1
    rw [hstate, hhalf]
    simp [hnot]

theorem Circuit.Kept.stepSound (h : s.Kept cfg)
    (hbelow : (s.breaker.failures : ℤ) < cfg.failureThreshold)
    (hstep : s.step cfg now ev = some s') : s.StepSound cfg now ev s' := by
  refine ⟨?_, h.opens hbelow hstep, h.tried hstep, ?_⟩
  · intro hlonger
    cases ev with
    | begin =>
      obtain ⟨-, cooled, rfl, ⟨-, rfl⟩ | ⟨trial, hplace, hfree, rfl⟩⟩ := step_begin hstep
      · exact absurd rfl hlonger
      dsimp only at hplace hfree ⊢
      rw [hplace]
      cases trial with
      | false => simp
      | true =>
        refine ⟨by simp, fun _ f hf => ?_⟩
        by_contra htries
        have htries : f.tries = true := by simpa using htries
        -- a breaker that was open has no unfinished trial
        have hhalf := h.place f hf (h.trials f hf htries)
        rw [if_pos (Bool.and_eq_true_iff.mp htries).1] at hhalf
        have hcooled : s.breaker.coolDown cfg now = s.breaker := if_neg (by simp [hhalf])
        have hflag := h.trial_iff.mpr ⟨f, hf, htries⟩
        rw [← hcooled, hfree rfl] at hflag
        cases hflag
    | observe =>
      obtain ⟨-, rfl⟩ := step_observe hstep
      exact absurd rfl hlonger
    | ends call ending =>
      obtain ⟨-, t, -, rfl⟩ := step_ends hstep
      exact absurd (List.length_set ..) hlonger
    | record call =>
      obtain ⟨-, t, o, rest, -, rfl⟩ := step_record hstep
      exact absurd (List.length_set ..) hlonger
  · rintro call rfl hstale
    obtain ⟨-, t, o, rest, hf, rfl⟩ := step_record hstep
    have hother : t.generation ≠ s.breaker.generation := fun hsame => by
      rw [(h.current call _ hf).mp hsame] at hstale
      cases hstale
    exact if_pos hother

/-- The circuit breaker, in every run in which `IsFailure` does not panic and which has fewer
than `2 ^ 64` state changes: what holds at every moment, and what each event does. -/
theorem breaker_sound (hcfg : cfg.validate = .ok ()) (hs : Reached cfg s) :
    s.Sound cfg ∧ ∀ now ev s', s.step cfg now ev = some s' → s.StepSound cfg now ev s' := by
  obtain ⟨hkept, hbelow⟩ := hs.kept hcfg
  exact ⟨hkept.sound, fun now ev s' hstep => hkept.stepSound hbelow hstep⟩

/-- Nothing is taken out of the history. -/
theorem step_suffix (hstep : s.step cfg now ev = some s') : s.history <:+ s'.history := by
  cases ev with
  | begin =>
    obtain ⟨-, cooled, rfl, ⟨-, rfl⟩ | ⟨trial, -, -, rfl⟩⟩ := step_begin hstep
    · exact (List.suffix_append _ _).trans (List.suffix_cons _ _)
    · exact (List.suffix_append _ _).trans (List.suffix_cons _ _)
  | observe =>
    obtain ⟨-, rfl⟩ := step_observe hstep
    exact List.suffix_append _ _
  | ends call ending =>
    obtain ⟨-, t, -, rfl⟩ := step_ends hstep
    exact List.suffix_rfl
  | record call =>
    obtain ⟨-, t, o, rest, -, rfl⟩ := step_record hstep
    exact (List.suffix_cons _ _).trans (List.suffix_append _ _)

/-- Events one after another. -/
def Circuit.run (cfg : BreakerConfig ε) : Circuit → List (ℤ × CircuitEvent ε) → Option Circuit
  | s, [] => some s
  | s, (now, ev) :: evs => (s.step cfg now ev).bind fun s' => s'.run cfg evs

theorem run_suffix {evs : List (ℤ × CircuitEvent ε)} (hrun : s.run cfg evs = some s') :
    s.history <:+ s'.history := by
  induction evs generalizing s with
  | nil =>
    obtain rfl := Option.some.inj hrun
    exact List.suffix_rfl
  | cons ev evs ih =>
    obtain ⟨s₁, hstep, hrun⟩ := Option.bind_eq_some_iff.mp hrun
    exact (step_suffix hstep).trans (ih hrun)

theorem Reached.run {evs : List (ℤ × CircuitEvent ε)} (h : Reached cfg s)
    (hrun : s.run cfg evs = some s') (htame : ∀ x ∈ evs, x.2.Tame cfg)
    (hfew : s'.history.changes < 2 ^ 64) : Reached cfg s' := by
  induction evs generalizing s with
  | nil =>
    obtain rfl := Option.some.inj hrun
    exact h
  | cons ev evs ih =>
    obtain ⟨s₁, hstep, hrun⟩ := Option.bind_eq_some_iff.mp hrun
    have hless : s₁.history.changes ≤ s'.history.changes :=
      (run_suffix hrun).sublist.countP_le
    obtain ⟨hfirst, hrest⟩ := List.forall_mem_cons.mp htame
    exact ih (h.step hstep hfirst (by omega)) hrun hrest

end Sound

/-- A breaker that opens on the first failure. -/
def sampleConfig (isFailure : Option (Unit → Option Bool)) : BreakerConfig Unit where
  name := "suppliers"
  failureThreshold := 1
  coolDown := 30
  isFailure := isFailure

/-- A call panics, and the first call after the cool-down is a trial that ends so. -/
def sampleTrial (ending : Ending Unit) : List (ℤ × CircuitEvent Unit) :=
  [(0, .begin), (1, .ends 0 .panicked), (1, .record 0), (2, .begin), (31, .begin),
    (32, .ends 1 ending)]

/-- A trial that succeeds closes the breaker. -/
theorem breaker_sound_trial : ∃ s, Reached (sampleConfig none) s ∧ s.breaker.state = .closed ∧
    s.history.changes = 3 ∧ s.Sound (sampleConfig none) := by
  have hrun : ((Circuit.run (sampleConfig none) {}
      (sampleTrial (.returned none false false) ++ [(32, .record 1)])).map fun s =>
        decide (s.breaker.state = .closed ∧ s.history.changes = 3)) = some true := by decide
  obtain ⟨s, hs, hfacts⟩ := Option.map_eq_some_iff.mp hrun
  obtain ⟨hclosed, hchanges⟩ := of_decide_eq_true hfacts
  have hreached : Reached (sampleConfig none) s := by
    refine Reached.start.run hs ?_ (by rw [hchanges]; decide)
    simp [sampleTrial, CircuitEvent.Tame, Ending.Tame]
  exact ⟨s, hreached, hclosed, hchanges, (breaker_sound rfl hreached).1⟩

/-- `IsFailure` panics on the error of a trial: the trial is over, but no outcome of it was
recorded, and the breaker refuses all calls from then on. -/
theorem breaker_stuck : ∃ s, Circuit.run (sampleConfig (some fun _ => none)) {}
      (sampleTrial (.returned (some ()) false false)) = some s ∧
    s.breaker.state = .halfOpen ∧ (∀ f ∈ s.calls, f.unfinished = false) ∧
    s.history.recordings 1 = 0 ∧
    ∀ now, (s.breaker.allow (sampleConfig (some fun _ => none)) now).1 = none := by
  have hrun : ((Circuit.run (sampleConfig (some fun _ => none)) {}
      (sampleTrial (.returned (some ()) false false))).map fun s =>
        decide (s.breaker.state = .halfOpen ∧ s.breaker.trial = true ∧
          (∀ f ∈ s.calls, f.unfinished = false) ∧ s.history.recordings 1 = 0)) = some true := by
    decide
  obtain ⟨s, hs, hfacts⟩ := Option.map_eq_some_iff.mp hrun
  obtain ⟨hhalf, htrial, hfinished, hnever⟩ := of_decide_eq_true hfacts
  refine ⟨s, hs, hhalf, hfinished, hnever, fun now => ?_⟩
  have hcooled : s.breaker.coolDown (sampleConfig (some fun _ => none)) now = s.breaker :=
    if_neg (by simp [hhalf])
  simp [Breaker.allow, hcooled, hhalf, htrial]

end FocServices.Resilience
