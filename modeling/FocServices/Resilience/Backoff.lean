import Mathlib.Probability.Distributions.Uniform
import Mathlib.Algebra.Order.Group.Int

/-!
# Exponential backoff in 64-bit arithmetic

The order service and the credit service both delay attempt `n` by a random time up to
`min cap (base * 2 ^ (n - 1))`, and both compute the bound by doubling an `int64`. The
order service compares with half the cap before it doubles. The credit service doubles
first, so a cap above `2 ^ 62` nanoseconds lets the value wrap around.
-/

namespace FocServices.Resilience

/-- `math.MaxInt64`. -/
def maxInt64 : ℤ := 2 ^ 63 - 1

/-- What an `int64` operation leaves of its exact result. -/
def wrap64 (x : ℤ) : ℤ := x.bmod (2 ^ 64)

/-- Whether an exact result is an `int64`. -/
def fitsInt64 (x : ℤ) : Bool := -2 ^ 63 ≤ x && x ≤ maxInt64

theorem fitsInt64_iff {x : ℤ} : fitsInt64 x = true ↔ -2 ^ 63 ≤ x ∧ x ≤ maxInt64 := by
  simp [fitsInt64]

theorem wrap64_eq {x : ℤ} (h : fitsInt64 x = true) : wrap64 x = x := by
  obtain ⟨hlow, hhigh⟩ := fitsInt64_iff.mp h
  unfold maxInt64 at hhigh
  exact Int.bmod_eq_of_le (by norm_num; omega) (by norm_num; omega)

/-- The law both services state for the bound of attempt `n`, over the integers. -/
def exactCeiling (base cap n : ℤ) : ℤ := min cap (base * 2 ^ (n - 1).toNat)

/-- Doubling a positive number does not make it smaller. -/
theorem le_mul_two_pow {d : ℤ} (hd : 0 < d) (k : ℕ) : d ≤ d * 2 ^ k :=
  le_mul_of_one_le_right hd.le (one_le_pow₀ (by norm_num))

theorem mul_two_pow_succ (d : ℤ) (k : ℕ) : d * 2 ^ (k + 1) = d * 2 * 2 ^ k := by
  rw [pow_succ']
  exact (mul_assoc d 2 (2 ^ k)).symm

/-! ## The order service -/

/-- `BackoffPolicy`; its random source is an argument of `backoff`. -/
structure BackoffPolicy where
  base : ℤ
  cap : ℤ
  deriving DecidableEq, Repr

def BackoffPolicy.validate (p : BackoffPolicy) : Except String Unit :=
  if p.base ≤ 0 then .error "resilience: backoff base must be positive"
  else if p.cap < p.base then .error "resilience: backoff cap must be at least the base"
  else .ok ()

/-- At most `k` rounds of the loop of `Ceiling`. -/
def BackoffPolicy.grow (cap : ℤ) : ℕ → ℤ → ℤ
  | 0, d => d
  | k + 1, d =>
    if d < cap then
      -- `d = p.Cap` and `break`
      if cap.tdiv 2 < d then cap else grow cap k (wrap64 (d * 2))
    else d

def BackoffPolicy.ceiling (p : BackoffPolicy) (attempt : ℤ) : ℤ :=
  min (grow p.cap (attempt - 1).toNat p.base) p.cap

/-- `Backoff`, with the source `rnd` of random values. -/
def BackoffPolicy.backoff (p : BackoffPolicy) (rnd : ℤ → ℤ) (attempt : ℤ) : ℤ :=
  let n := p.ceiling attempt
  if n ≤ 0 then 0 else rnd (if n < maxInt64 then wrap64 (n + 1) else n)

namespace BackoffPolicy

variable {p : BackoffPolicy} {cap d n : ℤ}

theorem validate_eq_ok : p.validate = .ok () ↔ 0 < p.base ∧ p.base ≤ p.cap := by
  unfold validate
  by_cases hbase : p.base ≤ 0
  · simp [hbase, not_lt.mpr hbase]
  · by_cases hcap : p.cap < p.base
    · simp [hbase, hcap]
    · simp [hbase, hcap, not_le.mp hbase, not_lt.mp hcap]

/-- The comparison with half the cap keeps the doubled value below it, so no round
overflows. -/
theorem grow_eq (hmax : cap ≤ maxInt64) (k : ℕ) (hd : 0 < d) (hle : d ≤ cap) :
    grow cap k d = min cap (d * 2 ^ k) := by
  induction k generalizing d with
  | zero => simp [grow, hle]
  | succ k ih =>
    have hhalf : cap.tdiv 2 = cap / 2 := Int.tdiv_eq_ediv_of_nonneg (by omega)
    rw [mul_two_pow_succ]
    unfold grow
    by_cases hlt : d < cap
    · by_cases hbreak : cap / 2 < d
      · rw [if_pos hlt, hhalf, if_pos hbreak]
        have hgrown := le_mul_two_pow (d := d * 2) (by omega) k
        exact (min_eq_left (by omega)).symm
      · have hfits : fitsInt64 (d * 2) = true := fitsInt64_iff.mpr ⟨by omega, by omega⟩
        rw [if_pos hlt, hhalf, if_neg hbreak, wrap64_eq hfits]
        exact ih (by omega) (by omega)
    · have hgrown := le_mul_two_pow (d := d * 2) (by omega) k
      rw [if_neg hlt, min_eq_left (by omega)]
      omega

theorem ceiling_eq (hp : p.validate = .ok ()) (hmax : p.cap ≤ maxInt64) :
    p.ceiling n = exactCeiling p.base p.cap n := by
  obtain ⟨hbase, hcap⟩ := validate_eq_ok.mp hp
  rw [ceiling, grow_eq hmax _ hbase hcap, exactCeiling]
  exact min_eq_left (min_le_left _ _)

theorem ceiling_pos (hp : p.validate = .ok ()) (hmax : p.cap ≤ maxInt64) : 0 < p.ceiling n := by
  obtain ⟨hbase, hcap⟩ := validate_eq_ok.mp hp
  have hgrown := le_mul_two_pow hbase (n - 1).toNat
  rw [ceiling_eq hp hmax, exactCeiling]
  exact lt_min (by omega) (by omega)

/-- The drawn delay does not exceed the ceiling, whatever the source returns in its range. -/
theorem backoff_mem (hp : p.validate = .ok ()) (hmax : p.cap ≤ maxInt64) {rnd : ℤ → ℤ}
    (hrnd : ∀ m, 0 < m → 0 ≤ rnd m ∧ rnd m < m) :
    0 ≤ p.backoff rnd n ∧ p.backoff rnd n ≤ p.ceiling n := by
  have hpos := ceiling_pos (n := n) hp hmax
  have hdef : p.backoff rnd n =
      rnd (if p.ceiling n < maxInt64 then wrap64 (p.ceiling n + 1) else p.ceiling n) :=
    if_neg (not_le.mpr hpos)
  by_cases hlt : p.ceiling n < maxInt64
  · rw [hdef, if_pos hlt, wrap64_eq (fitsInt64_iff.mpr ⟨by omega, by omega⟩)]
    have := hrnd (p.ceiling n + 1) (by omega)
    omega
  · rw [hdef, if_neg hlt]
    have := hrnd (p.ceiling n) hpos
    omega

end BackoffPolicy

/-! ## The credit service -/

/-- `Backoff` of the credit service. -/
structure Backoff where
  base : ℤ
  cap : ℤ
  deriving DecidableEq, Repr

/-- How a delay comes about: it is fixed, drawn uniformly from the integers from 0 to below
a bound, or the draw panics. -/
inductive Draw where
  | fixed (value : ℤ)
  | below (bound : ℤ)
  | panics
  deriving DecidableEq, Repr

/-- `rand.Int64N`. -/
def int64N (n : ℤ) : Draw := if n ≤ 0 then .panics else .below n

/-- The distribution of a delay. -/
noncomputable def Draw.law : Draw → Option (PMF ℤ)
  | .fixed value => some (PMF.pure value)
  | .below bound =>
    if h : (Finset.Ico 0 bound).Nonempty then some (PMF.uniformOfFinset (Finset.Ico 0 bound) h)
    else none
  | .panics => none

/-- At most `k` rounds of the loop of `delay`. -/
def Backoff.grow (cap : ℤ) : ℕ → ℤ → ℤ
  | 0, ceiling => ceiling
  | k + 1, ceiling => if ceiling < cap then grow cap k (wrap64 (ceiling * 2)) else ceiling

/-- Whether these rounds compute no value outside `int64`. -/
def Backoff.growsExactly (cap : ℤ) : ℕ → ℤ → Bool
  | 0, _ => true
  | k + 1, ceiling =>
    if ceiling < cap then
      fitsInt64 (ceiling * 2) && growsExactly cap k (wrap64 (ceiling * 2))
    else true

/-- The value of `ceiling` before the draw. -/
def Backoff.ceiling (b : Backoff) (attempt : ℤ) : ℤ :=
  min (grow b.cap (attempt - 1).toNat b.base) b.cap

def Backoff.delay (b : Backoff) (attempt : ℤ) : Draw :=
  if b.ceiling attempt ≤ 0 then .fixed 0 else int64N (wrap64 (b.ceiling attempt + 1))

/-- Whether a call of `delay` computes no value outside `int64`. -/
def Backoff.delaysExactly (b : Backoff) (attempt : ℤ) : Bool :=
  growsExactly b.cap (attempt - 1).toNat b.base &&
    (b.ceiling attempt ≤ 0 || fitsInt64 (b.ceiling attempt + 1))

/-- `Config` of the consumer. -/
structure ConsumerConfig where
  prefetch : ℤ := 0
  reconnectBackoff : Backoff := ⟨0, 0⟩
  retryBackoff : Backoff := ⟨0, 0⟩
  maxAttempts : ℤ := 0
  handleTimeout : ℤ := 0
  deriving DecidableEq, Repr

def defaultConsumerConfig : ConsumerConfig where
  prefetch := 16
  reconnectBackoff := ⟨500 * 10 ^ 6, 30 * 10 ^ 9⟩
  retryBackoff := ⟨10 ^ 9, 30 * 10 ^ 9⟩
  maxAttempts := 5
  handleTimeout := 30 * 10 ^ 9

/-- `withDefaults`, before its checks. -/
def ConsumerConfig.filled (c : ConsumerConfig) : ConsumerConfig where
  prefetch := if c.prefetch = 0 then defaultConsumerConfig.prefetch else c.prefetch
  reconnectBackoff := if c.reconnectBackoff = ⟨0, 0⟩ then defaultConsumerConfig.reconnectBackoff
    else c.reconnectBackoff
  retryBackoff := if c.retryBackoff = ⟨0, 0⟩ then defaultConsumerConfig.retryBackoff
    else c.retryBackoff
  maxAttempts := if c.maxAttempts = 0 then defaultConsumerConfig.maxAttempts else c.maxAttempts
  handleTimeout := if c.handleTimeout = 0 then defaultConsumerConfig.handleTimeout
    else c.handleTimeout

def ConsumerConfig.withDefaults (c : ConsumerConfig) : Except String ConsumerConfig :=
  let c := c.filled
  if c.maxAttempts < 1 then .error "creditmsg: max attempts must be at least 1"
  else if c.prefetch < 1 ∨ 1000 < c.prefetch then
    .error "creditmsg: prefetch must be between 1 and 1000"
  else if c.handleTimeout < 0 then .error "creditmsg: handle timeout must be positive"
  else if (c.reconnectBackoff.base ≤ 0 ∨ c.reconnectBackoff.cap < c.reconnectBackoff.base) ∨
      (c.retryBackoff.base ≤ 0 ∨ c.retryBackoff.cap < c.retryBackoff.base) then
    .error "creditmsg: backoff base must be positive and at most the cap"
  else .ok c

/-- The policies of a configuration the consumer runs with. -/
def Backoff.Accepted (b : Backoff) : Prop :=
  ∃ c c' : ConsumerConfig, c.withDefaults = .ok c' ∧
    (b = c'.reconnectBackoff ∨ b = c'.retryBackoff)

/-- The stated law: the delay is drawn uniformly from all integers from 0 to the exact
ceiling, and nothing overflows on the way. -/
def Backoff.Lawful (b : Backoff) (n : ℤ) : Prop :=
  b.delaysExactly n = true ∧
    ∃ h : (Finset.Icc 0 (exactCeiling b.base b.cap n)).Nonempty,
      (b.delay n).law = some (PMF.uniformOfFinset (Finset.Icc 0 (exactCeiling b.base b.cap n)) h)

/-- Every doubling the loop makes from `d` within `k` rounds fits. -/
def DoublesWithin (cap : ℤ) (k : ℕ) (d : ℤ) : Prop :=
  ∀ j < k, d * 2 ^ j < cap → d * 2 ^ (j + 1) ≤ maxInt64

/-- The policy and the attempt stay clear of the end of `int64`: every doubling made below
the cap fits, and the bound itself is not the largest `int64`. -/
def Backoff.Clear (b : Backoff) (n : ℤ) : Prop :=
  DoublesWithin b.cap (n - 1).toNat b.base ∧ exactCeiling b.base b.cap n < maxInt64

namespace Backoff

variable {b : Backoff} {cap d n : ℤ}

theorem Accepted.bounds (h : b.Accepted) : 0 < b.base ∧ b.base ≤ b.cap := by
  obtain ⟨c, c', hc, hb⟩ := h
  simp only [ConsumerConfig.withDefaults] at hc
  split at hc
  · cases hc
  split at hc
  · cases hc
  split at hc
  · cases hc
  split at hc
  · cases hc
  next hbackoff =>
    cases hc
    rcases hb with rfl | rfl
    · omega
    · omega

theorem growsExactly_iff (k : ℕ) (hd : 0 < d) :
    growsExactly cap k d = true ↔ DoublesWithin cap k d := by
  induction k generalizing d with
  | zero => simp [growsExactly, DoublesWithin]
  | succ k ih =>
    unfold growsExactly
    by_cases hlt : d < cap
    · rw [if_pos hlt, Bool.and_eq_true]
      constructor
      · rintro ⟨hfits, hrest⟩ j hj hbelow
        rw [wrap64_eq hfits, ih (by omega)] at hrest
        cases j with
        | zero => simpa using (fitsInt64_iff.mp hfits).2
        | succ j =>
          rw [mul_two_pow_succ] at hbelow ⊢
          exact hrest j (by omega) hbelow
      · intro h
        have hfirst : d * 2 ≤ maxInt64 := by
          simpa using h 0 (Nat.succ_pos k) (by simpa using hlt)
        have hfits : fitsInt64 (d * 2) = true := fitsInt64_iff.mpr ⟨by omega, hfirst⟩
        refine ⟨hfits, ?_⟩
        rw [wrap64_eq hfits, ih (by omega)]
        intro j hj hbelow
        rw [← mul_two_pow_succ] at hbelow ⊢
        exact h (j + 1) (by omega) hbelow
    · rw [if_neg hlt]
      refine iff_of_true rfl fun j _ hbelow => ?_
      have hgrown := le_mul_two_pow hd j
      omega

theorem min_grow_eq (k : ℕ) (hd : 0 < d) (h : growsExactly cap k d = true) :
    min (grow cap k d) cap = min cap (d * 2 ^ k) := by
  induction k generalizing d with
  | zero => simp [grow, min_comm]
  | succ k ih =>
    unfold grow
    unfold growsExactly at h
    by_cases hlt : d < cap
    · rw [if_pos hlt, Bool.and_eq_true] at h
      rw [if_pos hlt, wrap64_eq h.1, mul_two_pow_succ]
      refine ih (by omega) ?_
      rw [← wrap64_eq h.1]
      exact h.2
    · have hgrown := le_mul_two_pow hd (k + 1)
      rw [if_neg hlt, min_eq_right (by omega), min_eq_left (by omega)]

theorem exactCeiling_pos (hbase : 0 < b.base) (hcap : b.base ≤ b.cap) :
    0 < exactCeiling b.base b.cap n := by
  have hgrown := le_mul_two_pow hbase (n - 1).toNat
  exact lt_min (by omega) (by omega)

/-- A call that overflows nowhere draws from the exact range. -/
theorem law_delay (hbase : 0 < b.base) (hcap : b.base ≤ b.cap) (h : b.delaysExactly n = true) :
    ∃ hne : (Finset.Icc 0 (exactCeiling b.base b.cap n)).Nonempty,
      (b.delay n).law = some (PMF.uniformOfFinset _ hne) := by
  have hpos := exactCeiling_pos (n := n) hbase hcap
  simp only [delaysExactly, Bool.and_eq_true, Bool.or_eq_true, decide_eq_true_eq] at h
  have hceiling : b.ceiling n = exactCeiling b.base b.cap n := min_grow_eq _ hbase h.1
  have hfits := h.2.resolve_left (by omega)
  have hrange : Finset.Ico 0 (exactCeiling b.base b.cap n + 1) =
      Finset.Icc 0 (exactCeiling b.base b.cap n) := by
    ext x
    simp only [Finset.mem_Ico, Finset.mem_Icc]
    omega
  have hdelay : b.delay n = .below (exactCeiling b.base b.cap n + 1) := by
    rw [delay, if_neg (by omega), wrap64_eq hfits, int64N, if_neg (by omega), hceiling]
  have hne : (Finset.Icc 0 (exactCeiling b.base b.cap n)).Nonempty :=
    Finset.nonempty_Icc.mpr hpos.le
  refine ⟨hne, ?_⟩
  rw [hdelay, Draw.law, dif_pos (by rw [hrange]; exact hne)]
  simp only [hrange]

/-- The law holds exactly where the arithmetic stays clear of the end of `int64`. -/
theorem lawful_iff (hbase : 0 < b.base) (hcap : b.base ≤ b.cap) : b.Lawful n ↔ b.Clear n := by
  have hpos := exactCeiling_pos (n := n) hbase hcap
  have hgrow : growsExactly b.cap (n - 1).toNat b.base = true ↔
      DoublesWithin b.cap (n - 1).toNat b.base := growsExactly_iff _ hbase
  constructor
  · rintro ⟨hexact, -⟩
    simp only [delaysExactly, Bool.and_eq_true, Bool.or_eq_true, decide_eq_true_eq] at hexact
    have hceiling : b.ceiling n = exactCeiling b.base b.cap n := min_grow_eq _ hbase hexact.1
    have hfits := fitsInt64_iff.mp (hexact.2.resolve_left (by omega))
    exact ⟨hgrow.mp hexact.1, by omega⟩
  · rintro ⟨hdoubles, hlt⟩
    have hexact : b.delaysExactly n = true := by
      have hgrown := hgrow.mpr hdoubles
      have hceiling : b.ceiling n = exactCeiling b.base b.cap n := min_grow_eq _ hbase hgrown
      simp only [delaysExactly, Bool.and_eq_true, Bool.or_eq_true, decide_eq_true_eq]
      exact ⟨hgrown, Or.inr (fitsInt64_iff.mpr ⟨by omega, by omega⟩)⟩
    exact ⟨hexact, law_delay hbase hcap hexact⟩

/-- A cap of at most `2 ^ 62` nanoseconds is clear for every attempt. -/
theorem clear_of_cap_le (h : b.cap ≤ 2 ^ 62) : b.Clear n := by
  refine ⟨fun j _ hbelow => ?_, ?_⟩
  · rw [pow_succ, ← mul_assoc]
    unfold maxInt64
    omega
  · have hle : exactCeiling b.base b.cap n ≤ b.cap := min_le_left _ _
    unfold maxInt64
    omega

end Backoff

/-- The bounds of both services: those of the order service hold for every accepted policy,
those of the credit service exactly for the policies and attempts that stay clear of the end
of `int64`. An attempt below 1 counts as 1. -/
theorem backoff_bounds {p : BackoffPolicy} {b : Backoff} (n : ℤ) (hp : p.validate = .ok ())
    (hmax : p.cap ≤ maxInt64) (hb : b.Accepted) :
    (p.ceiling n = exactCeiling p.base p.cap n ∧
      ∀ rnd : ℤ → ℤ, (∀ m, 0 < m → 0 ≤ rnd m ∧ rnd m < m) →
        0 ≤ p.backoff rnd n ∧ p.backoff rnd n ≤ p.ceiling n) ∧
    (b.Lawful n ↔ b.Clear n) := by
  obtain ⟨hbase, hcap⟩ := hb.bounds
  exact ⟨⟨p.ceiling_eq hp hmax, fun rnd hrnd => p.backoff_mem hp hmax hrnd⟩,
    Backoff.lawful_iff hbase hcap⟩

/-- The policies both services have by default, at the last attempt of a consumer. -/
theorem backoff_bounds_default :
    (⟨2 * 10 ^ 9, 300 * 10 ^ 9⟩ : BackoffPolicy).ceiling 5 = 32 * 10 ^ 9 ∧
      defaultConsumerConfig.retryBackoff.Lawful 5 := by
  obtain ⟨⟨hceiling, -⟩, hlawful⟩ := backoff_bounds (p := ⟨2 * 10 ^ 9, 300 * 10 ^ 9⟩)
    (b := defaultConsumerConfig.retryBackoff) 5 rfl (by decide) ⟨{}, _, rfl, Or.inr rfl⟩
  exact ⟨hceiling.trans (by decide), hlawful.mpr (Backoff.clear_of_cap_le (by decide))⟩

/-- The consumer accepts the largest `int64` as base and cap, and the first delay panics. -/
theorem largest_backoff_panics :
    (⟨maxInt64, maxInt64⟩ : Backoff).Accepted ∧
      (⟨maxInt64, maxInt64⟩ : Backoff).delay 1 = .panics ∧
      ¬ (⟨maxInt64, maxInt64⟩ : Backoff).Lawful 1 := by
  have hpanics : (⟨maxInt64, maxInt64⟩ : Backoff).delay 1 = .panics := by decide
  refine ⟨⟨{ retryBackoff := ⟨maxInt64, maxInt64⟩ }, _, rfl, Or.inr rfl⟩, hpanics, ?_⟩
  rintro ⟨-, hne, hlaw⟩
  rw [hpanics] at hlaw
  cases hlaw

end FocServices.Resilience
