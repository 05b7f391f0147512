import FocServices.Orders.Queries
import FocServices.Orders.Routes
import FocServices.Paging.Ranking
import Mathlib.Data.Prod.Lex
import Mathlib.Data.String.Basic
import Mathlib.Order.OrderDual

/-!
# Flags of suspicious activity

`FlagService.List` counts the withdrawals of each courier and the cancellations of each
requester since the start of a window and flags those who reach a threshold, most events
first. An accept counts the withdrawals of its courier by another query. Text in the database
is taken to be in the order of Go's strings.
-/

namespace FocServices.Orders

open Paging Txn

/-! ## Settings -/

structure CancellationFlag where
  count : ℤ
  window : ℤ
  deriving DecidableEq

/-- `errand.SystemSettings`, with all the fields that validation reads. -/
structure AllSettings extends SystemSettings where
  restrictionDuration : ℤ
  cancellationFlag : CancellationFlag
  reservationTimeout : ℤ
  editTimeout : ℤ
  outboxConfirmTimeout : ℤ
  deriving DecidableEq

namespace AllSettings

def positive (name : String) (value : ℤ) : List Field :=
  if 0 < value then [] else [⟨name, "must be positive"⟩]

def deadlineFields (s : AllSettings) : List Field :=
  match s.deadlines.validate with
  | .ok () => []
  | .error err => err.fields

def problems (s : AllSettings) : List Field :=
  s.deadlineFields ++
  positive "withdrawalRestriction.count" s.withdrawalRestriction.count ++
  positive "withdrawalRestriction.window" s.withdrawalRestriction.window ++
  positive "withdrawalRestriction.duration" s.restrictionDuration ++
  positive "cancellationFlag.count" s.cancellationFlag.count ++
  positive "cancellationFlag.window" s.cancellationFlag.window ++
  positive "reservationTimeout" s.reservationTimeout ++
  positive "editTimeout" s.editTimeout ++
  positive "outboxConfirmTimeout" s.outboxConfirmTimeout

/-- `SystemSettings.Validate`. -/
def validate (s : AllSettings) : Except AppError Unit :=
  if s.problems = [] then .ok ()
  else .error { code := .validationFailed, message := "settings are invalid", fields := s.problems }

theorem positive_eq_nil {name : String} {value : ℤ} : positive name value = [] ↔ 0 < value := by
  unfold positive
  split <;> simp_all

theorem counts_pos {s : AllSettings} (h : s.validate = .ok ()) :
    0 < s.withdrawalRestriction.count ∧ 0 < s.cancellationFlag.count := by
  unfold validate at h
  split at h
  · next hfields =>
    simp only [problems, List.append_eq_nil_iff, positive_eq_nil] at hfields
    omega
  · cases h

end AllSettings

/-! ## Counting -/

structure ActivityCount where
  userID : String
  count : ℕ
  deriving DecidableEq

def maxActivityRows : ℕ := 500

def checkActivityArgs (since minCount : ℤ) (limit : ℕ) : Except StoreError Unit :=
  if since = zeroTime then .error (opsInvalid "since is required")
  else if minCount < 1 then .error (opsInvalid "minCount must be positive")
  else if limit < 1 ∨ maxActivityRows < limit then
    .error (opsInvalid "limit must be between 1 and 500")
  else .ok ()

/-- `ORDER BY event_count DESC, user_id`. -/
def ActivityCount.rank (c : ActivityCount) : ℕᵒᵈ ×ₗ String := toLex (.toDual c.count, c.userID)

/-- The users who occur at least `minCount` times, in order. -/
def activity (users : List String) (minCount : ℤ) : List ActivityCount :=
  rest ActivityCount.rank none
    (((tally users).map fun (user, n) => ⟨user, n⟩).filter fun c => minCount ≤ c.count)

/-- The couriers of the withdrawals, voluntary or forced, since a time. -/
def withdrawersSince (since : ℤ) (log : List TransitionRow) : List String :=
  (log.filter fun row => row.event ∈ [Event.withdraw, Event.pickupDeadlinePassed] ∧
    row.courierID ≠ "" ∧ since ≤ row.atTime).map TransitionRow.courierID

/-- The requesters of the cancellations since a time. -/
def cancellersSince (since : ℤ) (log : List TransitionRow) : List String :=
  (log.filter fun row => row.target = .cancelled ∧ row.event = .cancel ∧
    row.actorType = .requester ∧ row.actorID ≠ "" ∧ since ≤ row.atTime).map TransitionRow.actorID

def listWithdrawalCounts (log : List TransitionRow) (since minCount : ℤ) (limit : ℕ) :
    Except StoreError (List ActivityCount) := do
  checkActivityArgs since minCount limit
  return (activity (withdrawersSince (micros since) log) minCount).take limit

def listCancellationCounts (log : List TransitionRow) (since minCount : ℤ) (limit : ℕ) :
    Except StoreError (List ActivityCount) := do
  checkActivityArgs since minCount limit
  return (activity (cancellersSince (micros since) log) minCount).take limit

theorem checkActivityArgs_ok {since minCount : ℤ} {limit : ℕ} (hsince : since ≠ zeroTime)
    (hmin : 0 < minCount) (hlimit : 0 < limit) (hmax : limit ≤ maxActivityRows) :
    checkActivityArgs since minCount limit = .ok () := by
  unfold checkActivityArgs
  rw [if_neg hsince, if_neg (by omega), if_neg (by omega)]

theorem mem_activity {users : List String} {minCount : ℤ} {c : ActivityCount} :
    c ∈ activity users minCount ↔
      c.userID ∈ users ∧ users.count c.userID = c.count ∧ minCount ≤ c.count := by
  obtain ⟨user, n⟩ := c
  have hcounts : (⟨user, n⟩ : ActivityCount) ∈ (tally users).map (fun (user, n) => ⟨user, n⟩) ↔
      (user, n) ∈ tally users := by
    simp
  simp only [activity, mem_rest, after_none, and_true, List.mem_filter, hcounts, mem_tally,
    decide_eq_true_eq, and_assoc]

/-- Each user is counted once. -/
theorem activity_increasing (users : List String) (minCount : ℤ) :
    (activity users minCount).Pairwise fun c d => c.rank < d.rank := by
  refine rest_increasing none ?_
  refine List.Nodup.of_map (fun r => (ofLex r).2) ?_
  rw [List.map_map]
  have husers : (((tally users).map fun (user, n) => (⟨user, n⟩ : ActivityCount)).map
      ActivityCount.userID).Nodup := by
    rw [List.map_map]
    exact tally_nodup users
  exact husers.sublist (List.filter_sublist.map _)

/-- A count is the number of the user's withdrawals, as an accept counts them. -/
theorem count_withdrawersSince (since : ℤ) (log : List TransitionRow) (courier : String) :
    (withdrawersSince since log).count courier =
      log.countP fun row => row.withdrawalOf courier && since ≤ row.atTime := by
  rw [withdrawersSince, List.count, List.countP_map, List.countP_filter]
  refine List.countP_congr fun row _ => ?_
  simp only [Function.comp_apply, TransitionRow.withdrawalOf]
  grind

/-- The row records that the requester cancelled. -/
def TransitionRow.cancellationOf (row : TransitionRow) (requester : String) : Bool :=
  requester ≠ "" && row.actorID = requester && row.actorType = .requester &&
    row.event = .cancel && row.target = .cancelled

theorem count_cancellersSince (since : ℤ) (log : List TransitionRow) (requester : String) :
    (cancellersSince since log).count requester =
      log.countP fun row => row.cancellationOf requester && since ≤ row.atTime := by
  rw [cancellersSince, List.count, List.countP_map, List.countP_filter]
  refine List.countP_congr fun row _ => ?_
  simp only [Function.comp_apply, TransitionRow.cancellationOf]
  grind

/-! ## The list of flags -/

inductive FlagKind where
  | courierWithdrawals
  | requesterCancellations
  deriving DecidableEq

def FlagKind.text : FlagKind → String
  | .courierWithdrawals => "COURIER_WITHDRAWALS"
  | .requesterCancellations => "REQUESTER_CANCELLATIONS"

structure Flag where
  userID : String
  kind : FlagKind
  count : ℕ
  threshold : ℤ
  window : ℤ
  since : ℤ
  summary : String
  deriving DecidableEq

def maxFlags : ℕ := maxActivityRows

/-- A window as `15 min`, `1 h` or `90 s`. -/
def formatWindow (d : ℤ) : String :=
  let second := 1000000000
  if 3600 * second ≤ d ∧ d.tmod (3600 * second) = 0 then
    toString (d.tdiv (3600 * second)) ++ " h"
  else if 60 * second ≤ d ∧ d.tmod (60 * second) = 0 then
    toString (d.tdiv (60 * second)) ++ " min"
  else toString (d.tdiv second) ++ " s"

namespace AllSettings

def withdrawalsSince (s : AllSettings) (now : ℤ) : ℤ := now - s.withdrawalRestriction.window

def cancellationsSince (s : AllSettings) (now : ℤ) : ℤ := now - s.cancellationFlag.window

def courierFlag (s : AllSettings) (now : ℤ) (c : ActivityCount) : Flag where
  userID := c.userID
  kind := .courierWithdrawals
  count := c.count
  threshold := s.withdrawalRestriction.count
  window := s.withdrawalRestriction.window
  since := s.withdrawalsSince now
  summary := "High withdrawal rate, " ++ toString c.count ++ " in " ++
    formatWindow s.withdrawalRestriction.window

def requesterFlag (s : AllSettings) (now : ℤ) (c : ActivityCount) : Flag where
  userID := c.userID
  kind := .requesterCancellations
  count := c.count
  threshold := s.cancellationFlag.count
  window := s.cancellationFlag.window
  since := s.cancellationsSince now
  summary := "High cancellation rate, " ++ toString c.count ++ " in " ++
    formatWindow s.cancellationFlag.window

end AllSettings

/-- Most events first, then by user and kind. -/
def Flag.rank (f : Flag) : ℕᵒᵈ ×ₗ String ×ₗ String :=
  toLex (.toDual f.count, toLex (f.userID, f.kind.text))

/-- `FlagService.List`. `settings` is what reading the settings gave. -/
def listFlags (settings : Except StoreError AllSettings) (log : List TransitionRow) (now : ℤ) :
    Except StoreError (List Flag) := do
  let settings ← settings.mapError (.wrapped "read settings")
  let couriers ← (listWithdrawalCounts log (settings.withdrawalsSince now)
    settings.withdrawalRestriction.count maxFlags).mapError (.wrapped "count withdrawals")
  let requesters ← (listCancellationCounts log (settings.cancellationsSince now)
    (settings.cancellationFlag.count + 1) maxFlags).mapError (.wrapped "count cancellations")
  return (rest Flag.rank none (couriers.map (settings.courierFlag now) ++
    requesters.map (settings.requesterFlag now))).take maxFlags

/-! ## What is listed -/

section Listed

variable (settings : AllSettings) (log : List TransitionRow) (now : ℤ)

/-- The withdrawals of a courier since the start of the window. -/
def withdrawalCount (courier : String) : ActivityCount where
  userID := courier
  count := log.countP fun row =>
    row.withdrawalOf courier && micros (settings.withdrawalsSince now) ≤ row.atTime

/-- The cancellations of a requester since the start of the window. -/
def cancellationCount (requester : String) : ActivityCount where
  userID := requester
  count := log.countP fun row =>
    row.cancellationOf requester && micros (settings.cancellationsSince now) ≤ row.atTime

/-- The flags of all couriers who reached, and of all requesters who exceeded their count. -/
inductive Flagged : Flag → Prop where
  | courier (user : String)
      (h : settings.withdrawalRestriction.count ≤ (withdrawalCount settings log now user).count) :
      Flagged (settings.courierFlag now (withdrawalCount settings log now user))
  | requester (user : String)
      (h : settings.cancellationFlag.count < (cancellationCount settings log now user).count) :
      Flagged (settings.requesterFlag now (cancellationCount settings log now user))

/-- All flags, in order. -/
def allFlags : List Flag :=
  rest Flag.rank none
    ((activity (withdrawersSince (micros (settings.withdrawalsSince now)) log)
        settings.withdrawalRestriction.count).map (settings.courierFlag now) ++
      (activity (cancellersSince (micros (settings.cancellationsSince now)) log)
        (settings.cancellationFlag.count + 1)).map (settings.requesterFlag now))

variable {settings log now}

theorem mem_allFlags (hvalid : settings.validate = .ok ()) {f : Flag} :
    f ∈ allFlags settings log now ↔ Flagged settings log now f := by
  obtain ⟨hwithdrawals, hcancellations⟩ := AllSettings.counts_pos hvalid
  simp only [allFlags, mem_rest, after_none, and_true, List.mem_append, List.mem_map,
    mem_activity, count_withdrawersSince, count_cancellersSince]
  constructor
  · rintro (⟨c, ⟨-, hcount, hmin⟩, rfl⟩ | ⟨c, ⟨-, hcount, hmin⟩, rfl⟩)
    · have hself : withdrawalCount settings log now c.userID = c := by
        rw [withdrawalCount, hcount]
      have hflagged := @Flagged.courier settings log now c.userID
      rw [hself] at hflagged
      exact hflagged hmin
    · have hself : cancellationCount settings log now c.userID = c := by
        rw [cancellationCount, hcount]
      have hflagged := @Flagged.requester settings log now c.userID
      rw [hself] at hflagged
      exact hflagged (by omega)
  · rintro (⟨user, hmin⟩ | ⟨user, hmin⟩)
    · refine .inl ⟨_, ⟨?_, rfl, hmin⟩, rfl⟩
      refine List.count_pos_iff.mp ?_
      rw [count_withdrawersSince]
      change 0 < (withdrawalCount settings log now user).count
      omega
    · refine .inr ⟨_, ⟨?_, rfl, by omega⟩, rfl⟩
      refine List.count_pos_iff.mp ?_
      rw [count_cancellersSince]
      change 0 < (cancellationCount settings log now user).count
      omega

/-- Flags of one kind are in the order of their counts. -/
theorem flags_increasing {flag : ActivityCount → Flag} {kind : FlagKind}
    (hflag : ∀ c, (flag c).count = c.count ∧ (flag c).userID = c.userID ∧ (flag c).kind = kind)
    (users : List String) (minCount : ℤ) :
    ((activity users minCount).map flag).Pairwise fun f g => f.rank < g.rank := by
  refine List.pairwise_map.mpr ((activity_increasing users minCount).imp fun {c d} h => ?_)
  obtain ⟨hcount, huser, hkind⟩ := hflag c
  obtain ⟨hcount', huser', hkind'⟩ := hflag d
  rw [Flag.rank, Flag.rank, hcount, huser, hkind, hcount', huser', hkind']
  rcases Prod.Lex.lt_iff.mp h with hlt | ⟨heq, hlt⟩
  · exact Prod.Lex.lt_iff.mpr (.inl hlt)
  · exact Prod.Lex.lt_iff.mpr (.inr ⟨heq, Prod.Lex.lt_iff.mpr (.inl hlt)⟩)

theorem couriers_increasing (users : List String) (minCount : ℤ) :
    ((activity users minCount).map (settings.courierFlag now)).Pairwise
      fun f g => f.rank < g.rank :=
  @flags_increasing (settings.courierFlag now) .courierWithdrawals (fun _ => ⟨rfl, rfl, rfl⟩)
    users minCount

theorem requesters_increasing (users : List String) (minCount : ℤ) :
    ((activity users minCount).map (settings.requesterFlag now)).Pairwise
      fun f g => f.rank < g.rank :=
  @flags_increasing (settings.requesterFlag now) .requesterCancellations
    (fun _ => ⟨rfl, rfl, rfl⟩) users minCount

/-- No two flags rank the same: those of different kinds differ in the kind. -/
theorem ranks_nodup (couriers requesters : List String) (minCount minCount' : ℤ) :
    (((activity couriers minCount).map (settings.courierFlag now) ++
      (activity requesters minCount').map (settings.requesterFlag now)).map Flag.rank).Nodup := by
  rw [List.map_append]
  refine List.nodup_append.mpr ⟨?_, ?_, ?_⟩
  · exact List.pairwise_map.mpr ((couriers_increasing couriers minCount).imp ne_of_lt)
  · exact List.pairwise_map.mpr ((requesters_increasing requesters minCount').imp ne_of_lt)
  · rintro r hr r' hr' rfl
    obtain ⟨f, hf, rfl⟩ := List.mem_map.mp hr
    obtain ⟨g, hg, heq⟩ := List.mem_map.mp hr'
    obtain ⟨c, -, rfl⟩ := List.mem_map.mp hf
    obtain ⟨d, -, rfl⟩ := List.mem_map.mp hg
    have hkind : FlagKind.requesterCancellations.text = FlagKind.courierWithdrawals.text :=
      congrArg (fun r => (ofLex (ofLex r).2).2) heq
    exact absurd hkind (by decide)

theorem allFlags_increasing : (allFlags settings log now).Pairwise fun f g => f.rank < g.rank :=
  rest_increasing none (ranks_nodup _ _ _ _)

/-- The list is cut from the first rows of each kind, which have the first rows of all. -/
theorem listFlags_eq (hvalid : settings.validate = .ok ())
    (hwithdrawals : settings.withdrawalsSince now ≠ zeroTime)
    (hcancellations : settings.cancellationsSince now ≠ zeroTime) :
    listFlags (.ok settings) log now = .ok ((allFlags settings log now).take maxFlags) := by
  obtain ⟨hcount, hcount'⟩ := AllSettings.counts_pos hvalid
  have hcouriers := checkActivityArgs_ok hwithdrawals hcount (by decide : 0 < maxFlags) le_rfl
  have hrequesters := checkActivityArgs_ok hcancellations
    (by omega : 0 < settings.cancellationFlag.count + 1) (by decide : 0 < maxFlags) le_rfl
  refine bind_eq_ok.mpr ⟨settings, rfl, bind_eq_ok.mpr
    ⟨_, mapError_eq_ok.mpr (bind_eq_ok.mpr ⟨(), hcouriers, rfl⟩), bind_eq_ok.mpr
      ⟨_, mapError_eq_ok.mpr (bind_eq_ok.mpr ⟨(), hrequesters, rfl⟩), congrArg Except.ok ?_⟩⟩⟩
  rw [List.map_take, List.map_take, take_rest_append (couriers_increasing _ _)
    (requesters_increasing _ _) (ranks_nodup _ _ _ _)]
  rfl

/-- What an accept by the courier reads at the same time. -/
theorem run_eligibility (hash : String → ℤ) (s : Tables) (n : ℕ) (errandID courier : String) :
    ∃ input n', (engine hash).run
        (eligibility (.ok settings.toSystemSettings) errandID courier now) s n =
          (.ok input, s, n') ∧
      (input.restricted = true ↔ settings.withdrawalRestriction.count ≤
        (withdrawalCount settings s.transitions now courier).count) :=
  ⟨_, _, rfl, decide_eq_true_iff⟩

end Listed

namespace Sample

def flagSettings : AllSettings where
  deadlines := defaultDeadlineSettings
  withdrawalRestriction := ⟨3, 900000000000⟩
  restrictionDuration := 900000000000
  cancellationFlag := ⟨20, 3600000000000⟩
  reservationTimeout := 300000000000
  editTimeout := 300000000000
  outboxConfirmTimeout := 600000000000

def withdrawal (atTime : ℤ) : TransitionRow where
  errandID := "3f2b8c1e-0000-4000-8000-000000000001"
  source := .assigned
  target := .open
  event := .withdraw
  actorType := .courier
  actorID := "carol"
  courierID := "carol"
  reason := ""
  errandVersion := 3
  atTime := atTime

/-- A log with three withdrawals, the first a minute after the start of the epoch. -/
def withdrawals : Tables :=
  { transitions := [withdrawal 60000000000, withdrawal 120000000000, withdrawal 180000000000] }

end Sample

end FocServices.Orders
