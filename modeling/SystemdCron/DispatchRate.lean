import SystemdCron.LoadavgDam
import SystemdCron.ThrottleGroup

/-!
# The dispatch rate

What the dispatcher says about the two programs: the recorded times go up, so that no word comes back and no
two winners consume the same word, and every winner waited for its interval.
-/

namespace SystemdCron

open Dispatcher

/-- Wins that are spaced: each of them more than the interval of the winner after the time recorded in the
word that it consumed. -/
structure RateLimited {P : Type} (freq : P → Nat) (w₀ : Bundle) (wins : List (Win P Bundle Timespec)) :
    Prop where
  due : ∀ w ∈ wins, w.consumed.ns + freq w.winner * 1000000000 < w.now.ns
  nodup : (wins.map Win.consumed).Nodup
  increasing : ((w₀ :: wins.map Win.written).map Bundle.ns).Pairwise (· < ·)

/-- The interval before a clock reading, in nanoseconds. -/
theorem due_iff {last : Bundle} {now : Timespec} {freq : Nat} :
    (now.sub last.toTimespec).gt (.ofSec freq) ↔ last.ns + freq * 1000000000 < now.ns := by
  rw [Timespec.gt_iff, Timespec.ns_sub, Timespec.ns_ofSec]
  have : last.ns = last.toTimespec.ns := rfl
  omega

theorem RateLimited.of_inv {P : Type} {freq : P → Nat} {due : P → Bundle → Timespec → Prop} {w₀ : Bundle}
    {s : Dispatcher.State P Bundle Timespec} (hs : Dispatcher.Inv due Bundle.ns w₀ s)
    (hdue : ∀ p last now, due p last now → last.ns + freq p * 1000000000 < now.ns) :
    RateLimited freq w₀ s.wins :=
  ⟨fun w hw => hdue _ _ _ (hs.due w hw), hs.nodup_consumed, hs.increasing⟩

/-- **Dispatch rate limit**: in every run of `loadavg_dam` processes and in every run of `throttle_group`
processes the wins are spaced, below `2 ^ 32` seconds. -/
theorem dispatch_rate {P U : Type} [DecidableEq P] [DecidableEq U] :
    (∀ (pid : P → BitVec 32) (s₀ s : LoadavgDam.State P), LoadavgDam.Start s₀ →
      Relation.ReflTransGen (Machine.Next (LoadavgDam.step pid) LoadavgDam.ClockBelow) s₀ s →
      RateLimited (fun _ => 30) s₀.shm s.wins) ∧
    ∀ (sys : ThrottleGroup.System P U) (s₀ s : ThrottleGroup.State P U), ThrottleGroup.Start s₀ →
      Relation.ReflTransGen (Machine.Next (ThrottleGroup.step sys) ThrottleGroup.ClockBelow) s₀ s →
      RateLimited sys.freq s₀.shm s.wins := by
  refine ⟨fun pid s₀ s h₀ h => ?_, fun sys s₀ s h₀ h => ?_⟩
  · exact .of_inv (LoadavgDam.dispatcher_inv h₀ h) fun p last now hdue => due_iff.1 hdue
  · exact .of_inv (ThrottleGroup.dispatcher_inv h₀ h).2 fun p last now hdue => due_iff.1 hdue

/-- Processes `0` and `1`, which have seen nothing yet. -/
def damStart : LoadavgDam.State Nat where
  shm := ⟨0, 0, 0⟩
  clock := .ofSec 40
  pc _ := .top
  wins := []

def damPid (p : Nat) : BitVec 32 := BitVec.ofNat 32 (1000 + p)

/-- Two processes load the same word: one wins with it, and the other has to wait and load again. -/
def damRun : List (LoadavgDam.Action Nat) :=
  [.load 0, .load 1, .clockGettime 0, .clockGettime 1, .compareExchange 1, .compareExchange 0,
   .tick (.ofSec 71), .load 0, .clockGettime 0, .compareExchange 0]

def groupSystem : ThrottleGroup.System Nat Nat where
  self := []
  unit p := p
  group _ := []
  pid p := BitVec.ofNat 32 (1000 + p)
  loadTarget _ := false

def groupStart : ThrottleGroup.State Nat Nat where
  shm := ⟨0, 0, 0⟩
  clock := .ofSec 40
  pc _ := .top
  running _ := false
  exits _ := []
  wins := []

def groupRun : List (ThrottleGroup.Action Nat Nat) :=
  [.load 0, .load 1, .clockGettime 0, .clockGettime 1, .listUnits 0 [], .listUnits 1 [], .settle 1,
   .settle 0, .compareExchange 1, .compareExchange 0, .tick (.ofSec 46), .load 0, .clockGettime 0,
   .listUnits 0 [], .settle 0, .compareExchange 0]

theorem dispatch_rate_two_winners :
    (∃ s, Machine.run (LoadavgDam.step damPid) LoadavgDam.ClockBelow damStart damRun = some s ∧
      s.wins.map Win.winner = [1, 0] ∧ RateLimited (fun _ => 30) damStart.shm s.wins) ∧
    ∃ s, Machine.run (ThrottleGroup.step groupSystem) ThrottleGroup.ClockBelow groupStart groupRun =
        some s ∧
      s.wins.map Win.winner = [1, 0] ∧ RateLimited groupSystem.freq groupStart.shm s.wins := by
  refine ⟨⟨_, rfl, by decide, ?_⟩, ⟨_, rfl, by decide, ?_⟩⟩
  · exact (@dispatch_rate _ Nat _ _).1 damPid _ _ ⟨fun _ => rfl, rfl, by decide⟩
      (@Machine.run_reaches _ _ _ _ _ damRun _ _ rfl)
  · exact dispatch_rate.2 groupSystem _ _ ⟨fun _ => rfl, fun _ => rfl, fun _ => rfl, rfl, by decide⟩
      (@Machine.run_reaches _ _ _ _ _ groupRun _ _ rfl)

end SystemdCron
