import SystemdCron.Crontab

/-!
# The boot delay

The service of a job with a delay begins with the helper `boot_delay`, which waits until the machine has been
up for that many minutes. The generator leaves the helper out if the machine has been up for long enough, but
compares the delay in minutes with the uptime in seconds (`boot_delay_honoured_iff`).
-/

namespace SystemdCron

open Bytes

/-- The arithmetic of `/bin/sh`, in `intmax_t`: the value of `$(( $1 * 60 ))`, if it has one. -/
structure ShellArithmetic where
  minutes : Bytes → Option Int
  /-- Numbers in range are multiplied as they are. -/
  exact : ∀ n : Nat, 60 * n < 2 ^ 63 → minutes (decimal n) = some (60 * (n : Int))
  /-- There are no values out of range. -/
  inRange : ∀ text v, minutes text = some v → v < 2 ^ 63

/-- Arithmetic that wraps around. -/
def ShellArithmetic.wrapping : ShellArithmetic where
  minutes text := (parseDecimal text).map fun n : Nat => (60 * (n : Int)).bmod (2 ^ 64)
  exact n h := by
    rw [parseDecimal_decimal, Option.map_some, Int.bmod_eq_of_le (by omega) (by omega)]
  inRange text v h := by
    obtain ⟨n, -, rfl⟩ := Option.map_eq_some_iff.1 h
    have := @Int.bmod_lt (60 * (n : Int)) (2 ^ 64) (by decide)
    omega

/-- `boot_delay.sh`, started at an uptime: the uptime at its end. The fractional part of the uptime is cut off
before the comparison. -/
def bootDelaySh (sh : ShellArithmetic) (arg : Bytes) (uptime : ℚ) : ℚ :=
  match sh.minutes arg with
  | none => uptime
  | some delay => if delay ≤ ⌊uptime⌋ then uptime else uptime + (delay - ⌊uptime⌋ : ℤ)

/-- The uptime after the `ExecStartPre=` line for the delay, if the service has one. -/
def Job.uptimeAfterDelay (sh : ShellArithmetic) (cfg : Config) (host : Host) (j : Job) (uptime : ℚ) : ℚ :=
  match j.bootDelayLine cfg host with
  | none => uptime
  | some _ => bootDelaySh sh (decimal j.bootDelay) uptime

/-- The helper waits until its delay is over. -/
theorem le_bootDelaySh {sh : ShellArithmetic} {arg : Bytes} {delay : Int} (h : sh.minutes arg = some delay)
    (uptime : ℚ) : (delay : ℚ) ≤ bootDelaySh sh arg uptime := by
  unfold bootDelaySh
  rw [h]
  dsimp only
  have hfloor := Int.floor_le uptime
  split
  next hle => exact le_trans (by exact_mod_cast hle) hfloor
  next =>
    push_cast
    linarith

theorem le_uptimeAfterDelay (sh : ShellArithmetic) (cfg : Config) (host : Host) (j : Job) (uptime : ℚ) :
    uptime ≤ j.uptimeAfterDelay sh cfg host uptime := by
  unfold Job.uptimeAfterDelay bootDelaySh
  split
  · exact le_rfl
  split
  · exact le_rfl
  next delay _ =>
    split
    · exact le_rfl
    next hlt =>
      have : (0 : ℚ) ≤ (delay - ⌊uptime⌋ : ℤ) := by exact_mod_cast (by omega : 0 ≤ delay - ⌊uptime⌋)
      linarith

/-- It does not wait longer than that. -/
theorem bootDelaySh_lt {sh : ShellArithmetic} {arg : Bytes} {uptime b : ℚ} (hb : uptime < b)
    (h : ∀ delay, sh.minutes arg = some delay → (delay : ℚ) + 1 ≤ b) : bootDelaySh sh arg uptime < b := by
  unfold bootDelaySh
  rcases hd : sh.minutes arg with - | delay
  · exact hb
  · dsimp only
    split
    · exact hb
    · have hfloor := Int.lt_floor_add_one uptime
      have := h delay hd
      push_cast
      linarith

theorem bootDelayLine_isSome (cfg : Config) (host : Host) (j : Job) :
    (j.bootDelayLine cfg host).isSome ↔
      j.schedule ≠ [] ∧ j.bootDelay ≠ 0 ∧ host.uptime.all (· < j.bootDelay) := by
  unfold Job.bootDelayLine
  split
  next h => exact iff_of_true rfl h
  next h => exact iff_of_false nofun h

/-- **The boot delay is honoured**, at every later time at which the service is started, exactly if there is
none, or it was over already when the generator ran, or the helper is there and its delay in seconds is a
number of the shell. -/
theorem boot_delay_honoured_iff (sh : ShellArithmetic) (cfg : Config) (host : Host) (j : Job) :
    (∀ uptime : ℚ, 0 ≤ uptime → (∀ u, host.uptime = some u → (u : ℚ) ≤ uptime) →
      60 * (j.bootDelay : ℚ) ≤ j.uptimeAfterDelay sh cfg host uptime) ↔
    j.bootDelay = 0 ∨ (∃ u, host.uptime = some u ∧ 60 * j.bootDelay ≤ u) ∨
      (j.schedule ≠ [] ∧ host.uptime.all (· < j.bootDelay) ∧ 60 * j.bootDelay < 2 ^ 63) := by
  constructor
  · intro h
    by_contra hno
    obtain ⟨hzero, hknown, hhelper⟩ := not_or.1 hno |>.imp_right not_or.1
    -- The service is started when the generator ran.
    obtain ⟨u, hu, huptime⟩ : ∃ u : ℕ, u < 60 * j.bootDelay ∧ ∀ v, host.uptime = some v → v = u := by
      rcases hv : host.uptime with - | v
      · exact ⟨0, by omega, nofun⟩
      · exact ⟨v, not_le.1 fun hle => hknown ⟨v, hv, hle⟩, fun w hw => (Option.some.inj hw).symm⟩
    have hlt : (u : ℚ) < 60 * (j.bootDelay : ℚ) := by exact_mod_cast hu
    refine absurd (h u (by positivity) fun v hv => by rw [huptime v hv]) (not_le.2 ?_)
    unfold Job.uptimeAfterDelay
    split
    · exact hlt
    next line hline =>
      obtain ⟨hschedule, -, hall⟩ := (bootDelayLine_isSome cfg host j).1 (by rw [hline]; rfl)
      have hbig : 2 ^ 63 ≤ 60 * j.bootDelay := not_lt.1 fun hsmall => hhelper ⟨hschedule, hall, hsmall⟩
      refine bootDelaySh_lt hlt fun delay hdelay => ?_
      have := sh.inRange _ _ hdelay
      exact_mod_cast (by omega : delay + 1 ≤ 60 * (j.bootDelay : ℤ))
  · rintro (hzero | ⟨u, hu, hle⟩ | ⟨hschedule, hall, hsmall⟩) uptime hpos hlater
    · rw [hzero]
      exact le_trans (by simpa using hpos) (le_uptimeAfterDelay ..)
    · have hle' : 60 * (j.bootDelay : ℚ) ≤ u := by exact_mod_cast hle
      exact hle'.trans ((hlater u hu).trans (le_uptimeAfterDelay ..))
    · by_cases hzero : j.bootDelay = 0
      · rw [hzero]
        exact le_trans (by simpa using hpos) (le_uptimeAfterDelay ..)
      · unfold Job.uptimeAfterDelay
        obtain ⟨line, hline⟩ := Option.isSome_iff_exists.1
          ((bootDelayLine_isSome cfg host j).2 ⟨hschedule, hzero, hall⟩)
        rw [hline]
        have := le_bootDelaySh (sh.exact _ hsmall) uptime
        push_cast at this
        exact this

/-- A daily job with a delay of five minutes. -/
def delayedJob : Job := (systemJobs (lit "DELAY=5\n@daily root true")).get ⟨0, by decide +kernel⟩

/-- Ten seconds after boot the generator takes five minutes to be over. -/
theorem boot_delay_ten_seconds :
    delayedJob.bootDelay = 5 ∧ delayedJob.bootDelayLine {} { Host.bare with uptime := some 10 } = none ∧
      delayedJob.uptimeAfterDelay .wrapping {} { Host.bare with uptime := some 10 } 10 < 60 * 5 := by
  have hline : delayedJob.bootDelayLine {} { Host.bare with uptime := some 10 } = none := by decide +kernel
  refine ⟨by decide +kernel, hline, ?_⟩
  unfold Job.uptimeAfterDelay
  rw [hline]
  norm_num

end SystemdCron
