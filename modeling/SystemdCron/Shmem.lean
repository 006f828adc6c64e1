import Mathlib
import SystemdCron.Lib.Dispatcher

/-!
# The shared word

`struct timespec` with the operators of `libvoreutils.hpp`, and the `bundle` of `shmemutil.hpp` that
`loadavg_dam` and `throttle_group` share: 22 bits of a hash of the process, 32 bits of seconds and 10 bits
of their fraction. Packing a time loses less than a millisecond of it (`Bundle.ns_new`).
-/

namespace SystemdCron

/-- `struct timespec`. -/
structure Timespec where
  sec : Int
  nsec : Nat
  nsec_lt : nsec < 1000000000
  deriving DecidableEq

namespace Timespec

/-- `{sec, 0}`. -/
def ofSec (sec : Int) : Timespec := ⟨sec, 0, by decide⟩

/-- `operator>`. -/
def gt (lhs rhs : Timespec) : Bool :=
  decide (lhs.sec > rhs.sec) || (lhs.sec == rhs.sec && decide (lhs.nsec > rhs.nsec))

/-- `operator<`. -/
def lt (lhs rhs : Timespec) : Bool :=
  decide (lhs.sec < rhs.sec) || (lhs.sec == rhs.sec && decide (lhs.nsec < rhs.nsec))

/-- `operator-`. -/
def sub (lhs rhs : Timespec) : Timespec :=
  if h : rhs.nsec > lhs.nsec then
    ⟨lhs.sec - 1 - rhs.sec, lhs.nsec + 1000000000 - rhs.nsec, by have := lhs.nsec_lt; omega⟩
  else ⟨lhs.sec - rhs.sec, lhs.nsec - rhs.nsec, by have := lhs.nsec_lt; omega⟩

/-- The time of a number of microseconds. -/
def ofUsec (usec : Nat) : Timespec := ⟨usec / 1000000, usec % 1000000 * 1000, by omega⟩

/-- A time in whole microseconds. -/
def toUsec (t : Timespec) : Nat := t.sec.toNat * 1000000 + t.nsec / 1000

/-- A time in nanoseconds. -/
def ns (t : Timespec) : Int := t.sec * 1000000000 + t.nsec

@[simp] theorem ns_ofSec (sec : Int) : (ofSec sec).ns = sec * 1000000000 := by simp [ns, ofSec]

theorem gt_iff {a b : Timespec} : a.gt b ↔ b.ns < a.ns := by
  have := a.nsec_lt
  have := b.nsec_lt
  simp only [gt, ns, Bool.or_eq_true, Bool.and_eq_true, decide_eq_true_eq, beq_iff_eq]
  omega

theorem lt_iff {a b : Timespec} : a.lt b ↔ a.ns < b.ns := by
  have := a.nsec_lt
  have := b.nsec_lt
  simp only [lt, ns, Bool.or_eq_true, Bool.and_eq_true, decide_eq_true_eq, beq_iff_eq]
  omega

@[simp] theorem ns_sub (a b : Timespec) : (a.sub b).ns = a.ns - b.ns := by
  have := b.nsec_lt
  unfold sub
  split
  · simp only [ns]
    omega
  · simp only [ns]
    omega

theorem sec_nonneg_of_le {a b : Timespec} (h : 0 ≤ a.sec) (hab : a.ns ≤ b.ns) : 0 ≤ b.sec := by
  have := b.nsec_lt
  simp only [ns] at hab
  omega

@[simp] theorem ns_ofUsec (usec : Nat) : (ofUsec usec).ns = usec * 1000 := by
  simp only [ns, ofUsec]
  omega

/-- A time in microseconds is the last one that is not later than the time. -/
theorem le_toUsec_iff {t : Timespec} (h : 0 ≤ t.sec) {usec : Nat} :
    usec ≤ t.toUsec ↔ (ofUsec usec).ns ≤ t.ns := by
  have := t.nsec_lt
  rw [ns_ofUsec]
  simp only [ns, toUsec]
  omega

end Timespec

/-- `struct bundle`. -/
structure Bundle where
  lastWinner : BitVec 22
  lastTimeWonSec : BitVec 32
  lastTimeWonSubsec : BitVec 10
  deriving DecidableEq

namespace Bundle

/-- Nanoseconds as 1024ths of a second. -/
def subsecOfNsec (nsec : Nat) : Nat := nsec * 2 / 1953125

/-- 1024ths of a second as nanoseconds. -/
def nsecOfSubsec (subsec : Nat) : Nat := subsec * 1953125 / 2

/-- The rounds of the loop over the bits of a process number. -/
def foldPid : Nat → BitVec 32 → BitVec 22 → BitVec 22
  | 0, _, lastWinner => lastWinner
  | n + 1, pidbits, lastWinner => foldPid n (pidbits >>> 22) (lastWinner ^^^ pidbits.setWidth 22)

/-- `bundle(pid, now)`. -/
def new (pid : BitVec 32) (now : Timespec) : Bundle where
  lastWinner := foldPid 2 pid 0
  lastTimeWonSec := BitVec.ofInt 32 now.sec
  lastTimeWonSubsec := BitVec.ofNat 10 (subsecOfNsec now.nsec)

/-- `operator struct timespec`. -/
def toTimespec (b : Bundle) : Timespec where
  sec := b.lastTimeWonSec.toNat
  nsec := nsecOfSubsec b.lastTimeWonSubsec.toNat
  nsec_lt := by
    have := b.lastTimeWonSubsec.isLt
    simp only [nsecOfSubsec]
    omega

/-- The time that is recorded in a word. -/
def ns (b : Bundle) : Int := b.toTimespec.ns

/-- Below `2 ^ 32` seconds, the recorded time is the time but for less than a millisecond. -/
theorem ns_new (pid : BitVec 32) {now : Timespec} (h0 : 0 ≤ now.sec) (h : now.sec < 2 ^ 32) :
    now.ns - 1000000 < (new pid now).ns ∧ (new pid now).ns ≤ now.ns := by
  have hlt := now.nsec_lt
  have hsec : ((BitVec.ofInt 32 now.sec).toNat : Int) = now.sec := by
    rw [BitVec.toNat_ofInt]
    omega
  have hsub : (BitVec.ofNat 10 (subsecOfNsec now.nsec)).toNat = subsecOfNsec now.nsec := by
    rw [BitVec.toNat_ofNat]
    refine Nat.mod_eq_of_lt ?_
    simp only [subsecOfNsec]
    omega
  simp only [ns, Timespec.ns, toTimespec, new, hsec, hsub]
  simp only [nsecOfSubsec, subsecOfNsec]
  omega

/-- A winner that found the recorded time far enough in the past records a later time. -/
theorem ns_lt_new (pid : BitVec 32) {last : Bundle} {now : Timespec} {interval : Nat}
    (h0 : 0 ≤ now.sec) (h : now.sec < 2 ^ 32) (hi : 0 < interval)
    (hdue : (now.sub last.toTimespec).gt (.ofSec interval)) : last.ns < (new pid now).ns := by
  have hnew := (ns_new pid h0 h).1
  rw [Timespec.gt_iff, Timespec.ns_sub, Timespec.ns_ofSec] at hdue
  have : last.ns = last.toTimespec.ns := rfl
  omega

end Bundle

end SystemdCron
