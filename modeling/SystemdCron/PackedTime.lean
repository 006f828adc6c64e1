import SystemdCron.Shmem

/-!
# Packed times

What `bundle` keeps of a time, in exact nanoseconds: the time but for less than a 1024th of a second and a
nanosecond, later times later or the same, and times that far apart in different words. A test of
`throttle_group` and `loadavg_dam` against a packed time errs by as much (`packed_time`).
-/

namespace SystemdCron

/-- The 64 bits of a word, the first field lowest. -/
def Bundle.word (b : Bundle) : BitVec 64 := b.lastTimeWonSubsec ++ b.lastTimeWonSec ++ b.lastWinner

theorem Bundle.toTimespec_of_word {a b : Bundle} (h : a.word = b.word) : a.toTimespec = b.toTimespec := by
  have hhigh : ∀ b : Bundle, b.word.extractLsb' 22 42 = b.lastTimeWonSubsec ++ b.lastTimeWonSec := by
    intro b
    rw [word, BitVec.extractLsb'_append_eq_of_le le_rfl]
    simp
  have hsub : ∀ b : Bundle, (b.lastTimeWonSubsec ++ b.lastTimeWonSec).extractLsb' 32 10 =
      b.lastTimeWonSubsec := by
    intro b
    rw [BitVec.extractLsb'_append_eq_of_le le_rfl]
    simp
  have hsec : ∀ b : Bundle, (b.lastTimeWonSubsec ++ b.lastTimeWonSec).extractLsb' 0 32 =
      b.lastTimeWonSec := by
    intro b
    rw [BitVec.extractLsb'_append_eq_right]
  have htimes : a.lastTimeWonSubsec ++ a.lastTimeWonSec = b.lastTimeWonSubsec ++ b.lastTimeWonSec := by
    rw [← hhigh, ← hhigh, h]
  have hsubs : a.lastTimeWonSubsec = b.lastTimeWonSubsec := by rw [← hsub a, htimes, hsub b]
  have hsecs : a.lastTimeWonSec = b.lastTimeWonSec := by rw [← hsec a, htimes, hsec b]
  simp only [toTimespec, hsubs, hsecs]

/-- The error of a packed time in nanoseconds: a 1024th of a second and a nanosecond. -/
def packingError : ℚ := 1000000000 / 1024 + 1

namespace Timespec

/-- A reading of a clock that the 32 bits of a word have room for. -/
def Packable (t : Timespec) : Prop := 0 ≤ t.sec ∧ t.sec < 2 ^ 32

instance : DecidablePred Packable := fun t => inferInstanceAs (Decidable (0 ≤ t.sec ∧ t.sec < 2 ^ 32))

/-- The difference of two readings does not leave the 64 bits of a `time_t`, nor does what is computed on
the way. -/
theorem sub_sec_fits {a b : Timespec} (ha : 0 ≤ a.sec ∧ a.sec < 2 ^ 63) (hb : 0 ≤ b.sec ∧ b.sec < 2 ^ 63) :
    -2 ^ 63 ≤ a.sec - 1 ∧ -2 ^ 63 ≤ (a.sub b).sec ∧ (a.sub b).sec < 2 ^ 63 := by
  unfold sub
  split
  · dsimp only
    omega
  · dsimp only
    omega

end Timespec

namespace Bundle

variable {t u : Timespec}

/-- The fields of a packed time. -/
theorem ns_new_eq (pid : BitVec 32) (ht : t.Packable) :
    (new pid t).ns = t.sec * 1000000000 + nsecOfSubsec (subsecOfNsec t.nsec) := by
  have hlt := t.nsec_lt
  obtain ⟨h0, h⟩ := ht
  have hsec : ((BitVec.ofInt 32 t.sec).toNat : Int) = t.sec := by
    rw [BitVec.toNat_ofInt]
    omega
  have hsub : (BitVec.ofNat 10 (subsecOfNsec t.nsec)).toNat = subsecOfNsec t.nsec := by
    rw [BitVec.toNat_ofNat]
    refine Nat.mod_eq_of_lt ?_
    simp only [subsecOfNsec]
    omega
  simp only [ns, Timespec.ns, toTimespec, new, hsec, hsub]

theorem ns_new_le (pid : BitVec 32) (ht : t.Packable) : (new pid t).ns ≤ t.ns := by
  rw [ns_new_eq pid ht, Timespec.ns, nsecOfSubsec, subsecOfNsec]
  omega

theorem lt_ns_new (pid : BitVec 32) (ht : t.Packable) : (t.ns : ℚ) < (new pid t).ns + packingError := by
  have h : 2 * t.ns < 2 * (new pid t).ns + 1953127 := by
    rw [ns_new_eq pid ht, Timespec.ns, nsecOfSubsec, subsecOfNsec]
    omega
  have hq : (2 * t.ns : ℚ) < 2 * (new pid t).ns + 1953127 := by exact_mod_cast h
  unfold packingError
  linarith

theorem ns_new_mono (pid pid' : BitVec 32) (ht : t.Packable) (hu : u.Packable) (h : t.ns ≤ u.ns) :
    (new pid t).ns ≤ (new pid' u).ns := by
  have := t.nsec_lt
  have := u.nsec_lt
  rw [Timespec.ns, Timespec.ns] at h
  have hsec : t.sec ≤ u.sec := by omega
  rw [ns_new_eq pid ht, ns_new_eq pid' hu]
  simp only [nsecOfSubsec, subsecOfNsec]
  rcases hsec.lt_or_eq with hsec | hsec
  · omega
  · have hnsec : t.nsec ≤ u.nsec := by omega
    have hsubsec : t.nsec * 2 / 1953125 ≤ u.nsec * 2 / 1953125 := Nat.div_le_div_right (by omega)
    omega

theorem word_new_ne (pid pid' : BitVec 32) (ht : t.Packable) (hu : u.Packable)
    (h : (t.ns : ℚ) + packingError ≤ u.ns) : (new pid t).word ≠ (new pid' u).word := by
  intro heq
  have hns : (new pid t).ns = (new pid' u).ns := congrArg Timespec.ns (toTimespec_of_word heq)
  have hle : ((new pid t).ns : ℚ) ≤ t.ns := by exact_mod_cast ns_new_le pid ht
  have hlt := lt_ns_new pid' hu
  rw [← hns] at hlt
  linarith

end Bundle

/-- **Packed times**: what a word keeps of a time, and what a test against it says of the time that has
really elapsed. -/
theorem packed_time (pid pid' : BitVec 32) {t u : Timespec} (ht : t.Packable) (hu : u.Packable)
    (now last f : Timespec) :
    ((Bundle.new pid t).toTimespec.nsec < 1000000000 ∧ (Bundle.new pid t).ns ≤ t.ns ∧
      (t.ns : ℚ) < (Bundle.new pid t).ns + packingError) ∧
    (t.ns ≤ u.ns → (Bundle.new pid t).ns ≤ (Bundle.new pid' u).ns) ∧
    ((t.ns : ℚ) + packingError ≤ u.ns → (Bundle.new pid t).word ≠ (Bundle.new pid' u).word) ∧
    ((now.sub last).gt f ↔ f.ns < now.ns - last.ns) ∧
    ((now.sub (Bundle.new pid t).toTimespec).gt f → (f.ns : ℚ) - packingError < now.ns - t.ns) ∧
    (f.ns < now.ns - t.ns → (now.sub (Bundle.new pid t).toTimespec).gt f) := by
  have hgt : ∀ last : Timespec, (now.sub last).gt f ↔ f.ns < now.ns - last.ns := fun last => by
    rw [Timespec.gt_iff, Timespec.ns_sub]
  have hle := Bundle.ns_new_le pid ht
  have hlt := Bundle.lt_ns_new pid ht
  refine ⟨⟨Timespec.nsec_lt _, hle, hlt⟩, Bundle.ns_new_mono pid pid' ht hu, Bundle.word_new_ne pid pid' ht hu,
    hgt last, fun h => ?_, fun h => ?_⟩
  · have hdue : (f.ns : ℚ) < now.ns - (Bundle.new pid t).ns := by exact_mod_cast (hgt _).1 h
    linarith
  · refine (hgt _).2 ?_
    change f.ns < now.ns - (Bundle.new pid t).ns
    omega

/-- A win half a second after the boot, and the process that asks ten seconds later whether five have gone. -/
theorem packed_time_ten_seconds :
    let won : Timespec := ⟨0, 500000001, by decide⟩
    let now : Timespec := ⟨10, 500000001, by decide⟩
    won.Packable ∧ now.Packable ∧ (now.sub (Bundle.new 1 won).toTimespec).gt (.ofSec 5) := by
  intro won now
  have hwon : won.Packable := by decide
  have hnow : now.Packable := by decide
  exact ⟨hwon, hnow, (packed_time 1 2 hwon hnow now won (.ofSec 5)).2.2.2.2.2 (by decide)⟩

end SystemdCron
