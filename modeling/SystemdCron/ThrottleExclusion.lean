import SystemdCron.DispatchRate

/-!
# Exclusion in a throttle group

Two units of a group never run their jobs at the same time, and none starts within `BLANKING_INTERVAL` of
the exit of another (`throttle_exclusion`). A process excludes the others by what it was told about each
of them (`Clear`) while the word is the one it took: everything it was told is still so at its exchange,
because a job of its group starts with an exchange too, after which the word is another one for good.
That needs the recorded times to go up, so it holds below `2 ^ 32` seconds, and beyond them it fails
(`throttle_overlap`).
-/

namespace SystemdCron

open Bytes Dispatcher

namespace ThrottleGroup

variable {P U : Type} [DecidableEq P] [DecidableEq U]

/-! ### What the bus is trusted with -/

/-- Wins from the last win of a unit on. -/
def FromLastWin (sys : System P U) (u : U) : List (Win P Bundle Timespec) → Prop
  | [] => False
  | w :: ws => sys.unit w.winner = u ∧ ∀ x ∈ ws, sys.unit x.winner ≠ u

/-- The word was recorded at or after the last win of a unit. -/
def RecordedSince (sys : System P U) (s : State P U) (u : U) (last : Bundle) : Prop :=
  ∃ ws ∈ s.wins.tails, FromLastWin sys u ws ∧ last ∈ ws.map Win.written

/-- What is replied about a unit is the truth: that it runs while its job runs, by its states or by its
timestamps, and afterwards when the job exited last. -/
def Reported (sys : System P U) (s : State P U) (u : ListedUnit U) (p : Properties) : Prop :=
  p.execStartPre.any (argvMatches sys.self (sys.group u.object)) ∧
    if s.running u.object then
      u.isRunning ∨ p.execMainExitTimestampMonotonic < p.execMainStartTimestampMonotonic
    else (s.exits u.object).head? = some p.execMainExitTimestampMonotonic

/-- A process that has passed the check against a word recorded at or after the last win of another unit
has this unit listed, and is told the truth about it. -/
def Truthful (sys : System P U) (s : State P U) : Action P U → Prop
  | .listUnits p units =>
    ∀ last ∈ (s.pc p).held, ∀ u, u ≠ sys.unit p → RecordedSince sys s u last →
      ∃ row ∈ units, row.object = u ∧ row.isListed (sys.unit p)
  | .getProperties p row properties =>
    ∀ last ∈ (s.pc p).held, RecordedSince sys s row.object last → Reported sys s row properties
  | _ => True

instance (sys : System P U) (u : U) : (ws : List (Win P Bundle Timespec)) →
    Decidable (FromLastWin sys u ws)
  | [] => .isFalse id
  | w :: ws => inferInstanceAs (Decidable (sys.unit w.winner = u ∧ ∀ x ∈ ws, sys.unit x.winner ≠ u))

instance (sys : System P U) (s : State P U) (u : U) (last : Bundle) :
    Decidable (RecordedSince sys s u last) :=
  inferInstanceAs (Decidable (∃ ws ∈ s.wins.tails, FromLastWin sys u ws ∧ last ∈ ws.map Win.written))

instance (sys : System P U) (s : State P U) (u : ListedUnit U) (p : Properties) :
    Decidable (Reported sys s u p) :=
  inferInstanceAs (Decidable (_ ∧ if s.running u.object then _ else _))

instance [Fintype U] (sys : System P U) (s : State P U) : (a : Action P U) → Decidable (Truthful sys s a)
  | .listUnits p units => inferInstanceAs (Decidable (∀ last ∈ (s.pc p).held, ∀ u, u ≠ sys.unit p →
      RecordedSince sys s u last → ∃ row ∈ units, row.object = u ∧ row.isListed (sys.unit p)))
  | .getProperties p row properties => inferInstanceAs (Decidable (∀ last ∈ (s.pc p).held,
      RecordedSince sys s row.object last → Reported sys s row properties))
  | .highLoad _ | .load _ | .clockGettime _ | .settle _ | .compareExchange _ | .exit _ | .tick _ =>
    .isTrue trivial

/-! ### What a process knows -/

/-- The blanking interval of a unit has passed at a time. -/
def Clear (s : State P U) (now : Timespec) (u : U) : Prop :=
  s.running u = false ∧ ∀ x ∈ s.exits u, (Timespec.ofUsec x).ns + BLANKING_INTERVAL.ns ≤ now.ns

/-- What a process that may still win knows about another unit of its group. -/
def Known (s : State P U) (u : U) : Pc U → Prop
  | .waiting _ now listed sleep =>
    0 ≤ sleep.ns ∧ ((∃ row ∈ listed, row.object = u) ∨ 0 < sleep.ns ∨ Clear s now u)
  | .ready _ now => Clear s now u
  | _ => True

/-- The invariant of the groups. -/
structure GroupInv (sys : System P U) (s : State P U) : Prop where
  /-- A unit has run its job if and only if it has won. -/
  won : ∀ u, (s.running u ∨ s.exits u ≠ []) ↔ ∃ w ∈ s.wins, sys.unit w.winner = u
  exits : ∀ u, ∀ x ∈ s.exits u, (Timespec.ofUsec x).ns ≤ s.clock.ns
  sorted : ∀ u, (s.exits u).Pairwise (· ≥ ·)
  known : ∀ p u, (s.pc p).held = some s.shm → u ≠ sys.unit p → sys.group u = sys.group (sys.unit p) →
    Known s u (s.pc p)
  exclusive : ∀ u v, u ≠ v → sys.group u = sys.group v → ¬(s.running u ∧ s.running v)

variable {sys : System P U}

omit [DecidableEq P] [DecidableEq U] in
theorem exists_fromLastWin {u : U} {wins : List (Win P Bundle Timespec)}
    (h : ∃ w ∈ wins, sys.unit w.winner = u) : ∃ ws, ws <:+ wins ∧ FromLastWin sys u ws := by
  induction wins with
  | nil => obtain ⟨w, hw, -⟩ := h; cases hw
  | cons x xs ih =>
    by_cases hxs : ∃ w ∈ xs, sys.unit w.winner = u
    · obtain ⟨ws, hws, hlast⟩ := ih hxs
      exact ⟨ws, hws.trans (List.suffix_cons x xs), hlast⟩
    · push Not at hxs
      obtain ⟨w, hw, hwu⟩ := h
      rcases List.mem_cons.1 hw with rfl | hw
      · exact ⟨w :: xs, List.suffix_rfl, hwu, hxs⟩
      · exact absurd hwu (hxs w hw)

omit [DecidableEq P] [DecidableEq U] in
/-- The present word was recorded at or after the last win of every unit that has won. -/
theorem recordedSince_shm {s : State P U} {due : P → Bundle → Timespec → Prop} {w₀ : Bundle}
    (hd : Dispatcher.Inv due Bundle.ns w₀ s.abs) {u : U}
    (hu : ∃ w ∈ s.wins, sys.unit w.winner = u) : RecordedSince sys s u s.shm := by
  obtain ⟨ws, hsuffix, hlast⟩ := exists_fromLastWin hu
  refine ⟨ws, (List.mem_tails _ _).2 hsuffix, hlast, hd.word_mem_of_suffix hsuffix ?_⟩
  rintro rfl
  exact hlast

omit [DecidableEq P] [DecidableEq U] in
/-- What the result of another unit of the group says, if the reply is the truth. -/
theorem clear_of_reported {s : State P U} {row : ListedUnit U} {properties : Properties} {now : Timespec}
    {result : Timespec} (hsorted : (s.exits row.object).Pairwise (· ≥ ·))
    (hr : Reported sys s row properties)
    (h : row.result sys.self (sys.group row.object) now properties = some result) :
    0 < result.ns ∨ Clear s now row.object := by
  obtain ⟨hargv, hrep⟩ := hr
  simp only [ListedUnit.result, if_pos hargv] at h
  split at h
  · cases h
  next hrun =>
  split at h
  · cases h
  next hstart =>
  cases h
  rw [Timespec.gt_iff, Timespec.ns_ofUsec, Timespec.ns_ofUsec] at hstart
  have hnot : ¬(row.isRunning ∨
      properties.execMainExitTimestampMonotonic < properties.execMainStartTimestampMonotonic) := by
    rintro (h | h)
    · exact hrun h
    · omega
  by_cases hrunning : s.running row.object
  · rw [if_pos hrunning] at hrep
    exact absurd hrep hnot
  rw [if_neg hrunning] at hrep
  rw [Timespec.ns_sub, Timespec.ns_sub]
  by_cases hpos : 0 < BLANKING_INTERVAL.ns -
      (now.ns - (Timespec.ofUsec properties.execMainExitTimestampMonotonic).ns)
  · exact .inl hpos
  refine .inr ⟨Bool.eq_false_iff.2 hrunning, fun x hx => ?_⟩
  have hle : x ≤ properties.execMainExitTimestampMonotonic := by
    rcases hexits : s.exits row.object with - | ⟨y, ys⟩
    · rw [hexits] at hx; cases hx
    · rw [hexits] at hrep hx hsorted
      obtain rfl : y = _ := Option.some.inj hrep
      rcases List.mem_cons.1 hx with rfl | hx
      · exact le_rfl
      · exact (List.pairwise_cons.1 hsorted).1 x hx
  rw [Timespec.ns_ofUsec] at hpos ⊢
  omega

namespace GroupInv

variable {s s' : State P U}

omit [DecidableEq P] [DecidableEq U] in
theorem start (h : Start s) : GroupInv sys s where
  won u := by simp [h.running u, h.exits u, h.wins]
  exits u x hx := by rw [h.exits u] at hx; cases hx
  sorted u := by simp [h.exits u]
  known p u hp := by rw [h.top p] at hp; cases hp
  exclusive u v _ _ := by simp [h.running u]

omit [DecidableEq P] [DecidableEq U] in
/-- A unit that has not won is out of the way. -/
theorem clear (hs : GroupInv sys s) {u : U} (hu : ¬∃ w ∈ s.wins, sys.unit w.winner = u) (now : Timespec) :
    Clear s now u := by
  rw [← hs.won u, not_or, not_not] at hu
  exact ⟨Bool.eq_false_iff.2 hu.1, fun x hx => by rw [hu.2] at hx; cases hx⟩

omit [DecidableEq P] in
/-- A process that moves on learns what it has to know. -/
theorem known_moves (hs : GroupInv sys s) {due : P → Bundle → Timespec → Prop} {w₀ : Bundle}
    (hd : Dispatcher.Inv due Bundle.ns w₀ s.abs) {p : P} {a : Action P U} {pc : Pc U}
    (ha : Truthful sys s a) (h : Moves sys s p a pc) (hheld : pc.held = some s.shm) {u : U}
    (hu : u ≠ sys.unit p) (hg : sys.group u = sys.group (sys.unit p)) : Known s u pc := by
  cases h with
  | load => trivial
  | due last hp hdue => trivial
  | listUnits last now units hp =>
    refine ⟨by simp, ?_⟩
    by_cases hwon : ∃ w ∈ s.wins, sys.unit w.winner = u
    · cases hheld
      obtain ⟨row, hrow, hobj, hlisted⟩ := ha s.shm (by rw [hp]; rfl) u hu (recordedSince_shm hd hwon)
      exact .inl ⟨row, List.mem_filter.2 ⟨hrow, hlisted⟩, hobj⟩
    · exact .inr (.inr (hs.clear hwon now))
  | getProperties last now listed sleep row properties result hp hrow hresult =>
    cases hheld
    have hknown := hs.known p u (by rw [hp]; rfl) hu hg
    rw [hp] at hknown
    obtain ⟨h0, hknown⟩ := hknown
    refine ⟨by rw [ns_max]; exact h0.trans (le_max_right _ _), ?_⟩
    rcases hknown with ⟨r, hr, rfl⟩ | hpos | hclear
    · by_cases hrr : r = row
      · subst hrr
        by_cases hwon : ∃ w ∈ s.wins, sys.unit w.winner = r.object
        · rw [← hg] at hresult
          rcases clear_of_reported (hs.sorted _)
            (ha s.shm (by rw [hp]; rfl) (recordedSince_shm hd hwon)) hresult with hpos | hclear
          · exact .inr (.inl (by rw [ns_max]; exact hpos.trans_le (le_max_left _ _)))
          · exact .inr (.inr hclear)
        · exact .inr (.inr (hs.clear hwon now))
      · exact .inl ⟨r, (List.mem_erase_of_ne hrr).2 hr, rfl⟩
    · exact .inr (.inl (by rw [ns_max]; exact hpos.trans_le (le_max_right _ _)))
    · exact .inr (.inr hclear)
  | ready last now hp =>
    cases hheld
    have hknown := hs.known p u (by rw [hp]; rfl) hu hg
    rw [hp] at hknown
    rcases hknown.2 with ⟨r, hr, -⟩ | hpos | hclear
    · cases hr
    · simp at hpos
    · exact hclear
  | back _ _ => cases hheld

/-- An exchange that succeeds leaves no process that may still win. -/
theorem win (hs : GroupInv sys s) {due : P → Bundle → Timespec → Prop} {w₀ : Bundle}
    (hd : Dispatcher.Inv due Bundle.ns w₀ s.abs) {p : P} {now : Timespec} (hp : s.pc p = .ready s.shm now)
    (hlt : s.shm.ns < (Bundle.new (sys.pid p) now).ns) :
    GroupInv sys { s with
      shm := Bundle.new (sys.pid p) now
      pc := Function.update s.pc p .done
      running := Function.update s.running (sys.unit p) true
      wins := s.wins ++
        [{ winner := p, now, consumed := s.shm, written := Bundle.new (sys.pid p) now }] } where
  won u := by
    by_cases hu : u = sys.unit p
    · subst hu
      simp
    · simpa [Function.update_of_ne hu, Ne.symm hu] using hs.won u
  exits := hs.exits
  sorted := hs.sorted
  known q u hq := by
    simp only [Function.update_apply] at hq
    split at hq
    · cases hq
    · exact absurd rfl (hd.ne_of_stamp_lt (p := q) hq hlt)
  exclusive u v huv hg := by
    have hclear : ∀ {u}, u ≠ sys.unit p → sys.group u = sys.group (sys.unit p) → s.running u = false := by
      intro u hu hg
      have := hs.known p u (by rw [hp]; rfl) hu hg
      rw [hp] at this
      exact this.1
    rintro ⟨hru, hrv⟩
    simp only [Function.update_apply] at hru hrv
    by_cases hu : u = sys.unit p
    · subst hu
      rw [if_neg huv.symm, hclear huv.symm hg.symm] at hrv
      cases hrv
    · rw [if_neg hu] at hru
      by_cases hv : v = sys.unit p
      · subst hv
        rw [hclear hu hg] at hru
        cases hru
      · rw [if_neg hv] at hrv
        exact hs.exclusive u v huv hg ⟨hru, hrv⟩

omit [DecidableEq P] in
theorem exit (hs : GroupInv sys s) (hsec : 0 ≤ s.clock.sec) {u₀ : U} (hu₀ : s.running u₀) :
    GroupInv sys { s with
      running := Function.update s.running u₀ false
      exits := Function.update s.exits u₀ (s.clock.toUsec :: s.exits u₀) } where
  won u := by
    by_cases hu : u = u₀
    · subst hu
      simpa using (hs.won u).1 (.inl hu₀)
    · simpa [Function.update_of_ne hu] using hs.won u
  exits u x hx := by
    simp only [Function.update_apply] at hx
    split at hx
    · rcases List.mem_cons.1 hx with rfl | hx
      · exact (Timespec.le_toUsec_iff hsec).1 le_rfl
      · exact hs.exits _ x hx
    · exact hs.exits u x hx
  sorted u := by
    simp only [Function.update_apply]
    split
    · exact List.pairwise_cons.2
        ⟨fun x hx => (Timespec.le_toUsec_iff hsec).2 (hs.exits _ x hx), hs.sorted _⟩
    · exact hs.sorted u
  known q u hq hu hg := by
    -- A unit that is clear does not run its job, so it is not the one that exits.
    have hclear : ∀ {now}, Clear s now u → Clear { s with
        running := Function.update s.running u₀ false
        exits := Function.update s.exits u₀ (s.clock.toUsec :: s.exits u₀) } now u := by
      intro now hc
      have hne : u ≠ u₀ := by
        rintro rfl
        rw [hc.1] at hu₀
        cases hu₀
      simpa [Clear, Function.update_of_ne hne] using hc
    have hknown := hs.known q u hq hu hg
    revert hknown
    cases s.pc q with
    | waiting last now listed sleep =>
      exact fun h => ⟨h.1, h.2.imp_right fun h => h.imp_right hclear⟩
    | ready last now => exact hclear
    | _ => exact id
  exclusive u v huv hg h := by
    have hrun : ∀ {u}, Function.update s.running u₀ false u → s.running u := by
      intro u h
      rw [Function.update_apply] at h
      split at h
      · cases h
      · exact h
    exact hs.exclusive u v huv hg ⟨hrun h.1, hrun h.2⟩

theorem step (hs : GroupInv sys s) (hc : ClockInv sys s) {w₀ : Bundle}
    (hd : Dispatcher.Inv (Due sys) Bundle.ns w₀ s.abs) {a : Action P U} (ha : Truthful sys s a)
    (h : ThrottleGroup.step sys s a = some s') : GroupInv sys s' := by
  cases step_effect h with
  | idle p => exact hs
  | move p pc hm =>
    refine ⟨hs.won, hs.exits, hs.sorted, fun q u hq hu hg => ?_, hs.exclusive⟩
    simp only [Function.update_apply] at hq ⊢
    split at hq
    next hqp =>
      subst hqp
      rw [if_pos rfl]
      exact hs.known_moves hd ha hm hq hu hg
    next hqp =>
      rw [if_neg hqp]
      exact hs.known q u hq hu hg
  | win p now hp =>
    obtain ⟨hdue, h0, h1, -⟩ := hc.reading p s.shm now (by rw [hp]; rfl) (by rw [hp]; rfl)
    exact hs.win hd hp (Bundle.ns_lt_new (sys.pid p) h0 h1 (System.freq_pos p) hdue)
  | exit u hu => exact hs.exit hc.clock.1 hu
  | tick now hle =>
    exact ⟨hs.won, fun u x hx => (hs.exits u x hx).trans hle, hs.sorted, hs.known, hs.exclusive⟩

end GroupInv

/-- The environment of a run: the bus tells the truth, and the clock stays below `2 ^ 32` seconds. -/
def Trusted (sys : System P U) (s : State P U) (a : Action P U) : Prop := Truthful sys s a ∧ ClockBelow s a

theorem group_inv {s₀ s : State P U} (h₀ : Start s₀)
    (h : Relation.ReflTransGen (Machine.Next (step sys) (Trusted sys)) s₀ s) :
    ClockInv sys s ∧ GroupInv sys s := by
  induction h with
  | refl => exact ⟨.start h₀, .start h₀⟩
  | tail hrun hnext ih =>
    obtain ⟨a, ⟨htrue, hclock⟩, hstep⟩ := hnext
    have hbelow : Relation.ReflTransGen (Machine.Next (step sys) ClockBelow) s₀ _ :=
      Relation.ReflTransGen.mono (fun _ _ ⟨a, ha, h⟩ => ⟨a, ha.2, h⟩) _ _ hrun
    exact ⟨ih.1.step ⟨a, hclock, hstep⟩, ih.2.step ih.1 (dispatcher_inv h₀ hbelow).2 htrue hstep⟩

/-- **Exclusion**: below `2 ^ 32` seconds, no two units of a group run their jobs at the same time, and
no job starts within the blanking interval of the exit of the job of another unit of its group. -/
theorem throttle_exclusion {s₀ s : State P U} (h₀ : Start s₀)
    (h : Relation.ReflTransGen (Machine.Next (step sys) (Trusted sys)) s₀ s) :
    (∀ u v, u ≠ v → sys.group u = sys.group v → ¬(s.running u ∧ s.running v)) ∧
    ∀ p s', step sys s (.compareExchange p) = some s' → s'.pc p = .done →
      ∀ u, u ≠ sys.unit p → sys.group u = sys.group (sys.unit p) →
        ∀ x ∈ s.exits u, (Timespec.ofUsec x).ns + BLANKING_INTERVAL.ns ≤ s.clock.ns := by
  obtain ⟨hc, hs⟩ := group_inv h₀ h
  refine ⟨hs.exclusive, fun p s' hstep hdone u hu hg x hx => ?_⟩
  have hready : ∃ now, s.pc p = .ready s.shm now := by
    cases step_effect hstep with
    | move q pc hm =>
      cases hm with
      | back _ hq => cases hq; simp at hdone
    | win q now hp => exact ⟨now, hp⟩
  obtain ⟨now, hp⟩ := hready
  have hknown := hs.known p u (by rw [hp]; rfl) hu hg
  rw [hp] at hknown
  obtain ⟨-, -, -, hle⟩ := hc.reading p s.shm now (by rw [hp]; rfl) (by rw [hp]; rfl)
  exact (hknown.2 x hx).trans hle

/-! ### Beyond `2 ^ 32` seconds -/

/-- Units `0` and `3` are one group, and `1` and `2` another. The processes of the first have the same
number. -/
def overlapSystem : System (Fin 4) (Fin 4) where
  self := lit "throttle_group"
  unit p := p
  group u := if u = 0 ∨ u = 3 then lit "b" else lit "a"
  pid p := if p = 0 ∨ p = 3 then 7 else 1
  loadTarget _ := false

def overlapStart : State (Fin 4) (Fin 4) where
  shm := ⟨0, 0, 0⟩
  clock := .ofSec 40
  pc _ := .top
  running _ := false
  exits _ := []
  wins := []

theorem start_overlapStart : Start overlapStart :=
  ⟨fun _ => rfl, fun _ => rfl, fun _ => rfl, rfl, by decide⟩

def overlapRow (u : Fin 4) (activeState : Bytes) : ListedUnit (Fin 4) where
  name := lit "cron-x.service"
  loadState := lit "loaded"
  activeState
  activeSubState := []
  object := u

/-- What is replied about the unit `0`, whose job ran for a second. -/
def overlapExited : Properties where
  execStartPre := [[lit "throttle_group", lit "b"]]
  execMainStartTimestampMonotonic := 40000000
  execMainExitTimestampMonotonic := 41000000

/-- What is replied about the unit `2`. -/
def overlapRunning : Properties where
  execStartPre := [[lit "throttle_group", lit "a"]]
  execMainStartTimestampMonotonic := 0
  execMainExitTimestampMonotonic := 0

instance [Fintype U] (sys : System P U) (s : State P U) (a : Action P U) : Decidable (Trusted sys s a) :=
  inferInstanceAs (Decidable (_ ∧ _))

/-- The unit `3` waits for the unit `0` of its group, and starts 359 seconds after it exited. -/
def exclusionRun : List (Action (Fin 4) (Fin 4)) :=
  let inactive := overlapRow 0 (lit "inactive")
  [.load 0, .clockGettime 0, .listUnits 0 [], .settle 0, .compareExchange 0,
   .tick (.ofSec 41), .exit 0, .tick (.ofSec 50),
   .load 3, .clockGettime 3, .listUnits 3 [inactive], .getProperties 3 inactive overlapExited, .settle 3,
   .tick (.ofSec 400),
   .load 3, .clockGettime 3, .listUnits 3 [inactive], .getProperties 3 inactive overlapExited, .settle 3]

theorem throttle_exclusion_waits :
    ∃ s, Machine.run (step overlapSystem) (Trusted overlapSystem) overlapStart exclusionRun = some s ∧
      (∀ u v, u ≠ v → overlapSystem.group u = overlapSystem.group v → ¬(s.running u ∧ s.running v)) ∧
      ∀ p s', step overlapSystem s (.compareExchange p) = some s' → s'.pc p = .done →
        ∀ u, u ≠ overlapSystem.unit p → overlapSystem.group u = overlapSystem.group (overlapSystem.unit p) →
          ∀ x ∈ s.exits u, (Timespec.ofUsec x).ns + BLANKING_INTERVAL.ns ≤ s.clock.ns :=
  ⟨_, rfl, throttle_exclusion start_overlapStart (@Machine.run_reaches _ _ _ _ _ exclusionRun _ _ rfl)⟩

/-- The process `1` is ready with the word of the first win. Then `2` wins, and `3` wins `2 ^ 32` seconds
after the first win, which puts the same word back. -/
def overlapRun : List (Action (Fin 4) (Fin 4)) :=
  let inactive := overlapRow 0 (lit "inactive")
  let active := overlapRow 2 (lit "active")
  [.load 0, .clockGettime 0, .listUnits 0 [], .settle 0, .compareExchange 0,
   .tick (.ofSec 41), .exit 0, .tick (.ofSec (2 ^ 32 + 39)),
   .load 1, .clockGettime 1, .listUnits 1 [inactive], .getProperties 1 inactive overlapExited, .settle 1,
   .load 2, .clockGettime 2, .listUnits 2 [inactive], .getProperties 2 inactive overlapExited, .settle 2,
   .compareExchange 2, .tick (.ofSec (2 ^ 32 + 40)),
   .load 3, .clockGettime 3, .listUnits 3 [inactive, active],
   .getProperties 3 inactive overlapExited, .getProperties 3 active overlapRunning, .settle 3,
   .compareExchange 3, .compareExchange 1]

/-- Once the seconds do not fit into the word, two units of a group run their jobs at the same time. -/
theorem throttle_overlap : ∃ s, Start overlapStart ∧
    Relation.ReflTransGen (Machine.Next (step overlapSystem) (Truthful overlapSystem)) overlapStart s ∧
    overlapSystem.group 1 = overlapSystem.group 2 ∧ s.running 1 ∧ s.running 2 := by
  exact ⟨_, start_overlapStart, @Machine.run_reaches _ _ _ _ _ overlapRun _ _ rfl, by decide, by decide,
    by decide⟩

end ThrottleGroup

end SystemdCron
