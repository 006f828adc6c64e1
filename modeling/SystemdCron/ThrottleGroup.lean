import SystemdCron.Lib.Bytes
import SystemdCron.Shmem

/-!
# `throttle_group`

The loop of `main` of `throttle_group.cpp` for any number of processes of any groups that share a word and
a clock: load the word, read the clock, list the units, evaluate the replies about each of them, exchange
the word. What the bus replies is part of the action. Beside the processes the state has what a run is
about: which units run their jobs, and when the jobs exited. `step_effect` says what a step can do, and
`dispatcher_inv` that every run is a run of the dispatcher.
-/

namespace SystemdCron

open Bytes Dispatcher

namespace ThrottleGroup

/-! ### What is listed of a unit -/

/-- A row of `ListUnitsByPatterns`, with what a `listed_unit` keeps of it. -/
structure ListedUnit (U : Type) where
  name : Bytes
  loadState : Bytes
  activeState : Bytes
  activeSubState : Bytes
  object : U
  deriving DecidableEq

/-- The properties that are asked for: the commands of `ExecStartPre`, and the two timestamps in
microseconds. -/
structure Properties where
  execStartPre : List (List Bytes)
  execMainStartTimestampMonotonic : Nat
  execMainExitTimestampMonotonic : Nat
  deriving DecidableEq

/-- `BLANKING_INTERVAL`. -/
def BLANKING_INTERVAL : Timespec := .ofSec (5 * 60)

/-- Whether a command is this helper with this group. -/
def argvMatches (self group : Bytes) : List Bytes → Bool
  | argv0 :: argv1 :: rest =>
    if argv1 = lit "--" then
      match rest with
      | argv1 :: _ => argv0 == self && argv1 == group
      | [] => false
    else argv0 == self && argv1 == group
  | _ => false

namespace ListedUnit

variable {U : Type} [DecidableEq U]

/-- Whether a row becomes a `listed_unit`. -/
def isListed (selfObject : U) (u : ListedUnit U) : Bool :=
  !(AT ∈ u.name || u.loadState != lit "loaded" || u.object == selfObject)

/-- The test on the states: activating, but past `ExecStartPre`, or active. -/
def isRunning (u : ListedUnit U) : Bool :=
  (u.activeState == lit "activating" && u.activeSubState != lit "start-pre") ||
    u.activeState == lit "active" || u.activeState == lit "reloading"

/-- The `result` of a unit that is not the winner: how long its exit makes the process wait. A winner,
which decides that the process sleeps out the whole interval, has none. -/
def result (self group : Bytes) (now : Timespec) (u : ListedUnit U) (p : Properties) : Option Timespec :=
  if p.execStartPre.any (argvMatches self group) then
    if u.isRunning then none
    else
      let start := Timespec.ofUsec p.execMainStartTimestampMonotonic
      let exit := Timespec.ofUsec p.execMainExitTimestampMonotonic
      if start.gt exit then none else some (BLANKING_INTERVAL.sub (now.sub exit))
  else some (.ofSec 0)

end ListedUnit

/-- `std::max`. -/
def max (a b : Timespec) : Timespec := if a.lt b then b else a

theorem ns_max (a b : Timespec) : (max a b).ns = Max.max a.ns b.ns := by
  unfold max
  split
  next h => exact (max_eq_right (Timespec.lt_iff.1 h).le).symm
  next h => exact (max_eq_left (not_lt.1 fun h' => h (Timespec.lt_iff.2 h'))).symm

/-! ### The processes -/

/-- How far a process has come in the round of its loop. -/
inductive Pc (U : Type) where
  | top
  | loaded (last : Bundle)
  /-- The last win is more than `freq` ago. -/
  | due (last : Bundle) (now : Timespec)
  /-- The units with replies to come, and the greatest wait so far. -/
  | waiting (last : Bundle) (now : Timespec) (listedUnits : List (ListedUnit U)) (sleep : Timespec)
  | ready (last : Bundle) (now : Timespec)
  | done
  deriving DecidableEq

/-- The processes and their command lines. The helper is the same program for all of them. -/
structure System (P U : Type) where
  self : Bytes
  unit : P → U
  group : U → Bytes
  pid : P → BitVec 32
  loadTarget : P → Bool

/-- `freq`, in seconds. -/
def System.freq {P U : Type} (sys : System P U) (p : P) : Nat := if sys.loadTarget p then 30 else 5

structure State (P U : Type) where
  shm : Bundle
  clock : Timespec
  pc : P → Pc U
  /-- Whether a unit runs its job. -/
  running : U → Bool
  /-- The exit timestamps of the jobs of a unit, the last one first. -/
  exits : U → List Nat
  wins : List (Win P Bundle Timespec)

inductive Action (P U : Type) where
  /-- The load average is too high. -/
  | highLoad (p : P)
  | load (p : P)
  | clockGettime (p : P)
  | listUnits (p : P) (units : List (ListedUnit U))
  | getProperties (p : P) (u : ListedUnit U) (properties : Properties)
  /-- There are no replies to come. -/
  | settle (p : P)
  | compareExchange (p : P)
  /-- The job of a unit exits. -/
  | exit (u : U)
  | tick (now : Timespec)

/-- The process that takes an action. -/
def Action.process {P U : Type} : Action P U → Option P
  | .highLoad p | .load p | .clockGettime p | .listUnits p _ | .getProperties p _ _ | .settle p
  | .compareExchange p => some p
  | .exit _ | .tick _ => none

variable {P U : Type} [DecidableEq P] [DecidableEq U] (sys : System P U)

def step (s : State P U) : Action P U → Option (State P U)
  | .highLoad p =>
    match s.pc p with
    | .top => if sys.loadTarget p then some s else none
    | _ => none
  | .load p =>
    match s.pc p with
    | .top => some { s with pc := Function.update s.pc p (.loaded s.shm) }
    | _ => none
  | .clockGettime p =>
    match s.pc p with
    | .loaded last =>
      let next :=
        if (s.clock.sub last.toTimespec).gt (.ofSec (sys.freq p)) then .due last s.clock else .top
      some { s with pc := Function.update s.pc p next }
    | _ => none
  | .listUnits p units =>
    match s.pc p with
    | .due last now =>
      let listed := units.filter (ListedUnit.isListed (sys.unit p))
      some { s with pc := Function.update s.pc p (.waiting last now listed (.ofSec 0)) }
    | _ => none
  | .getProperties p u properties =>
    match s.pc p with
    | .waiting last now listed sleep =>
      if u ∈ listed then
        match u.result sys.self (sys.group (sys.unit p)) now properties with
        | none => some { s with pc := Function.update s.pc p .top }
        | some result =>
          let next := .waiting last now (listed.erase u) (max result sleep)
          some { s with pc := Function.update s.pc p next }
      else none
    | _ => none
  | .settle p =>
    match s.pc p with
    | .waiting last now [] sleep =>
      let next := if sleep.sec ≠ 0 ∨ sleep.nsec ≠ 0 then .top else .ready last now
      some { s with pc := Function.update s.pc p next }
    | _ => none
  | .compareExchange p =>
    match s.pc p with
    | .ready last now =>
      if s.shm = last then
        let value := Bundle.new (sys.pid p) now
        some { s with
          shm := value
          pc := Function.update s.pc p .done
          running := Function.update s.running (sys.unit p) true
          wins := s.wins ++ [{ winner := p, now, consumed := last, written := value }] }
      else some { s with pc := Function.update s.pc p .top }
    | _ => none
  | .exit u =>
    if s.running u then
      some { s with
        running := Function.update s.running u false
        exits := Function.update s.exits u (s.clock.toUsec :: s.exits u) }
    else none
  | .tick now => if now.lt s.clock then none else some { s with clock := now }

/-- No process has begun, no job has run, and the clock has not gone beyond `2 ^ 32` seconds. -/
structure Start (s : State P U) : Prop where
  top : ∀ p, s.pc p = .top
  running : ∀ u, s.running u = false
  exits : ∀ u, s.exits u = []
  wins : s.wins = []
  clock : 0 ≤ s.clock.sec ∧ s.clock.sec < 2 ^ 32

/-- The clock stays below `2 ^ 32` seconds. -/
def ClockBelow (_ : State P U) : Action P U → Prop
  | .tick now => now.sec < 2 ^ 32
  | _ => True

instance (s : State P U) : (a : Action P U) → Decidable (ClockBelow s a)
  | .tick now => inferInstanceAs (Decidable (now.sec < 2 ^ 32))
  | .highLoad _ | .load _ | .clockGettime _ | .listUnits _ _ | .getProperties _ _ _ | .settle _
  | .compareExchange _ | .exit _ => .isTrue trivial

/-! ### What a step can do -/

variable {sys}

/-- The steps that change how far a process has come. -/
inductive Moves (sys : System P U) (s : State P U) (p : P) : Action P U → Pc U → Prop
  | load : Moves sys s p (.load p) (.loaded s.shm)
  | due (last) : s.pc p = .loaded last →
      (s.clock.sub last.toTimespec).gt (.ofSec (sys.freq p)) →
      Moves sys s p (.clockGettime p) (.due last s.clock)
  | listUnits (last now units) : s.pc p = .due last now →
      Moves sys s p (.listUnits p units)
        (.waiting last now (units.filter (ListedUnit.isListed (sys.unit p))) (.ofSec 0))
  | getProperties (last now listed sleep u properties result) : s.pc p = .waiting last now listed sleep →
      u ∈ listed →
      u.result sys.self (sys.group (sys.unit p)) now properties = some result →
      Moves sys s p (.getProperties p u properties)
        (.waiting last now (listed.erase u) (max result sleep))
  | ready (last now) : s.pc p = .waiting last now [] (.ofSec 0) → Moves sys s p (.settle p) (.ready last now)
  | back (a) : a.process = some p → Moves sys s p a .top

/-- Everything that a step can do. -/
inductive Effect (sys : System P U) (s : State P U) : Action P U → State P U → Prop
  | idle (p) : Effect sys s (.highLoad p) s
  | move {a} (p pc) : Moves sys s p a pc → Effect sys s a { s with pc := Function.update s.pc p pc }
  | win (p now) : s.pc p = .ready s.shm now → Effect sys s (.compareExchange p) { s with
      shm := Bundle.new (sys.pid p) now
      pc := Function.update s.pc p .done
      running := Function.update s.running (sys.unit p) true
      wins := s.wins ++
        [{ winner := p, now, consumed := s.shm, written := Bundle.new (sys.pid p) now }] }
  | exit (u) : s.running u → Effect sys s (.exit u) { s with
      running := Function.update s.running u false
      exits := Function.update s.exits u (s.clock.toUsec :: s.exits u) }
  | tick (now) : s.clock.ns ≤ now.ns → Effect sys s (.tick now) { s with clock := now }

theorem step_effect {s s' : State P U} {a : Action P U} (h : step sys s a = some s') :
    Effect sys s a s' := by
  cases a with
  | highLoad p =>
    simp only [step] at h
    split at h
    · split at h
      · cases h; exact .idle p
      · cases h
    · cases h
  | load p =>
    simp only [step] at h
    split at h
    · cases h; exact .move p _ .load
    · cases h
  | clockGettime p =>
    simp only [step] at h
    split at h
    next last hp =>
      split at h
      next hdue => cases h; exact .move p _ (.due last hp hdue)
      next => cases h; exact .move p _ (.back _ rfl)
    next => cases h
  | listUnits p units =>
    simp only [step] at h
    split at h
    next last now hp => cases h; exact .move p _ (.listUnits last now units hp)
    next => cases h
  | getProperties p u properties =>
    simp only [step] at h
    split at h
    next last now listed sleep hp =>
      split at h
      next hu =>
        split at h
        next => cases h; exact .move p _ (.back _ rfl)
        next result hr => cases h; exact .move p _ (.getProperties _ _ _ _ _ _ _ hp hu hr)
      next => cases h
    next => cases h
  | settle p =>
    simp only [step] at h
    split at h
    next last now sleep hp =>
      split at h
      next => cases h; exact .move p _ (.back _ rfl)
      next hz =>
        push Not at hz
        have hsleep : sleep = .ofSec 0 := by
          obtain ⟨sec, nsec, hlt⟩ := sleep
          obtain ⟨rfl, rfl⟩ := hz
          rfl
        cases h; exact .move p _ (.ready last now (hsleep ▸ hp))
    next => cases h
  | compareExchange p =>
    simp only [step] at h
    split at h
    next last now hp =>
      split at h
      next heq => cases h; subst heq; exact .win p now hp
      next => cases h; exact .move p _ (.back _ rfl)
    next => cases h
  | exit u =>
    simp only [step] at h
    split at h
    next hu => cases h; exact .exit u hu
    next => cases h
  | tick now =>
    simp only [step] at h
    split at h
    · cases h
    next hlt =>
      cases h
      exact .tick now (not_lt.1 fun h => hlt (Timespec.lt_iff.2 h))

/-! ### The dispatcher it is -/

namespace Pc

/-- The word that a process holds. -/
def held : Pc U → Option Bundle
  | .top => none
  | .loaded last => some last
  | .due last _ => some last
  | .waiting last _ _ _ => some last
  | .ready last _ => some last
  | .done => none

/-- The clock reading of a process that has passed the check. -/
def reading : Pc U → Option Timespec
  | .due _ now => some now
  | .waiting _ now _ _ => some now
  | .ready _ now => some now
  | _ => none

end Pc

def State.abs (s : State P U) : Dispatcher.State P Bundle Timespec where
  word := s.shm
  held p := (s.pc p).held
  wins := s.wins

/-- The last win is more than `freq` before the reading. -/
def Due (sys : System P U) (p : P) (last : Bundle) (now : Timespec) : Prop :=
  (now.sub last.toTimespec).gt (.ofSec (sys.freq p))

omit [DecidableEq P] [DecidableEq U] in
theorem System.freq_pos (p : P) : 0 < sys.freq p := by
  unfold System.freq
  split <;> decide

/-- What holds of the clock and of its readings. -/
structure ClockInv (sys : System P U) (s : State P U) : Prop where
  clock : 0 ≤ s.clock.sec ∧ s.clock.sec < 2 ^ 32
  reading : ∀ p last now, (s.pc p).held = some last → (s.pc p).reading = some now →
    Due sys p last now ∧ 0 ≤ now.sec ∧ now.sec < 2 ^ 32 ∧ now.ns ≤ s.clock.ns

namespace ClockInv

variable {s s' : State P U}

omit [DecidableEq P] [DecidableEq U] in
theorem start (h : Start s) : ClockInv sys s :=
  ⟨h.clock, fun p last now hp => by rw [h.top p] at hp; cases hp⟩

omit [DecidableEq P] in
/-- A process that moves on keeps the word and the reading that it has, or has a new reading that passes
the check, or no reading. -/
theorem moves (hs : ClockInv sys s) {p : P} {a : Action P U} {pc : Pc U} (h : Moves sys s p a pc) :
    (pc.held = some s.shm ∧ pc.reading = none) ∨ pc = .top ∨
    (pc.held = (s.pc p).held ∧ ∀ last now, pc.held = some last → pc.reading = some now →
      Due sys p last now ∧ 0 ≤ now.sec ∧ now.sec < 2 ^ 32 ∧ now.ns ≤ s.clock.ns) := by
  have keep : pc.held = (s.pc p).held → pc.reading = (s.pc p).reading →
      pc.held = (s.pc p).held ∧ ∀ last now, pc.held = some last → pc.reading = some now →
        Due sys p last now ∧ 0 ≤ now.sec ∧ now.sec < 2 ^ 32 ∧ now.ns ≤ s.clock.ns :=
    fun hheld hread => ⟨hheld, fun last now hl hn =>
      hs.reading p last now (hheld ▸ hl) (hread ▸ hn)⟩
  cases h with
  | load => exact .inl ⟨rfl, rfl⟩
  | due last hp hdue =>
    refine .inr (.inr ⟨by rw [hp]; rfl, fun last' now hl hn => ?_⟩)
    cases hl
    cases hn
    exact ⟨hdue, hs.clock.1, hs.clock.2, le_rfl⟩
  | listUnits last now units hp => exact .inr (.inr (keep (by rw [hp]; rfl) (by rw [hp]; rfl)))
  | getProperties last now listed sleep u properties result hp _ _ =>
    exact .inr (.inr (keep (by rw [hp]; rfl) (by rw [hp]; rfl)))
  | ready last now hp => exact .inr (.inr (keep (by rw [hp]; rfl) (by rw [hp]; rfl)))
  | back _ _ => exact .inr (.inl rfl)

omit [DecidableEq U] in
theorem update (hs : ClockInv sys s) {p : P} {pc : Pc U}
    (hpc : ∀ last now, pc.held = some last → pc.reading = some now →
      Due sys p last now ∧ 0 ≤ now.sec ∧ now.sec < 2 ^ 32 ∧ now.ns ≤ s.clock.ns) :
    ClockInv sys { s with pc := Function.update s.pc p pc } := by
  refine ⟨hs.clock, fun q last now hq => ?_⟩
  simp only [Function.update_apply] at hq ⊢
  split at hq
  next h => subst h; simpa using hpc last now hq
  next h => simpa [h] using hs.reading q last now hq

theorem step (hs : ClockInv sys s) (h : Machine.Next (step sys) ClockBelow s s') : ClockInv sys s' := by
  obtain ⟨a, hok, h⟩ := h
  cases step_effect h with
  | idle p => exact hs
  | move p pc hm =>
    refine hs.update fun last now hl hn => ?_
    rcases hs.moves hm with ⟨-, hnone⟩ | rfl | ⟨-, hkeep⟩
    · rw [hnone] at hn; cases hn
    · cases hl
    · exact hkeep last now hl hn
  | win p now hp => exact ⟨hs.clock, (@update _ _ _ sys s hs p .done nofun).reading⟩
  | exit u hu => exact ⟨hs.clock, hs.reading⟩
  | tick now hle =>
    refine ⟨⟨Timespec.sec_nonneg_of_le hs.clock.1 hle, hok⟩, fun p last now' hl hn => ?_⟩
    obtain ⟨hdue, h0, h1, hclock⟩ := hs.reading p last now' hl hn
    exact ⟨hdue, h0, h1, hclock.trans hle⟩

end ClockInv

omit [DecidableEq U] in
theorem abs_update (s : State P U) (p : P) (pc : Pc U) :
    State.abs { s with pc := Function.update s.pc p pc } =
      { s.abs with held := Function.update s.abs.held p pc.held } := by
  simp only [State.abs, Dispatcher.State.mk.injEq, true_and, and_true]
  funext q
  simp only [Function.update_apply]
  split <;> rfl

/-- Every step of the processes is a step of the dispatcher, or none. -/
theorem abs_step {s s' : State P U} (hs : ClockInv sys s)
    (h : Machine.Next (step sys) ClockBelow s s') :
    Relation.ReflTransGen (Dispatcher.Step (Due sys) Bundle.ns) s.abs s'.abs := by
  obtain ⟨a, -, h⟩ := h
  cases step_effect h with
  | idle p => exact .refl
  | move p pc hm =>
    rw [abs_update]
    rcases hs.moves hm with ⟨hheld, -⟩ | rfl | ⟨hheld, -⟩
    · rw [hheld]
      exact .single (.take s.abs p)
    · exact .single (.drop s.abs p)
    · rw [Function.update_eq_self_iff.2 hheld]
  | win p now hp =>
    have hheld : s.abs.held p = some s.abs.word := by simp [State.abs, hp, Pc.held]
    obtain ⟨hdue, h0, h1, -⟩ := hs.reading p _ now hheld (by rw [hp]; rfl)
    have hwin := @Dispatcher.Step.win _ _ _ _ _ _ (Due sys) Bundle.ns s.abs p now
      (Bundle.new (sys.pid p) now) hheld hdue
      (Bundle.ns_lt_new (sys.pid p) h0 h1 (System.freq_pos p) hdue)
    have hdone := congrArg Dispatcher.State.held (abs_update s p .done)
    rw [show Function.update s.abs.held p none = _ from hdone.symm] at hwin
    exact .single hwin
  | exit u hu => exact .refl
  | tick now hle => exact .refl

/-- Every run keeps the invariant of the dispatcher. -/
theorem dispatcher_inv {s₀ s : State P U} (h₀ : Start s₀)
    (h : Relation.ReflTransGen (Machine.Next (step sys) ClockBelow) s₀ s) :
    ClockInv sys s ∧ Dispatcher.Inv (Due sys) Bundle.ns s₀.shm s.abs := by
  have hstart : Dispatcher.Inv (Due sys) Bundle.ns s₀.abs.word s₀.abs :=
    .start h₀.wins fun p => by simp [State.abs, h₀.top p, Pc.held]
  obtain ⟨hclock, hrun⟩ := Machine.simulation State.abs (.start h₀) (fun _ _ hs => hs.step)
    (fun _ _ hs => abs_step hs) h
  exact ⟨hclock, hstart.run hrun⟩

end ThrottleGroup

end SystemdCron
