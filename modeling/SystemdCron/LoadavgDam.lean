import SystemdCron.Shmem

/-!
# `loadavg_dam`

The loop of `main` of `loadavg_dam.cpp` for any number of processes that share a word and a clock: load the
word, read the clock, look at the load average, exchange the word. Every atomic operation is a step.
A run of it is a run of the dispatcher (`abs_step`).
-/

namespace SystemdCron

open Dispatcher

namespace LoadavgDam

/-- How far a process has come in the round of its loop. -/
inductive Pc where
  | top
  | loaded (last : Bundle)
  /-- The last win is more than 30 seconds ago. -/
  | due (last : Bundle) (now : Timespec)
  | done
  deriving DecidableEq

/-- The shared word, the clock, the processes, and the exchanges that succeeded. -/
structure State (P : Type) where
  shm : Bundle
  clock : Timespec
  pc : P → Pc
  wins : List (Win P Bundle Timespec)

inductive Action (P : Type) where
  | load (p : P)
  | clockGettime (p : P)
  /-- The load average is too high. -/
  | highLoad (p : P)
  | compareExchange (p : P)
  | tick (now : Timespec)

variable {P : Type} [DecidableEq P] (pid : P → BitVec 32)

def step (s : State P) : Action P → Option (State P)
  | .load p =>
    match s.pc p with
    | .top => some { s with pc := Function.update s.pc p (.loaded s.shm) }
    | _ => none
  | .clockGettime p =>
    match s.pc p with
    | .loaded last =>
      let next := if (s.clock.sub last.toTimespec).gt (.ofSec 30) then .due last s.clock else .top
      some { s with pc := Function.update s.pc p next }
    | _ => none
  | .highLoad p =>
    match s.pc p with
    | .due _ _ => some { s with pc := Function.update s.pc p .top }
    | _ => none
  | .compareExchange p =>
    match s.pc p with
    | .due last now =>
      if s.shm = last then
        let value := Bundle.new (pid p) now
        some { s with
          shm := value
          pc := Function.update s.pc p .done
          wins := s.wins ++ [{ winner := p, now, consumed := last, written := value }] }
      else some { s with pc := Function.update s.pc p .top }
    | _ => none
  | .tick now => if now.lt s.clock then none else some { s with clock := now }

/-- No process has begun, and the clock is below `2 ^ 32` seconds. -/
structure Start (s : State P) : Prop where
  top : ∀ p, s.pc p = .top
  wins : s.wins = []
  clock : 0 ≤ s.clock.sec ∧ s.clock.sec < 2 ^ 32

/-- The clock stays below `2 ^ 32` seconds. -/
def ClockBelow (_ : State P) : Action P → Prop
  | .tick now => now.sec < 2 ^ 32
  | _ => True

instance (s : State P) : (a : Action P) → Decidable (ClockBelow s a)
  | .tick now => inferInstanceAs (Decidable (now.sec < 2 ^ 32))
  | .load _ | .clockGettime _ | .highLoad _ | .compareExchange _ => .isTrue trivial

/-- What a step can do. -/
theorem step_cases {pid : P → BitVec 32} {s s' : State P} {a : Action P} (h : step pid s a = some s') :
    (∃ p, s' = { s with pc := Function.update s.pc p (.loaded s.shm) }) ∨
    (∃ p last, s.pc p = .loaded last ∧ (s.clock.sub last.toTimespec).gt (.ofSec 30) ∧
      s' = { s with pc := Function.update s.pc p (.due last s.clock) }) ∨
    (∃ p, s' = { s with pc := Function.update s.pc p .top }) ∨
    (∃ p now, s.pc p = .due s.shm now ∧ s' = { s with
      shm := Bundle.new (pid p) now
      pc := Function.update s.pc p .done
      wins := s.wins ++
        [{ winner := p, now, consumed := s.shm, written := Bundle.new (pid p) now }] }) ∨
    ∃ now, a = .tick now ∧ s.clock.ns ≤ now.ns ∧ s' = { s with clock := now } := by
  cases a with
  | load p =>
    simp only [step] at h
    split at h
    · cases h; exact .inl ⟨p, rfl⟩
    · cases h
  | clockGettime p =>
    simp only [step] at h
    split at h
    next last hp =>
      cases h
      split
      next hdue => exact .inr <| .inl ⟨p, last, hp, hdue, rfl⟩
      next => exact .inr <| .inr <| .inl ⟨p, rfl⟩
    next => cases h
  | highLoad p =>
    simp only [step] at h
    split at h
    · cases h; exact .inr <| .inr <| .inl ⟨p, rfl⟩
    · cases h
  | compareExchange p =>
    simp only [step] at h
    split at h
    next last now hp =>
      split at h
      next heq => cases h; subst heq; exact .inr <| .inr <| .inr <| .inl ⟨p, now, hp, rfl⟩
      next => cases h; exact .inr <| .inr <| .inl ⟨p, rfl⟩
    next => cases h
  | tick now =>
    simp only [step] at h
    split at h
    · cases h
    next hlt =>
      rw [Timespec.lt_iff, not_lt] at hlt
      cases h
      exact .inr <| .inr <| .inr <| .inr ⟨now, rfl, hlt, rfl⟩

/-! ### The dispatcher it is -/

/-- The word that a process holds. -/
def Pc.held : Pc → Option Bundle
  | .top => none
  | .loaded last => some last
  | .due last _ => some last
  | .done => none

def State.abs (s : State P) : Dispatcher.State P Bundle Timespec where
  word := s.shm
  held p := (s.pc p).held
  wins := s.wins

/-- The last win is more than 30 seconds before the reading. -/
def Due (_ : P) (last : Bundle) (now : Timespec) : Prop := (now.sub last.toTimespec).gt (.ofSec 30)

/-- What holds of the clock and of its readings. -/
structure Inv (s : State P) : Prop where
  clock : 0 ≤ s.clock.sec ∧ s.clock.sec < 2 ^ 32
  due : ∀ p last now, s.pc p = .due last now →
    Due p last now ∧ 0 ≤ now.sec ∧ now.sec < 2 ^ 32

omit [DecidableEq P] in
theorem Start.inv {s : State P} (h : Start s) : Inv s :=
  ⟨h.clock, fun p last now hp => by rw [h.top p] at hp; cases hp⟩

namespace Inv

variable {pid : P → BitVec 32} {s s' : State P}

theorem update (hs : Inv s) {p : P} {pc : Pc}
    (hpc : ∀ last now, pc = .due last now → Due p last now ∧ 0 ≤ now.sec ∧ now.sec < 2 ^ 32) :
    Inv { s with pc := Function.update s.pc p pc } := by
  refine ⟨hs.clock, fun q last now hq => ?_⟩
  simp only [Function.update_apply] at hq
  split at hq
  next h => subst h; exact hpc last now hq
  next => exact hs.due q last now hq

theorem step (hs : Inv s) (h : Machine.Next (step pid) ClockBelow s s') : Inv s' := by
  obtain ⟨a, hok, h⟩ := h
  rcases step_cases h with ⟨p, rfl⟩ | ⟨p, last, -, hdue, rfl⟩ | ⟨p, rfl⟩ | ⟨p, now, -, rfl⟩ |
    ⟨now, rfl, hle, rfl⟩
  · exact hs.update nofun
  · exact hs.update fun _ _ h => by cases h; exact ⟨hdue, hs.clock⟩
  · exact hs.update nofun
  · exact ⟨hs.clock, (@update _ _ s hs p .done nofun).due⟩
  · exact ⟨⟨Timespec.sec_nonneg_of_le hs.clock.1 hle, hok⟩, hs.due⟩

end Inv

theorem abs_update (s : State P) (p : P) (pc : Pc) :
    State.abs { s with pc := Function.update s.pc p pc } =
      { s.abs with held := Function.update s.abs.held p pc.held } := by
  simp only [State.abs, Dispatcher.State.mk.injEq, true_and, and_true]
  funext q
  simp only [Function.update_apply]
  split <;> rfl

/-- Every step of the processes is a step of the dispatcher, or none. -/
theorem abs_step {pid : P → BitVec 32} {s s' : State P} (hs : Inv s)
    (h : Machine.Next (step pid) ClockBelow s s') :
    Relation.ReflTransGen (Dispatcher.Step Due Bundle.ns) s.abs s'.abs := by
  obtain ⟨a, -, h⟩ := h
  rcases step_cases h with ⟨p, rfl⟩ | ⟨p, last, hp, -, rfl⟩ | ⟨p, rfl⟩ | ⟨p, now, hp, rfl⟩ |
    ⟨now, rfl, -, rfl⟩
  · rw [abs_update]
    exact .single (.take s.abs p)
  · have hheld : Function.update s.abs.held p (Pc.due last s.clock).held = s.abs.held :=
      Function.update_eq_self_iff.2 (by simp [State.abs, hp, Pc.held])
    rw [abs_update, hheld]
  · rw [abs_update]
    exact .single (.drop s.abs p)
  · obtain ⟨hdue, hsec⟩ := hs.due p _ now hp
    refine .single ?_
    have hheld : s.abs.held p = some s.abs.word := by simp [State.abs, hp, Pc.held]
    have hwin := @Dispatcher.Step.win _ _ _ _ _ _ Due Bundle.ns s.abs p now (Bundle.new (pid p) now)
      hheld hdue (Bundle.ns_lt_new (pid p) hsec.1 hsec.2 (by decide : 0 < 30) hdue)
    have hdone := congrArg Dispatcher.State.held (abs_update s p .done)
    rwa [show Function.update s.abs.held p none = _ from hdone.symm] at hwin
  · exact .refl

/-- Every run keeps the invariant of the dispatcher. -/
theorem dispatcher_inv {pid : P → BitVec 32} {s₀ s : State P} (h₀ : Start s₀)
    (h : Relation.ReflTransGen (Machine.Next (step pid) ClockBelow) s₀ s) :
    Dispatcher.Inv Due Bundle.ns s₀.shm s.abs := by
  have hstart : Dispatcher.Inv Due Bundle.ns s₀.abs.word s₀.abs :=
    .start h₀.wins fun p => by simp [State.abs, h₀.top p, Pc.held]
  exact hstart.run (Machine.simulation State.abs h₀.inv (fun _ _ hs => hs.step)
    (fun _ _ hs => abs_step hs) h).2

end LoadavgDam

end SystemdCron
