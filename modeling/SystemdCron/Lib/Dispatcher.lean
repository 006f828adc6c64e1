import SystemdCron.Lib.Machine
import Mathlib

/-!
# Dispatch by compare-exchange

Any number of processes share a word that carries a time. A process takes the word, and wins if the word is
still the one it took: it then puts a word with a later time in its place. `Inv` is what keeps the
dispatcher safe: the wins form a chain through the words, the times go up along it, and what a process
holds is on it. So a word that was replaced never comes back (`Inv.ne_of_stamp_lt`), and no two
winners replace the same word (`Inv.nodup_consumed`).
-/

namespace Dispatcher

variable {P W N T : Type*}

/-- A successful exchange, with the clock reading of the winner. -/
structure Win (P W N : Type*) where
  winner : P
  now : N
  consumed : W
  written : W
  deriving DecidableEq

structure State (P W N : Type*) where
  word : W
  /-- The word that a process took and has not given up. -/
  held : P → Option W
  /-- The wins so far, in order. -/
  wins : List (Win P W N)

/-- The words so far, in order, from the one the shared word started with. -/
def State.words (w₀ : W) (s : State P W N) : List W := w₀ :: s.wins.map Win.written

inductive Step [DecidableEq P] [LT T] (due : P → W → N → Prop) (stamp : W → T) :
    State P W N → State P W N → Prop
  | take (s p) : Step due stamp s { s with held := Function.update s.held p (some s.word) }
  | drop (s p) : Step due stamp s { s with held := Function.update s.held p none }
  | win (s p now w) : s.held p = some s.word → due p s.word now → stamp s.word < stamp w →
      Step due stamp s {
        word := w
        held := Function.update s.held p none
        wins := s.wins ++ [{ winner := p, now, consumed := s.word, written := w }] }

/-- The invariant of the dispatcher. -/
structure Inv [Preorder T] (due : P → W → N → Prop) (stamp : W → T) (w₀ : W) (s : State P W N) : Prop where
  /-- Every win replaces the word before it. -/
  words : s.words w₀ = s.wins.map Win.consumed ++ [s.word]
  increasing : ((s.words w₀).map stamp).Pairwise (· < ·)
  due : ∀ w ∈ s.wins, due w.winner w.consumed w.now
  held : ∀ p w, s.held p = some w → w ∈ s.words w₀

namespace Inv

variable [Preorder T] {due : P → W → N → Prop} {stamp : W → T} {w₀ : W} {s : State P W N}

theorem start (h : s.wins = []) (hheld : ∀ p, s.held p = none) : Inv due stamp s.word s := by
  refine ⟨by simp [State.words, h], by simp [State.words, h], by simp [h], fun p w hw => ?_⟩
  rw [hheld p] at hw
  cases hw

/-- All words before the last have earlier times. -/
theorem stamp_lt (hs : Inv due stamp w₀ s) {w : W} (hw : w ∈ s.wins.map Win.consumed) :
    stamp w < stamp s.word := by
  have h := hs.increasing
  rw [hs.words, List.map_append, List.map_singleton] at h
  exact (List.pairwise_append.1 h).2.2 _ (List.mem_map_of_mem hw) _ (List.mem_singleton_self _)

/-- No two winners replace the same word. -/
theorem nodup_consumed (hs : Inv due stamp w₀ s) : (s.wins.map Win.consumed).Nodup := by
  have h := hs.increasing
  rw [hs.words, List.map_append] at h
  exact List.Nodup.of_map stamp ((List.pairwise_append.1 h).1.imp fun h => h.ne)

theorem mem_words (hs : Inv due stamp w₀ s) {w : W} (hw : w ∈ s.words w₀) :
    w ∈ s.wins.map Win.consumed ∨ w = s.word := by
  rw [hs.words] at hw
  simpa using hw

/-- **After a win nobody holds the word**, so that no other process can win with what it holds. -/
theorem ne_of_stamp_lt (hs : Inv due stamp w₀ s) {p : P} {v w : W} (hv : s.held p = some v)
    (hw : stamp s.word < stamp w) : v ≠ w := by
  rintro rfl
  rcases hs.mem_words (hs.held p v hv) with h | rfl
  · exact lt_irrefl _ ((hs.stamp_lt h).trans hw)
  · exact lt_irrefl _ hw

/-- The wins from some win on have written the present word. -/
theorem word_mem_of_suffix (hs : Inv due stamp w₀ s) {ws : List (Win P W N)} (h : ws <:+ s.wins)
    (hne : ws ≠ []) : s.word ∈ ws.map Win.written := by
  obtain ⟨pre, hpre⟩ := h
  obtain ⟨init, last, rfl⟩ : ∃ init last, ws = init ++ [last] :=
    ⟨_, _, (List.dropLast_concat_getLast hne).symm⟩
  have hwords := hs.words
  rw [State.words, ← hpre, ← List.append_assoc, List.map_append, List.map_singleton, ← List.cons_append]
    at hwords
  have := (List.append_inj_right' hwords rfl)
  simp [List.cons.inj this]

variable [DecidableEq P]

theorem step {s' : State P W N} (hs : Inv due stamp w₀ s) (h : Step due stamp s s') :
    Inv due stamp w₀ s' := by
  -- Taking and giving up a word changes only what is held.
  have hupdate : ∀ (p : P) (o : Option W), (∀ w ∈ o, w ∈ s.words w₀) →
      ∀ q w, Function.update s.held p o q = some w → w ∈ s.words w₀ := by
    intro p o ho q w hw
    rw [Function.update_apply] at hw
    split at hw
    · exact ho w hw
    · exact hs.held q w hw
  have hword : s.word ∈ s.words w₀ := by rw [hs.words]; simp
  cases h with
  | take p => exact ⟨hs.words, hs.increasing, hs.due, hupdate p _ fun w hw => by cases hw; exact hword⟩
  | drop p => exact ⟨hs.words, hs.increasing, hs.due, hupdate p _ nofun⟩
  | win p now w hheld hdue hlt =>
    have hwords : ∀ x : Win P W N, State.words w₀ { s with wins := s.wins ++ [x] } =
        s.words w₀ ++ [x.written] := fun x => by simp [State.words]
    refine ⟨?_, ?_, fun v hv => ?_, fun q v hv => ?_⟩
    · rw [show State.words w₀ _ = s.words w₀ ++ [w] from hwords _, hs.words]
      simp
    · rw [show State.words w₀ _ = s.words w₀ ++ [w] from hwords _, List.map_append, List.map_singleton]
      refine List.pairwise_append.2 ⟨hs.increasing, List.pairwise_singleton _ _, fun t ht u hu => ?_⟩
      obtain ⟨v, hv, rfl⟩ := List.mem_map.1 ht
      obtain rfl := List.mem_singleton.1 hu
      rcases hs.mem_words hv with hv | rfl
      · exact (hs.stamp_lt hv).trans hlt
      · exact hlt
    · rcases List.mem_append.1 hv with hv | hv
      · exact hs.due v hv
      · obtain rfl := List.mem_singleton.1 hv
        exact hdue
    · rw [show State.words w₀ _ = s.words w₀ ++ [w] from hwords _]
      exact List.mem_append_left _ (hupdate p none nofun q v hv)

/-- The invariant holds in every run. -/
theorem run {s₀ : State P W N} (h₀ : Inv due stamp w₀ s₀)
    (h : Relation.ReflTransGen (Step due stamp) s₀ s) : Inv due stamp w₀ s :=
  Machine.invariant h₀ (fun _ _ => step) h

end Inv

end Dispatcher
