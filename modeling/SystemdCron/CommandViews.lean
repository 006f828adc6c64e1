import SystemdCron.Job

/-!
# The views of a command

`Job::command` with its words in place: the span is two positions among the words of the line, and every
read of a word is kept. A range-for over `command_iter`, `operator[]` and `size` see the same words, the
replacement first, and nothing outside the span is read (`command_views`). The lists that `Command` has
for the span are what these views see.
-/

namespace SystemdCron

open Bytes

/-- `vore::span`: two positions among the words of a line. -/
structure Span where
  parts : List Bytes
  b : Nat
  e : Nat
  b_le : b ≤ e
  e_le : e ≤ parts.length

/-- The words of a span. -/
def Span.words (s : Span) : List Bytes := (s.parts.drop s.b).take (s.e - s.b)

/-- `command_iter` over the words of a line. -/
structure SpanIter where
  b : Nat
  e : Nat
  command0 : Option Bytes
  deriving DecidableEq, Repr

namespace SpanIter

/-- `operator++`, and the position that it reads, if any. -/
def next (parts : List Bytes) (it : SpanIter) : Except Fault (SpanIter × List Nat) :=
  if it.b < it.e then
    match parts[it.b]? with
    | some w => .ok ({ it with b := it.b + 1, command0 := some w }, [it.b])
    | none => .error .outOfBounds
  else .ok ({ it with command0 := none }, [])

/-- `operator*`, the positions that it reads, and the word. -/
def deref (parts : List Bytes) (it : SpanIter) : Except Fault (SpanIter × List Nat × Bytes) :=
  match it.command0 with
  | some w => .ok (it, [], w)
  | none =>
    match it.next parts with
    | .error f => .error f
    | .ok (it, reads) =>
      match it.command0 with
      | some w => .ok (it, reads, w)
      | none => .error .outOfBounds

/-- The rounds of a range-for up to `stop`: the words, and the positions that are read. `operator==` compares
the loaded words and the positions. -/
def rangeFor (parts : List Bytes) (stop : SpanIter) : Nat → SpanIter → Except Fault (List Bytes × List Nat)
  | 0, _ => .error .diverges
  | fuel + 1, it =>
    if it.command0 = stop.command0 ∧ it.b = stop.b then .ok ([], [])
    else
      match it.deref parts with
      | .error f => .error f
      | .ok (it, reads, w) =>
        match it.next parts with
        | .error f => .error f
        | .ok (it, reads') =>
          match rangeFor parts stop fuel it with
          | .error f => .error f
          | .ok (ws, rest) => .ok (w :: ws, reads ++ reads' ++ rest)

end SpanIter

/-- `Job::command` with its span in place. -/
structure SpanCommand where
  command : Span
  command0 : Option Bytes
  nopercent : Bool

namespace SpanCommand

def begin (c : SpanCommand) : SpanIter := { b := c.command.b, e := c.command.e, command0 := c.command0 }

/-- `end()`. -/
def stop (c : SpanCommand) : SpanIter := { b := c.command.e, e := c.command.e, command0 := none }

def size (c : SpanCommand) : Nat := (c.command.e - c.command.b) + (if c.command0.isSome then 1 else 0)

/-- `operator[]`: nothing if it reads outside the words of the line. -/
def get (c : SpanCommand) (i : Nat) : Option Bytes :=
  match c.command0 with
  | some w => if i = 0 then some w else c.command.parts[c.command.b + (i - 1)]?
  | none => c.command.parts[c.command.b + i]?

/-- The command with the words of the span in place of the span. -/
def toCommand (c : SpanCommand) : Command where
  command := c.command.words
  command0 := c.command0
  nopercent := c.nopercent

end SpanCommand

/-! ### What is seen -/

theorem Span.length_words (s : Span) : s.words.length = s.e - s.b := by
  have := s.e_le
  rw [words, List.length_take, List.length_drop]
  omega

theorem Span.getElem?_words (s : Span) {i : Nat} (h : i < s.e - s.b) : s.words[i]? = s.parts[s.b + i]? := by
  rw [words, List.getElem?_take_of_lt h, List.getElem?_drop]

namespace SpanIter

variable {parts : List Bytes} {e : Nat}

theorem next_of_lt {it : SpanIter} (h : it.b < it.e) (hlen : it.e ≤ parts.length) :
    it.next parts = .ok ({ it with b := it.b + 1, command0 := some parts[it.b] }, [it.b]) := by
  rw [next, if_pos h, List.getElem?_eq_getElem (h.trans_le hlen)]

theorem next_of_eq {b : Nat} {w : Option Bytes} : next parts ⟨b, b, w⟩ = .ok (⟨b, b, none⟩, []) := by
  rw [next, if_neg (lt_irrefl b)]

/-- With a word loaded, the rest of the span is read in order. -/
theorem rangeFor_loaded (hlen : e ≤ parts.length) {n b : Nat} (w : Bytes) (hb : b ≤ e) (hn : e - b + 1 < n) :
    rangeFor parts ⟨e, e, none⟩ n ⟨b, e, some w⟩ =
      .ok (w :: (parts.drop b).take (e - b), List.range' b (e - b)) := by
  induction n generalizing b w with
  | zero => omega
  | succ n ih =>
    have hne : ¬ ((some w : Option Bytes) = none ∧ b = e) := fun h => nomatch h.1
    rw [rangeFor, if_neg hne, deref]
    dsimp only
    rcases hb.eq_or_lt with rfl | hlt
    · obtain ⟨n, rfl⟩ : ∃ k, n = k + 1 := ⟨n - 1, by omega⟩
      rw [next_of_eq]
      dsimp only
      rw [rangeFor, if_pos ⟨rfl, rfl⟩]
      simp
    · rw [next_of_lt hlt hlen]
      dsimp only
      rw [ih _ hlt (by omega)]
      have hsub : e - b = (e - (b + 1)) + 1 := by omega
      rw [hsub, List.drop_eq_getElem_cons (hlt.trans_le hlen), List.take_succ_cons, List.range'_succ]
      rfl

/-- With none loaded, the span is read in order. -/
theorem rangeFor_unloaded (hlen : e ≤ parts.length) {n b : Nat} (hb : b ≤ e) (hn : e - b < n) :
    rangeFor parts ⟨e, e, none⟩ n ⟨b, e, none⟩ = .ok ((parts.drop b).take (e - b), List.range' b (e - b)) := by
  obtain ⟨n, rfl⟩ : ∃ k, n = k + 1 := ⟨n - 1, by omega⟩
  rcases hb.eq_or_lt with rfl | hlt
  · rw [rangeFor, if_pos ⟨rfl, rfl⟩]
    simp
  · -- The first word is loaded by its dereference, and from there on the iterator is a loaded one.
    have hloaded := rangeFor_loaded hlen parts[b] hlt (show e - (b + 1) + 1 < n + 1 by omega)
    have hnone : ¬ ((some parts[b] : Option Bytes) = none ∧ b + 1 = e) := fun h => nomatch h.1
    rw [rangeFor, if_neg hnone, deref] at hloaded
    rw [rangeFor, if_neg (fun h => hlt.ne h.2), deref]
    dsimp only at hloaded ⊢
    rw [next_of_lt hlt hlen]
    dsimp only
    generalize next parts ⟨b + 1, e, some parts[b]⟩ = r at hloaded ⊢
    rcases r with f | ⟨it, reads⟩
    · cases hloaded
    dsimp only at hloaded ⊢
    generalize rangeFor parts ⟨e, e, none⟩ n it = r at hloaded ⊢
    rcases r with f | ⟨ws, rest⟩
    · cases hloaded
    simp only [Except.ok.injEq, Prod.mk.injEq, List.nil_append, List.cons.injEq, true_and] at hloaded
    have hsub : e - b = (e - (b + 1)) + 1 := by omega
    rw [hsub, List.drop_eq_getElem_cons (hlt.trans_le hlen), List.take_succ_cons, List.range'_succ, hloaded.1,
      ← hloaded.2]
    rfl

end SpanIter

namespace SpanCommand

variable (c : SpanCommand)

theorem length_hunks : c.toCommand.hunks.length = c.size := by
  rw [Command.hunks_eq, List.length_append]
  change c.command0.toList.length + c.command.words.length = c.size
  rw [c.command.length_words, size]
  cases c.command0 <;> simp [Nat.add_comm]

/-- `operator[]` gives what a range-for visits. -/
theorem get_eq {i : Nat} (h : i < c.size) : c.get i = c.toCommand.hunks[i]? := by
  rw [Command.hunks_eq]
  unfold size at h
  unfold get toCommand
  dsimp only
  generalize c.command0 = command0 at h ⊢
  rcases command0 with - | w
  · exact (c.command.getElem?_words h).symm
  · rcases i with - | i
    · rfl
    · simp only [Option.isSome_some, if_true] at h
      dsimp only
      rw [if_neg i.succ_ne_zero, Option.toList_some, List.singleton_append, List.getElem?_cons_succ,
        c.command.getElem?_words (by omega)]
      rfl

/-- The command in lists has the same `operator[]`. -/
theorem get_toCommand {i : Nat} (h : i < c.size) : c.get i = some (c.toCommand.get i) := by
  have hlen : i < c.toCommand.hunks.length := c.length_hunks ▸ h
  rw [c.get_eq h, List.getElem?_eq_getElem hlen, ← List.getD_eq_getElem _ [] hlen, Command.hunks_eq]
  unfold Command.get
  rcases c.toCommand.command0 with - | w
  · rfl
  · rcases i with - | i <;> rfl

/-- The words of a range-for, and the positions it reads. -/
theorem rangeFor_eq : SpanIter.rangeFor c.command.parts c.stop (c.size + 1) c.begin =
    .ok (c.toCommand.hunks, List.range' c.command.b (c.command.e - c.command.b)) := by
  rw [Command.hunks_eq]
  unfold size stop begin toCommand
  dsimp only
  rcases c.command0 with - | w
  · exact SpanIter.rangeFor_unloaded c.command.e_le c.command.b_le (Nat.lt_succ_self _)
  · exact SpanIter.rangeFor_loaded c.command.e_le w c.command.b_le (Nat.lt_succ_self _)

end SpanCommand

/-- **The views of a command**: a range-for ends after as many rounds as the size says, and sees the
replacement word, if there is one, and then the words of the span, as `operator[]` gives them; every
position of the span is read once, in order, and no other. -/
theorem command_views (c : SpanCommand) :
    let words := c.command0.toList ++ c.command.words
    ∃ reads, SpanIter.rangeFor c.command.parts c.stop (c.size + 1) c.begin = .ok (words, reads) ∧
      words.length = c.size ∧ (List.range c.size).map c.get = words.map some ∧
      reads = List.range' c.command.b (c.command.e - c.command.b) ∧ reads.Nodup ∧
      ∀ i ∈ reads, c.command.b ≤ i ∧ i < c.command.e := by
  intro words
  have hwords : c.toCommand.hunks = words := Command.hunks_eq _
  rw [← hwords]
  refine ⟨_, c.rangeFor_eq, c.length_hunks, ?_, rfl, List.nodup_range', fun i hi => ?_⟩
  · have hlen := c.length_hunks
    refine List.ext_getElem (by rw [List.length_map, List.length_range, List.length_map, hlen]) fun i hi _ => ?_
    rw [List.length_map, List.length_range] at hi
    rw [List.getElem_map, List.getElem_range, List.getElem_map, c.get_eq hi, List.getElem?_eq_getElem]
  · have := c.command.b_le
    rw [List.mem_range'_1] at hi
    omega

end SystemdCron
