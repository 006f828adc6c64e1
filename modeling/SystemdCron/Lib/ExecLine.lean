import SystemdCron.Lib.Bytes

/-!
# Command lines of a service

The rule by which a service manager reads a command line: words between white space, a lone `;` between
two commands, prefix characters before the path of each command, and specifiers in every word.
`commands_joinWords_iff` is the law for a writer that puts texts on such a line as they are: whatever the
specifiers stand for, the line is the one command with these arguments if and only if each of them is a
word that the rule has no other use for.
-/

namespace ExecLine

open Bytes

def isWhitespace (c : UInt8) : Bool := c == SPACE || c == HT || c == LF || c == CR

/-- The characters before the path of a command that say how it is run. -/
def isPrefix (c : UInt8) : Bool := c ∈ lit "-@:+!|"

/-- The letters that are specifiers, and what each of them stands for. -/
structure Specifiers where
  letter : UInt8 → Bool
  value : UInt8 → Bytes

/-- The expansion of a word: `%%` is a percent sign, and a `%` that no specifier follows is kept. -/
def expand (s : Specifiers) : Bytes → Bytes
  | [] => []
  | [c] => [c]
  | c :: d :: r =>
    if c = PERCENT ∧ d = PERCENT then PERCENT :: expand s r
    else if c = PERCENT ∧ s.letter d then s.value d ++ expand s r
    else c :: expand s (d :: r)

/-- Whether a word has a specifier or `%%`. -/
def hasSpecifier (letter : UInt8 → Bool) : Bytes → Bool
  | [] => false
  | [_] => false
  | c :: d :: r => (c == PERCENT && (d == PERCENT || letter d)) || hasSpecifier letter (d :: r)

structure Command where
  prefixes : Bytes
  argv : List Bytes
  deriving DecidableEq, Repr

/-- The command of the words between two `;`. -/
def command (s : Specifiers) : List Bytes → Option Command
  | [] => none
  | w :: ws => some {
      prefixes := w.takeWhile isPrefix
      argv := (w.dropWhile isPrefix :: ws).map (expand s) }

/-- The commands that a line denotes. -/
def commands (s : Specifiers) (line : Bytes) : List Command :=
  ((tokens isWhitespace line).splitOn [SEMICOLON]).filterMap (command s)

/-! ### Specifiers -/

theorem expand_cons_of_ne {s : Specifiers} {c : UInt8} (h : c ≠ PERCENT) (r : Bytes) :
    expand s (c :: r) = c :: expand s r := by
  cases r with
  | nil => rfl
  | cons d r => rw [expand, if_neg fun h' => h h'.1, if_neg fun h' => h h'.1]

theorem expand_of_hasSpecifier {s : Specifiers} {w : Bytes} (h : hasSpecifier s.letter w = false) :
    expand s w = w := by
  induction w with
  | nil => rfl
  | cons c r ih =>
    rcases r with - | ⟨d, r⟩
    · rfl
    · simp only [hasSpecifier, Bool.or_eq_false_iff, Bool.and_eq_false_iff, beq_eq_false_iff_ne] at h
      rw [expand, if_neg, if_neg, ih h.2]
      · rintro ⟨rfl, hd⟩
        rcases h.1 with h | h
        · exact h rfl
        · rw [hd] at h; cases h.2
      · rintro ⟨rfl, rfl⟩
        rcases h.1 with h | h
        · exact h rfl
        · exact h.1 rfl

/-- Where specifiers stand for nothing, expansion makes any count that has percent signs smaller, or leaves
a text that has none. -/
theorem countP_expand_le {p : UInt8 → Bool} (hp : p PERCENT) (letter : UInt8 → Bool) (w : Bytes) :
    (expand ⟨letter, fun _ => []⟩ w).countP p < w.countP p ∨ hasSpecifier letter w = false := by
  fun_induction expand ⟨letter, fun _ => []⟩ w with
  | case1 => exact .inr rfl
  | case2 => exact .inr rfl
  | case3 c d r h ih =>
    obtain ⟨rfl, rfl⟩ := h
    refine .inl ?_
    rcases ih with ih | ih
    · simp only [List.countP_cons, hp, if_true]; omega
    · rw [expand_of_hasSpecifier (s := ⟨letter, fun _ => []⟩) ih]
      simp only [List.countP_cons, hp, if_true]; omega
  | case4 c d r _ h ih =>
    obtain ⟨rfl, hd⟩ := h
    refine .inl ?_
    rcases ih with ih | ih
    · simp only [List.nil_append, List.countP_cons, hp, if_true]; omega
    · rw [expand_of_hasSpecifier (s := ⟨letter, fun _ => []⟩) ih]
      simp only [List.nil_append, List.countP_cons, hp, if_true]; omega
  | case5 c d r h1 h2 ih =>
    rcases ih with ih | ih
    · refine .inl ?_
      rw [List.countP_cons, List.countP_cons (l := d :: r)]
      omega
    · refine .inr ?_
      simp only [hasSpecifier, ih, Bool.or_false, Bool.and_eq_false_iff, Bool.or_eq_false_iff,
        beq_eq_false_iff_ne]
      by_cases hc : c = PERCENT
      · exact .inr ⟨fun hd => h1 ⟨hc, hd⟩, Bool.eq_false_iff.2 fun hl => h2 ⟨hc, hl⟩⟩
      · exact .inl hc

theorem length_expand_le (letter : UInt8 → Bool) (w : Bytes) :
    (expand ⟨letter, fun _ => []⟩ w).length < w.length ∨ hasSpecifier letter w = false := by
  have h := countP_expand_le (p := fun _ => true) rfl letter w
  rwa [List.countP_true] at h

/-! ### Words -/

theorem flatten_splitOnP {α : Type} (p : α → Bool) (l : List α) :
    (l.splitOnP p).flatten = l.filter fun x => !p x := by
  induction l with
  | nil => rfl
  | cons x l ih =>
    rw [List.splitOnP_cons_eq_if_modifyHead]
    cases hx : p x with
    | true => simp [hx, ih]
    | false =>
      obtain ⟨w, ws, hw⟩ := List.exists_cons_of_ne_nil (List.splitOnP_ne_nil p l)
      rw [hw] at ih ⊢
      simpa [hx] using ih

theorem flatten_filter_ne_nil {α : Type} [DecidableEq α] (l : List (List α)) :
    (l.filter (· ≠ [])).flatten = l.flatten := by
  induction l with
  | nil => rfl
  | cons w l ih => rcases w with - | ⟨x, w⟩ <;> simpa using ih

/-- The words have all octets of a text but the delimiters. -/
theorem flatten_tokens (p : UInt8 → Bool) (s : Bytes) :
    (tokens p s).flatten = s.filter fun c => !p c := by
  rw [tokens, flatten_filter_ne_nil, flatten_splitOnP]

/-- The one command of a line has all its words but the `;`s. -/
theorem commands_eq_singleton {s : Specifiers} {line : Bytes} {c : Command}
    (h : commands s line = [c]) :
    command s ((tokens isWhitespace line).filter (· ≠ [SEMICOLON])) = some c := by
  have hflat : ((tokens isWhitespace line).splitOn [SEMICOLON]).flatten =
      (tokens isWhitespace line).filter (· ≠ [SEMICOLON]) := by
    rw [List.splitOn_eq_splitOnP, flatten_splitOnP]
    congr 1
    funext x
    by_cases hx : x = [SEMICOLON] <;> simp [hx]
  rw [← hflat]
  unfold commands at h
  generalize (tokens isWhitespace line).splitOn [SEMICOLON] = groups at h
  induction groups with
  | nil => cases h
  | cons g gs ih =>
    rcases g with - | ⟨w, ws⟩
    · rw [List.filterMap_cons_none rfl] at h
      exact ih h
    · -- The other groups give no command, so they are empty.
      have hgs : gs.flatten = [] := by
        simp only [List.filterMap_cons, command, List.cons.injEq, List.filterMap_eq_nil_iff] at h
        rw [List.flatten_eq_nil_iff]
        intro g hg
        rcases g with - | ⟨v, vs⟩
        · rfl
        · cases h.2 _ hg
      simp only [List.filterMap_cons, command, List.cons.injEq] at h
      rw [List.flatten_cons, hgs, List.append_nil, command, h.1]

/-! ### Texts put on a line as they are -/

/-- A text without white space and specifiers. -/
structure Word (letter : UInt8 → Bool) (w : Bytes) : Prop where
  noWhitespace : ∀ c ∈ w, isWhitespace c = false
  noSpecifier : hasSpecifier letter w = false

theorem commands_joinWords {s : Specifiers} {c : UInt8} {path : Bytes} {vs : List Bytes}
    (hc : isPrefix c) (hpath : ∀ x ∈ path.head?, isPrefix x = false)
    (hwords : ∀ v ∈ path :: vs, Word s.letter v) (hne : ∀ v ∈ path :: vs, v ≠ [])
    (hsemi : ∀ v ∈ vs, v ≠ [SEMICOLON]) :
    commands s (c :: joinWords (path :: vs)) = [{ prefixes := [c], argv := path :: vs }] := by
  have hws : isWhitespace c = false := by
    have : ∀ c ∈ lit "-@:+!|", isWhitespace c = false := by decide +kernel
    exact this c (of_decide_eq_true hc)
  have hline : tokens isWhitespace (c :: joinWords (path :: vs)) = (c :: path) :: vs := by
    have : c :: joinWords (path :: vs) = joinWords ((c :: path) :: vs) := by
      by_cases h : vs = []
      · simp [h]
      · simp [joinWords_cons_of_ne h]
    rw [this]
    refine tokens_joinWords (by decide) (fun w hw => ?_) fun w hw x hx => ?_
    · rcases List.mem_cons.1 hw with rfl | hw
      · simp
      · exact hne w (by simp [hw])
    · rcases List.mem_cons.1 hw with rfl | hw
      · rcases List.mem_cons.1 hx with rfl | hx
        · exact hws
        · exact (hwords path (by simp)).noWhitespace x hx
      · exact (hwords w (by simp [hw])).noWhitespace x hx
  have hpath0 : path ≠ [] := hne path (by simp)
  obtain ⟨x, r, rfl⟩ := List.exists_cons_of_ne_nil hpath0
  have hx : isPrefix x = false := hpath x rfl
  have hsplit : List.splitOn [SEMICOLON] ((c :: x :: r) :: vs) = [(c :: x :: r) :: vs] := by
    refine List.splitOn_eq_singleton fun hmem => ?_
    rcases List.mem_cons.1 hmem with h | h
    · simp at h
    · exact hsemi _ h rfl
  have hexpand : ((x :: r) :: vs).map (expand s) = (x :: r) :: vs := by
    rw [List.map_congr_left fun v hv => expand_of_hasSpecifier (hwords v hv).noSpecifier, List.map_id']
  have htake : (c :: x :: r).takeWhile isPrefix = [c] := by simp [hc, hx]
  have hdrop : (c :: x :: r).dropWhile isPrefix = x :: r := by simp [hc, hx]
  rw [commands, hline, hsplit]
  simp only [List.filterMap_cons, List.filterMap_nil, command, htake, hdrop, hexpand]

theorem sum_length_le {us vs : List Bytes} (h : List.Forall₂ (· <+: ·) us vs) :
    us.flatten.length ≤ vs.flatten.length ∧ (us.flatten.length = vs.flatten.length → us = vs) := by
  induction h with
  | nil => simp
  | @cons u v us vs huv _ ih =>
    have hle := huv.length_le
    simp only [List.flatten_cons, List.length_append]
    refine ⟨by omega, fun h => ?_⟩
    rw [huv.eq_of_length (by omega), ih.2 (by omega)]

theorem length_flatten_expand_le (letter : UInt8 → Bool) (ws : List Bytes) :
    (ws.map (expand ⟨letter, fun _ => []⟩)).flatten.length ≤ ws.flatten.length ∧
    ((ws.map (expand ⟨letter, fun _ => []⟩)).flatten.length = ws.flatten.length →
      ∀ w ∈ ws, hasSpecifier letter w = false) := by
  induction ws with
  | nil => simp
  | cons w ws ih =>
    simp only [List.map_cons, List.flatten_cons, List.length_append, List.forall_mem_cons]
    rcases length_expand_le letter w with h | h
    · exact ⟨by omega, fun _ => by omega⟩
    · rw [expand_of_hasSpecifier (s := ⟨letter, fun _ => []⟩) h]
      exact ⟨by omega, fun h' => ⟨h, ih.2 (by omega)⟩⟩

theorem flatten_tokens_joinWords {p : UInt8 → Bool} (hsp : p SPACE) (us : List Bytes) :
    (tokens p (joinWords us)).flatten = us.flatten.filter fun c => !p c := by
  rw [flatten_tokens]
  induction us with
  | nil => rfl
  | cons u us ih =>
    by_cases h : us = []
    · simp [h]
    · simp [joinWords_cons_of_ne h, hsp, ih]

/-- **Texts on a command line**: a line of a prefix character, a path and texts `us` denotes, whatever
the specifiers stand for, the one command of this path and the arguments `vs`, of which the texts are
initial parts, only if they are the whole arguments and all are plain words. -/
theorem commands_joinWords_iff {letter : UInt8 → Bool} {c : UInt8} {path : Bytes} {us vs : List Bytes}
    (hc : isPrefix c) (hpath : path ≠ []) (hne : ∀ v ∈ vs, v ≠ [])
    (huv : List.Forall₂ (· <+: ·) us vs) :
    (∀ value, commands ⟨letter, value⟩ (c :: joinWords (path :: us)) =
      [{ prefixes := [c], argv := path :: vs }]) ↔
    us = vs ∧ (∀ x ∈ path.head?, isPrefix x = false) ∧ (∀ v ∈ path :: vs, Word letter v) ∧
      ∀ v ∈ vs, v ≠ [SEMICOLON] := by
  refine ⟨fun h => ?_, ?_⟩
  · have h0 := commands_eq_singleton (h fun _ => [])
    have hjoin : c :: joinWords (path :: us) = joinWords ((c :: path) :: us) := by
      by_cases hu : us = []
      · simp [hu]
      · simp [joinWords_cons_of_ne hu]
    rw [hjoin] at h0
    set g := (tokens isWhitespace (joinWords ((c :: path) :: us))).filter (· ≠ [SEMICOLON]) with hg
    have hgsub : g.flatten.length ≤ (((c :: path) :: us).flatten.filter fun c => !isWhitespace c).length := by
      rw [← flatten_tokens_joinWords (by decide)]
      exact (List.Sublist.flatten (List.filter_sublist)).length_le
    have hfilter := List.length_filter_le (fun c => !isWhitespace c) ((c :: path) :: us).flatten
    obtain ⟨husvs, hus⟩ := sum_length_le huv
    obtain ⟨w, ws, hw⟩ : ∃ w ws, g = w :: ws := by
      rcases hgw : g with - | ⟨w, ws⟩
      · rw [hgw] at h0; cases h0
      · exact ⟨w, ws, rfl⟩
    rw [hw] at h0 hgsub
    simp only [command, Option.some.injEq, Command.mk.injEq] at h0
    obtain ⟨htake, hargv⟩ := h0
    have hsplit : w = c :: w.dropWhile isPrefix := by
      conv_lhs => rw [← List.takeWhile_append_dropWhile (p := isPrefix) (l := w), htake]
      rfl
    obtain ⟨hexpand, hnone⟩ := length_flatten_expand_le letter (w.dropWhile isPrefix :: ws)
    rw [hargv] at hexpand hnone
    -- The words of the command come of the texts, and the texts are no longer than the arguments.
    have hlen : (w :: ws).flatten.length = 1 + (w.dropWhile isPrefix :: ws).flatten.length := by
      rw [hsplit, List.flatten_cons, List.cons_append, List.length_cons, ← hsplit, List.flatten_cons,
        Nat.add_comm]
    simp only [List.flatten_cons, List.cons_append, List.length_append] at hlen hgsub hexpand hnone
    simp only [List.flatten_cons, List.cons_append, List.length_cons, List.length_append] at hfilter
    have hplain := hnone (by omega)
    have hargv : w.dropWhile isPrefix :: ws = path :: vs := by
      rw [← hargv, List.map_congr_left fun v hv => expand_of_hasSpecifier
        (s := ⟨letter, fun _ => []⟩) (hplain v hv), List.map_id']
    have hwhite : ∀ x ∈ c :: (path ++ us.flatten), (!isWhitespace x) = true := by
      refine List.length_filter_eq_length_iff.1 (Nat.le_antisymm (by simpa using hfilter) ?_)
      simp only [List.length_cons, List.length_append]
      omega
    obtain rfl : us = vs := hus (by omega)
    rw [hargv] at hplain
    obtain ⟨hw0, rfl⟩ := List.cons.inj hargv
    refine ⟨rfl, fun x hx => ?_, fun v hv => ⟨fun x hx => ?_, hplain v hv⟩, fun v hv hsemi => ?_⟩
    · rw [← hw0] at hx
      have := List.head?_dropWhile_not isPrefix w
      rwa [Option.mem_def.1 hx] at this
    · have hmem : x ∈ path ++ ws.flatten := by
        rw [← List.flatten_cons]
        exact List.mem_flatten.2 ⟨v, hv, hx⟩
      simpa using hwhite x (List.mem_cons_of_mem _ hmem)
    · have hmem : v ∈ g := hw ▸ List.mem_cons_of_mem w hv
      simpa [hsemi] using List.of_mem_filter hmem
  · rintro ⟨rfl, hhead, hwords, hsemi⟩ value
    refine commands_joinWords hc hhead hwords (fun v hv => ?_) hsemi
    rcases List.mem_cons.1 hv with rfl | hv
    · exact hpath
    · exact hne v hv

end ExecLine
