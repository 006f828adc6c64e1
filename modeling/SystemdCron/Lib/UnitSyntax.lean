import SystemdCron.Lib.Assignments

/-!
# Files of settings

The rule by which a service manager reads a unit: lines, of which comments are dropped and those joined that
go on in the next; headers of sections; and settings, without the white space around their names and values.
Which octets end a line beside the newline, and which lines are refused, is left open (`Manager`). `read_iff` is
the law for a writer that puts its values on lines as they are: the text gives the settings back if and only if
each value is one that the rule leaves as it is, and no line is refused. `read_once` is what a writer has that
does not know this of all of its values: a setting between closed lines is read once, if anything is.
-/

namespace UnitSyntax

open Bytes ExecLine Assignments

/-- A service manager: the octets that end a line for it, and the lines that are valid, as those in its
encoding. -/
structure Manager where
  isEnd : UInt8 → Bool
  newline : isEnd LF
  printable : ∀ c, 32 ≤ c → c < 127 → isEnd c = false
  valid : Bytes → Bool

def LBRACKET : UInt8 := 91
def RBRACKET : UInt8 := 93

/-- A text without the white space at its ends. -/
def strip (s : Bytes) : Bytes := (s.dropWhile isWhitespace).rdropWhile isWhitespace

def isComment (l : Bytes) : Bool := l.head? == some HASH || l.head? == some SEMICOLON

/-- The lines without the comments, each joined with the next if it goes on there: what came before is
pending. -/
def logical : Option Bytes → List Bytes → List Bytes
  | pending, [] => pending.toList
  | pending, l :: ls =>
    let l := l.dropWhile isWhitespace
    if isComment l then logical pending ls
    else
      let l := pending.getD [] ++ l
      if continued l then logical (some (l.dropLast ++ [SPACE])) ls else l :: logical none ls

/-- A setting, and the section it is in. -/
structure Setting where
  part : Bytes
  key : Bytes
  value : Bytes
  deriving DecidableEq, Repr

/-- The setting on a line below a header: a line that has none is dropped, and so is one without a name, or above
the first header. -/
def settingOf (part : Option Bytes) (l : Bytes) : List Setting :=
  match part, splitFirst EQUALS l with
  | some part, some (key, value) =>
    if strip key = [] then [] else [{ part, key := strip key, value := strip value }]
  | _, _ => []

/-- The settings on some lines, below the header of a section or below none. A header that is not closed makes
the whole text invalid. -/
def parse : Option Bytes → List Bytes → Option (List Setting)
  | _, [] => some []
  | part, l :: ls =>
    let l := strip l
    if l.head? = some LBRACKET then
      if l.getLast? = some RBRACKET then parse (some (l.drop 1).dropLast) ls else none
    else (parse part ls).map (settingOf part l ++ ·)

/-- A line that is not refused. -/
def Manager.takes (e : Manager) (l : Bytes) : Bool := strip l == [] || e.valid (strip l)

/-- What is read from a text, nothing if one of its lines is refused. -/
def read (e : Manager) (text : Bytes) : Option (List Setting) :=
  let ls := logical none (text.splitOnP e.isEnd)
  if ls.all e.takes then parse none ls else none

/-! ### Writing -/

/-- What is written on a line. -/
inductive Entry where
  | header (part : Bytes)
  | setting (key value : Bytes)
  | blank
  deriving DecidableEq, Repr

namespace Entry

def line : Entry → Bytes
  | header part => LBRACKET :: part ++ [RBRACKET]
  | setting key value => word (key, value)
  | blank => []

/-- The names of sections and settings are words. -/
def Named : Entry → Prop
  | header part => ∀ c ∈ part, isAlnum c
  | setting key _ => key ≠ [] ∧ ∀ c ∈ key, isAlnum c
  | blank => True

end Entry

/-- The settings of some entries, below the header of a section. -/
def settings : Bytes → List Entry → List Setting
  | _, [] => []
  | _, .header part :: is => settings part is
  | part, .setting key value :: is => { part, key, value } :: settings part is
  | part, .blank :: is => settings part is

/-- What some lines spell, below the header of a section, each taken by itself and as it stands. -/
def spelled : Bytes → List Bytes → List Setting
  | _, [] => []
  | part, l :: ls =>
    if l.head? = some LBRACKET then spelled (l.drop 1).dropLast ls
    else
      match splitFirst EQUALS l with
      | none => spelled part ls
      | some (key, value) => { part, key, value } :: spelled part ls

/-- The text of some entries. -/
def text (is : List Entry) : Bytes := is.flatMap fun i => i.line ++ [LF]

/-- A value that is read as it was written. -/
structure Tame (e : Manager) (v : Bytes) : Prop where
  noEnd : ∀ c ∈ v, e.isEnd c = false
  closed : continued v = false
  stripped : strip v = v

/-- The value of an entry. -/
def Entry.value : Entry → Bytes
  | setting _ value => value
  | _ => []

/-! ### White space -/

theorem rdropWhile_cons_of_not {p : UInt8 → Bool} {c : UInt8} (h : p c = false) (s : Bytes) :
    (c :: s).rdropWhile p = c :: s.rdropWhile p := by
  rw [List.rdropWhile, List.rdropWhile, List.reverse_cons, List.dropWhile_append]
  split
  next hnil =>
    rw [List.isEmpty_iff.1 hnil, List.dropWhile_cons, h]
    rfl
  · rw [List.reverse_append]
    rfl

theorem rdropWhile_append_cons {p : UInt8 → Bool} (a : Bytes) {c : UInt8} (h : p c = false) (s : Bytes) :
    (a ++ c :: s).rdropWhile p = a ++ c :: s.rdropWhile p := by
  rw [← rdropWhile_cons_of_not h, List.rdropWhile, List.rdropWhile, List.reverse_append, List.dropWhile_append]
  split
  next hnil =>
    have := List.isEmpty_iff.1 hnil
    rw [List.dropWhile_eq_nil_iff] at this
    exact absurd (this c (by simp)) (by rw [h]; decide)
  · rw [List.reverse_append, List.reverse_reverse]

/-- White space is removed from the two ends in any order. -/
theorem dropWhile_rdropWhile (p : UInt8 → Bool) (s : Bytes) :
    (s.rdropWhile p).dropWhile p = (s.dropWhile p).rdropWhile p := by
  induction s with
  | nil => rfl
  | cons c s ih =>
    by_cases hc : p c
    · rw [List.dropWhile_cons, if_pos hc, ← ih]
      by_cases hs : s.rdropWhile p = []
      · have hall : ∀ x ∈ c :: s, p x := List.forall_mem_cons.2 ⟨hc, List.rdropWhile_eq_nil_iff.1 hs⟩
        rw [List.rdropWhile_eq_nil_iff.2 hall, hs]
      · rw [List.rdropWhile, List.reverse_cons, List.dropWhile_append, if_neg, List.reverse_append,
          List.reverse_singleton, List.singleton_append, List.dropWhile_cons, if_pos hc]
        · rfl
        · rw [List.isEmpty_iff]
          exact fun h => hs (by rw [List.rdropWhile, h]; rfl)
    · have hc := eq_false_of_ne_true hc
      rw [rdropWhile_cons_of_not hc, List.dropWhile_cons, List.dropWhile_cons, hc,
        if_neg Bool.false_ne_true, if_neg Bool.false_ne_true, rdropWhile_cons_of_not hc]

theorem strip_rdropWhile (s : Bytes) : strip (s.rdropWhile isWhitespace) = strip s := by
  rw [strip, dropWhile_rdropWhile, List.rdropWhile_idempotent, strip]

theorem dropWhile_of_head {p : UInt8 → Bool} {s : Bytes} (h : ∀ c ∈ s.head?, p c = false) :
    s.dropWhile p = s := by
  cases s with
  | nil => rfl
  | cons c s => rw [List.dropWhile_cons, h c rfl, if_neg Bool.false_ne_true]

theorem strip_isInfix (s : Bytes) : strip s <:+: s :=
  (List.rdropWhile_prefix ..).isInfix.trans (List.dropWhile_suffix _).isInfix

theorem strip_head {s : Bytes} {c : UInt8} (h : (strip s).head? = some c) : isWhitespace c = false := by
  have hpre : strip s <+: s.dropWhile isWhitespace := List.rdropWhile_prefix ..
  obtain ⟨t, ht⟩ := List.head?_eq_some_iff.1 h
  obtain ⟨r, hr⟩ := hpre
  rw [ht, List.cons_append] at hr
  have hne : s.dropWhile isWhitespace ≠ [] := by rw [← hr]; exact List.cons_ne_nil _ _
  have hnot := List.head_dropWhile_not isWhitespace hne
  simpa only [← hr, List.head_cons] using hnot

theorem strip_eq_iff {v : Bytes} : strip v = v ↔
    (∀ c ∈ v.head?, isWhitespace c = false) ∧ ∀ c ∈ v.getLast?, isWhitespace c = false := by
  have hlast : v.rdropWhile isWhitespace = v ↔ ∀ c ∈ v.getLast?, isWhitespace c = false := by
    rw [List.rdropWhile_eq_self_iff]
    constructor
    · rintro h c hc
      obtain ⟨hne, rfl⟩ := List.mem_getLast?_eq_getLast hc
      exact eq_false_of_ne_true (h hne)
    · intro h hne
      rw [h _ (List.getLast_mem_getLast? hne)]
      exact Bool.false_ne_true
  constructor
  · intro h
    have hhead : ∀ c ∈ v.head?, isWhitespace c = false := fun c hc => strip_head (by rw [h]; exact hc)
    refine ⟨hhead, hlast.1 ?_⟩
    rwa [strip, dropWhile_of_head hhead] at h
  · rintro ⟨hhead, h⟩
    rw [strip, dropWhile_of_head hhead, hlast.2 h]

/-- Words have no white space, and nothing that the rule has a use for. -/
theorem isAlnum_spec {c : UInt8} (h : isAlnum c) : isWhitespace c = false ∧ c ≠ BACKSLASH ∧ c ≠ HASH ∧
    c ≠ SEMICOLON ∧ c ≠ LBRACKET ∧ c ≠ EQUALS ∧ 32 ≤ c ∧ c < 127 := by
  revert h
  revert c
  decide +kernel

theorem strip_of_alnum {s : Bytes} (h : ∀ c ∈ s, isAlnum c) : strip s = s := by
  rw [strip, dropWhile_of_head fun c hc => (isAlnum_spec (h c (List.mem_of_mem_head? hc))).1,
    List.rdropWhile_eq_self_iff]
  intro hne
  rw [(isAlnum_spec (h _ (List.getLast_mem hne))).1]
  exact Bool.false_ne_true

/-! ### Lines that go on -/

theorem continued_cons_of_ne {c : UInt8} (h : c ≠ BACKSLASH) (s : Bytes) :
    continued (c :: s) = continued s := by
  cases s with
  | nil => exact beq_eq_false_iff_ne.2 h
  | cons d r => rw [continued, if_neg h]

theorem continued_append_of_notMem {k : Bytes} (h : BACKSLASH ∉ k) (s : Bytes) :
    continued (k ++ s) = continued s := by
  induction k with
  | nil => rfl
  | cons c k ih =>
    rw [List.mem_cons, not_or] at h
    rw [List.cons_append, continued_cons_of_ne (Ne.symm h.1), ih h.2]

theorem exists_of_continued {s : Bytes} (h : continued s) : ∃ w, s = w ++ [BACKSLASH] := by
  fun_induction continued s with
  | case1 => cases h
  | case2 c => exact ⟨[], by rw [beq_iff_eq.1 h]; rfl⟩
  | case3 d r ih =>
    obtain ⟨w, rfl⟩ := ih h
    exact ⟨BACKSLASH :: d :: w, rfl⟩
  | case4 c d r hc ih =>
    obtain ⟨w, hw⟩ := ih h
    exact ⟨c :: w, by rw [hw]; rfl⟩

theorem continued_concat_of_ne {c : UInt8} (h : c ≠ BACKSLASH) (s : Bytes) : continued (s ++ [c]) = false := by
  refine Bool.eq_false_iff.2 fun hc => ?_
  obtain ⟨w, hw⟩ := exists_of_continued hc
  exact h (List.singleton_inj.1 (List.append_inj' hw rfl).2)

theorem continued_append_cons_of_ne {c : UInt8} (h : c ≠ BACKSLASH) (s l : Bytes) :
    continued (s ++ c :: l) = continued l := by
  fun_induction continued s with
  | case1 => exact continued_cons_of_ne h l
  | case2 d =>
    by_cases hd : d = BACKSLASH
    · rw [hd, List.singleton_append, continued, if_pos rfl]
    · rw [List.singleton_append, continued_cons_of_ne hd, continued_cons_of_ne h]
  | case3 d r ih => rw [List.cons_append, List.cons_append, continued, if_pos rfl, ih]
  | case4 d e r hd ih => rw [List.cons_append, continued_cons_of_ne hd, ih]

/-- A line that begins with an octet that the rule has no use for. -/
def Begins (l : Bytes) : Prop :=
  ∀ c ∈ l.head?, isWhitespace c = false ∧ c ≠ BACKSLASH ∧ c ≠ HASH ∧ c ≠ SEMICOLON

theorem Begins.append {l : Bytes} (h : Begins l) (hne : l ≠ []) (s : Bytes) : Begins (l ++ s) := by
  cases l with
  | nil => exact absurd rfl hne
  | cons c l => exact h

theorem Begins.dropWhile {l : Bytes} (h : Begins l) : l.dropWhile isWhitespace = l :=
  dropWhile_of_head fun c hc => (h c hc).1

theorem Begins.isComment {l : Bytes} (h : Begins l) : isComment l = false := by
  cases l with
  | nil => rfl
  | cons c l =>
    obtain ⟨-, -, hhash, hsemi⟩ := h c rfl
    simp [UnitSyntax.isComment, hhash, hsemi]

theorem logical_cons {l : Bytes} (h : Begins l) (pending : Option Bytes) (ls : List Bytes) :
    logical pending (l :: ls) =
      if continued (pending.getD [] ++ l) then
        logical (some ((pending.getD [] ++ l).dropLast ++ [SPACE])) ls
      else (pending.getD [] ++ l) :: logical none ls := by
  rw [logical]
  dsimp only
  rw [h.dropWhile, h.isComment, if_neg Bool.false_ne_true]

theorem logical_closed {l : Bytes} (h : Begins l) (hc : continued l = false) (ls : List Bytes) :
    logical none (l :: ls) = l :: logical none ls := by
  rw [logical_cons h, Option.getD_none, List.nil_append, hc, if_neg Bool.false_ne_true]

/-- What is pending comes first on the line it is joined with. -/
theorem logical_some {ls : List Bytes} (hls : ∀ l ∈ ls, Begins l) (p : Bytes) :
    ∃ q rest, logical (some (p ++ [SPACE])) ls = (p ++ SPACE :: q) :: rest ∧ Begins q := by
  induction ls generalizing p with
  | nil => exact ⟨[], [], rfl, fun c hc => by cases hc⟩
  | cons l ls ih =>
    have hl := hls l List.mem_cons_self
    rw [logical_cons hl, Option.getD_some]
    split
    next hc =>
      obtain ⟨w, hw⟩ := exists_of_continued hc
      have hne : l ≠ [] := by
        rintro rfl
        rw [List.append_nil, continued_concat_of_ne (by decide)] at hc
        cases hc
      -- The line that goes on has more than its last octet.
      obtain ⟨m, d, rfl⟩ := (List.eq_nil_or_concat' l).resolve_left hne
      obtain ⟨hwm, hd⟩ := List.append_inj' ((List.append_assoc ..).trans hw) rfl
      obtain rfl := List.singleton_inj.1 hd
      have hm : m ≠ [] := by
        rintro rfl
        exact (hl BACKSLASH rfl).2.1 rfl
      obtain ⟨q, rest, hq, -⟩ := ih (fun l hl => hls l (List.mem_cons_of_mem _ hl)) w
      refine ⟨m ++ SPACE :: q, rest, ?_, ?_⟩
      · rw [hw, List.dropLast_concat, hq, ← hwm]
        simp
      · cases m with
        | nil => exact absurd rfl hm
        | cons c m => exact hl
    · exact ⟨l, logical none ls, by simp, hl⟩

/-! ### Entries -/

namespace Entry

theorem begins {i : Entry} (h : i.Named) : Begins i.line := by
  cases i with
  | header part =>
    rintro c hc
    obtain rfl := Option.some.inj hc
    exact ⟨by decide, by decide, by decide, by decide⟩
  | setting key value =>
    obtain ⟨hne, hkey⟩ := h
    cases key with
    | nil => exact absurd rfl hne
    | cons c key =>
      rintro c' hc
      obtain rfl := Option.some.inj hc
      obtain ⟨h1, h2, h3, h4, -⟩ := isAlnum_spec (hkey c List.mem_cons_self)
      exact ⟨h1, h2, h3, h4⟩
  | blank => rintro c hc; cases hc

theorem continued_line {i : Entry} (h : i.Named) : continued i.line = continued i.value := by
  cases i with
  | header part => exact continued_concat_of_ne (by decide) _
  | setting key value =>
    have hkey : BACKSLASH ∉ key := fun hc => (isAlnum_spec (h.2 _ hc)).2.1 rfl
    change continued (key ++ EQUALS :: value) = _
    rw [continued_append_of_notMem hkey, continued_cons_of_ne (by decide)]
    rfl
  | blank => rfl

theorem noEnd_line (e : Manager) {i : Entry} (h : i.Named) (hv : ∀ c ∈ i.value, e.isEnd c = false) :
    ∀ c ∈ i.line, e.isEnd c = false := by
  have halnum {c : UInt8} (hc : isAlnum c) : e.isEnd c = false := by
    obtain ⟨-, -, -, -, -, -, h1, h2⟩ := isAlnum_spec hc
    exact e.printable c h1 h2
  cases i with
  | header part =>
    intro c hc
    rcases List.mem_cons.1 hc with rfl | hc
    · exact e.printable _ (by decide) (by decide)
    · rcases List.mem_append.1 hc with hc | hc
      · exact halnum (h c hc)
      · rw [List.mem_singleton.1 hc]
        exact e.printable _ (by decide) (by decide)
  | setting key value =>
    intro c hc
    rcases List.mem_append.1 hc with hc | hc
    · exact halnum (h.2 c hc)
    · rcases List.mem_cons.1 hc with rfl | hc
      · exact e.printable _ (by decide) (by decide)
      · exact hv c hc
  | blank => intro c hc; cases hc

end Entry

section
variable {part : Bytes} {ls : List Bytes}

theorem parse_blank (p : Option Bytes) : parse p ([] :: ls) = parse p ls := by
  have hnone : settingOf p [] = [] := by cases p <;> rfl
  rw [parse]
  change (parse p ls).map (settingOf p [] ++ ·) = _
  rw [hnone]
  exact Option.map_id' (x := parse p ls)

theorem strip_header (part : Bytes) : strip (Entry.header part).line = (Entry.header part).line := by
  have hhead : ∀ c ∈ (Entry.header part).line.head?, isWhitespace c = false := fun c hc => by
    rw [← Option.some.inj hc]
    decide
  rw [strip, dropWhile_of_head hhead]
  exact List.rdropWhile_concat_neg _ _ _ (by decide)

theorem parse_header {p : Option Bytes} :
    parse p ((Entry.header part).line :: ls) = parse (some part) ls := by
  rw [parse, strip_header]
  have hlast : (Entry.header part).line.getLast? = some RBRACKET :=
    List.getLast?_concat (l := LBRACKET :: part)
  rw [if_pos (show (Entry.header part).line.head? = some LBRACKET from rfl), if_pos hlast]
  refine congrArg (fun p => parse (some p) ls) ?_
  change (part ++ [RBRACKET]).dropLast = part
  exact List.dropLast_concat

/-- A setting is no header. -/
theorem head_word_ne {key : Bytes} (hne : key ≠ []) (hkey : ∀ c ∈ key, isAlnum c) (value : Bytes) :
    (word (key, value)).head? ≠ some LBRACKET := by
  cases key with
  | nil => exact absurd rfl hne
  | cons c key => exact fun hc => (isAlnum_spec (hkey c List.mem_cons_self)).2.2.2.2.1 (Option.some.inj hc)

/-- The white space at the end of a setting is that of its value. -/
theorem strip_word {key : Bytes} (value : Bytes) (hne : key ≠ []) (hkey : ∀ c ∈ key, isAlnum c) :
    strip (word (key, value)) = word (key, value.rdropWhile isWhitespace) := by
  have hbegins : Begins (word (key, value)) := Entry.begins (i := .setting key value) ⟨hne, hkey⟩
  rw [strip, hbegins.dropWhile]
  exact rdropWhile_append_cons key (by decide) value

theorem parse_setting {key : Bytes} (value : Bytes) (hne : key ≠ []) (hkey : ∀ c ∈ key, isAlnum c) :
    parse (some part) (word (key, value) :: ls) =
      (parse (some part) ls).map ({ part, key, value := strip value } :: ·) := by
  have hsplit : splitFirst EQUALS (word (key, value.rdropWhile isWhitespace)) =
      some (key, value.rdropWhile isWhitespace) :=
    splitFirst_word fun hc => (isAlnum_spec (hkey _ hc)).2.2.2.2.2.1 rfl
  have hsetting : settingOf (some part) (word (key, value.rdropWhile isWhitespace)) =
      [{ part, key, value := strip value }] := by
    unfold settingOf
    rw [hsplit]
    dsimp only
    rw [strip_of_alnum hkey, strip_rdropWhile, if_neg hne]
  rw [parse, strip_word value hne hkey, if_neg (head_word_ne hne hkey _), hsetting]
  rfl

/-- What entries spell are their settings. -/
theorem spelled_map_line {is : List Entry} (h : ∀ i ∈ is, i.Named) (part : Bytes) :
    spelled part (is.map Entry.line) = settings part is := by
  induction is generalizing part with
  | nil => rfl
  | cons i is ih =>
    have his : ∀ i ∈ is, i.Named := fun i hi => h i (List.mem_cons_of_mem _ hi)
    rw [List.map_cons, spelled]
    cases i with
    | header part' =>
      have hpart : (part' ++ [RBRACKET]).dropLast = part' := List.dropLast_concat
      rw [if_pos (show (Entry.header part').line.head? = some LBRACKET from rfl), settings, ← ih his part']
      exact congrArg (spelled · (is.map Entry.line)) hpart
    | setting key value =>
      obtain ⟨hne, hkey⟩ := h _ List.mem_cons_self
      rw [show (Entry.setting key value).line = word (key, value) from rfl, if_neg (head_word_ne hne hkey value),
        splitFirst_word fun hc => (isAlnum_spec (hkey _ hc)).2.2.2.2.2.1 rfl]
      exact congrArg _ (ih his part)
    | blank => exact ih his part

end

/-! ### What is read is written -/

theorem mem_logical {pending : Option Bytes} {ls : List Bytes} {l : Bytes} {c : UInt8}
    (hl : l ∈ logical pending ls) (hc : c ∈ l) :
    c = SPACE ∨ c ∈ pending.getD [] ∨ ∃ l' ∈ ls, c ∈ l' := by
  induction ls generalizing pending with
  | nil =>
    obtain rfl := Option.mem_toList.1 hl
    exact .inr (.inl hc)
  | cons m ls ih =>
    have hm {c : UInt8} (hc : c ∈ pending.getD [] ++ m.dropWhile isWhitespace) :
        c = SPACE ∨ c ∈ pending.getD [] ∨ ∃ l' ∈ m :: ls, c ∈ l' := by
      rcases List.mem_append.1 hc with hc | hc
      · exact .inr (.inl hc)
      · exact .inr (.inr ⟨m, List.mem_cons_self, (List.dropWhile_sublist _).subset hc⟩)
    have hls : (∃ l' ∈ ls, c ∈ l') → ∃ l' ∈ m :: ls, c ∈ l' := fun ⟨l', hl', hc⟩ =>
      ⟨l', List.mem_cons_of_mem _ hl', hc⟩
    rw [logical] at hl
    dsimp only at hl
    split at hl
    · exact (ih hl).imp_right (.imp_right hls)
    · split at hl
      · rcases ih hl with h | h | h
        · exact .inl h
        · rcases List.mem_append.1 h with h | h
          · exact hm ((List.dropLast_sublist _).subset h)
          · exact .inl (List.mem_singleton.1 h)
        · exact .inr (.inr (hls h))
      · rcases List.mem_cons.1 hl with rfl | hl
        · exact hm hc
        · rcases ih hl with h | h | h
          · exact .inl h
          · cases h
          · exact .inr (.inr (hls h))

theorem mem_parse {part : Option Bytes} {ls : List Bytes} {ss : List Setting} (h : parse part ls = some ss)
    {s : Setting} (hs : s ∈ ss) {c : UInt8} (hc : c ∈ s.value) : ∃ l ∈ ls, c ∈ l := by
  induction ls generalizing part ss with
  | nil => cases h; cases hs
  | cons l ls ih =>
    have hls : (∃ l' ∈ ls, c ∈ l') → ∃ l' ∈ l :: ls, c ∈ l' := fun ⟨l', hl', hc⟩ =>
      ⟨l', List.mem_cons_of_mem _ hl', hc⟩
    rw [parse] at h
    split at h
    · split at h
      · exact hls (ih h hs)
      · cases h
    · obtain ⟨ss', hss', rfl⟩ := Option.map_eq_some_iff.1 h
      rcases List.mem_append.1 hs with hs | hs
      · refine ⟨l, List.mem_cons_self, ?_⟩
        unfold settingOf at hs
        split at hs
        next value heq hs =>
          split at hs
          · cases hs
          obtain rfl := List.mem_singleton.1 hs
          obtain ⟨hl, -⟩ := splitFirst_eq_some.1 heq
          have : c ∈ value := (strip_isInfix value).subset hc
          exact (strip_isInfix l).subset (hl ▸ List.mem_append_right _ (List.mem_cons_of_mem _ this))
        next => cases hs
      · exact hls (ih hss' hs)

theorem notEnd_of_mem_splitOnP {p : UInt8 → Bool} {s l : Bytes} (h : l ∈ s.splitOnP p) :
    ∀ c ∈ l, p c = false := by
  by_cases hl : l = []
  · rintro c hc
    rw [hl] at hc
    cases hc
  · exact no_delim_of_mem_tokens (List.mem_filter.2 ⟨h, decide_eq_true hl⟩)

/-- What is read is what the lines say, none of which is refused. -/
theorem read_eq_some_iff {e : Manager} {s : Bytes} {ss : List Setting} : read e s = some ss ↔
    (∀ l ∈ logical none (s.splitOnP e.isEnd), e.takes l) ∧
      parse none (logical none (s.splitOnP e.isEnd)) = some ss := by
  rw [read, Option.ite_none_right_eq_some, List.all_eq_true]

/-- No octet that ends a line is read. -/
theorem read_noEnd {e : Manager} {s : Bytes} {ss : List Setting} (h : read e s = some ss) :
    ∀ x ∈ ss, ∀ c ∈ x.value, e.isEnd c = false := by
  intro x hx c hc
  obtain ⟨l, hl, hcl⟩ := mem_parse (read_eq_some_iff.1 h).2 hx hc
  rcases mem_logical hl hcl with rfl | hpending | ⟨l', hl', hc'⟩
  · exact e.printable _ (by decide) (by decide)
  · cases hpending
  · exact notEnd_of_mem_splitOnP hl' c hc'

/-! ### The law -/

theorem splitOnP_text (e : Manager) {is : List Entry} (h : ∀ i ∈ is, ∀ c ∈ i.line, e.isEnd c = false) :
    (text is).splitOnP e.isEnd = is.map Entry.line ++ [[]] := by
  induction is with
  | nil => rfl
  | cons i is ih =>
    rw [List.forall_mem_cons] at h
    rw [show text (i :: is) = i.line ++ LF :: text is by simp [text],
      List.splitOnP_append_cons _ _ e.newline, ih h.2, List.map_cons, List.cons_append]
    rw [List.splitOnP_eq_singleton fun c hc => h.1 c hc]
    rfl

/-- The rule does not give back a backslash that a line goes on with. -/
theorem strip_ne {w q : Bytes} (hq : Begins q) : strip (w ++ SPACE :: q) ≠ w ++ [BACKSLASH] := by
  intro h
  cases w with
  | nil =>
    have hdrop : (SPACE :: q).dropWhile isWhitespace = q := by
      rw [List.dropWhile_cons, if_pos (by decide), hq.dropWhile]
    have hpre : [BACKSLASH] <+: q := by
      rw [List.nil_append, List.nil_append, strip, hdrop] at h
      exact h ▸ List.rdropWhile_prefix ..
    obtain ⟨r, rfl⟩ := hpre
    exact (hq BACKSLASH rfl).2.1 rfl
  | cons c w =>
    have hc : isWhitespace c = false := strip_head (by rw [h]; rfl)
    have hpre : (c :: w) ++ [BACKSLASH] <+: (c :: w) ++ SPACE :: q := by
      rw [← h, strip, dropWhile_of_head fun d hd => by rw [← Option.some.inj hd]; exact hc]
      exact List.rdropWhile_prefix ..
    rw [List.prefix_append_right_inj, List.cons_prefix_cons] at hpre
    exact absurd hpre.1 (by decide)

theorem begins_of_named {is : List Entry} (h : ∀ i ∈ is, i.Named) :
    ∀ l ∈ is.map Entry.line ++ [[]], Begins l := by
  intro l hl
  rcases List.mem_append.1 hl with hl | hl
  · obtain ⟨i, hi, rfl⟩ := List.mem_map.1 hl
    exact Entry.begins (h i hi)
  · rw [List.mem_singleton.1 hl]
    rintro c hc
    cases hc

/-- The lines of some entries give their settings exactly if none goes on, and none has white space at an end of
its value. -/
theorem parse_logical_iff {is : List Entry} (h : ∀ i ∈ is, i.Named) (part : Bytes) :
    parse (some part) (logical none (is.map Entry.line ++ [[]])) = some (settings part is) ↔
      ∀ i ∈ is, continued i.value = false ∧ strip i.value = i.value := by
  induction is generalizing part with
  | nil => exact iff_of_true rfl fun i hi => by cases hi
  | cons i is ih =>
    have hi := h i List.mem_cons_self
    have his : ∀ i ∈ is, i.Named := fun i hi => h i (List.mem_cons_of_mem _ hi)
    rw [List.map_cons, List.cons_append, List.forall_mem_cons]
    by_cases hopen : continued i.value
    · refine iff_of_false (fun hparse => ?_) fun hc => absurd hc.1.1 (by rw [hopen]; decide)
      cases i with
      | header part => cases hopen
      | blank => cases hopen
      | setting key value =>
        obtain ⟨w, rfl⟩ := exists_of_continued hopen
        obtain ⟨q, rest, hq, hbegins⟩ := logical_some (begins_of_named his) (key ++ EQUALS :: w)
        have hdrop : (word (key, w ++ [BACKSLASH])).dropLast = key ++ EQUALS :: w := by
          rw [show word (key, w ++ [BACKSLASH]) = (key ++ EQUALS :: w) ++ [BACKSLASH] by simp [word],
            List.dropLast_concat]
        rw [logical_cons (Entry.begins hi), Option.getD_none, List.nil_append, Entry.continued_line hi, hopen,
          if_pos rfl, Entry.line, hdrop, hq,
          show key ++ EQUALS :: w ++ SPACE :: q = word (key, w ++ SPACE :: q) by simp [word],
          parse_setting _ hi.1 hi.2, settings] at hparse
        obtain ⟨ss, -, hss⟩ := Option.map_eq_some_iff.1 hparse
        obtain ⟨hhead, -⟩ := List.cons_eq_cons.1 hss
        exact strip_ne hbegins (congrArg Setting.value hhead)
    · have hopen := eq_false_of_ne_true hopen
      rw [logical_closed (Entry.begins hi) ((Entry.continued_line hi).trans hopen)]
      cases i with
      | header part =>
        rw [parse_header, settings, ih his part, and_iff_right ⟨rfl, rfl⟩]
      | blank =>
        rw [show (Entry.blank).line = [] from rfl, parse_blank, settings, ih his part, and_iff_right ⟨rfl, rfl⟩]
      | setting key value =>
        rw [show (Entry.setting key value).line = word (key, value) from rfl, parse_setting _ hi.1 hi.2,
          settings, ← ih his part, Option.map_eq_some_iff]
        constructor
        · rintro ⟨ss, hss, heq⟩
          obtain ⟨hhead, rfl⟩ := List.cons_eq_cons.1 heq
          exact ⟨⟨hopen, congrArg Setting.value hhead⟩, hss⟩
        · rintro ⟨⟨-, hstrip⟩, hss⟩
          exact ⟨_, hss, by rw [show strip value = value from hstrip]⟩

theorem splitOnP_sections {e : Manager} {part : Bytes} {is : List Entry} (hpart : (Entry.header part).Named)
    (h : ∀ i ∈ is, i.Named) (hv : ∀ i ∈ is, ∀ c ∈ i.value, e.isEnd c = false) :
    (text (.header part :: is)).splitOnP e.isEnd = (Entry.header part).line :: (is.map Entry.line ++ [[]]) :=
  splitOnP_text e <| List.forall_mem_cons.2 ⟨Entry.noEnd_line e hpart fun _ hc => (List.not_mem_nil hc).elim,
    fun i hi => Entry.noEnd_line e (h i hi) (hv i hi)⟩

theorem parse_text {e : Manager} {part : Bytes} {is : List Entry} (hpart : (Entry.header part).Named)
    (h : ∀ i ∈ is, i.Named) (hv : ∀ i ∈ is, ∀ c ∈ i.value, e.isEnd c = false) :
    parse none (logical none ((text (.header part :: is)).splitOnP e.isEnd)) =
      parse (some part) (logical none (is.map Entry.line ++ [[]])) := by
  rw [splitOnP_sections hpart h hv, logical_closed (Entry.begins hpart) (Entry.continued_line hpart),
    parse_header]

/-- Lines that do not go on are as they are. -/
theorem logical_lines {is : List Entry} (h : ∀ i ∈ is, i.Named) (hc : ∀ i ∈ is, continued i.value = false) :
    logical none (is.map Entry.line ++ [[]]) = is.map Entry.line ++ [[]] := by
  induction is with
  | nil => rfl
  | cons i is ih =>
    rw [List.forall_mem_cons] at h hc
    rw [List.map_cons, List.cons_append, logical_closed (Entry.begins h.1) ((Entry.continued_line h.1).trans hc.1),
      ih h.2 hc.2]

/-- The line of a tame value is stripped. -/
theorem Entry.strip_line {i : Entry} (h : i.Named) (hv : strip i.value = i.value) : strip i.line = i.line := by
  cases i with
  | header part => exact strip_header part
  | setting key value =>
    have hlast : value.rdropWhile isWhitespace = value := by
      obtain ⟨-, hlast⟩ := strip_eq_iff.1 hv
      rw [List.rdropWhile_eq_self_iff]
      exact fun hne => by rw [hlast _ (List.getLast_mem_getLast? hne)]; exact Bool.false_ne_true
    exact (strip_word value h.1 h.2).trans (by rw [hlast]; rfl)
  | blank => rfl

theorem mem_settings {is : List Entry} {key value : Bytes} (h : .setting key value ∈ is) (part : Bytes) :
    ∃ s ∈ settings part is, s.value = value := by
  induction is generalizing part with
  | nil => cases h
  | cons i is ih =>
    rcases List.mem_cons.1 h with rfl | hmem
    · exact ⟨_, List.mem_cons_self, rfl⟩
    · cases i with
      | header part => exact ih hmem part
      | blank => exact ih hmem part
      | setting key' value' =>
        obtain ⟨s, hs, hv⟩ := ih hmem part
        exact ⟨s, List.mem_cons_of_mem _ hs, hv⟩

/-- **The text gives its settings back** exactly if each value is tame and each line valid. -/
theorem read_iff (e : Manager) {part : Bytes} {is : List Entry} (hpart : (Entry.header part).Named)
    (h : ∀ i ∈ is, i.Named) :
    read e (text (.header part :: is)) = some (settings part is) ↔
      (∀ i ∈ is, Tame e i.value) ∧ ∀ i ∈ Entry.header part :: is, i.line ≠ [] → e.valid i.line := by
  have hvalid (htame : ∀ i ∈ is, Tame e i.value) :
      (∀ l ∈ logical none ((text (.header part :: is)).splitOnP e.isEnd), e.takes l) ↔
        ∀ i ∈ Entry.header part :: is, i.line ≠ [] → e.valid i.line := by
    have hall : ∀ i ∈ Entry.header part :: is, i.Named ∧ strip i.value = i.value :=
      List.forall_mem_cons.2 ⟨⟨hpart, rfl⟩, fun i hi => ⟨h i hi, (htame i hi).stripped⟩⟩
    have hlogical : logical none ((text (.header part :: is)).splitOnP e.isEnd) =
        (Entry.header part :: is).map Entry.line ++ [[]] := by
      rw [splitOnP_sections hpart h fun i hi => (htame i hi).noEnd, ← List.cons_append, ← List.map_cons]
      exact logical_lines (fun i hi => (hall i hi).1) (List.forall_mem_cons.2 ⟨rfl, fun i hi => (htame i hi).closed⟩)
    rw [hlogical, List.forall_mem_append, and_iff_left (by simp [Manager.takes, strip]), List.forall_mem_map]
    refine forall₂_congr fun i hi => ?_
    rw [Manager.takes, Entry.strip_line (hall i hi).1 (hall i hi).2, Bool.or_eq_true, beq_iff_eq, or_iff_not_imp_left]
  rw [read_eq_some_iff]
  constructor
  · rintro ⟨htakes, hparse⟩
    have hv : ∀ i ∈ is, ∀ c ∈ i.value, e.isEnd c = false := by
      intro i hi c hc
      cases i with
      | header part => cases hc
      | blank => cases hc
      | setting key value =>
        obtain ⟨s, hs, rfl⟩ := mem_settings hi part
        exact read_noEnd (read_eq_some_iff.2 ⟨htakes, hparse⟩) s hs c hc
    rw [parse_text hpart h hv, parse_logical_iff h] at hparse
    have htame : ∀ i ∈ is, Tame e i.value := fun i hi => ⟨hv i hi, (hparse i hi).1, (hparse i hi).2⟩
    exact ⟨htame, (hvalid htame).1 htakes⟩
  · rintro ⟨htame, hlines⟩
    refine ⟨(hvalid htame).2 hlines, ?_⟩
    rw [parse_text hpart h fun i hi => (htame i hi).noEnd, parse_logical_iff h]
    exact fun i hi => ⟨(htame i hi).closed, (htame i hi).stripped⟩

/-! ### Tame values -/

/-- A text of printable octets, with no backslash and no blank at an end. -/
def isPlain (v : Bytes) : Bool :=
  v.all (fun c => 32 ≤ c && c < 127 && c != BACKSLASH) && v.head?.all (!isWhitespace ·) &&
    v.getLast?.all (!isWhitespace ·)

theorem tame_of_isPlain (e : Manager) {v : Bytes} (h : isPlain v) : Tame e v := by
  simp only [isPlain, Bool.and_eq_true, List.all_eq_true, Option.all_eq_true, Bool.not_eq_true', bne_iff_ne,
    decide_eq_true_eq] at h
  obtain ⟨⟨hall, hhead⟩, hlast⟩ := h
  exact ⟨fun c hc => e.printable c (hall c hc).1.1 (hall c hc).1.2,
    continued_eq_false fun hc => (hall _ hc).2 rfl, strip_eq_iff.2 ⟨hhead, hlast⟩⟩

theorem tame_nil (e : Manager) : Tame e [] := tame_of_isPlain e rfl

/-- A text of printable octets other than the blank and the backslash. -/
theorem tame_of_solid (e : Manager) {v : Bytes} (h : ∀ c ∈ v, 32 < c ∧ c < 127 ∧ c ≠ BACKSLASH) :
    Tame e v := by
  have hwhite {c : UInt8} (hc : 32 < c) : isWhitespace c = false := by
    have : ∀ c : UInt8, 32 < c → isWhitespace c = false := by decide +kernel
    exact this c hc
  exact ⟨fun c hc => e.printable c (UInt8.le_of_lt (h c hc).1) (h c hc).2.1,
    continued_eq_false fun hc => (h _ hc).2.2 rfl,
    strip_eq_iff.2 ⟨fun c hc => hwhite (h c (List.mem_of_mem_head? hc)).1,
      fun c hc => hwhite (h c (List.mem_of_mem_getLast? hc)).1⟩⟩

/-- A text that makes the value it ends tame. -/
structure TameEnd (e : Manager) (v : Bytes) : Prop where
  noEnd : ∀ c ∈ v, e.isEnd c = false
  closed : continued v = false
  last : ∃ w c, v = w ++ [c] ∧ isWhitespace c = false

theorem tame_append_iff {e : Manager} {w v : Bytes} (hne : w ≠ []) (hw : ∀ c ∈ w, e.isEnd c = false)
    (hhead : ∀ c ∈ w.head?, isWhitespace c = false) : Tame e (w ++ SPACE :: v) ↔ TameEnd e v := by
  have hhead' : ∀ c ∈ (w ++ SPACE :: v).head?, isWhitespace c = false := by
    rw [List.head?_append_of_ne_nil _ hne]
    exact hhead
  have hclosed : continued (w ++ SPACE :: v) = continued v := continued_append_cons_of_ne (by decide) w v
  constructor
  · intro h
    refine ⟨fun c hc => h.noEnd c (by simp [hc]), by rw [← hclosed]; exact h.closed, ?_⟩
    have hlast := (strip_eq_iff.1 h.stripped).2
    rcases List.eq_nil_or_concat' v with rfl | ⟨u, c, rfl⟩
    · have := hlast SPACE (List.getLast?_concat ..)
      exact absurd this (by decide)
    · refine ⟨u, c, rfl, hlast c ?_⟩
      rw [show w ++ SPACE :: (u ++ [c]) = (w ++ SPACE :: u) ++ [c] by simp]
      exact List.getLast?_concat ..
  · intro h
    obtain ⟨u, c, rfl, hc⟩ := h.last
    refine ⟨?_, hclosed.trans h.closed, strip_eq_iff.2 ⟨hhead', ?_⟩⟩
    · intro d hd
      rcases List.mem_append.1 hd with hd | hd
      · exact hw d hd
      · rcases List.mem_cons.1 hd with rfl | hd
        · exact e.printable _ (by decide) (by decide)
        · exact h.noEnd d hd
    · intro d hd
      rw [show w ++ SPACE :: (u ++ [c]) = (w ++ SPACE :: u) ++ [c] by simp, List.getLast?_concat] at hd
      rwa [← Option.some.inj hd]

theorem isEnd_of_printable (e : Manager) {w : Bytes} (h : w.all fun c => 32 ≤ c && c < 127) :
    ∀ c ∈ w, e.isEnd c = false := fun c hc => by
  have := List.all_eq_true.1 h c hc
  rw [Bool.and_eq_true, decide_eq_true_eq, decide_eq_true_eq] at this
  exact e.printable c this.1 this.2

/-- A text in quotes between fixed texts. -/
theorem tame_quoted_iff {e : Manager} {w v : Bytes} (hne : w ≠ []) (hw : ∀ c ∈ w, e.isEnd c = false)
    (hhead : ∀ c ∈ w.head?, isWhitespace c = false) :
    Tame e (w ++ v ++ [DQUOTE]) ↔ ∀ c ∈ v, e.isEnd c = false := by
  constructor
  · exact fun h c hc => h.noEnd c (by simp [hc])
  · intro h
    refine ⟨fun c hc => ?_, continued_concat_of_ne (by decide) _, strip_eq_iff.2 ⟨?_, ?_⟩⟩
    · rcases List.mem_append.1 hc with hc | hc
      · exact (List.mem_append.1 hc).elim (hw c) (h c)
      · rw [List.mem_singleton.1 hc]
        exact e.printable _ (by decide) (by decide)
    · rw [List.append_assoc, List.head?_append_of_ne_nil _ hne]
      exact hhead
    · intro c hc
      rw [List.getLast?_concat] at hc
      rw [← Option.some.inj hc]
      decide

section
variable {e : Manager} {key value : Bytes} {is js : List Entry}

/-- All values of some entries are tame. -/
abbrev AllTame (e : Manager) (is : List Entry) : Prop := ∀ i ∈ is, Tame e i.value

theorem allTame_nil : AllTame e [] := fun i hi => by cases hi

theorem allTame_cons_iff : AllTame e (.setting key value :: is) ↔ Tame e value ∧ AllTame e is :=
  List.forall_mem_cons

theorem allTame_singleton_iff : AllTame e [.setting key value] ↔ Tame e value := List.forall_mem_singleton

theorem allTame_append_iff : AllTame e (is ++ js) ↔ AllTame e is ∧ AllTame e js := List.forall_mem_append

theorem allTame_ite_iff {p : Prop} [Decidable p] : AllTame e (if p then is else []) ↔ (p → AllTame e is) := by
  split
  next h => exact ⟨fun ht _ => ht, fun ht => ht h⟩
  next h => exact iff_of_true allTame_nil fun hp => (h hp).elim

theorem allTame_ite_not_iff {p : Prop} [Decidable p] : AllTame e (if p then [] else is) ↔ (¬ p → AllTame e is) := by
  split
  next h => exact iff_of_true allTame_nil fun hp => (hp h).elim
  next h => exact ⟨fun ht _ => ht, fun ht => ht h⟩

end

/-! ### Values that are not known to be tame -/

/-- What is pending ends in a blank. -/
def Pending (pending : Option Bytes) : Prop := ∀ p ∈ pending, ∃ w, p = w ++ [SPACE]

theorem Pending.continued {pending : Option Bytes} (h : Pending pending) (l : Bytes) :
    continued (pending.getD [] ++ l) = continued l := by
  cases pending with
  | none => rfl
  | some p =>
    obtain ⟨w, rfl⟩ := h p rfl
    rw [Option.getD_some, List.append_assoc]
    exact continued_append_cons_of_ne (by decide) w l

theorem pending_none : Pending none := fun _ hp => by cases hp

theorem pending_some (w : Bytes) : Pending (some (w ++ [SPACE])) := fun _ hp => ⟨w, (Option.some.inj hp).symm⟩

/-- A closed line ends the one it is joined to. -/
theorem logical_append {pending : Option Bytes} (hp : Pending pending) {xs : List Bytes}
    (hxs : ∀ x ∈ xs, Begins x) {l : Bytes} (hl : Begins l) (hc : continued l = false) (ys : List Bytes) :
    logical pending (xs ++ l :: ys) = logical pending (xs ++ [l]) ++ logical none ys := by
  induction xs generalizing pending with
  | nil =>
    rw [List.nil_append, List.nil_append, logical_cons hl, logical_cons hl, hp.continued, hc,
      if_neg Bool.false_ne_true, if_neg Bool.false_ne_true]
    rfl
  | cons x xs ih =>
    rw [List.forall_mem_cons] at hxs
    rw [List.cons_append, List.cons_append, logical_cons hxs.1, logical_cons hxs.1]
    split
    · exact ih (pending_some _) hxs.2
    · rw [ih pending_none hxs.2]
      rfl

/-- Some lines give these settings, whatever lines follow. -/
def Yields (part : Bytes) (ls : List Bytes) (ss : List Setting) : Prop :=
  ∀ ls', parse (some part) (ls ++ ls') = (parse (some part) ls').map (ss ++ ·)

theorem Yields.nil (part : Bytes) : Yields part [] [] := fun ls' =>
  (Option.map_id' (x := parse (some part) ls')).symm

theorem Yields.blank {part : Bytes} {ls : List Bytes} {ss : List Setting} (h : Yields part ls ss) :
    Yields part ([] :: ls) ss := fun ls' => by rw [List.cons_append, parse_blank, h]

theorem Yields.setting {part : Bytes} {ls : List Bytes} {ss : List Setting} (h : Yields part ls ss) {key : Bytes}
    (value : Bytes) (hne : key ≠ []) (hkey : ∀ c ∈ key, isAlnum c) :
    Yields part (word (key, value) :: ls) ({ part, key, value := strip value } :: ss) := fun ls' => by
  rw [List.cons_append, parse_setting value hne hkey, h, Option.map_map]
  rfl

theorem Yields.parse_eq {part : Bytes} {is : List Entry} {ss : List Setting}
    (h : Yields part (logical none ((is ++ [Entry.blank]).map Entry.line)) ss) :
    parse (some part) (logical none (is.map Entry.line ++ [[]])) = some ss := by
  have hnil := h []
  rw [List.append_nil, List.map_append] at hnil
  exact hnil.trans (congrArg some (List.append_nil ss))

/-- An entry that is a setting with one of some names, or blank. -/
def Entry.Keyed (keys : List Bytes) : Entry → Prop
  | setting key _ => key ∈ keys
  | header _ => False
  | blank => True

/-- Names of settings. -/
def Keys (keys : List Bytes) : Prop := ∀ key ∈ keys, key ≠ [] ∧ ∀ c ∈ key, isAlnum c

theorem keys_of_all {keys : List Bytes} (h : keys.all fun key => !key.isEmpty && key.all isAlnum) : Keys keys := by
  intro key hkey
  have hk := List.all_eq_true.1 h key hkey
  rw [Bool.and_eq_true, Bool.not_eq_true', List.isEmpty_eq_false_iff, List.all_eq_true] at hk
  exact hk

theorem Entry.Keyed.named {keys : List Bytes} (hkeys : Keys keys) {i : Entry} (h : i.Keyed keys) : i.Named := by
  cases i with
  | header part => exact h.elim
  | setting key value => exact hkeys key h
  | blank => trivial

section
variable {keys : List Bytes} {key value : Bytes} {is js : List Entry}

theorem keyed_nil : ∀ i ∈ ([] : List Entry), i.Keyed keys := fun i hi => by cases hi

theorem keyed_cons (h : key ∈ keys) (his : ∀ i ∈ is, i.Keyed keys) :
    ∀ i ∈ Entry.setting key value :: is, i.Keyed keys := List.forall_mem_cons.2 ⟨h, his⟩

theorem keyed_append (his : ∀ i ∈ is, i.Keyed keys) (hjs : ∀ i ∈ js, i.Keyed keys) :
    ∀ i ∈ is ++ js, i.Keyed keys := List.forall_mem_append.2 ⟨his, hjs⟩

theorem keyed_ite {p : Prop} [Decidable p] (his : ∀ i ∈ is, i.Keyed keys) (hjs : ∀ i ∈ js, i.Keyed keys) :
    ∀ i ∈ if p then is else js, i.Keyed keys := by
  split
  · exact his
  · exact hjs

end

/-- Entries without a header give settings with their names, whatever their values are. -/
theorem yields_logical {keys : List Bytes} (hkeys : Keys keys) (part : Bytes) {is : List Entry}
    (his : ∀ i ∈ is, i.Keyed keys) {pending : Option Bytes}
    (hp : ∀ p ∈ pending, ∃ key ∈ keys, ∃ x, p = word (key, x)) :
    ∃ ss, Yields part (logical pending (is.map Entry.line)) ss ∧
      ∀ s ∈ ss, s.part = part ∧ s.key ∈ keys := by
  induction is generalizing pending with
  | nil =>
    cases pending with
    | none => exact ⟨[], Yields.nil part, fun s hs => by cases hs⟩
    | some p =>
      obtain ⟨key, hkey, x, rfl⟩ := hp p rfl
      obtain ⟨hne, halnum⟩ := hkeys key hkey
      exact ⟨_, (Yields.nil part).setting x hne halnum, List.forall_mem_singleton.2 ⟨rfl, hkey⟩⟩
  | cons i is ih =>
    rw [List.forall_mem_cons] at his
    -- The line that ends here: a setting with one of the names, or a blank one.
    have hline : (pending.getD [] ++ i.line = [] ∧ pending = none) ∨
        ∃ key ∈ keys, ∃ x, pending.getD [] ++ i.line = word (key, x) := by
      cases pending with
      | some p =>
        obtain ⟨key, hkey, x, rfl⟩ := hp p rfl
        exact .inr ⟨key, hkey, x ++ i.line, by simp [word]⟩
      | none =>
        cases i with
        | header part => exact his.1.elim
        | setting key value => exact .inr ⟨key, his.1, value, rfl⟩
        | blank => exact .inl ⟨rfl, rfl⟩
    rw [List.map_cons, logical_cons (Entry.begins (his.1.named hkeys))]
    split
    next hc =>
      refine ih his.2 fun p hpe => ?_
      obtain rfl := Option.some.inj hpe
      rcases hline with ⟨hnil, -⟩ | ⟨key, hkey, x, hx⟩
      · rw [hnil] at hc; cases hc
      · have hx' : continued x := by
          have hnot : BACKSLASH ∉ key := fun hc => (isAlnum_spec ((hkeys key hkey).2 _ hc)).2.1 rfl
          rw [hx, word, continued_append_of_notMem hnot, continued_cons_of_ne (by decide)] at hc
          exact hc
        obtain ⟨w, rfl⟩ := exists_of_continued hx'
        refine ⟨key, hkey, w ++ [SPACE], ?_⟩
        rw [hx, show word (key, w ++ [BACKSLASH]) = word (key, w) ++ [BACKSLASH] by simp [word],
          List.dropLast_concat]
        simp [word]
    · obtain ⟨ss, hss, hkeyed⟩ := @ih his.2 none fun p hp => by cases hp
      rcases hline with ⟨hnil, -⟩ | ⟨key, hkey, x, hx⟩
      · rw [hnil]
        exact ⟨ss, hss.blank, hkeyed⟩
      · rw [hx]
        obtain ⟨hne, halnum⟩ := hkeys key hkey
        exact ⟨_, hss.setting x hne halnum, List.forall_mem_cons.2 ⟨⟨rfl, hkey⟩, hkeyed⟩⟩

/-- The entries of one section, with the blank line that ends it. -/
theorem yields_section {keys : List Bytes} (hkeys : Keys keys) (part : Bytes) {is : List Entry}
    (his : ∀ i ∈ is, i.Keyed keys) :
    ∃ ss, Yields part (logical none ((is ++ [Entry.blank]).map Entry.line)) ss ∧
      ∀ s ∈ ss, s.part = part ∧ s.key ∈ keys :=
  @yields_logical _ hkeys part _ (fun i hi => (List.mem_append.1 hi).elim (his i) fun h => by
    rw [List.mem_singleton.1 h]; trivial) none nofun

section
variable {e : Manager} {p q : Bytes} {keys keys' : List Bytes} {is js : List Entry}

/-- A text with two sections, line by line: the blank line between them ends the first. -/
theorem parse_two (hp : (Entry.header p).Named) (hq : (Entry.header q).Named) (hkeys : Keys keys)
    (hkeys' : Keys keys') (his : ∀ i ∈ is, i.Keyed keys) (hjs : ∀ j ∈ js, j.Keyed keys')
    (hnoEnd : ∀ i ∈ is ++ js, ∀ c ∈ i.value, e.isEnd c = false) :
    ∃ ss, (∀ s ∈ ss, s.part = p ∧ s.key ∈ keys) ∧
      parse none (logical none ((text (.header p :: is ++ .blank :: .header q :: js)).splitOnP e.isEnd)) =
        (parse (some q) (logical none (js.map Entry.line ++ [[]]))).map (ss ++ ·) := by
  have hi : ∀ i ∈ is, i.Named := fun i hi => (his i hi).named hkeys
  have hj : ∀ j ∈ js, j.Named := fun j hj => (hjs j hj).named hkeys'
  have hall : ∀ i ∈ is ++ .blank :: .header q :: js, i.Named ∧ ∀ c ∈ i.value, e.isEnd c = false := by
    intro i hmem
    simp only [List.mem_append, List.mem_cons] at hmem hnoEnd
    rcases hmem with hmem | rfl | rfl | hmem
    · exact ⟨hi i hmem, hnoEnd i (.inl hmem)⟩
    · exact ⟨trivial, fun c hc => by cases hc⟩
    · exact ⟨hq, fun c hc => by cases hc⟩
    · exact ⟨hj i hmem, hnoEnd i (.inr hmem)⟩
  obtain ⟨ss, hss, hkeyed⟩ := yields_section hkeys p his
  refine ⟨ss, hkeyed, ?_⟩
  have hbegins : ∀ x ∈ is.map Entry.line, Begins x := fun x hx => by
    obtain ⟨i, hmem, rfl⟩ := List.mem_map.1 hx
    exact Entry.begins (hi i hmem)
  rw [List.cons_append, parse_text hp (fun i hmem => (hall i hmem).1) fun i hmem => (hall i hmem).2, List.map_append,
    List.map_cons, List.map_cons, List.append_assoc, List.cons_append, List.cons_append,
    show (Entry.blank).line = [] from rfl,
    logical_append pending_none hbegins (fun c hc => by cases hc) rfl,
    logical_closed (Entry.begins hq) (Entry.continued_line hq)]
  rw [List.map_append] at hss
  exact (hss _).trans (by rw [parse_header])

/-- **A setting between closed lines is read once**, whatever the other values are, if no other has its
name. -/
theorem read_once {i : Entry} {key value : Bytes} {ks : List Entry} (hp : (Entry.header p).Named)
    (hq : (Entry.header q).Named) (hpq : p ≠ q) (hkeys : Keys keys) (hkeys' : Keys keys')
    (hkey : key ≠ [] ∧ ∀ c ∈ key, isAlnum c) (hnew : key ∉ keys') (his : ∀ i ∈ is, i.Keyed keys)
    (hjs : ∀ j ∈ js ++ i :: ks, j.Keyed keys')
    (hi : continued i.value = false) (hvalue : continued value = false)
    (hnoEnd : ∀ j ∈ is ++ (js ++ i :: .setting key value :: ks), ∀ c ∈ j.value, e.isEnd c = false)
    {found : List Setting} (hfound :
      read e (text (.header p :: is ++ .blank :: .header q :: (js ++ i :: .setting key value :: ks))) = some found) :
    found.filter (fun s => s.part = q ∧ s.key = key) = [{ part := q, key, value := strip value }] := by
  have hallKeys : Keys (key :: keys') := List.forall_mem_cons.2 ⟨hkey, hkeys'⟩
  have hkeyed : ∀ j ∈ js ++ i :: .setting key value :: ks, j.Keyed (key :: keys') := by
    have hmono {j : Entry} (h : j.Keyed keys') : j.Keyed (key :: keys') := by
      cases j with
      | header part => exact h
      | setting key' value' => exact List.mem_cons_of_mem _ h
      | blank => trivial
    intro j hj
    simp only [List.mem_append, List.mem_cons] at hj hjs
    rcases hj with hj | rfl | rfl | hj
    · exact hmono (hjs j (.inl hj))
    · exact hmono (hjs j (.inr (.inl rfl)))
    · exact List.mem_cons_self
    · exact hmono (hjs j (.inr (.inr hj)))
  obtain ⟨ss, hss, hread⟩ := parse_two hp hq hkeys hallKeys his hkeyed hnoEnd
  have hnamed {j : Entry} (hj : j ∈ js ++ i :: ks) : j.Named := (hjs j hj).named hkeys'
  obtain ⟨before, hbefore, hbeforeKeys⟩ := @yields_logical _ hkeys' q (js ++ [i])
    (fun j hmem => hjs j (by
      simp only [List.mem_append, List.mem_cons] at hmem ⊢
      tauto)) none nofun
  obtain ⟨after, hafter, hafterKeys⟩ := yields_section hkeys' q fun j hmem =>
    hjs j (List.mem_append_right _ (List.mem_cons_of_mem _ hmem))
  have hbegins : ∀ x ∈ js.map Entry.line, Begins x := fun x hx => by
    obtain ⟨j, hmem, rfl⟩ := List.mem_map.1 hx
    exact Entry.begins (hnamed (List.mem_append_left _ hmem))
  have hin : i.Named := hnamed (List.mem_append_right _ List.mem_cons_self)
  have hkn : (Entry.setting key value).Named := hkey
  rw [List.map_append] at hbefore
  rw [List.map_append, List.map_cons, List.map_cons, List.append_assoc, List.cons_append, List.cons_append,
    logical_append pending_none hbegins (Entry.begins hin) ((Entry.continued_line hin).trans hi), List.cons_append,
    logical_closed (Entry.begins hkn) ((Entry.continued_line hkn).trans hvalue),
    show [i.line] = [i].map Entry.line from rfl, hbefore,
    show (Entry.setting key value).line = word (key, value) from rfl, parse_setting value hkey.1 hkey.2,
    hafter.parse_eq] at hread
  obtain rfl := Option.some.inj (((read_eq_some_iff.1 hfound).2.symm.trans hread))
  -- The settings before and after it have other names, and those of the first section another section.
  have hother {ss : List Setting} (h : ∀ s ∈ ss, ¬ (s.part = q ∧ s.key = key)) :
      ss.filter (fun s => s.part = q ∧ s.key = key) = [] :=
    List.filter_eq_nil_iff.2 fun s hs => by simpa using h s hs
  have hmiss {s : Setting} (h : s.part = q ∧ s.key ∈ keys') : ¬ (s.part = q ∧ s.key = key) :=
    fun hs => hnew (hs.2 ▸ h.2)
  rw [List.filter_append, List.filter_append, hother fun s hs h => hpq ((hss s hs).1.symm.trans h.1),
    hother fun s hs => hmiss (hbeforeKeys s hs), List.filter_cons_of_pos (by simp),
    hother fun s hs => hmiss (hafterKeys s hs)]
  rfl

end

end UnitSyntax
