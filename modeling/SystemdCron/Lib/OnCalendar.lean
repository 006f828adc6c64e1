import SystemdCron.Lib.Numeral

/-!
# Calendar event expressions

The part of the calendar event grammar that has a list for every component: an optional list of
weekdays, `*-`, a list of months, `-` or (counting from the end of the month) `~`, a list of days, lists
of hours and minutes, and a second. An element of a list is `*`, a number, or a number with a repeat
step. `parse_render` says that the grammar is unambiguous; `Expr.WF` that every number is in its range.
-/

namespace OnCalendar

open Bytes

inductive Weekday where
  | sun | mon | tue | wed | thu | fri | sat
  deriving DecidableEq, Repr

namespace Weekday

def all : List Weekday := [sun, mon, tue, wed, thu, fri, sat]

def name : Weekday → Bytes
  | sun => lit "Sun"
  | mon => lit "Mon"
  | tue => lit "Tue"
  | wed => lit "Wed"
  | thu => lit "Thu"
  | fri => lit "Fri"
  | sat => lit "Sat"

def ofName (s : Bytes) : Option Weekday := all.find? (·.name == s)

theorem ofName_name (w : Weekday) : ofName w.name = some w := by cases w <;> decide

theorem name_injective : Function.Injective name := fun a b h => by
  have := ofName_name a
  rw [h, ofName_name b] at this
  exact (Option.some.inj this).symm

theorem mem_name (w : Weekday) : ∀ c ∈ w.name, isUpper c ∨ isLower c := by
  cases w <;> decide +kernel

end Weekday

/-- An element of a list of numbers. -/
inductive Element where
  | any
  | value (n : Nat)
  | every (start step : Nat)
  deriving DecidableEq, Repr

structure Expr where
  /-- Empty if the expression has no weekday list. -/
  weekdays : List Weekday
  months : List Element
  fromEnd : Bool
  days : List Element
  hours : List Element
  minutes : List Element
  second : Nat
  deriving DecidableEq, Repr

/-! ### Writing -/

def Element.render : Element → Bytes
  | any => [STAR]
  | value n => decimal n
  | every start step => decimal start ++ SLASH :: decimal step

def renderList (l : List Element) : Bytes := [COMMA].intercalate (l.map Element.render)

def renderWeekdays (l : List Weekday) : Bytes := [COMMA].intercalate (l.map Weekday.name)

/-- The date without the weekdays. -/
def Expr.renderDate (e : Expr) : Bytes :=
  STAR :: DASH :: (renderList e.months ++ (if e.fromEnd then TILDE else DASH) :: renderList e.days)

/-- The time of the day, with a numeral for the second. -/
def Expr.renderTime (e : Expr) (second : Bytes) : Bytes :=
  renderList e.hours ++ COLON :: (renderList e.minutes ++ COLON :: second)

def Expr.render (e : Expr) (second : Bytes) : Bytes :=
  (if e.weekdays = [] then [] else renderWeekdays e.weekdays ++ [SPACE]) ++
    e.renderDate ++ SPACE :: e.renderTime second

/-! ### Reading -/

def parseElement (s : Bytes) : Option Element :=
  if s = [STAR] then some .any
  else
    match splitFirst SLASH s with
    | none => (parseDecimal s).map .value
    | some (start, step) => do return .every (← parseDecimal start) (← parseDecimal step)

def parseList (s : Bytes) : Option (List Element) := (s.splitOn COMMA).mapM parseElement

def parseWeekdays (s : Bytes) : Option (List Weekday) := (s.splitOn COMMA).mapM Weekday.ofName

def parseMonthDay (s : Bytes) : Option (List Element × Bool × List Element) :=
  match s.dropWhile fun c => c != DASH && c != TILDE with
  | [] => none
  | sep :: days => do
    return (← parseList (s.takeWhile fun c => c != DASH && c != TILDE), sep == TILDE, ← parseList days)

def parseDate : Bytes → Option (List Element × Bool × List Element)
  | STAR :: DASH :: s => parseMonthDay s
  | _ => none

def parseTime (s : Bytes) : Option (List Element × List Element × Nat) := do
  let (hours, s) ← splitFirst COLON s
  let (minutes, second) ← splitFirst COLON s
  return (← parseList hours, ← parseList minutes, ← parseDecimal second)

def parseParts (weekdays : List Weekday) (date time : Bytes) : Option Expr := do
  let (months, fromEnd, days) ← parseDate date
  let (hours, minutes, second) ← parseTime time
  return { weekdays, months, fromEnd, days, hours, minutes, second }

def parse (s : Bytes) : Option Expr :=
  match s.splitOn SPACE with
  | [date, time] => parseParts [] date time
  | [weekdays, date, time] => (parseWeekdays weekdays).bind fun l => parseParts l date time
  | _ => none

/-! ### What is written is read back -/

theorem mapM_map {α β : Type} {f : α → β} {g : β → Option α} {l : List α}
    (h : ∀ a ∈ l, g (f a) = some a) : (l.map f).mapM g = some l := by
  induction l with
  | nil => rfl
  | cons a l ih =>
    rw [List.map_cons, List.mapM_cons, h a (by simp), ih fun b hb => h b (by simp [hb])]
    rfl

theorem Element.mem_render {e : Element} {c : UInt8} (h : c ∈ e.render) :
    isDigit c ∨ c = STAR ∨ c = SLASH := by
  cases e with
  | any => exact .inr (.inl (List.mem_singleton.1 h))
  | value n => exact .inl (isDigit_of_mem_decimal h)
  | every start step =>
    simp only [render, List.mem_append, List.mem_cons] at h
    rcases h with h | rfl | h
    · exact .inl (isDigit_of_mem_decimal h)
    · exact .inr (.inr rfl)
    · exact .inl (isDigit_of_mem_decimal h)

theorem parseElement_render (e : Element) : parseElement e.render = some e := by
  have hstar : ∀ n, decimal n ≠ [STAR] := fun n h => by
    have := isDigit_of_mem_decimal (n := n) (c := STAR) (by simp [h])
    revert this; decide
  have hslash : ∀ n, SLASH ∉ decimal n := fun n => not_mem_decimal (by decide)
  cases e with
  | any => rfl
  | value n =>
    rw [Element.render, parseElement, if_neg (hstar n), splitFirst_eq_none.2 (hslash n),
      parseDecimal_decimal]
    rfl
  | every start step =>
    have hne : decimal start ++ SLASH :: decimal step ≠ [STAR] := by
      intro h
      have := congrArg (SLASH ∈ ·) h
      simp only [List.mem_append, List.mem_cons, true_or, or_true, eq_iff_iff,
        true_iff] at this
      revert this; decide
    rw [Element.render, parseElement, if_neg hne, splitFirst_eq_some.2 ⟨rfl, hslash start⟩]
    simp only [parseDecimal_decimal]
    rfl

theorem mem_renderList {l : List Element} {c : UInt8} (h : c ∈ renderList l) :
    isDigit c ∨ c = STAR ∨ c = SLASH ∨ c = COMMA := by
  induction l with
  | nil => cases h
  | cons e l ih =>
    rcases l with - | ⟨e', l⟩
    · have h : c ∈ e.render := by simpa [renderList] using h
      rcases Element.mem_render h with h | h | h <;> simp [h]
    · have h : c ∈ e.render ++ COMMA :: renderList (e' :: l) := by
        simpa [renderList, List.intercalate] using h
      simp only [List.mem_append, List.mem_cons] at h
      rcases h with h | h | h
      · rcases Element.mem_render h with h | h | h <;> simp [h]
      · simp [h]
      · exact ih h

/-- An octet that separates components is not in a list. -/
theorem notMem_renderList {c : UInt8} (hd : isDigit c = false) (h1 : c ≠ STAR) (h2 : c ≠ SLASH)
    (h3 : c ≠ COMMA) (l : List Element) : c ∉ renderList l := fun h => by
  rcases mem_renderList h with h | h | h | h
  · rw [hd] at h; cases h
  · exact h1 h
  · exact h2 h
  · exact h3 h

theorem parseList_renderList {l : List Element} (h : l ≠ []) : parseList (renderList l) = some l := by
  have hcomma : ∀ w ∈ l.map Element.render, COMMA ∉ w := by
    intro w hw hc
    obtain ⟨e, -, rfl⟩ := List.mem_map.1 hw
    rcases Element.mem_render hc with h | h | h <;> revert h <;> decide
  rw [parseList, renderList, List.splitOn_intercalate _ hcomma (by simpa using h)]
  exact mapM_map fun e _ => parseElement_render e

theorem parseWeekdays_renderWeekdays {l : List Weekday} (h : l ≠ []) :
    parseWeekdays (renderWeekdays l) = some l := by
  have hcomma : ∀ w ∈ l.map Weekday.name, COMMA ∉ w := by
    intro w hw hc
    obtain ⟨d, -, rfl⟩ := List.mem_map.1 hw
    rcases d.mem_name _ hc with h | h <;> revert h <;> decide
  rw [parseWeekdays, renderWeekdays, List.splitOn_intercalate _ hcomma (by simpa using h)]
  exact mapM_map fun d _ => d.ofName_name

theorem space_notMem_renderWeekdays (l : List Weekday) : SPACE ∉ renderWeekdays l := by
  induction l with
  | nil => simp [renderWeekdays]
  | cons d l ih =>
    have hd : SPACE ∉ d.name := by cases d <;> decide
    rcases l with - | ⟨d', l⟩
    · simpa [renderWeekdays] using hd
    · have h : renderWeekdays (d :: d' :: l) = d.name ++ COMMA :: renderWeekdays (d' :: l) := by
        simp [renderWeekdays, List.intercalate]
      rw [h]
      simp only [List.mem_append, List.mem_cons, not_or]
      exact ⟨hd, by decide, ih⟩

namespace Expr

/-- Every component has an element. -/
structure Nonempty (e : Expr) : Prop where
  months : e.months ≠ []
  days : e.days ≠ []
  hours : e.hours ≠ []
  minutes : e.minutes ≠ []

variable {e : Expr}

theorem parseDate_renderDate (h : e.Nonempty) :
    parseDate e.renderDate = some (e.months, e.fromEnd, e.days) := by
  have hpos : ∀ c ∈ renderList e.months, (c != DASH && c != TILDE) = true := by
    intro c hc
    simp only [Bool.and_eq_true, bne_iff_ne]
    constructor <;> rintro rfl
    · exact notMem_renderList (by decide) (by decide) (by decide) (by decide) _ hc
    · exact notMem_renderList (by decide) (by decide) (by decide) (by decide) _ hc
  set sep : UInt8 := if e.fromEnd then TILDE else DASH with hsep
  have hneg : (sep != DASH && sep != TILDE) = false := by cases hf : e.fromEnd <;> simp [hsep, hf]
  have htilde : (sep == TILDE) = e.fromEnd := by cases hf : e.fromEnd <;> rw [hsep, hf] <;> rfl
  change parseMonthDay (renderList e.months ++ sep :: renderList e.days) = _
  rw [parseMonthDay, List.dropWhile_append_of_pos hpos, List.dropWhile_cons_of_neg (by simp [hneg]),
    List.takeWhile_append_of_pos hpos, List.takeWhile_cons_of_neg (by simp [hneg]), List.append_nil]
  simp only [parseList_renderList h.months, parseList_renderList h.days, htilde]
  rfl

theorem parseTime_renderTime (h : e.Nonempty) {second : Bytes}
    (hs : parseDecimal second = some e.second) :
    parseTime (e.renderTime second) = some (e.hours, e.minutes, e.second) := by
  have hcolon := notMem_renderList (c := COLON) (by decide) (by decide) (by decide) (by decide)
  rw [parseTime, renderTime, splitFirst_eq_some.2 ⟨rfl, hcolon _⟩]
  simp only [Option.bind_eq_bind, Option.bind_some]
  rw [splitFirst_eq_some.2 ⟨rfl, hcolon _⟩]
  simp [parseList_renderList h.hours, parseList_renderList h.minutes, hs]

theorem space_notMem_renderDate : SPACE ∉ e.renderDate := by
  have h := notMem_renderList (c := SPACE) (by decide) (by decide) (by decide) (by decide)
  simp only [renderDate, List.mem_cons, List.mem_append, not_or]
  refine ⟨by decide, by decide, h _, ?_, h _⟩
  split <;> decide

theorem space_notMem_renderTime {second : Bytes} (hs : SPACE ∉ second) :
    SPACE ∉ e.renderTime second := by
  have h := notMem_renderList (c := SPACE) (by decide) (by decide) (by decide) (by decide)
  simp only [renderTime, List.mem_cons, List.mem_append, not_or]
  exact ⟨h _, by decide, h _, by decide, hs⟩

/-- **Round trip**: an expression is read back from its text. -/
theorem parse_render (h : e.Nonempty) {second : Bytes} (hs : parseDecimal second = some e.second) :
    parse (e.render second) = some e := by
  have hspace : SPACE ∉ second := by
    intro hc
    have : second.all isDigit := by
      by_contra hn
      rw [parseDecimal, if_neg (fun h => hn h.2)] at hs
      cases hs
    have := List.all_eq_true.1 this _ hc
    revert this; decide
  have hparts : ∀ l, parseParts l e.renderDate (e.renderTime second) = some { e with weekdays := l } := by
    intro l
    simp [parseParts, parseDate_renderDate h, parseTime_renderTime h hs]
  have htime := List.splitOn_eq_singleton (space_notMem_renderTime (e := e) hspace)
  have hdate := List.splitOn_eq_singleton (space_notMem_renderDate (e := e))
  unfold parse render
  split_ifs with hw
  · rw [List.nil_append, splitOn_append_cons, hdate, htime]
    simp only [List.singleton_append]
    rw [hparts, ← hw]
  · rw [List.append_assoc, List.append_assoc, List.singleton_append, splitOn_append_cons,
      splitOn_append_cons, hdate, htime,
      List.splitOn_eq_singleton (space_notMem_renderWeekdays _)]
    simp only [List.singleton_append]
    rw [parseWeekdays_renderWeekdays hw, Option.bind_some, hparts]

end Expr

/-! ### Well-formed expressions -/

/-- An element of a component that goes from `lo` to `hi`. -/
def Element.WF (lo hi : Nat) : Element → Prop
  | any => True
  | value n => lo ≤ n ∧ n ≤ hi
  | every start step => (lo ≤ start ∧ start ≤ hi) ∧ 1 ≤ step

instance (lo hi : Nat) : (e : Element) → Decidable (e.WF lo hi)
  | .any => .isTrue trivial
  | .value n => inferInstanceAs (Decidable (lo ≤ n ∧ n ≤ hi))
  | .every start step => inferInstanceAs (Decidable ((lo ≤ start ∧ start ≤ hi) ∧ 1 ≤ step))

/-- Every component has an element, every number is in its range, and every step is at least one. -/
structure Expr.WF (e : Expr) : Prop where
  nonempty : e.Nonempty
  months : ∀ x ∈ e.months, x.WF 1 12
  days : ∀ x ∈ e.days, x.WF 1 31
  hours : ∀ x ∈ e.hours, x.WF 0 23
  minutes : ∀ x ∈ e.minutes, x.WF 0 59

/-- The words that stand for an expression. -/
def keywords : List Bytes :=
  [lit "minutely", lit "hourly", lit "daily", lit "weekly", lit "monthly", lit "quarterly",
   lit "semiannually", lit "semi-annually", lit "biannually", lit "bi-annually", lit "yearly",
   lit "annually", lit "anually"]

/-- A text that is a keyword or a well-formed expression. -/
def WellFormed (s : Bytes) : Prop := s ∈ keywords ∨ ∃ e, parse s = some e ∧ e.WF

theorem parse_of_space_notMem {s : Bytes} (h : SPACE ∉ s) : parse s = none := by
  rw [parse, List.splitOn_eq_singleton h]

/-- No expression starts with a blank. -/
theorem parse_space_cons (s : Bytes) : parse (SPACE :: s) = none := by
  have hsplit : (SPACE :: s).splitOn SPACE = [] :: s.splitOn SPACE := splitOn_append_cons SPACE [] s
  have hweekdays : parseWeekdays [] = none := by decide
  unfold parse
  rw [hsplit]
  rcases s.splitOn SPACE with - | ⟨date, - | ⟨time, - | ⟨_, _⟩⟩⟩
  · rfl
  · rfl
  · dsimp only
    rw [hweekdays]
    rfl
  · rfl

theorem Expr.space_mem_render (e : Expr) (second : Bytes) : SPACE ∈ e.render second := by
  simp [Expr.render]

theorem wellFormed_render {e : Expr} (h : e.Nonempty) {second : Bytes}
    (hs : parseDecimal second = some e.second) : WellFormed (e.render second) ↔ e.WF := by
  have hkey : e.render second ∉ keywords := by
    have : ∀ k ∈ keywords, SPACE ∉ k := by decide
    exact fun hmem => this _ hmem (e.space_mem_render second)
  refine ⟨?_, fun hwf => .inr ⟨e, Expr.parse_render h hs, hwf⟩⟩
  rintro (hmem | ⟨e', he', hwf⟩)
  · exact absurd hmem hkey
  · rw [Expr.parse_render h hs] at he'
    exact Option.some.inj he' ▸ hwf

end OnCalendar
