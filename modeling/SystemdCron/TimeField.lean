import SystemdCron.Vore

/-!
# The time fields of a crontab line

`int_map`, `month_map`, `dow_map`, `parse_period` and the value tables of
`systemd-crontab-generator.cpp`, with the `size_t` arithmetic of the source written out modulo
`2 ^ 64`. A field text can make the two loops of `parse_period` run for ever or index their table out
of bounds; such a parse has no result but a `Fault`.
-/

namespace SystemdCron

open Bytes

/-- Why a computation of the source has no result. -/
inductive Fault where
  | diverges
  | outOfBounds
  deriving DecidableEq, Repr

/-- The raw draws still to come of the process-wide random engine. -/
abbrev Rng := Nat → Nat

/-- `std::uniform_int_distribution{lo, hi}(rand)` for `lo ≤ hi`. -/
def Rng.uniform (rng : Rng) (lo hi : Nat) : Nat × Rng :=
  (lo + rng 0 % (hi + 1 - lo), fun n => rng (n + 1))

/-- The number of values of a `size_t`. -/
abbrev SIZE : Nat := 2 ^ 64

/-! ### Mappings from texts to numbers -/

/-- The type of `mapping`: the text, the error flag so far and which end of a range is asked for. -/
abbrev Mapping := Bytes → Bool → Bool → Nat × Bool

def intMap : Mapping := fun str err _ =>
  let r := parseUint (cstr str)
  (r.out.getD (SIZE - 1), err || !r.ok)

/-- `months` of `month_map`. -/
def MONTHS : List Bytes :=
  [lit "jan", lit "feb", lit "mar", lit "apr", lit "may", lit "jun",
   lit "jul", lit "aug", lit "sep", lit "oct", lit "nov", lit "dec"]

/-- The error flag of the caller decides whether a number is returned: once it is set, by this text
or by an earlier one, the text is looked up as a name. -/
def monthMap : Mapping := fun month err toEnd =>
  let r := intMap month err toEnd
  if !r.2 then r
  else
    let buf := (month.take 3).map toLower
    match MONTHS.findIdx? (· == buf) with
    | some i => (i + 1, r.2)
    | none => (0, true)

/-- `dows` of `dow_map`: Sunday has two places. -/
def DOWS : List Bytes :=
  [lit "sun", lit "mon", lit "tue", lit "wed", lit "thu", lit "fri", lit "sat", lit "sun"]

/-- At the end of a range the search for the name starts after the first Sunday. -/
def dowMap : Mapping := fun dowFull err toEnd =>
  let buf := (dowFull.take 3).map toLower
  let skip := if toEnd then 1 else 0
  match (DOWS.drop skip).findIdx? (· == buf) with
  | some i => (i + skip, err)
  | none => intMap dowFull err toEnd

/-! ### Value tables -/

/-- What the caller of `parse_time_unit` passes for a field: its name, its values, the wording of
its range, its mapping, the least value (zero for weekdays) and the mark for `*`. -/
structure TimeField (T : Type) where
  field : Bytes
  values : List T
  range : Bytes
  mapping : Mapping
  base : Nat
  asterisk : T

def MINUTES_SET : List Nat := List.range 60
def HOURS_SET : List Nat := List.range 24
def DAYS_SET : List Nat := (List.range 31).map (· + 1)
def MONTHS_SET : List Nat := (List.range 12).map (· + 1)
def DOWS_SET : List Bytes :=
  [lit "Sun", lit "Mon", lit "Tue", lit "Wed", lit "Thu", lit "Fri", lit "Sat", lit "Sun"]

/-- `TIMESPEC_ASTERISK`, minus one as an octet. -/
def TIMESPEC_ASTERISK : Nat := 255

def minuteField : TimeField Nat where
  field := lit "minute"
  values := MINUTES_SET
  range := lit "[0, 59]"
  mapping := intMap
  base := 0
  asterisk := TIMESPEC_ASTERISK

def hourField : TimeField Nat where
  field := lit "hour"
  values := HOURS_SET
  range := lit "[0, 23]"
  mapping := intMap
  base := 0
  asterisk := TIMESPEC_ASTERISK

def dayField : TimeField Nat where
  field := lit "day"
  values := DAYS_SET
  range := lit "[1, 31] or 'L'"
  mapping := intMap
  base := 1
  asterisk := TIMESPEC_ASTERISK

def dowField : TimeField Bytes where
  field := lit "dow"
  values := DOWS_SET
  range := lit "[mon, sun] or [1, 7] or [1, 7]L"
  mapping := dowMap
  base := 0
  asterisk := lit "*"

def monthField : TimeField Nat where
  field := lit "month"
  values := MONTHS_SET
  range := lit "[jan, dec] or [1, 12]"
  mapping := monthMap
  base := 1
  asterisk := TIMESPEC_ASTERISK

/-! ### One item of a field -/

/-- What `parse_period` returns when it refuses an item: `nullptr`, for which the caller names the
range of the field, or a message. -/
inductive PeriodError where
  | range
  | message (text : Bytes)
  deriving DecidableEq, Repr

/-- The outcome of `parse_period`: its return value and what it left in the arguments it writes. -/
structure Period (T : Type) [Ord T] where
  error : Option PeriodError
  into : Std.TreeSet T
  raw : Bool
  rng : Rng

/-- The range and the step of an item: `step` is one without a `/`. -/
def splitStep (value : Bytes) : Except PeriodError (Bytes × Nat) :=
  match splitFirst SLASH value with
  | none => .ok (value, 1)
  | some (range, rest) =>
    if SLASH ∈ rest then .error (.message (lit "doubled /"))
    else
      let r := intMap rest false false
      if r.2 then .error (.message (lit "/-skip not an integer")) else .ok (range, r.1)

/-- The two ends of a range without `~`: the whole text twice without a `-`. -/
def splitRange (range : Bytes) : Except PeriodError (Bytes × Bytes) :=
  match splitFirst DASH range with
  | none => .ok (range, range)
  | some (start, stop) =>
    if DASH ∈ stop then .error (.message (lit "doubled -")) else .ok (start, stop)

section
variable {T : Type} [Ord T]

/-- `mapping(start, err, false) - 1 + !base`, the index a range starts at. -/
def TimeField.startIndex (F : TimeField T) (start : Bytes) (err : Bool) : Nat × Bool :=
  let r := F.mapping start err false
  ((r.1 + (SIZE - 1) + (if F.base = 0 then 1 else 0)) % SIZE, r.2)

/-- `std::min(mapping(end, err, true) + !base, bound)`. -/
def TimeField.stopIndex (F : TimeField T) (stop : Bytes) (err : Bool) (bound : Nat) : Nat × Bool :=
  let r := F.mapping stop err true
  (min ((r.1 + (if F.base = 0 then 1 else 0)) % SIZE) bound, r.2)

/-- `for(ssize_t i = 0; i < size; i += step) into.emplace(values[i])`. A run that ends visits no index
twice, so one that has not ended after as many rounds as there are values never does. -/
def starLoop (values : List T) (step : Nat) :
    Nat → Int → Std.TreeSet T → Except Fault (Std.TreeSet T)
  | 0, _, _ => .error .diverges
  | fuel + 1, i, into =>
    if i < values.length then
      match if 0 ≤ i then values[i.toNat]? else none with
      | some v => starLoop values step fuel (Int.bmod (i + step) SIZE) (into.insert v)
      | none => .error .outOfBounds
    else .ok into

/-- `for(size_t i = i_start; i < i_end; i += step) { into.emplace(values[i]); any = true; }`. -/
def rangeLoop (values : List T) (step iEnd : Nat) :
    Nat → Nat → Std.TreeSet T → Bool → Except Fault (Std.TreeSet T × Bool)
  | 0, _, _, _ => .error .diverges
  | fuel + 1, i, into, any =>
    if i < iEnd then
      match values[i]? with
      | some v => rangeLoop values step iEnd fuel ((i + step) % SIZE) (into.insert v) true
      | none => .error .outOfBounds
    else .ok (into, any)

/-- The `~` branch: a value drawn between the two indices. The error flag of the mappings is not
looked at. -/
def parseRandom (F : TimeField T) (start stop : Bytes) (into : Std.TreeSet T) (rng : Rng) :
    Except Fault (Period T) :=
  let max := F.values.length - 1
  let s := if start = [] then (F.base, false) else F.startIndex start false
  let e := if stop = [] then (max, s.2) else F.stopIndex stop s.2 max
  if max < s.1 ∨ e.1 < s.1 then .ok { error := some .range, into, raw := true, rng }
  else
    let d := rng.uniform s.1 e.1
    match F.values[d.1]? with
    | some v => .ok { error := none, into := into.insert v, raw := true, rng := d.2 }
    | none => .error .outOfBounds

/-- The branch of a range and of a single value. -/
def parseRange (F : TimeField T) (start stop : Bytes) (step : Nat) (into : Std.TreeSet T)
    (raw : Bool) (rng : Rng) : Except Fault (Period T) :=
  let s := F.startIndex start false
  let e := F.stopIndex stop s.2 F.values.length
  if e.2 then .ok { error := some .range, into, raw, rng }
  else
    match rangeLoop F.values step e.1 (F.values.length + 1) s.1 into false with
    | .error f => .error f
    | .ok (into, any) => .ok { error := if any then none else some .range, into, raw, rng }

def parsePeriod (value : Bytes) (F : TimeField T) (into : Std.TreeSet T) (raw : Bool) (rng : Rng) :
    Except Fault (Period T) :=
  match splitStep value with
  | .error e => .ok { error := some e, into, raw, rng }
  | .ok (range, step) =>
    if range = [STAR] then
      match starLoop F.values step (F.values.length + 1) 0 into with
      | .error f => .error f
      | .ok into => .ok { error := none, into, raw, rng }
    else
      match splitFirst TILDE range with
      | some (start, stop) =>
        if TILDE ∈ stop then .ok { error := some (.message (lit "doubled ~")), into, raw, rng }
        else parseRandom F start stop into rng
      | none =>
        match splitRange range with
        | .error e => .ok { error := some e, into, raw, rng }
        | .ok (start, stop) => parseRange F start stop step into raw rng

/-! ### A field -/

/-- The outcome of `parse_time_unit` before it is noted in the job: the values, whether a `~` was
used, the item that was refused, if any, and why, and the draws left. -/
structure TimeUnit (T : Type) [Ord T] where
  set : Std.TreeSet T
  raw : Bool
  error : Option (Bytes × PeriodError)
  rng : Rng

/-- The loop over the items: it glides over consecutive commas, and returns no values at all once an
item is refused. -/
def parseItems (F : TimeField T) : List Bytes → Std.TreeSet T → Bool → Rng →
    Except Fault (TimeUnit T)
  | [], into, raw, rng => .ok { set := into, raw, error := none, rng }
  | subval :: rest, into, raw, rng =>
    match parsePeriod subval F into raw rng with
    | .error f => .error f
    | .ok p =>
      match p.error with
      | some e => .ok { set := {}, raw := p.raw, error := some (subval, e), rng := p.rng }
      | none => parseItems F rest p.into p.raw p.rng

/-- `parse_time_unit`. -/
def parseTimeUnit (F : TimeField T) (value : Bytes) (rng : Rng) : Except Fault (TimeUnit T) :=
  if value = [STAR] then .ok { set := .ofList [F.asterisk], raw := false, error := none, rng }
  else parseItems F (softTokenise (· == COMMA) value) {} false rng

theorem parseItems_set_of_error {F : TimeField T} {e : Bytes × PeriodError} {items : List Bytes}
    {into : Std.TreeSet T} {raw : Bool} {rng : Rng} {u : TimeUnit T}
    (h : parseItems F items into raw rng = .ok u) (he : u.error = some e) : u.set = {} := by
  induction items generalizing into raw rng with
  | nil => cases h; cases he
  | cons subval rest ih =>
    simp only [parseItems] at h
    split at h
    · cases h
    · split at h
      · cases h; rfl
      · exact ih h

/-- A field with an error has no values. -/
theorem parseTimeUnit_set_of_error {F : TimeField T} {value : Bytes} {rng : Rng} {u : TimeUnit T}
    {e : Bytes × PeriodError} (h : parseTimeUnit F value rng = .ok u) (he : u.error = some e) :
    u.set = {} := by
  simp only [parseTimeUnit] at h
  split at h
  · cases h; cases he
  · exact parseItems_set_of_error h he

end

end SystemdCron
