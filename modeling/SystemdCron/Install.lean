import SystemdCron.Lib.Stdio

/-!
# Installing a crontab

`copy_FILE` and `replace_crontab` of `crontab.cpp`, and the access check and the `w` action of
`crontab_setgid.c`. Every call that can fail is a parameter; a file that is written has what its stream
took, which is what is in it once a flush or a close has succeeded, and to unlink one's own temporary file
is taken to succeed. `replaceCrontab_iff` and `setgidWrite_iff` say after which calls an installation was all or
nothing.
-/

namespace SystemdCron

open Bytes Stdio

/-- The crontab of a user, and the temporary file beside it. -/
structure Spool where
  crontab : Option Bytes
  temp : Option Bytes
  deriving DecidableEq, Repr

/-- An installation reports success and the crontab has all octets of the input, or it reports failure
and nothing has changed. -/
def AllOrNothing (input : Input) (old : Option Bytes) (r : Bool × Spool) : Prop :=
  r = (true, { crontab := some (octets input), temp := none }) ∨
  r = (false, { crontab := old, temp := none })

/-! ### `crontab` -/

/-- `copy_FILE`, from its `i`-th round on, of which `fwrite` takes so many octets at most: what the
stream `to` has taken in the end. -/
def copyFILE (fwrite : Nat → Nat) : Nat → Nat → Input → Bytes → Bytes
  | 0, _, _, out => out
  | fuel + 1, i, input, out =>
    let rd := fread 4096 input
    if rd.octets = [] then out
    else
      let out := out ++ rd.octets.take (fwrite i)
      if rd.eof then out else copyFILE fwrite fuel (i + 1) rd.rest out

/-- How the calls of `replace_crontab` turn out. -/
structure ReplaceCalls where
  mkostemp : Bool
  fdopen : Bool
  fwrite : Nat → Nat
  fflush : Bool
  rename : Bool

/-- `replace_crontab`: whether it reports success, and the spool afterwards. The temporary file is unlinked
on return, once it is open. -/
def replaceCrontab (calls : ReplaceCalls) (input : Input) (old : Option Bytes) : Bool × Spool :=
  if !calls.mkostemp then (false, { crontab := old, temp := none })
  else if !calls.fdopen then (false, { crontab := old, temp := some [] })
  else
    let temp := copyFILE calls.fwrite (input.length + 1) 0 input []
    if !calls.fflush then (false, { crontab := old, temp := none })
    else if !calls.rename then (false, { crontab := old, temp := none })
    else (true, { crontab := some temp, temp := none })

/-! ### `crontab_setgid` -/

/-- `rtrim`: the first octet stays. -/
def rtrim : Bytes → Bytes
  | [] => []
  | c :: r => c :: r.rdropWhile fun c => c == SPACE || c == LF

/-- The size of a buffer for a user name. -/
def LOGIN_NAME_MAX : Nat := 256

/-- Whether a file lists a user. -/
def lists (file : Input) (name : Bytes) : Bool :=
  (fgetss (LOGIN_NAME_MAX - 1) (file.length + 1) file).any fun users => rtrim (cstr users) == name

/-- Who runs `crontab_setgid`, and the contents of `/etc/cron.allow` and `/etc/cron.deny`. -/
structure SetgidCaller where
  name : Bytes
  allow : Option Input
  deny : Option Input
  DEFAULT_NOACCESS : Bool

/-- The access check of the `w` action. -/
def SetgidCaller.mayInstall (caller : SetgidCaller) : Bool :=
  match caller.allow, caller.deny with
  | some allow, _ => lists allow caller.name
  | none, some deny => !lists deny caller.name
  | none, none => !caller.DEFAULT_NOACCESS

def MAX_COMMAND : Nat := 1000
def MAX_LINES : Nat := 1000

/-- The loop of the `w` action, after `lines` rounds, of which the next `fputs` succeed or not: what the stream
has taken in the end, or nothing if the action fails. -/
def writeLoop (fputs : Nat → Bool) : Nat → Nat → Input → Bytes → Option Bytes
  | 0, _, _, out => some out
  | fuel + 1, lines, input, out =>
    match fgets (MAX_COMMAND - 1) input with
    | (none, _) => some out
    | (some buffer, input) =>
      if !fputs lines then none
      else if MAX_LINES < lines + 1 then none
      else writeLoop fputs fuel (lines + 1) input (out ++ cstr buffer)

/-- How the calls of the `w` action turn out. -/
structure SetgidCalls where
  mkstemp : Bool
  fdopen : Bool
  fputs : Nat → Bool
  fclose : Bool
  rename : Bool

/-- `crontab_setgid w`: whether it exits with success, and the spool afterwards. -/
def setgidWrite (caller : SetgidCaller) (calls : SetgidCalls) (input : Input) (old : Option Bytes) :
    Bool × Spool :=
  if !caller.mayInstall then (false, { crontab := old, temp := none })
  else if !calls.mkstemp then (false, { crontab := old, temp := none })
  else if !calls.fdopen then (false, { crontab := old, temp := none })
  else
    match writeLoop calls.fputs (input.length + 1) 0 input [] with
    | none => (false, { crontab := old, temp := none })
    | some temp =>
      if !calls.fclose then (false, { crontab := old, temp := none })
      else if !calls.rename then (false, { crontab := old, temp := none })
      else (true, { crontab := some temp, temp := none })

/-! ### What is copied -/

/-- What a stream takes of blocks, the first of them being the `i`-th. -/
def taken (fwrite : Nat → Nat) : Nat → List Bytes → Bytes
  | _, [] => []
  | i, b :: bs => b.take (fwrite i) ++ taken fwrite (i + 1) bs

theorem copyFILE_eq (fwrite : Nat → Nat) (fuel i : Nat) (input : Input) (out : Bytes) :
    copyFILE fwrite fuel i input out = out ++ taken fwrite i (freads 4096 fuel input) := by
  induction fuel generalizing i input out with
  | zero => exact (List.append_nil _).symm
  | succ fuel ih =>
    rw [copyFILE, freads]
    by_cases hr : (fread 4096 input).octets = []
    · simp only [hr, if_true, taken, List.append_nil]
    · simp only [hr, if_false, taken]
      by_cases he : (fread 4096 input).eof
      · simp only [he, if_true, taken, List.append_nil]
      · simp only [he, Bool.false_eq_true, if_false, ih, List.append_assoc]

theorem length_taken_le (fwrite : Nat → Nat) (i : Nat) (bs : List Bytes) :
    (taken fwrite i bs).length ≤ bs.flatten.length := by
  induction bs generalizing i with
  | nil => exact le_rfl
  | cons b bs ih =>
    simp only [taken, List.flatten_cons, List.length_append, List.length_take]
    have := ih (i + 1)
    omega

/-- Blocks are taken as they are exactly if no call takes less than its block. -/
theorem taken_eq_flatten_iff (fwrite : Nat → Nat) (i : Nat) (bs : List Bytes) :
    taken fwrite i bs = bs.flatten ↔ ∀ k b, bs[k]? = some b → b.length ≤ fwrite (i + k) := by
  induction bs generalizing i with
  | nil => simp [taken]
  | cons b bs ih =>
    constructor
    · intro h
      have hlen := congrArg List.length h
      have hle := length_taken_le fwrite (i + 1) bs
      simp only [taken, List.flatten_cons, List.length_append, List.length_take] at hlen
      have hb : b.length ≤ fwrite i := by omega
      rw [taken, List.take_of_length_le hb, List.flatten_cons, List.append_cancel_left_eq] at h
      rintro (- | k) b' hk
      · cases hk; exact hb
      · have := (ih (i + 1)).1 h k b' hk
        rwa [Nat.add_right_comm] at this
    · intro h
      have hb : b.length ≤ fwrite i := h 0 b rfl
      rw [taken, List.take_of_length_le hb, List.flatten_cons,
        (ih (i + 1)).2 fun k b' hk => by rw [Nat.add_right_comm]; exact h (k + 1) b' hk]

/-- The blocks of `copy_FILE`. -/
def copyBlocks (input : Input) : List Bytes := freads 4096 (input.length + 1) input

/-- `copy_FILE` copies everything exactly if no read fails between two blocks and every block is written
whole. -/
theorem copyFILE_eq_octets_iff (fwrite : Nat → Nat) (input : Input) :
    copyFILE fwrite (input.length + 1) 0 input [] = octets input ↔
      readsThrough 4096 4096 input ∧ ∀ k b, (copyBlocks input)[k]? = some b → b.length ≤ fwrite k := by
  have hpre := flatten_freads_isPrefix 4096 (input.length + 1) input
  have hlen := length_taken_le fwrite 0 (copyBlocks input)
  have hiff := taken_eq_flatten_iff fwrite 0 (copyBlocks input)
  simp only [Nat.zero_add] at hiff
  rw [copyFILE_eq, List.nil_append, ← hiff,
    ← flatten_freads_iff (by decide) (Nat.lt_succ_self input.length)]
  change taken fwrite 0 (copyBlocks input) = _ ↔ (copyBlocks input).flatten = _ ∧ _
  change (copyBlocks input).flatten <+: _ at hpre
  constructor
  · intro h
    have hflat := hpre.eq_of_length (le_antisymm hpre.length_le (h ▸ hlen))
    exact ⟨hflat, h.trans hflat.symm⟩
  · rintro ⟨hflat, h⟩
    exact h.trans hflat

/-- The texts of the `w` action's `fgets`. -/
def inputLines (input : Input) : List Bytes := fgetss (MAX_COMMAND - 1) (input.length + 1) input

/-- The loop of the `w` action writes the texts as C strings, if there are not too many and every one of
them is written. -/
theorem writeLoop_eq (fputs : Nat → Bool) (fuel : Nat) {lines : Nat} (hl : lines ≤ MAX_LINES)
    (input : Input) (out : Bytes) :
    let bs := fgetss (MAX_COMMAND - 1) fuel input
    writeLoop fputs fuel lines input out =
      if (∀ k < bs.length, fputs (lines + k)) ∧ lines + bs.length ≤ MAX_LINES then
        some (out ++ bs.flatMap cstr)
      else none := by
  induction fuel generalizing lines input out with
  | zero => simp [writeLoop, fgetss, hl]
  | succ fuel ih =>
    rw [writeLoop, fgetss]
    rcases fgets (MAX_COMMAND - 1) input with ⟨- | b, rest⟩
    · simp [hl]
    dsimp only
    by_cases hput : fputs lines
    · by_cases hmax : lines + 1 ≤ MAX_LINES
      · have hput' : (!fputs lines) = false := by rw [hput, Bool.not_true]
        rw [hput', if_neg Bool.false_ne_true, if_neg (by omega), ih hmax]
        generalize fgetss (MAX_COMMAND - 1) fuel rest = bs
        have hcond : ((∀ k < bs.length, fputs (lines + 1 + k)) ∧ lines + 1 + bs.length ≤ MAX_LINES) ↔
            (∀ k < (b :: bs).length, fputs (lines + k)) ∧ lines + (b :: bs).length ≤ MAX_LINES := by
          rw [List.length_cons]
          refine and_congr ⟨fun h => ?_, fun h k hk => ?_⟩ (by omega)
          · rintro (- | k) hk
            · exact hput
            · rw [Nat.add_comm k, ← Nat.add_assoc]
              exact h k (by omega)
          · rw [Nat.add_assoc, Nat.add_comm 1]
            exact h (k + 1) (by omega)
        simp only [hcond, List.flatMap_cons, List.append_assoc]
      · rw [if_neg (c := _ ∧ _) fun h => hmax (by simp only [List.length_cons] at h; omega)]
        split
        · rfl
        · rw [if_pos (by omega)]
    · have hput' : (!fputs lines) = true := by simp [hput]
      rw [hput', if_pos rfl, if_neg fun h => hput (h.1 0 (by simp))]

theorem length_flatMap_cstr_le (bs : List Bytes) : (bs.flatMap cstr).length ≤ bs.flatten.length := by
  induction bs with
  | nil => exact le_rfl
  | cons b bs ih =>
    have := (cstr_isPrefix b).length_le
    simp only [List.flatMap_cons, List.flatten_cons, List.length_append]
    omega

/-- Texts that are written as C strings are all written exactly if there is no NUL. -/
theorem flatMap_cstr_eq_iff (bs : List Bytes) : bs.flatMap cstr = bs.flatten ↔ NUL ∉ bs.flatten := by
  induction bs with
  | nil => simp
  | cons b bs ih =>
    rw [List.flatMap_cons, List.flatten_cons, List.mem_append, not_or]
    constructor
    · intro h
      have hb := (cstr_isPrefix b).length_le
      have hbs := length_flatMap_cstr_le bs
      have hlen := congrArg List.length h
      simp only [List.length_append] at hlen
      have hcstr : cstr b = b := (cstr_isPrefix b).eq_of_length (by omega)
      rw [hcstr, List.append_cancel_left_eq] at h
      exact ⟨cstr_eq_iff.1 hcstr, ih.1 h⟩
    · rintro ⟨h1, h2⟩
      rw [cstr_eq_iff.2 h1, ih.2 h2]

theorem flatMap_cstr_inputLines_iff (input : Input) : (inputLines input).flatMap cstr = octets input ↔
    linesThrough (MAX_COMMAND - 1) (MAX_COMMAND - 1) input ∧ NUL ∉ octets input := by
  have hpre := flatten_fgetss_isPrefix (MAX_COMMAND - 1) (input.length + 1) input
  rw [← flatten_fgetss_iff (by decide) (Nat.lt_succ_self input.length)]
  change (inputLines input).flatten <+: _ at hpre
  change _ ↔ (inputLines input).flatten = _ ∧ _
  have hcstr := flatMap_cstr_eq_iff (inputLines input)
  have hle := length_flatMap_cstr_le (inputLines input)
  constructor
  · intro h
    have hflat := hpre.eq_of_length (le_antisymm hpre.length_le (h ▸ hle))
    exact ⟨hflat, hflat ▸ hcstr.1 (h.trans hflat.symm)⟩
  · rintro ⟨hflat, hnul⟩
    exact (hcstr.2 (hflat ▸ hnul)).trans hflat

/-! ### All or nothing -/

/-- `replace_crontab` fails without a trace, or it copies everything. -/
def ReplaceCalls.Safe (calls : ReplaceCalls) (input : Input) : Prop :=
  calls.mkostemp = false ∨ calls.fdopen ∧ (calls.fflush = false ∨ calls.rename = false ∨
    readsThrough 4096 4096 input ∧ ∀ k b, (copyBlocks input)[k]? = some b → b.length ≤ calls.fwrite k)

/-- The `w` action fails, or it copies everything. -/
def SetgidCalls.Safe (caller : SetgidCaller) (calls : SetgidCalls) (input : Input) : Prop :=
  caller.mayInstall = false ∨ calls.mkstemp = false ∨ calls.fdopen = false ∨
  (∃ k < (inputLines input).length, calls.fputs k = false) ∨ MAX_LINES < (inputLines input).length ∨
  calls.fclose = false ∨ calls.rename = false ∨
  linesThrough (MAX_COMMAND - 1) (MAX_COMMAND - 1) input ∧ NUL ∉ octets input

theorem allOrNothing_failure (input : Input) (old : Option Bytes) :
    AllOrNothing input old (false, { crontab := old, temp := none }) := .inr rfl

theorem allOrNothing_success_iff {input : Input} {old : Option Bytes} {content : Bytes} :
    AllOrNothing input old (true, { crontab := some content, temp := none }) ↔ content = octets input := by
  simp [AllOrNothing]

theorem replaceCrontab_iff (calls : ReplaceCalls) (input : Input) (old : Option Bytes) :
    AllOrNothing input old (replaceCrontab calls input old) ↔ calls.Safe input := by
  obtain ⟨mkostemp, fdopen, fwrite, fflush, rename⟩ := calls
  unfold replaceCrontab ReplaceCalls.Safe
  cases mkostemp
  · exact iff_of_true (allOrNothing_failure input old) (.inl rfl)
  cases fdopen
  · exact iff_of_false (by simp [AllOrNothing]) (by simp)
  cases fflush
  · exact iff_of_true (allOrNothing_failure input old) (.inr ⟨rfl, .inl rfl⟩)
  cases rename
  · exact iff_of_true (allOrNothing_failure input old) (.inr ⟨rfl, .inr (.inl rfl)⟩)
  · refine allOrNothing_success_iff.trans ((copyFILE_eq_octets_iff fwrite input).trans ?_)
    simp

theorem setgidWrite_iff (caller : SetgidCaller) (calls : SetgidCalls) (input : Input)
    (old : Option Bytes) :
    AllOrNothing input old (setgidWrite caller calls input old) ↔ calls.Safe caller input := by
  obtain ⟨mkstemp, fdopen, fputs, fclose, rename⟩ := calls
  have hfail := allOrNothing_failure input old
  have hloop := writeLoop_eq fputs (input.length + 1) (Nat.zero_le MAX_LINES) input []
  simp only [Nat.zero_add, List.nil_append] at hloop
  unfold setgidWrite SetgidCalls.Safe
  cases caller.mayInstall
  · exact iff_of_true hfail (.inl rfl)
  cases mkstemp
  · exact iff_of_true hfail (.inr (.inl rfl))
  cases fdopen
  · exact iff_of_true hfail (.inr (.inr (.inl rfl)))
  simp only [Bool.not_true, Bool.false_eq_true, if_false, reduceCtorEq, false_or]
  by_cases hcond : (∀ k < (inputLines input).length, fputs k) ∧ (inputLines input).length ≤ MAX_LINES
  · rw [hloop.trans (if_pos hcond)]
    have hputs : ¬ ∃ k < (inputLines input).length, fputs k = false := by
      rintro ⟨k, hk, hf⟩
      rw [hcond.1 k hk] at hf
      cases hf
    simp only [hputs, not_lt.2 hcond.2, false_or]
    cases fclose
    · exact iff_of_true hfail (.inl rfl)
    cases rename
    · exact iff_of_true hfail (.inr (.inl rfl))
    · refine allOrNothing_success_iff.trans ((flatMap_cstr_inputLines_iff input).trans ?_)
      simp
  · rw [hloop.trans (if_neg hcond)]
    refine iff_of_true hfail ?_
    rcases not_and_or.1 hcond with h | h
    · push Not at h
      obtain ⟨k, hk, hf⟩ := h
      exact .inl ⟨k, hk, Bool.eq_false_iff.2 hf⟩
    · exact .inr (.inl (not_le.1 h))

/-- **Installing a crontab** is all or nothing on either path exactly if a call fails that is checked, or
if no read fails where its failure is taken for the end, every block is written whole and, for
`crontab_setgid`, there is no NUL. -/
theorem install_all_or_nothing (input : Input) (old : Option Bytes) :
    (∀ calls : ReplaceCalls,
      AllOrNothing input old (replaceCrontab calls input old) ↔ calls.Safe input) ∧
    ∀ (caller : SetgidCaller) (calls : SetgidCalls),
      AllOrNothing input old (setgidWrite caller calls input old) ↔ calls.Safe caller input :=
  ⟨fun calls => replaceCrontab_iff calls input old, fun caller calls =>
    setgidWrite_iff caller calls input old⟩

/-- A user under no access control. -/
def anyCaller : SetgidCaller where
  name := lit "user"
  allow := none
  deny := none
  DEFAULT_NOACCESS := false

/-- A first read that fails leaves an empty crontab, a block that is half written loses the other half, and a
NUL ends its line. -/
theorem install_loses_octets :
    ¬ (∀ input old,
      (∀ calls : ReplaceCalls, calls.mkostemp → calls.fdopen →
        AllOrNothing input old (replaceCrontab calls input old)) ∧
      ∀ caller calls, AllOrNothing input old (setgidWrite caller calls input old)) ∧
    replaceCrontab ⟨true, true, fun _ => 4096, true, true⟩ [none, some 97] none =
      (true, { crontab := some [], temp := none }) ∧
    replaceCrontab ⟨true, true, fun _ => 1, true, true⟩ [some 97, some 98] none =
      (true, { crontab := some [97], temp := none }) ∧
    setgidWrite anyCaller ⟨true, true, fun _ => true, true, true⟩ [some 97, some NUL, some 98, some LF]
      none = (true, { crontab := some [97], temp := none }) := by
  have hempty : replaceCrontab ⟨true, true, fun _ => 4096, true, true⟩ [none, some 97] none =
      (true, { crontab := some [], temp := none }) := rfl
  refine ⟨fun h => ?_, hempty, rfl, rfl⟩
  have hsafe := (h [none, some 97] none).1 ⟨true, true, fun _ => 4096, true, true⟩ rfl rfl
  rw [hempty] at hsafe
  revert hsafe
  unfold AllOrNothing
  decide

end SystemdCron
