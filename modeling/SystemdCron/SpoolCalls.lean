import SystemdCron.CrontabEffects
import SystemdCron.Lib.Machine
import SystemdCron.Lib.Volume

/-!
# The spool, call by call

Any number of processes work on the crontabs at the same time, each call of each process being a step: those of
`replace_crontab` and of the `w` action of the helper, the one that removes or wipes a crontab, and those of a
reader. `step_moves` says what a call does; `replaceIn_calls` and `setgidWriteIn_calls` say that the calls of an
installation, if nobody else does anything, are `replaceIn` and `setgidWriteIn`. A process may stop at any call.
-/

namespace SystemdCron

open Bytes Stdio

namespace SpoolCalls

/-- The name of a crontab has no dot. -/
abbrev CrontabName := { name : Bytes // 46 ∉ name }

/-- An installation, by `replace_crontab` or by the helper, of what is read in some pieces. -/
structure Installation where
  helper : Bool
  name : CrontabName
  template : Bytes
  pieces : List Bytes
  /-- The temporary file is none of the crontabs. -/
  dotted : ∀ letters d tmp, mkostemp template letters d = some tmp → 46 ∈ tmp

/-- The name of the temporary file of an installation has a dot. -/
theorem dot_mem_mkostemp {name : Bytes} {letters : Letters} {d : Directory} {tmp : Bytes}
    (h : mkostemp (name ++ lit ".XXXXXX") letters d = some tmp) : 46 ∈ tmp := by
  unfold mkostemp at h
  split at h
  · obtain ⟨htmp, -⟩ := Option.filter_eq_some_iff.1 h
    cases htmp
    rw [List.length_append, show (lit ".XXXXXX").length = 7 from rfl,
      show name.length + 7 - 6 = name.length + 1 by omega, List.take_append]
    simp [show lit ".XXXXXX" = 46 :: lit "XXXXXX" from rfl]
  · cases h

/-- `replace_crontab`. -/
def Installation.direct (dir : CrontabDir) (user : Bytes) (input : Input) (hdot : 46 ∉ cronFile user) :
    Installation where
  helper := false
  name := ⟨cronFile user, hdot⟩
  template := dir.template user
  pieces := copyBlocks input
  dotted letters d tmp h := (mkostemp_eq_some h).1 ▸ by simp

/-- The `w` action of the helper, once the user may install. -/
def Installation.byHelper (name : Bytes) (stdin : Input) (hdot : 46 ∉ cronFile name) : Installation where
  helper := true
  name := ⟨cronFile name, hdot⟩
  template := cronFile name ++ lit ".XXXXXX"
  pieces := (inputLines stdin).map cstr
  dotted _ _ _ h := dot_mem_mkostemp h

/-- What a process is to do. -/
inductive Task where
  | install (i : Installation)
  | unlink (name : CrontabName)
  | truncate (name : CrontabName)
  | read (name : CrontabName)

def Task.name : Task → CrontabName
  | install i => i.name
  | unlink name => name
  | truncate name => name
  | read name => name

/-- How far a process has come. -/
inductive Pc where
  | ready
  | created (tmp : Bytes) (file : Nat)
  /-- The stream has taken something, and the rest is still to be read. -/
  | copying (tmp : Bytes) (file : Nat) (taken : Bytes) (rest : List Bytes)
  | flushed (tmp : Bytes) (file : Nat)
  /-- The stream is to be closed and the temporary file to be unlinked. -/
  | failed (tmp : Bytes) (file : Nat) (taken : Bytes)
  | reading (file : Nat) (got : Bytes)
  | hasRead (got : Bytes)
  /-- All is done, with success if a crontab was changed. -/
  | over (ok : Bool)
  deriving DecidableEq

/-- The file that is written through a stream, and what the stream has taken. -/
def Pc.stream : Pc → Option (Nat × Bytes)
  | copying _ file taken _ => some (file, taken)
  | failed _ file taken => some (file, taken)
  | _ => none

structure State (P : Type) where
  volume : Volume Bytes Bytes
  pc : P → Pc

/-- A call, and how it turns out. -/
inductive Call (P : Type) where
  | mkostemp (p : P) (ok : Bool) (letters : Letters)
  | fdopen (p : P) (ok : Bool)
  /-- `fwrite` or `fputs` of the next piece, of which only so many octets may be taken. -/
  | fwrite (p : P) (short : Option Nat)
  /-- The stream writes what it has taken, up to so many octets. -/
  | write (p : P) (n : Nat)
  /-- `fflush` or `fclose`. -/
  | fflush (p : P) (ok : Bool)
  | rename (p : P) (ok : Bool)
  /-- To unlink the temporary file. -/
  | cleanup (p : P) (ok : Bool)
  | unlink (p : P) (ok : Bool)
  | truncate (p : P) (ok : Bool)
  | fopen (p : P) (ok : Bool)
  | read (p : P) (n : Nat)

/-- The process of a call. -/
def Call.process {P : Type} : Call P → P
  | mkostemp p _ _ => p
  | fdopen p _ => p
  | fwrite p _ => p
  | write p _ => p
  | fflush p _ => p
  | rename p _ => p
  | cleanup p _ => p
  | unlink p _ => p
  | truncate p _ => p
  | fopen p _ => p
  | read p _ => p

/-- What a process does after it has put a piece into its stream. The helper stops if not all of it is taken, or if
there are too many lines. -/
def Installation.put (i : Installation) (tmp : Bytes) (file : Nat) (taken piece : Bytes) (rest : List Bytes)
    (short : Option Nat) : Pc :=
  let taken := taken ++ short.elim piece fun n => piece.take n
  if i.helper && (short.isSome || decide (MAX_LINES < i.pieces.length - rest.length)) then .failed tmp file taken
  else .copying tmp file taken rest

variable {P : Type} [DecidableEq P] {s s' s'' : State P}

def State.set (s : State P) (v : Volume Bytes Bytes) (p : P) (pc : Pc) : State P where
  volume := v
  pc := Function.update s.pc p pc

@[simp] theorem State.set_volume (s : State P) (v : Volume Bytes Bytes) (p : P) (pc : Pc) : (s.set v p pc).volume = v :=
  rfl

@[simp] theorem State.set_pc_self (s : State P) (v : Volume Bytes Bytes) (p : P) (pc : Pc) : (s.set v p pc).pc p = pc :=
  Function.update_self ..

theorem State.set_pc_of_ne (s : State P) (v : Volume Bytes Bytes) {p q : P} (h : q ≠ p) (pc : Pc) :
    (s.set v p pc).pc q = s.pc q := Function.update_of_ne h ..

abbrev State.goto (s : State P) (p : P) (pc : Pc) : State P := s.set s.volume p pc

def step (task : P → Task) (s : State P) : Call P → Option (State P)
  | .mkostemp p ok letters =>
    match task p, s.pc p with
    | .install i, .ready =>
      match (mkostemp i.template letters s.volume.look).filter fun _ => ok with
      | none => some (s.goto p (.over false))
      | some tmp => some (s.set (s.volume.create tmp []) p (.created tmp s.volume.used))
    | _, _ => none
  | .fdopen p ok =>
    match task p, s.pc p with
    | .install i, .created tmp file =>
      some (s.goto p (if ok then .copying tmp file [] i.pieces
        else if i.helper then .failed tmp file [] else .over false))
    | _, _ => none
  | .fwrite p short =>
    match task p, s.pc p with
    | .install i, .copying tmp file taken (piece :: rest) => some (s.goto p (i.put tmp file taken piece rest short))
    | _, _ => none
  | .write p n =>
    match (s.pc p).stream with
    | some (file, taken) =>
      if (s.volume.content file).length ≤ n ∧ n ≤ taken.length then
        some (s.set (s.volume.write file (taken.take n)) p (s.pc p))
      else none
    | none => none
  | .fflush p ok =>
    match s.pc p with
    | .copying tmp file taken [] =>
      if ok then some (s.set (s.volume.write file taken) p (.flushed tmp file))
      else some (s.goto p (.failed tmp file taken))
    | _ => none
  | .rename p ok =>
    match task p, s.pc p with
    | .install i, .flushed tmp file =>
      if ok && (s.volume.file tmp).isSome && IsFileName i.name.1 then
        some (s.set (s.volume.rename tmp i.name.1) p (.over true))
      else some (s.goto p (.failed tmp file []))
    | _, _ => none
  | .cleanup p ok =>
    match s.pc p with
    | .failed tmp _ _ =>
      if ok then some (s.set (s.volume.unlink tmp) p (.over false)) else some (s.goto p (.over false))
    | _ => none
  | .unlink p ok =>
    match task p, s.pc p with
    | .unlink name, .ready =>
      if ok && (s.volume.file name.1).isSome then
        some (s.set (s.volume.unlink name.1) p (.over true))
      else some (s.goto p (.over false))
    | _, _ => none
  | .truncate p ok =>
    match task p, s.pc p with
    | .truncate name, .ready =>
      match (s.volume.file name.1).filter fun _ => ok with
      | none => some (s.goto p (.over false))
      | some file => some (s.set (s.volume.write file []) p (.over true))
    | _, _ => none
  | .fopen p ok =>
    match task p, s.pc p with
    | .read name, .ready =>
      match (s.volume.file name.1).filter fun _ => ok with
      | none => some (s.goto p (.over false))
      | some file => some (s.goto p (.reading file []))
    | _, _ => none
  | .read p n =>
    match s.pc p with
    | .reading file got =>
      let more := ((s.volume.content file).drop got.length).take (n + 1)
      some (s.goto p (if more = [] then .hasRead got else .reading file (got ++ more)))
    | _ => none

/-! ### What a step can do -/

/-- The temporary file that a process has, and its name. -/
def Pc.temp : Pc → Option (Bytes × Nat)
  | created tmp file => some (tmp, file)
  | copying tmp file _ _ => some (tmp, file)
  | flushed tmp file => some (tmp, file)
  | failed tmp file _ => some (tmp, file)
  | _ => none

/-- The calls that change no file. -/
inductive Goes (t : Task) : Pc → Pc → Prop
  | refused : Goes t .ready (.over false)
  | opened {i : Installation} (ht : t = .install i) (tmp : Bytes) (file : Nat) :
      Goes t (.created tmp file) (.copying tmp file [] i.pieces)
  | left {pc : Pc} {tmp : Bytes} {file : Nat} (hpc : pc.temp = some (tmp, file)) : Goes t pc (.over false)
  | put {i : Installation} (ht : t = .install i) (tmp : Bytes) (file : Nat) (taken piece : Bytes) (rest : List Bytes)
      (short : Option Nat) : Goes t (.copying tmp file taken (piece :: rest)) (i.put tmp file taken piece rest short)
  | failed {pc : Pc} {tmp : Bytes} {file : Nat} (hpc : pc.temp = some (tmp, file)) (taken : Bytes) :
      Goes t pc (.failed tmp file taken)

/-- What a step of a process does. -/
inductive Moves (task : P → Task) (s : State P) (p : P) : State P → Prop
  | goes {pc : Pc} (h : Goes (task p) (s.pc p) pc) : Moves task s p (s.goto p pc)
  | create {tmp : Bytes} (hpc : s.pc p = .ready) (hdot : 46 ∈ tmp) (hnew : s.volume.file tmp = none) :
      Moves task s p (s.set (s.volume.create tmp []) p (.created tmp s.volume.used))
  | write {taken : Bytes} {file n : Nat} (hpc : (s.pc p).stream = some (file, taken)) :
      Moves task s p (s.set (s.volume.write file (taken.take n)) p (s.pc p))
  | flush {tmp taken : Bytes} {file : Nat} (hpc : s.pc p = .copying tmp file taken []) :
      Moves task s p (s.set (s.volume.write file taken) p (.flushed tmp file))
  | rename {i : Installation} {tmp : Bytes} {file : Nat} (ht : task p = .install i) (hpc : s.pc p = .flushed tmp file) :
      Moves task s p (s.set (s.volume.rename tmp i.name.1) p (.over true))
  | cleanup {tmp taken : Bytes} {file : Nat} (hpc : s.pc p = .failed tmp file taken) :
      Moves task s p (s.set (s.volume.unlink tmp) p (.over false))
  | unlink {name : CrontabName} (ht : task p = .unlink name) (hpc : s.pc p = .ready) :
      Moves task s p (s.set (s.volume.unlink name.1) p (.over true))
  | truncate {name : CrontabName} {file : Nat} (ht : task p = .truncate name) (hpc : s.pc p = .ready)
      (hfile : s.volume.file name.1 = some file) :
      Moves task s p (s.set (s.volume.write file []) p (.over true))
  | fopen {name : CrontabName} {file : Nat} (ht : task p = .read name) (hpc : s.pc p = .ready)
      (hfile : s.volume.file name.1 = some file) : Moves task s p (s.goto p (.reading file []))
  | read {file : Nat} {got more : Bytes} (hpc : s.pc p = .reading file got)
      (hmore : more <+: (s.volume.content file).drop got.length)
      (hend : more = [] → (s.volume.content file).drop got.length = []) :
      Moves task s p (s.goto p (if more = [] then .hasRead got else .reading file (got ++ more)))

theorem Pc.temp_of_stream {pc : Pc} {file : Nat} {taken : Bytes} (h : pc.stream = some (file, taken)) :
    ∃ tmp, pc.temp = some (tmp, file) := by
  cases pc with
  | copying tmp file' taken' rest => cases h; exact ⟨tmp, rfl⟩
  | failed tmp file' taken' => cases h; exact ⟨tmp, rfl⟩
  | _ => cases h

theorem step_moves {a : Call P} (h : step task s a = some s') : Moves task s a.process s' := by
  cases a with
  | mkostemp p ok letters =>
    simp only [step] at h
    split at h
    next i ht hpc =>
      split at h
      next =>
        cases h
        exact .goes (hpc ▸ .refused)
      next tmp htmp =>
        cases h
        obtain ⟨htmp, -⟩ := Option.filter_eq_some_iff.1 htmp
        exact .create hpc (i.dotted _ _ _ htmp) (Option.map_eq_none_iff.1 (mkostemp_new htmp).2)
    next => cases h
  | fdopen p ok =>
    simp only [step] at h
    split at h
    next i tmp file ht hpc =>
      cases h
      refine .goes ?_
      rw [Call.process, hpc]
      split
      · exact .opened ht tmp file
      · split
        · exact .failed rfl _
        · exact .left rfl
    next => cases h
  | fwrite p short =>
    simp only [step] at h
    split at h
    next i tmp file taken piece rest ht hpc =>
      cases h
      exact .goes (by rw [Call.process, hpc]; exact .put ht ..)
    next => cases h
  | write p n =>
    simp only [step] at h
    split at h
    next file taken hpc =>
      split at h
      · cases h; exact .write hpc
      · cases h
    next => cases h
  | fflush p ok =>
    simp only [step] at h
    split at h
    next tmp file taken hpc =>
      split at h
      · cases h; exact .flush hpc
      · cases h; exact .goes (by rw [Call.process, hpc]; exact .failed rfl _)
    next => cases h
  | rename p ok =>
    simp only [step] at h
    split at h
    next i tmp file ht hpc =>
      split at h
      · cases h; exact .rename ht hpc
      · cases h; exact .goes (by rw [Call.process, hpc]; exact .failed rfl _)
    next => cases h
  | cleanup p ok =>
    simp only [step] at h
    split at h
    next tmp file taken hpc =>
      split at h
      · cases h; exact .cleanup hpc
      · cases h; exact .goes (by rw [Call.process, hpc]; exact .left rfl)
    next => cases h
  | unlink p ok =>
    simp only [step] at h
    split at h
    next name ht hpc =>
      split at h
      · cases h; exact .unlink ht hpc
      · cases h; exact .goes (by rw [Call.process, hpc]; exact .refused)
    next => cases h
  | truncate p ok =>
    simp only [step] at h
    split at h
    next name ht hpc =>
      split at h
      next => cases h; exact .goes (by rw [Call.process, hpc]; exact .refused)
      next file hfile =>
        cases h
        exact .truncate ht hpc (Option.filter_eq_some_iff.1 hfile).1
    next => cases h
  | fopen p ok =>
    simp only [step] at h
    split at h
    next name ht hpc =>
      split at h
      next => cases h; exact .goes (by rw [Call.process, hpc]; exact .refused)
      next file hfile =>
        cases h
        exact .fopen ht hpc (Option.filter_eq_some_iff.1 hfile).1
    next => cases h
  | read p n =>
    simp only [step] at h
    split at h
    next file got hpc =>
      cases h
      refine .read hpc (List.take_prefix _ _) fun hnil => ?_
      rcases List.take_eq_nil_iff.1 hnil with h0 | h0
      · cases h0
      · exact h0
    next => cases h

/-! ### One call after the other -/

/-- The calls of one process. -/
abbrev Alone (task : P → Task) (p : P) : State P → State P → Prop :=
  Relation.ReflTransGen (Machine.Next (step task) fun _ a => a.process = p)

theorem State.set_set (s : State P) (v v' : Volume Bytes Bytes) (p : P) (pc pc' : Pc) :
    (s.set v p pc).set v' p pc' = s.set v' p pc' := by rw [State.set, State.set, State.set, Function.update_idem]

theorem alone_cons (a : Call P) (ha : a.process = p) (hstep : step task s a = some s') (h : Alone task p s' s'') :
    Alone task p s s'' := .head ⟨a, ha, hstep⟩ h

/-- An installation that cannot create its temporary file. -/
theorem alone_refused {i : Installation} (ht : task p = .install i) (hpc : s.pc p = .ready) (letters : Letters) :
    Alone task p s (s.goto p (.over false)) := by
  refine alone_cons (.mkostemp p false letters) rfl ?_ .refl
  have hnone : (mkostemp i.template letters s.volume.look).filter (fun _ => false) = none :=
    Option.filter_eq_none_iff.2 fun _ _ => Bool.false_ne_true
  simp only [step, ht, hpc, hnone]

theorem alone_cleanup {tmp taken : Bytes} {file : Nat} (hpc : s.pc p = .failed tmp file taken) :
    Alone task p s (s.set (s.volume.unlink tmp) p (.over false)) :=
  alone_cons (.cleanup p true) rfl (by simp only [step, hpc, if_true]) .refl

/-- The last calls of an installation whose stream has taken a text: the file is renamed, or it is unlinked. -/
theorem alone_finish {i : Installation} {tmp text : Bytes} {file : Nat} (ht : task p = .install i)
    (hs : s.volume.Sound) (hdot : 46 ∈ tmp) (hfile : s.volume.file tmp = some file)
    (hpc : s.pc p = .copying tmp file text []) (fflush rename : Bool) :
    let ok := fflush && (rename && IsFileName i.name.1)
    ∃ s', Alone task p s s' ∧ s'.pc p = .over ok ∧ s'.volume.look =
      Function.update (if ok then Function.update s.volume.look i.name.1 (some text) else s.volume.look) tmp none := by
  have hne : tmp ≠ i.name.1 := fun h => i.name.2 (h ▸ hdot)
  cases fflush with
  | false =>
    have hflush : step task s (.fflush p false) = some (s.goto p (.failed tmp file text)) := by simp [step, hpc]
    refine ⟨_, alone_cons _ rfl hflush (alone_cleanup (State.set_pc_self ..)), State.set_pc_self .., ?_⟩
    rw [State.set_volume, Volume.look_unlink]
    rfl
  | true =>
    have hflush : step task s (.fflush p true) = some (s.set (s.volume.write file text) p (.flushed tmp file)) := by
      simp [step, hpc]
    have hlook : (s.volume.write file text).look = Function.update s.volume.look tmp (some text) :=
      Volume.look_write hs hfile text
    have hrename : step task (s.set (s.volume.write file text) p (.flushed tmp file)) (.rename p rename) =
        if rename && IsFileName i.name.1 then
          some ((s.set (s.volume.write file text) p (.flushed tmp file)).set
            ((s.volume.write file text).rename tmp i.name.1) p (.over true))
        else some ((s.set (s.volume.write file text) p (.flushed tmp file)).goto p (.failed tmp file [])) := by
      have hthere : ((s.volume.write file text).file tmp).isSome := Option.isSome_iff_exists.2 ⟨file, hfile⟩
      simp only [step, ht, State.set_pc_self, State.set_volume, hthere, Bool.and_true]
    rw [Bool.true_and]
    cases hok : rename && decide (IsFileName i.name.1) with
    | false =>
      rw [hok, if_neg Bool.false_ne_true] at hrename
      refine ⟨_, alone_cons _ rfl hflush (alone_cons _ rfl hrename (alone_cleanup (State.set_pc_self ..))),
        State.set_pc_self .., ?_⟩
      rw [State.set_volume, Volume.look_unlink, State.set_volume, State.set_volume, hlook, Function.update_idem,
        if_neg Bool.false_ne_true]
    | true =>
      rw [hok, if_pos rfl] at hrename
      refine ⟨_, alone_cons _ rfl hflush (alone_cons _ rfl hrename .refl), State.set_pc_self .., ?_⟩
      rw [State.set_volume, Volume.look_rename, hlook, Function.update_self, if_pos rfl,
        Function.update_comm hne, Function.update_idem]

/-- The calls of an installation up to the first piece. -/
theorem alone_create {i : Installation} {letters : Letters} {tmp : Bytes} (ht : task p = .install i)
    (hs : s.volume.Sound) (hpc : s.pc p = .ready)
    (htmp : mkostemp i.template letters s.volume.look = some tmp) :
    let s₁ := s.set (s.volume.create tmp []) p (.created tmp s.volume.used)
    Alone task p s s₁ ∧ s₁.volume.Sound ∧ s₁.volume.file tmp = some s.volume.used ∧
      s₁.volume.look = Function.update s.volume.look tmp (some []) := by
  refine ⟨alone_cons (.mkostemp p true letters) rfl ?_ .refl, hs.create tmp [], Function.update_self ..,
    Volume.look_create hs tmp []⟩
  simp only [step, ht, hpc, htmp, Option.filter_some, if_true]

/-- `copy_FILE`. -/
theorem alone_fwrite {i : Installation} (ht : task p = .install i) (hi : i.helper = false) {tmp out : Bytes}
    {file : Nat} {bs : List Bytes} (hpc : s.pc p = .copying tmp file out bs) (fwrite : Nat → Nat) (k : Nat) :
    Alone task p s (s.goto p (.copying tmp file (out ++ taken fwrite k bs) [])) := by
  induction bs generalizing s out k with
  | nil =>
    rw [taken, List.append_nil, ← hpc, State.goto, State.set, Function.update_eq_self]
  | cons b bs ih =>
    have hstep : step task s (.fwrite p (some (fwrite k))) =
        some (s.goto p (.copying tmp file (out ++ b.take (fwrite k)) bs)) := by
      simp only [step, ht, hpc, Installation.put, hi]
      rfl
    have hrest := ih (State.set_pc_self s s.volume p (.copying tmp file (out ++ b.take (fwrite k)) bs)) (k + 1)
    rw [State.goto, State.set_set, List.append_assoc] at hrest
    exact alone_cons _ rfl hstep hrest

/-- **`replace_crontab`, call by call**, is `replaceIn` if nobody else does anything. -/
theorem replaceIn_calls {dir : CrontabDir} {user : Bytes} {input : Input} {hdot : 46 ∉ cronFile user}
    (ht : task p = .install (.direct dir user input hdot)) (hs : s.volume.Sound) (hpc : s.pc p = .ready)
    (calls : ReplaceCalls) (letters : Letters) :
    let r := replaceIn dir calls letters user input s.volume.look
    ∃ s', Alone task p s s' ∧ s'.pc p = .over r.1 ∧ s'.volume.look = r.2 := by
  unfold replaceIn
  split
  next => exact ⟨_, alone_refused ht hpc letters, State.set_pc_self .., rfl⟩
  next tmp htmp =>
    obtain ⟨htmpname, -, hnew⟩ := mkostemp_eq_some htmp
    have hdot' : 46 ∈ tmp := htmpname ▸ by simp
    have hne : tmp ≠ cronFile user := fun h => hdot (h ▸ hdot')
    obtain ⟨hcreate, hsound, hfile, hlook⟩ := alone_create ht hs hpc htmp
    obtain ⟨mkostemp, fdopen, fwrite, fflush, rename⟩ := calls
    dsimp only [replaceCrontab]
    rw [copyFILE_eq, List.nil_append]
    generalize hs₁ : s.set (s.volume.create tmp []) p (.created tmp s.volume.used) = s₁ at hcreate hsound hfile hlook
    have hpc₁ : s₁.pc p = .created tmp s.volume.used := hs₁ ▸ State.set_pc_self ..
    have hkeep : Function.update (Function.update s.volume.look (cronFile user) (s.volume.look (cronFile user))) tmp
        none = s.volume.look := by rw [Function.update_eq_self, Function.update_eq_self_iff.2 hnew.symm]
    have hkept : Function.update s₁.volume.look tmp none = s.volume.look := by
      rw [hlook, Function.update_idem, Function.update_eq_self_iff.2 hnew.symm]
    cases mkostemp with
    | false => exact ⟨_, alone_refused ht hpc letters, State.set_pc_self .., hkeep.symm⟩
    | true =>
      cases fdopen with
      | false =>
        have hstep : step task s₁ (.fdopen p false) = some (s₁.goto p (.over false)) := by
          simp only [step, ht, hpc₁]
          rfl
        refine ⟨_, hcreate.trans (alone_cons _ rfl hstep .refl), State.set_pc_self .., ?_⟩
        change s₁.volume.look =
          Function.update (Function.update s.volume.look (cronFile user) (s.volume.look (cronFile user))) tmp (some [])
        rw [hlook, Function.update_eq_self]
      | true =>
        have hstep : step task s₁ (.fdopen p true) =
            some (s₁.goto p (.copying tmp s.volume.used [] (copyBlocks input))) := by
          simp only [step, ht, hpc₁]
          rfl
        have hcopy := alone_fwrite ht rfl (State.set_pc_self s₁ s₁.volume p
          (.copying tmp s.volume.used [] (copyBlocks input))) fwrite 0
        obtain ⟨s', hfinish, hpc', hlook'⟩ := alone_finish (s := s₁.goto p
          (.copying tmp s.volume.used ([] ++ taken fwrite 0 (copyBlocks input)) [])) ht hsound hdot' hfile
          (State.set_pc_self ..) fflush rename
        rw [State.goto, State.set_set] at hcopy
        change s'.pc p = .over (fflush && (rename && decide (IsFileName (cronFile user)))) at hpc'
        change s'.volume.look = Function.update (if fflush && (rename && decide (IsFileName (cronFile user))) then
          Function.update s₁.volume.look (cronFile user) (some (taken fwrite 0 (copyBlocks input)))
          else s₁.volume.look) tmp none at hlook'
        refine ⟨s', hcreate.trans (alone_cons _ rfl hstep (hcopy.trans hfinish)), ?_⟩
        rw [hpc', hlook']
        cases fflush with
        | false => exact ⟨rfl, hkept.trans hkeep.symm⟩
        | true =>
          cases rename && decide (IsFileName (cronFile user)) with
          | false => exact ⟨rfl, hkept.trans hkeep.symm⟩
          | true =>
            refine ⟨rfl, ?_⟩
            change Function.update (Function.update s₁.volume.look (cronFile user) _) tmp none =
              Function.update (Function.update s.volume.look (cronFile user) _) tmp none
            rw [hlook, Function.update_comm hne, Function.update_idem]
            rfl

/-- The loop of the `w` action. -/
theorem alone_fputs {i : Installation} (ht : task p = .install i) (hi : i.helper = true) {tmp : Bytes} {file : Nat}
    (fputs : Nat → Bool) (fuel : Nat) {out : Bytes} {lines : Nat} {input : Input}
    (hpc : s.pc p = .copying tmp file out ((fgetss (MAX_COMMAND - 1) fuel input).map cstr))
    (hlines : i.pieces.length = lines + (fgetss (MAX_COMMAND - 1) fuel input).length) :
    match writeLoop fputs fuel lines input out with
    | some text => Alone task p s (s.goto p (.copying tmp file text []))
    | none => ∃ out', Alone task p s (s.goto p (.failed tmp file out')) := by
  have hnothing {s : State P} {out : Bytes} (hpc : s.pc p = .copying tmp file out []) :
      Alone task p s (s.goto p (.copying tmp file out [])) := by
    rw [← hpc, State.goto, State.set, Function.update_eq_self]
  induction fuel generalizing s out lines input with
  | zero => exact hnothing hpc
  | succ fuel ih =>
    rw [fgetss] at hpc hlines
    rw [writeLoop]
    generalize fgets (MAX_COMMAND - 1) input = r at hpc hlines ⊢
    obtain ⟨- | buffer, rest⟩ := r
    · exact hnothing hpc
    dsimp only at hpc hlines ⊢
    have hstep (short : Option Nat) : step task s (.fwrite p short) =
        some (s.goto p (i.put tmp file out (cstr buffer) ((fgetss (MAX_COMMAND - 1) fuel rest).map cstr) short)) := by
      rw [List.map_cons] at hpc
      simp only [step, ht, hpc]
    have hcount : i.pieces.length - ((fgetss (MAX_COMMAND - 1) fuel rest).map cstr).length = lines + 1 := by
      rw [hlines, List.length_cons, List.length_map]
      omega
    cases hput : fputs lines with
    | false =>
      have hshort := hstep (some 0)
      simp only [Installation.put, hi, Option.isSome_some, Bool.true_or, Bool.and_self, if_true] at hshort
      exact ⟨_, alone_cons _ rfl hshort .refl⟩
    | true =>
      have hwhole := hstep none
      simp only [Installation.put, hi, hcount, Option.isSome_none, Bool.false_or, Bool.true_and, Option.elim_none,
        decide_eq_true_eq] at hwhole
      rw [if_neg (by simp)]
      by_cases hmax : MAX_LINES < lines + 1
      · rw [if_pos hmax] at hwhole ⊢
        exact ⟨_, alone_cons _ rfl hwhole .refl⟩
      · rw [if_neg hmax] at hwhole ⊢
        have hrest := @ih (s.goto p (.copying tmp file (out ++ cstr buffer)
          ((fgetss (MAX_COMMAND - 1) fuel rest).map cstr))) (out ++ cstr buffer) (lines + 1) rest
          (State.set_pc_self ..) (by rw [hlines, List.length_cons]; omega)
        simp only [State.goto, State.set_set] at hrest
        split at hrest
        next => exact alone_cons _ rfl hwhole hrest
        next =>
          obtain ⟨out', hrest⟩ := hrest
          exact ⟨out', alone_cons _ rfl hwhole hrest⟩

/-- **The `w` action, call by call**, is `setgidWriteIn` for a user who may install, if nobody else does anything. -/
theorem setgidWriteIn_calls {name : Bytes} {stdin : Input} {hdot : 46 ∉ cronFile name}
    (ht : task p = .install (.byHelper name stdin hdot)) (hs : s.volume.Sound) (hpc : s.pc p = .ready) (run : SetgidRun)
    (hmay : ({ name, allow := run.allow, deny := run.deny, DEFAULT_NOACCESS := run.DEFAULT_NOACCESS } :
      SetgidCaller).mayInstall) :
    let r := setgidWriteIn run name stdin s.volume.look
    ∃ s', Alone task p s s' ∧ s'.pc p = .over r.1 ∧ s'.volume.look = r.2 := by
  unfold setgidWriteIn
  dsimp only [setgidWrite]
  rw [hmay]
  have hkeep := Function.update_eq_self (cronFile name) s.volume.look
  obtain ⟨⟨mkstemp, fdopen, fputs, fclose, rename⟩, hrun⟩ : ∃ calls : SetgidCalls, run.write = calls := ⟨_, rfl⟩
  rw [hrun]
  dsimp only
  cases htmp : mkostemp (cronFile name ++ lit ".XXXXXX") run.letters s.volume.look with
  | none =>
    refine ⟨_, alone_refused ht hpc run.letters, ?_⟩
    rw [State.set_pc_self, Option.isSome_none, Bool.and_false]
    exact ⟨rfl, hkeep.symm⟩
  | some tmp =>
    have hdot' : 46 ∈ tmp := dot_mem_mkostemp htmp
    obtain ⟨-, hnew⟩ := mkostemp_new htmp
    have hne : tmp ≠ cronFile name := fun h => hdot (h ▸ hdot')
    obtain ⟨hcreate, hsound, hfile, hlook⟩ := alone_create ht hs hpc htmp
    generalize hs₁ : s.set (s.volume.create tmp []) p (.created tmp s.volume.used) = s₁ at hcreate hsound hfile hlook
    have hpc₁ : s₁.pc p = .created tmp s.volume.used := hs₁ ▸ State.set_pc_self ..
    have hkept : Function.update s₁.volume.look tmp none = s.volume.look := by
      rw [hlook, Function.update_idem, Function.update_eq_self_iff.2 hnew.symm]
    cases mkstemp with
    | false =>
      refine ⟨_, alone_refused ht hpc run.letters, State.set_pc_self .., hkeep.symm⟩
    | true =>
      cases fdopen with
      | false =>
        have hstep : step task s₁ (.fdopen p false) = some (s₁.goto p (.failed tmp s.volume.used [])) := by
          simp only [step, ht, hpc₁]
          rfl
        refine ⟨_, hcreate.trans (alone_cons _ rfl hstep (alone_cleanup (State.set_pc_self ..))),
          State.set_pc_self .., ?_⟩
        rw [State.set_volume, Volume.look_unlink, State.set_volume, hkept]
        exact hkeep.symm
      | true =>
        have hstep : step task s₁ (.fdopen p true) =
            some (s₁.goto p (.copying tmp s.volume.used [] ((inputLines stdin).map cstr))) := by
          simp only [step, ht, hpc₁]
          rfl
        have hcount : (Installation.byHelper name stdin hdot).pieces.length = 0 + (inputLines stdin).length := by
          rw [Nat.zero_add]
          exact List.length_map ..
        have hloop := alone_fputs ht rfl fputs (stdin.length + 1) (s := s₁.goto p
          (.copying tmp s.volume.used [] ((inputLines stdin).map cstr))) (State.set_pc_self ..) hcount
        change match writeLoop fputs (stdin.length + 1) 0 stdin [] with
          | some text => Alone task p _ _
          | none => ∃ out', Alone task p _ _ at hloop
        cases hwrite : writeLoop fputs (stdin.length + 1) 0 stdin [] with
        | none =>
          rw [hwrite] at hloop
          obtain ⟨out', hloop⟩ := hloop
          refine ⟨_, hcreate.trans (alone_cons _ rfl hstep (hloop.trans (alone_cleanup (State.set_pc_self ..)))),
            State.set_pc_self .., ?_⟩
          rw [State.set_volume, Volume.look_unlink, State.set_volume, State.set_volume, hkept]
          exact hkeep.symm
        | some text =>
          rw [hwrite] at hloop
          obtain ⟨s', hfinish, hpc', hlook'⟩ := alone_finish (s := (s₁.goto p
            (.copying tmp s.volume.used [] ((inputLines stdin).map cstr))).goto p
              (.copying tmp s.volume.used text [])) ht hsound hdot' hfile (State.set_pc_self ..) fclose rename
          change s'.pc p = .over (fclose && (rename && decide (IsFileName (cronFile name)))) at hpc'
          change s'.volume.look = Function.update (if fclose && (rename && decide (IsFileName (cronFile name))) then
            Function.update s₁.volume.look (cronFile name) (some text) else s₁.volume.look) tmp none at hlook'
          refine ⟨s', hcreate.trans (alone_cons _ rfl hstep (hloop.trans hfinish)), ?_⟩
          rw [hpc', hlook']
          cases fclose with
          | false => exact ⟨rfl, hkept.trans hkeep.symm⟩
          | true =>
            cases rename && decide (IsFileName (cronFile name)) with
            | false => exact ⟨rfl, hkept.trans hkeep.symm⟩
            | true =>
              refine ⟨rfl, ?_⟩
              change Function.update (Function.update s₁.volume.look (cronFile name) (some text)) tmp none =
                Function.update s.volume.look (cronFile name) (some text)
              rw [Function.update_comm hne.symm, hkept]

end SpoolCalls

end SystemdCron
