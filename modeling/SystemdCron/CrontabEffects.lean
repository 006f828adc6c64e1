import SystemdCron.CrontabCommand

/-!
# What `crontab` does to the crontabs

A crontab is a file of the spool without a dot in its name: those that the generator parses. Every action of
`crontab`, and every run of `crontab_setgid`, keeps all of them or changes a single one (`Touches`): that of the
user it is asked for, by a call of its own, or that of the user it runs as, by the helper.
-/

namespace SystemdCron

open Bytes Stdio

/-! ### Changes -/

/-- All crontabs are kept. -/
def Keeps (d d' : Directory) : Prop := ∀ name, 46 ∉ name → d' name = d name

/-- All crontabs are kept but one. -/
def Sets (d d' : Directory) (name : Bytes) (v : Option Bytes) : Prop :=
  ∀ other, 46 ∉ other → d' other = if other = name then v else d other

theorem keeps_refl (d : Directory) : Keeps d d := fun _ _ => rfl

theorem Keeps.trans {d d' d'' : Directory} (h : Keeps d d') (h' : Keeps d' d'') : Keeps d d'' := fun name hname =>
  (h' name hname).trans (h name hname)

theorem Keeps.sets {d d' d'' : Directory} {name : Bytes} {v : Option Bytes} (h : Keeps d d')
    (h' : Sets d' d'' name v) : Sets d d'' name v := fun other hother => by rw [h' other hother, h other hother]

theorem sets_update (d : Directory) (name : Bytes) (v : Option Bytes) : Sets d (Function.update d name v) name v :=
  fun other _ => Function.update_apply d name v other

theorem keeps_update {d : Directory} {name : Bytes} (h : 46 ∈ name) (v : Option Bytes) :
    Keeps d (Function.update d name v) := fun other hother =>
  Function.update_of_ne (fun heq : other = name => hother (heq ▸ h)) _ _

/-! ### Installing -/

/-- `copy_FILE` loses nothing of a text: no read fails where its failure is taken for the end, and every block is
written whole. -/
def BlocksWhole (fwrite : Nat → Nat) (reader : Reader) (content : Bytes) : Prop :=
  readsThrough 4096 4096 (reader.stream content) ∧
    ∀ k b, (copyBlocks (reader.stream content))[k]? = some b → b.length ≤ fwrite k

theorem blocksWhole_iff (fwrite : Nat → Nat) (reader : Reader) (content : Bytes) :
    BlocksWhole fwrite reader content ↔
      copyFILE fwrite ((reader.stream content).length + 1) 0 (reader.stream content) [] = content := by
  have h := copyFILE_eq_octets_iff fwrite (reader.stream content)
  rw [reader.octets_stream] at h
  exact h.symm

/-- The helper loses nothing of a text: no read fails within a line, and there is no NUL. -/
def LinesWhole (reader : Reader) (content : Bytes) : Prop :=
  linesThrough (MAX_COMMAND - 1) (MAX_COMMAND - 1) (reader.stream content) ∧ NUL ∉ content

theorem linesWhole_iff (reader : Reader) (content : Bytes) :
    LinesWhole reader content ↔ (inputLines (reader.stream content)).flatMap cstr = content := by
  have h := flatMap_cstr_inputLines_iff (reader.stream content)
  rw [reader.octets_stream] at h
  exact h.symm

/-- What `replace_crontab` leaves in the spool: the crontab, or at most an empty temporary file. -/
theorem replaceIn_spool (dir : CrontabDir) (calls : ReplaceCalls) (letters : Letters) (user : Bytes)
    (input : Input) (d : Directory) :
    let r := replaceIn dir calls letters user input d
    (r.1 = false → ∃ tmp v, 46 ∈ tmp ∧ tmp ≠ cronFile user ∧ r.2 = Function.update d tmp v) ∧
    (r.1 = true → calls.mkostemp ∧ r.2 =
      Function.update d (cronFile user) (some (copyFILE calls.fwrite (input.length + 1) 0 input []))) := by
  unfold replaceIn
  split
  next =>
    refine ⟨fun _ => ⟨46 :: cronFile user, d (46 :: cronFile user), by simp, fun h => ?_, ?_⟩, nofun⟩
    · have := congrArg List.length h
      rw [List.length_cons] at this
      omega
    · rw [Function.update_eq_self]
  next tmp htmp =>
    obtain ⟨htmp, -, hnew⟩ := mkostemp_eq_some htmp
    have hdot : 46 ∈ tmp := htmp ▸ by simp
    have hne : tmp ≠ cronFile user := fun heq => by
      have := congrArg List.length (htmp.symm.trans heq)
      rw [List.length_append, cronFile, List.length_take, List.length_cons] at this
      omega
    obtain ⟨mkostemp, fdopen, fwrite, fflush, rename⟩ := calls
    dsimp only [replaceCrontab]
    have hself (v : Option Bytes) : Function.update (Function.update d (cronFile user) (d (cronFile user))) tmp v =
        Function.update d tmp v := by rw [Function.update_eq_self]
    cases mkostemp
    · exact ⟨fun _ => ⟨tmp, none, hdot, hne, hself none⟩, nofun⟩
    cases fdopen
    · exact ⟨fun _ => ⟨tmp, some [], hdot, hne, hself (some [])⟩, nofun⟩
    cases fflush
    · exact ⟨fun _ => ⟨tmp, none, hdot, hne, hself none⟩, nofun⟩
    cases hrename : rename && decide (IsFileName (cronFile user))
    · exact ⟨fun _ => ⟨tmp, none, hdot, hne, hself none⟩, nofun⟩
    · refine ⟨nofun, fun _ => ⟨rfl, Function.update_eq_self_iff.2 ?_⟩⟩
      rw [Function.update_of_ne hne, hnew]
      rfl

theorem replaceIn_keeps {dir : CrontabDir} {calls : ReplaceCalls} {letters : Letters} {user : Bytes}
    {input : Input} {d : Directory} (h : ¬ (replaceIn dir calls letters user input d).1) :
    Keeps d (replaceIn dir calls letters user input d).2 := by
  obtain ⟨tmp, v, hdot, -, hr⟩ := (replaceIn_spool dir calls letters user input d).1 (Bool.eq_false_iff.2 h)
  rw [hr]
  exact keeps_update hdot v

/-- What `crontab_setgid w` leaves in the spool. -/
theorem setgidWriteIn_spool (run : SetgidRun) (name : Bytes) (stdin : Input) (d : Directory) :
    let r := setgidWriteIn run name stdin d
    (r.1 = false → r.2 = d) ∧
    (r.1 = true → r.2 = Function.update d (cronFile name) (some ((inputLines stdin).flatMap cstr))) := by
  have hloop := writeLoop_eq run.write.fputs (stdin.length + 1) (Nat.zero_le MAX_LINES) stdin []
  simp only [Nat.zero_add, List.nil_append] at hloop
  unfold setgidWriteIn
  dsimp only [setgidWrite]
  have hkeep := Function.update_eq_self (cronFile name) d
  split
  · exact ⟨fun _ => hkeep, nofun⟩
  split
  · exact ⟨fun _ => hkeep, nofun⟩
  split
  · exact ⟨fun _ => hkeep, nofun⟩
  rw [hloop]
  split
  next => exact ⟨fun _ => hkeep, nofun⟩
  next tmp htmp =>
    split at htmp
    next =>
      cases htmp
      split
      · exact ⟨fun _ => hkeep, nofun⟩
      split
      · exact ⟨fun _ => hkeep, nofun⟩
      · exact ⟨nofun, fun _ => rfl⟩
    next => cases htmp

/-! ### One action -/

/-- What comes in the place of a crontab: nothing, an empty file, or a text of some kind. -/
inductive Placed (P : Bytes → Prop) : Option Bytes → Prop
  | removed : Placed P none
  | wiped : Placed P (some [])
  | installed {content : Bytes} (h : P content) : Placed P (some content)

/-- At most one crontab is changed, and it is one of some names. -/
def Touches (P : Bytes → Prop) (names : Bytes → Prop) (d d' : Directory) : Prop :=
  Keeps d d' ∨ ∃ name v, Sets d d' name v ∧ names name ∧ Placed P v

theorem touches_refl {P names : Bytes → Prop} (d : Directory) : Touches P names d d := .inl (keeps_refl d)

theorem Touches.mono {P P' names names' : Bytes → Prop} {d d' : Directory} (h : Touches P names d d')
    (hP : ∀ content, P content → P' content) (hnames : ∀ name, names name → names' name) :
    Touches P' names' d d' := by
  rcases h with h | ⟨name, v, hset, hname, hv⟩
  · exact .inl h
  · refine .inr ⟨name, v, hset, hnames name hname, ?_⟩
    cases hv with
    | removed => exact .removed
    | wiped => exact .wiped
    | installed h => exact .installed (hP _ h)

theorem Keeps.touches {P names : Bytes → Prop} {d d' d'' : Directory} (h : Keeps d d')
    (h' : Touches P names d' d'') : Touches P names d d'' := by
  rcases h' with h' | ⟨name, v, hset, hname, hv⟩
  · exact .inl (h.trans h')
  · exact .inr ⟨name, v, h.sets hset, hname, hv⟩

/-- What `unlink` leaves. -/
theorem unlink_ok {denied : Option Denial} {d d' : Directory} {name : Bytes} (h : unlink denied d name = .ok d') :
    denied = none ∧ d' = Function.update d name none := by
  unfold unlink at h
  split at h
  next => cases h
  next => cases h
  next => cases h; exact ⟨rfl, rfl⟩

/-- `unlink` finds nothing. -/
theorem unlink_eq_enoent {denied : Option Denial} {d : Directory} {name : Bytes}
    (h : unlink denied d name = .error .ENOENT) : denied = none ∧ d name = none := by
  unfold unlink at h
  split at h
  next => cases h
  next hname => exact ⟨rfl, hname⟩
  next => cases h

/-- `unlink` is refused. -/
theorem unlink_eq_denied {denied : Option Denial} {d : Directory} {name : Bytes} {e : Denial}
    (h : unlink denied d name = .error (.denied e)) : denied = some e := by
  unfold unlink at h
  split at h
  next => cases h; rfl
  next => cases h
  next => cases h

/-- The crontab of the user that a process runs as. -/
def Process.owns (p : Process) (name : Bytes) : Prop := p.uid ≠ 0 ∧ p.pwName.map cronFile = some name

/-- **The helper** changes the crontab of its user at most. -/
theorem setgidMain_touches (p : Process) (run : SetgidRun) (argv1 : Bytes) (stdin : Input) (d : Directory) :
    Touches (fun content => argv1.head? = some 119 ∧ content = (inputLines stdin).flatMap cstr) p.owns d
      (setgidMain p run argv1 stdin d).2.2 := by
  unfold setgidMain
  split
  next => exact touches_refl d
  next => exact touches_refl d
  next huid hpw =>
    have hown : p.owns (cronFile _) := ⟨of_decide_eq_false huid, by rw [hpw]; rfl⟩
    split
    · split <;> exact touches_refl d
    split
    next hw =>
      obtain ⟨hfail, hdone⟩ := setgidWriteIn_spool run _ stdin d
      cases hr : (setgidWriteIn run _ stdin d).1 with
      | false =>
        dsimp only
        rw [hfail hr]
        exact touches_refl d
      | true =>
        dsimp only
        rw [hdone hr]
        exact .inr ⟨_, _, sets_update d _ _, hown, .installed ⟨hw, rfl⟩⟩
    split
    next =>
      split
      next hd =>
        obtain ⟨-, rfl⟩ := unlink_ok hd
        exact .inr ⟨_, _, sets_update d _ none, hown, .removed⟩
      next => exact touches_refl d
      next => exact touches_refl d
    next => exact touches_refl d

theorem execSetgid_touches (p : Process) (run : SetgidRun) (argv1 : Bytes) (stdin : Input) (d : Directory) :
    Touches (fun content => argv1.head? = some 119 ∧ content = (inputLines stdin).flatMap cstr) p.owns d
      (execSetgid p run argv1 stdin d).2.2 := by
  unfold execSetgid
  split
  · exact touches_refl d
  · exact setgidMain_touches p run argv1 stdin d

/-- To write, the helper reports success exactly if it has installed what it reads. -/
theorem execSetgid_write (p : Process) (run : SetgidRun) (stdin : Input) (d : Directory) :
    let s := execSetgid p run (lit "w") stdin d
    (s.1 ≠ 0 → s.2.2 = d) ∧
    (s.1 = 0 → ∃ name, p.owns name ∧ s.2.2 = Function.update d name (some ((inputLines stdin).flatMap cstr))) := by
  unfold execSetgid
  split
  next err _ =>
    refine ⟨fun _ => rfl, fun h => ?_⟩
    dsimp only at h
    split at h <;> cases h
  next =>
    unfold setgidMain
    split
    next => exact ⟨fun _ => rfl, nofun⟩
    next => exact ⟨fun _ => rfl, nofun⟩
    next name huid hpw =>
      have hown : p.owns (cronFile name) := ⟨of_decide_eq_false huid, by rw [hpw]; rfl⟩
      have hr : ¬ (lit "w").head? = some 114 := by decide
      have hw : (lit "w").head? = some 119 := by decide
      rw [if_neg hr, if_pos hw]
      obtain ⟨hfail, hdone⟩ := setgidWriteIn_spool run name stdin d
      dsimp only
      cases hwrite : (setgidWriteIn run name stdin d).1 with
      | false => exact ⟨fun _ => hfail hwrite, nofun⟩
      | true => exact ⟨fun h => absurd rfl h, fun _ => ⟨_, hown, hdone hwrite⟩⟩

/-- To read, the helper changes nothing. -/
theorem execSetgid_read (p : Process) (run : SetgidRun) (stdin : Input) (d : Directory) :
    (execSetgid p run (lit "r") stdin d).2.2 = d := by
  unfold execSetgid
  split
  · rfl
  · unfold setgidMain
    split
    · rfl
    · rfl
    · have hr : (lit "r").head? = some 114 := by decide
      rw [if_pos hr]
      split <;> rfl

namespace Invocation

variable (c : Invocation)

/-- The crontabs that an action for a user changes: that of the user, if the calls of its own are let through, or
that of the user it runs as. -/
def Reaches (direct : Prop) (user name : Bytes) : Prop := direct ∧ name = cronFile user ∨ c.process.owns name

variable {c}

/-- To write, the helper changes the crontab of its user, after calls that were refused. -/
theorem keeps_execSetgid_write {c : Invocation} {P : Bytes → Prop} {direct : Prop} {d d' : Directory}
    (h : Keeps d d') (run : SetgidRun) (user : Bytes) {stdin : Input} (hP : P ((inputLines stdin).flatMap cstr)) :
    Touches P (c.Reaches direct user) d (execSetgid c.process run (lit "w") stdin d').2.2 := by
  refine h.touches ((execSetgid_touches c.process run (lit "w") stdin d').mono ?_ fun name hname => .inr hname)
  rintro content ⟨-, rfl⟩
  exact hP

/-- `list` changes nothing. -/
theorem list_spool (run : ListRun) (user : Bytes) (files : Files) :
    (c.list run user files).files.spool = files.spool := by
  have hread := execSetgid_read c.process run.setgid [] files.spool
  unfold list
  split
  · rfl
  · split
    · rfl
    split
    · rfl
    split
    · dsimp only
      split
      · exact hread
      split
      · rfl
      split
      · rfl
      split
      · exact hread
      · exact hread
    · rfl

/-- `remove` removes a crontab or wipes it. -/
theorem remove_touches (run : RemoveRun) (user : Bytes) (ask : Bool) (files : Files) :
    Touches (fun _ => False) (c.Reaches (run.unlink = none ∨ run.truncate) user) files.spool
      (c.remove run user ask files).files.spool := by
  unfold remove
  split
  · exact touches_refl _
  split
  next spool hunlink =>
    obtain ⟨hdenied, rfl⟩ := unlink_ok hunlink
    exact .inr ⟨_, _, sets_update _ _ none, .inl ⟨.inl hdenied, rfl⟩, .removed⟩
  next =>
    split
    · exact touches_refl _
    split
    · exact touches_refl _
    split
    · exact touches_refl _
    split
    · have h100 : (lit "d").head? ≠ some 119 := by decide
      exact (execSetgid_touches c.process run.setgid (lit "d") [] files.spool).mono
        (fun content hcontent => absurd hcontent.1 h100) fun name hname => .inr hname
    split
    next h => exact .inr ⟨_, _, sets_update _ _ (some []), .inl ⟨.inr h.2.1, rfl⟩, .wiped⟩
    next => exact touches_refl _

/-- `edit` changes nothing up to the editor. -/
theorem editStart_spool (run : EditStart) (user : Bytes) (files : Files) :
    (∀ outcome, c.editStart run user files = .error outcome → outcome.files = files) ∧
    ∀ tmp files', c.editStart run user files = .ok (tmp, files') →
      files'.spool = files.spool ∧ files.tmp tmp = none ∧
        ∃ content, files' = { files with tmp := Function.update files.tmp tmp (some content) } := by
  unfold editStart
  split
  next => exact ⟨fun outcome h => by cases h; rfl, nofun⟩
  next tmp htmp =>
    have hnew : files.tmp tmp = none := (mkostemp_new (Option.filter_eq_some_iff.1 htmp).1).2
    split
    next => exact ⟨fun outcome h => by cases h; rfl, nofun⟩
    next content hcontent =>
      split
      · exact ⟨fun outcome h => by cases h; rfl, nofun⟩
      · refine ⟨nofun, fun tmp' files' h => ?_⟩
        cases h
        exact ⟨rfl, hnew, content, rfl⟩

/-- What `replace_crontab` leaves of a text, or the helper of what it reads again. -/
structure Installs (P : Bytes → Prop) (calls : ReplaceCalls) (reader rewound : Reader) (content again : Bytes) :
    Prop where
  direct : P (copyFILE calls.fwrite ((reader.stream content).length + 1) 0 (reader.stream content) [])
  helper : P ((inputLines (rewound.stream again)).flatMap cstr)

/-- What `replace_crontab` changes. -/
theorem touches_replaceIn {P : Bytes → Prop} {calls : ReplaceCalls} {letters : Letters} {user : Bytes} {input : Input}
    {d : Directory} (hP : P (copyFILE calls.fwrite (input.length + 1) 0 input [])) :
    Touches P (c.Reaches calls.mkostemp user) d (replaceIn c.dir calls letters user input d).2 := by
  by_cases hok : (replaceIn c.dir calls letters user input d).1
  · obtain ⟨hmkostemp, hspool⟩ := (replaceIn_spool c.dir calls letters user input d).2 hok
    rw [hspool]
    exact .inr ⟨_, _, sets_update _ _ _, .inl ⟨hmkostemp, rfl⟩, .installed hP⟩
  · exact .inl (replaceIn_keeps hok)

theorem editInstall_touches {P : Bytes → Prop} (run : EditFinish) (user tmp content : Bytes) (files : Files)
    (hP : Installs P run.direct run.reader run.rewound content content) :
    Touches P (c.Reaches run.direct.mkostemp user) files.spool
      (c.editInstall run user tmp content files).files.spool := by
  have hdirect : Touches P (c.Reaches run.direct.mkostemp user) files.spool _ :=
    @touches_replaceIn c _ _ run.letters _ _ _ hP.direct
  unfold editInstall
  extract_lets kept removed r
  split
  next => exact hdirect
  next hok =>
    have hkeep := replaceIn_keeps hok
    split
    · exact hdirect
    split
    · exact hdirect
    split
    · exact hdirect
    split
    · split
      · exact hdirect
      · have hexec := @keeps_execSetgid_write c _ run.direct.mkostemp _ _ hkeep run.setgid user _ hP.helper
        split
        · exact hexec
        · exact hexec
    · exact hdirect

/-- `edit` installs what was edited, once it is accepted. -/
theorem editFinish_touches {P : Bytes → Prop} (run : EditFinish) (user tmp : Bytes) (files : Files)
    (hP : ∀ content, files.tmp tmp = some content → c.accepts (c.tmpPath tmp) (some content) →
      Installs P run.direct run.reader run.rewound content content) :
    Touches P (c.Reaches run.direct.mkostemp user) files.spool (c.editFinish run user tmp files).files.spool := by
  unfold editFinish
  extract_lets kept removed
  split
  · exact touches_refl _
  split
  · exact touches_refl _
  split
  · exact touches_refl _
  next hcheck =>
    split
    next => exact touches_refl _
    next content hcontent =>
      obtain ⟨hcontent, -⟩ := Option.filter_eq_some_iff.1 hcontent
      rw [check, hcontent] at hcheck
      simp only [Bool.not_eq_true', Bool.not_eq_false, Bool.and_eq_true] at hcheck
      exact editInstall_touches run user tmp content files (hP content hcontent hcheck.2)

theorem replaceInstall_touches {P : Bytes → Prop} (run : ReplaceRun) (user file : Bytes) (source : Source)
    (files : Files) (hP : Installs P run.direct run.reader run.rewound source.content source.again) :
    Touches P (c.Reaches run.direct.mkostemp user) files.spool
      (c.replaceInstall run user file source files).files.spool := by
  have hdirect : Touches P (c.Reaches run.direct.mkostemp user) files.spool _ :=
    @touches_replaceIn c _ _ run.letters _ _ _ hP.direct
  unfold replaceInstall
  extract_lets r
  split
  next => exact hdirect
  next hok =>
    split
    · exact hdirect
    split
    · exact hdirect
    split
    · exact hdirect
    split
    · split
      · exact hdirect
      · exact keeps_execSetgid_write (replaceIn_keeps hok) run.setgid user hP.helper
    · exact hdirect

/-- `replace` installs what it is given, once what it has read of that is accepted. -/
theorem replace_touches {P : Bytes → Prop} (run : ReplaceRun) (user file : Bytes) (files : Files)
    (hP : ∀ source, run.source file = .ok source → c.accepts file (some source.checked) →
      Installs P run.direct run.reader run.rewound source.content source.again) :
    Touches P (c.Reaches run.direct.mkostemp user) files.spool (c.replace run user file files).files.spool := by
  unfold replace
  split
  next => exact touches_refl _
  next source hsource =>
    split
    · exact touches_refl _
    next hcheck =>
      simp only [check, Bool.not_eq_true', Bool.not_eq_false, Bool.and_eq_true] at hcheck
      exact replaceInstall_touches run user file source files (hP source hsource hcheck.2)

end Invocation

end SystemdCron
