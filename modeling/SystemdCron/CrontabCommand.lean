import SystemdCron.Colour
import SystemdCron.SpoolNames

/-!
# `crontab`

The actions of `crontab.cpp` and the whole of `crontab_setgid.c`, on the files of the spool and those of
`TMPDIR`. Every call that can fail is a parameter, and so are the generator (`accepts`) and the answer to a
question. `edit` is taken apart where the editor runs, since anything may happen meanwhile.
-/

namespace SystemdCron

open Bytes Stdio

/-- Why a call is refused, as far as that matters. -/
inductive Denial where
  | EACCES
  | EROFS
  | ENOSPC
  | other
  deriving DecidableEq, Repr

/-- `errno` after a call for a file. -/
inductive Errno where
  | ENOENT
  | denied (d : Denial)
  deriving DecidableEq, Repr

/-- How the reads of a stream turn out: no octet is lost. -/
structure Reader where
  stream : Bytes → Input
  octets_stream : ∀ content, octets (stream content) = content

/-- How a file is opened and read. -/
structure Open where
  denied : Option Denial
  reader : Reader

/-- `fopen` for reading. -/
def Open.run (o : Open) (file : Option Bytes) : Except Errno Input :=
  match o.denied, file with
  | some d, _ => .error (.denied d)
  | none, none => .error .ENOENT
  | none, some content => .ok (o.reader.stream content)

/-- `unlink`. -/
def unlink (denied : Option Denial) (d : Directory) (name : Bytes) : Except Errno Directory :=
  match denied, d name with
  | some e, _ => .error (.denied e)
  | none, none => .error .ENOENT
  | none, some _ => .ok (Function.update d name none)

/-- The files that `crontab` works on: those of the spool, those of `TMPDIR`, and `REBOOT_FILE`. -/
structure Files where
  spool : Directory
  tmp : Directory
  rebootFile : Bool

/-- A process, with its environment. -/
structure Process where
  getenv : Bytes → Option Bytes
  /-- `getpwuid(getuid())->pw_name`. -/
  pwName : Option Bytes
  uid : Nat
  euid : Nat

/-- `getpass_getlogin`: a user is who the environment says. -/
def getpassGetlogin (p : Process) : Option Bytes :=
  ([lit "LOGNAME", lit "USER", lit "LNAME", lit "USERNAME"].findSome? p.getenv).or
    (p.pwName.map (·.take LOGIN_NAME_MAX))

/-! ### `crontab_setgid` -/

/-- How a run of `crontab_setgid` turns out, from the `execl` on. -/
structure SetgidRun where
  exec : Option Errno
  allow : Option Input
  deny : Option Input
  DEFAULT_NOACCESS : Bool
  read : Open
  write : SetgidCalls
  letters : Letters
  unlink : Option Denial

/-- The `w` action in the directory of the crontabs. To rename a file fails if the new name is none. -/
def setgidWriteIn (run : SetgidRun) (name : Bytes) (stdin : Input) (d : Directory) : Bool × Directory :=
  let tmp := mkostemp (cronFile name ++ lit ".XXXXXX") run.letters d
  let calls := { run.write with
    mkstemp := run.write.mkstemp && tmp.isSome
    rename := run.write.rename && IsFileName (cronFile name) }
  let caller : SetgidCaller :=
    { name, allow := run.allow, deny := run.deny, DEFAULT_NOACCESS := run.DEFAULT_NOACCESS }
  let r := setgidWrite caller calls stdin (d (cronFile name))
  (r.1, Function.update d (cronFile name) r.2.crontab)

/-- `main` of `crontab_setgid.c`: the exit status, the standard output, and the crontabs afterwards. -/
def setgidMain (p : Process) (run : SetgidRun) (argv1 : Bytes) (stdin : Input) (d : Directory) :
    Nat × Bytes × Directory :=
  match decide (p.uid = 0), p.pwName with
  | true, _ => (1, [], d)
  | false, none => (1, [], d)
  | false, some name =>
    if argv1.head? = some 114 then
      match run.read.run (d (cronFile name)) with
      | .error .ENOENT => (2, [], d)
      | .error (.denied _) => (1, [], d)
      | .ok input => (0, (inputLines input).flatMap cstr, d)
    else if argv1.head? = some 119 then
      let r := setgidWriteIn run name stdin d
      (if r.1 then 0 else 1, [], r.2)
    else if argv1.head? = some 100 then
      match unlink run.unlink d (cronFile name) with
      | .ok d => (0, [], d)
      | .error .ENOENT => (0, [], d)
      | .error (.denied _) => (1, [], d)
    else (1, [], d)

/-- `exec(SETGID_HELPER, argv1)`. -/
def execSetgid (p : Process) (run : SetgidRun) (argv1 : Bytes) (stdin : Input) (d : Directory) :
    Nat × Bytes × Directory :=
  match run.exec with
  | some err => (if err = .ENOENT then 127 else 126, [], d)
  | none => setgidMain p run argv1 stdin d

/-! ### `crontab` -/

/-- `enum class action_t`. -/
inductive Action where
  | replace
  | list
  | remove
  | edit
  | show
  | translate
  | test
  | version
  deriving DecidableEq, Repr

/-- A run of `crontab`, as far as its actions share it. -/
structure Invocation where
  self : Bytes
  process : Process
  dir : CrontabDir
  VERSION : Bytes
  USAGE : Bytes
  strerror : Errno → Bytes
  getpwnam : Bytes → Bool
  /-- Whether `SETGID_HELPER` is there, with its bits. -/
  setgidHelper : Bool
  want_colour : Bool
  /-- What the generator says of a file under a path: success, or an error. -/
  accepts : Bytes → Option Bytes → Bool
  /-- `errno` if a child cannot be created. -/
  vforkErr : Errno

/-- What a run leaves: its exit status, what it prints, and the files. -/
structure Outcome where
  status : Nat
  stdout : Bytes := []
  stderr : Bytes := []
  files : Files

namespace Invocation

variable (c : Invocation)

/-- `user == current_user`. -/
def isCurrentUser (user : Bytes) : Bool := getpassGetlogin c.process == some user

/-- `HAVE_SETGID`. -/
def HAVE_SETGID : Bool := c.process.euid != 0 && c.setgidHelper

/-- `cron_file`. -/
def cronPath (user : Bytes) : Bytes := c.dir.path ++ [SLASH] ++ cronFile user

/-- The path of a file in `TMPDIR`. -/
def tmpPath (tmp : Bytes) : Bytes := (c.process.getenv (lit "TMPDIR")).getD (lit "/tmp") ++ [SLASH] ++ tmp

/-- What is printed if a child cannot be created. -/
def noChild : Bytes := c.self ++ lit ": couldn't create child: " ++ c.strerror c.vforkErr ++ [LF]

/-- `check`, of which `ran` says whether the generator could be run. -/
def check (ran : Bool) (file : Bytes) (content : Option Bytes) : Bool := ran && c.accepts file content

end Invocation

/-! #### `list` -/

structure ListRun where
  crontab : Open
  fwrite : Nat → Nat
  pipe2 : Option Errno
  vfork : Bool
  fdopen : Bool
  setgid : SetgidRun

/-- `list`. -/
def Invocation.list (c : Invocation) (run : ListRun) (user : Bytes) (files : Files) : Outcome :=
  match run.crontab.run (files.spool (cronFile user)) with
  | .ok input =>
    { status := 0
      stdout :=
        if c.want_colour then colourCrontab (octets input)
        else copyFILE run.fwrite (input.length + 1) 0 input []
      files }
  | .error err =>
    if err = .ENOENT then { status := 1, stderr := lit "no crontab for " ++ user ++ [LF], files }
    else if !c.isCurrentUser user then
      { status := 1, stderr := lit "you can not display " ++ user ++ lit "'s crontab\n", files }
    else if c.HAVE_SETGID then
      let r := execSetgid c.process run.setgid (lit "r") [] files.spool
      if !c.want_colour then { status := r.1, stdout := r.2.1, files := { files with spool := r.2.2 } }
      else if run.pipe2.isSome then
        { status := 125, stderr := c.self ++ lit ": " ++ (run.pipe2.elim [] c.strerror) ++ [LF], files }
      else if !run.vfork then { status := 125, stderr := c.noChild, files }
      else if !run.fdopen then
        { status := 1, stderr := c.strerror err ++ [LF], files := { files with spool := r.2.2 } }
      else { status := r.1, stdout := colourCrontab r.2.1, files := { files with spool := r.2.2 } }
    else { status := 1, stderr := c.strerror err ++ [LF], files }

/-! #### `remove` -/

structure RemoveRun where
  /-- The answer to the question. -/
  confirm : Bool
  unlink : Option Denial
  /-- Whether files of the spool can be looked up. -/
  access : Bool
  truncate : Bool
  setgid : SetgidRun

/-- `remove`. -/
def Invocation.remove (c : Invocation) (run : RemoveRun) (user : Bytes) (ask : Bool) (files : Files) : Outcome :=
  if ask && !run.confirm then { status := 0, files }
  else
    match unlink run.unlink files.spool (cronFile user) with
    | .ok spool => { status := 0, files := { files with spool } }
    | .error err =>
      if err = .ENOENT ∨ err = .denied .EROFS ∧ run.access ∧ (files.spool (cronFile user)).isSome then
        { status := 0, stderr := lit "no crontab for " ++ user ++ [LF], files }
      else if err = .denied .EROFS then
        { status := 1, stderr := c.cronPath user ++ lit " is on a read-only filesystem\n", files }
      else if !c.isCurrentUser user then
        { status := 1, stderr := lit "you can not delete " ++ user ++ lit "'s crontab\n", files }
      else if c.HAVE_SETGID then
        let r := execSetgid c.process run.setgid (lit "d") [] files.spool
        { status := r.1, files := { files with spool := r.2.2 } }
      else if err = .denied .EACCES ∧ run.truncate ∧ (files.spool (cronFile user)).isSome then
        { status := 0
          stderr := lit "couldn't remove " ++ c.cronPath user ++ lit ", wiped it instead\n"
          files := { files with spool := Function.update files.spool (cronFile user) (some []) } }
      else { status := 1, stderr := c.strerror err ++ [LF], files }

/-! #### `edit` -/

/-- How `edit` goes up to the editor. -/
structure EditStart where
  letters : Letters
  fdopen : Bool
  tmpErr : Errno
  crontab : Open
  fwrite : Nat → Nat
  vfork : Bool
  setgid : SetgidRun
  editor : Bool

/-- What is edited if there is no crontab. -/
def emptyCrontab : Bytes := lit "# min hour dom month dow command\n"

/-- What is put into the temporary file, or the exit status and the message. -/
def Invocation.editContent (c : Invocation) (run : EditStart) (user : Bytes) (files : Files) :
    Except (Nat × Bytes) Bytes :=
  match run.crontab.run (files.spool (cronFile user)) with
  | .ok input => .ok (copyFILE run.fwrite (input.length + 1) 0 input [])
  | .error err =>
    if err = .ENOENT then .ok emptyCrontab
    else if !c.isCurrentUser user then .error (1, lit "you can not edit " ++ user ++ lit "'s crontab\n")
    else if c.HAVE_SETGID then
      if !run.vfork then .error (125, c.noChild)
      else
        let r := execSetgid c.process run.setgid (lit "r") [] files.spool
        if r.1 = 0 then .ok r.2.1
        else if r.1 = 127 ∨ r.1 = 2 then .ok (r.2.1 ++ emptyCrontab)
        else .error (r.1, lit "failed to read " ++ c.cronPath user ++ [LF])
    else .error (1, c.self ++ lit ": " ++ c.cronPath user ++ lit ": " ++ c.strerror err ++ [LF])

/-- `edit`, up to the editor: the name of the temporary file that is edited, or the outcome. -/
def Invocation.editStart (c : Invocation) (run : EditStart) (user : Bytes) (files : Files) :
    Except Outcome (Bytes × Files) :=
  match (mkostemp (lit "crontab_XXXXXX") run.letters files.tmp).filter fun _ => run.fdopen with
  | none => .error { status := 1, stderr := c.strerror run.tmpErr ++ [LF], files }
  | some tmp =>
    match c.editContent run user files with
    | .error e => .error { status := e.1, stderr := e.2, files }
    | .ok content =>
      if !run.editor then .error { status := 125, stderr := c.noChild, files }
      else .ok (tmp, { files with tmp := Function.update files.tmp tmp (some content) })

/-- How `edit` goes after the editor, whose exit status comes first. -/
structure EditFinish where
  editor : Nat
  check : Bool
  freopen : Bool
  reader : Reader
  direct : ReplaceCalls
  letters : Letters
  replaceErr : Errno
  vfork : Bool
  rewound : Reader
  setgid : SetgidRun

/-- `edit`, once the edit is accepted and opened again. -/
def Invocation.editInstall (c : Invocation) (run : EditFinish) (user tmp content : Bytes) (files : Files) : Outcome :=
  let kept := lit "your edit is kept here: " ++ c.tmpPath tmp ++ [LF]
  let removed := Function.update files.tmp tmp none
  let r := replaceIn c.dir run.direct run.letters user (run.reader.stream content) files.spool
  if r.1 then { status := 0, files := { files with spool := r.2, tmp := removed } }
  else if !c.isCurrentUser user then
    { status := 1
      stderr := lit "you can not edit " ++ user ++ lit "'s crontab, " ++ kept
      files := { files with spool := r.2 } }
  else if run.replaceErr = .denied .ENOSPC then
    { status := 1
      stderr := lit "no space left in " ++ c.dir.path ++ lit ", " ++ kept
      files := { files with spool := r.2 } }
  else if run.replaceErr = .denied .EROFS then
    { status := 1
      stderr := c.dir.path ++ lit " is on a read-only filesystem, " ++ kept
      files := { files with spool := r.2 } }
  else if c.HAVE_SETGID then
    if !run.vfork then { status := 125, stderr := c.noChild, files := { files with spool := r.2 } }
    else
      let s := execSetgid c.process run.setgid (lit "w") (run.rewound.stream content) r.2
      if s.1 ≠ 0 then { status := s.1, stderr := kept, files := { files with spool := s.2.2 } }
      else { status := 0, files := { files with spool := s.2.2, tmp := removed } }
  else
    { status := 1
      stderr := lit "unexpected error " ++ c.strerror run.replaceErr ++ lit ", " ++ kept
      files := { files with spool := r.2 } }

/-- `edit`, after the editor. -/
def Invocation.editFinish (c : Invocation) (run : EditFinish) (user tmp : Bytes) (files : Files) : Outcome :=
  let kept := lit "your edit is kept here: " ++ c.tmpPath tmp ++ [LF]
  let removed := Function.update files.tmp tmp none
  if run.editor = 127 then { status := 127, files := { files with tmp := removed } }
  else if run.editor ≠ 0 then { status := run.editor, stderr := lit "edit aborted, " ++ kept, files }
  else if !c.check run.check (c.tmpPath tmp) (files.tmp tmp) then
    { status := 1, stderr := lit "not replacing crontab, " ++ kept, files }
  else
    match (files.tmp tmp).filter fun _ => run.freopen with
    | none => { status := 0, stderr := lit "edit aborted\n", files := { files with tmp := removed } }
    | some content => c.editInstall run user tmp content files

/-! #### `replace` -/

/-- A file that is open: a regular one, or one without a size, of which something is read and, once it is rewound,
something is read again. -/
inductive Opened where
  | regular (content : Bytes)
  | other (input again : Input)

structure ReplaceRun where
  /-- The file under the path, if it is not `-`, and how it is opened. -/
  content : Option Opened
  denied : Option Denial
  stdin : Opened
  tmpfile : Option Errno
  fwrite : Nat → Nat
  reader : Reader
  check : Bool
  direct : ReplaceCalls
  letters : Letters
  replaceErr : Errno
  vfork : Bool
  rewound : Reader
  setgid : SetgidRun

/-- What the generator reads of what `replace` is given, what `replace` then reads of it, and what the helper does. -/
structure Source where
  checked : Bytes
  content : Bytes
  again : Bytes

/-- A text that is the same for everybody. -/
def Source.all (content : Bytes) : Source := { checked := content, content, again := content }

/-- What `replace` is given. The generator maps a file by its size: it takes one without a size for an empty one,
unless that is the standard input, which is copied first. -/
def ReplaceRun.source (run : ReplaceRun) (file : Bytes) : Except Errno Source :=
  if file = lit "-" then
    match run.stdin with
    | .regular content => .ok (.all content)
    | .other input _ => run.tmpfile.elim (.ok (.all (copyFILE run.fwrite (input.length + 1) 0 input []))) .error
  else
    match run.denied, run.content with
    | some d, _ => .error (.denied d)
    | none, none => .error .ENOENT
    | none, some (.regular content) => .ok (.all content)
    | none, some (.other input again) => .ok { checked := [], content := octets input, again := octets again }

/-- `replace`, once what is given is accepted. -/
def Invocation.replaceInstall (c : Invocation) (run : ReplaceRun) (user file : Bytes) (source : Source)
    (files : Files) : Outcome :=
  let r := replaceIn c.dir run.direct run.letters user (run.reader.stream source.content) files.spool
  if r.1 then { status := 0, files := { files with spool := r.2 } }
  else if !c.isCurrentUser user then
    { status := 1
      stderr := lit "you can not replace " ++ user ++ lit "'s crontab\n"
      files := { files with spool := r.2 } }
  else if run.replaceErr = .denied .ENOSPC then
    { status := 1, stderr := lit "no space left in " ++ c.dir.path ++ [LF], files := { files with spool := r.2 } }
  else if run.replaceErr = .denied .EROFS then
    { status := 1
      stderr := c.dir.path ++ lit "is on a read-only filesystem\n"
      files := { files with spool := r.2 } }
  else if c.HAVE_SETGID then
    if !run.vfork then { status := 125, stderr := c.noChild, files := { files with spool := r.2 } }
    else
      let s := execSetgid c.process run.setgid (lit "w") (run.rewound.stream source.again) r.2
      { status := s.1, files := { files with spool := s.2.2 } }
  else
    { status := 1
      stderr := c.self ++ lit ": " ++ file ++ lit ": " ++ c.strerror run.replaceErr ++ [LF]
      files := { files with spool := r.2 } }

/-- `replace`. -/
def Invocation.replace (c : Invocation) (run : ReplaceRun) (user file : Bytes) (files : Files) : Outcome :=
  match run.source file with
  | .error err =>
    { status := 1
      stderr := c.self ++ (if file = lit "-" then [] else lit ": " ++ file) ++ lit ": " ++ c.strerror err ++ [LF]
      files }
  | .ok source =>
    if !c.check run.check file (some source.checked) then
      { status := 1, stderr := lit "not replacing crontab\n", files }
    else c.replaceInstall run user file source files

/-! #### The others -/

/-- `show`, of the files that are found in the spool. -/
def Invocation.show' (c : Invocation) (names : List Bytes) (files : Files) : Outcome :=
  if c.process.euid ≠ 0 then { status := 1, stderr := lit "must be privileged to use -s\n", files }
  else
    { status := 0
      stdout := (names.filter c.getpwnam).flatMap fun name => name ++ [LF]
      stderr := (names.filter fun name => !c.getpwnam name).flatMap fun name =>
        lit "WARNING: crontab found with no matching user: " ++ name ++ [LF]
      files }

/-- `test`, of what the generator reads. -/
def Invocation.test (c : Invocation) (ran : Bool) (file : Bytes) (content : Option Bytes) (files : Files) :
    Outcome :=
  if c.check ran file content then
    { status := 0, stdout := lit "No syntax issues were found in the crontab file.\n", files }
  else { status := 1, stdout := lit "Invalid crontab file. Syntax issues were found.\n", files }

/-! #### `main` -/

/-- What `getopt_long` finds: one of the actions, `-i`, `-u` with its argument, or `-h` and what is no option. -/
inductive Opt where
  | action (a : Action)
  | ask
  | user (optarg : Bytes)
  | help
  deriving DecidableEq, Repr

/-- The action that is chosen, and what for. -/
structure Chosen where
  action : Action := .replace
  ask : Bool := false
  user : Option Bytes := none
  file : Option Bytes := none
  deriving DecidableEq, Repr

/-- The loop over the options. -/
def getopts : List Opt → Chosen → Option Chosen
  | [], chosen => some chosen
  | .action action :: opts, chosen => getopts opts { chosen with action }
  | .ask :: opts, chosen => getopts opts { chosen with ask := true }
  | .user optarg :: opts, chosen => getopts opts { chosen with user := some optarg }
  | .help :: _, _ => none

/-- The operands: a file or a line, for the actions that take one. -/
def Chosen.operands (chosen : Chosen) : List Bytes → Option Chosen
  | [] => if chosen.action = .translate ∨ chosen.action = .test then none else some chosen
  | [file] =>
    if chosen.action = .replace ∨ chosen.action = .test ∨ chosen.action = .translate then
      some { chosen with file := some file }
    else none
  | _ :: _ :: _ => none

/-- How `main` goes up to its action: whether `CRONTAB_DIR` is there or can be made, and whether `REBOOT_FILE` can
be created. -/
structure StartRun where
  crontabDir : Bool
  creat : Bool

/-- `main`, up to its action: what it is to do for which user, or the outcome. -/
def Invocation.start (c : Invocation) (run : StartRun) (opts : List Opt) (operands : List Bytes) (files : Files) :
    Except Outcome (Chosen × Bytes × Files) :=
  match (getopts opts {}).bind (·.operands operands) with
  | none => .error { status := 1, stderr := c.USAGE, files }
  | some chosen =>
    match chosen.user.or (getpassGetlogin c.process) with
    | none => .error { status := 1, stderr := lit "user '(null)' unknown\n", files }
    | some user =>
      if !c.getpwnam user then .error { status := 1, stderr := lit "user '" ++ user ++ lit "' unknown\n", files }
      else if !run.crontabDir then
        .error { status := 1, stderr := c.dir.path ++ lit " doesn't exist!\n", files }
      else .ok (chosen, user, { files with rebootFile := files.rebootFile || run.creat })

/-- How a run of `main` goes. -/
structure MainRun where
  start : StartRun
  replace : ReplaceRun
  list : ListRun
  remove : RemoveRun
  editStart : EditStart
  /-- What happens to the files while the editor runs. -/
  editor : Bytes → Files → Files
  editFinish : EditFinish
  names : List Bytes
  test : Bool
  content : Option Bytes
  /-- The exit status of `translate` and what it prints. -/
  translate : Nat × Bytes × Bytes

/-- `edit`. -/
def Invocation.edit (c : Invocation) (run : MainRun) (user : Bytes) (files : Files) : Outcome :=
  match c.editStart run.editStart user files with
  | .error outcome => outcome
  | .ok (tmp, files) => c.editFinish run.editFinish user tmp (run.editor tmp files)

/-- `main`. -/
def Invocation.main (c : Invocation) (run : MainRun) (opts : List Opt) (operands : List Bytes) (files : Files) :
    Outcome :=
  match c.start run.start opts operands files with
  | .error outcome => outcome
  | .ok (chosen, user, files) =>
    match chosen.action with
    | .replace => c.replace run.replace user (chosen.file.getD (lit "-")) files
    | .list => c.list run.list user files
    | .remove => c.remove run.remove user chosen.ask files
    | .edit => c.edit run user files
    | .show => c.show' run.names files
    | .test => c.test run.test (chosen.file.getD []) run.content files
    | .translate =>
      { status := run.translate.1, stdout := run.translate.2.1, stderr := run.translate.2.2, files }
    | .version => { status := 0, stdout := c.VERSION ++ [LF], files }

end SystemdCron
