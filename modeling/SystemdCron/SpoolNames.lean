import SystemdCron.Install
import SystemdCron.Run

/-!
# Names in the spool

`crontab` and the generator meet in the directory of the crontabs. The one names the crontab of a user after
the user, and its temporary file after the user with a dot and six letters; the other reads the files without a
dot in their names. `installed_parsed_iff` says for which users that is what was installed.
-/

namespace SystemdCron

open Bytes Stdio

def NAME_MAX : Nat := 255
def PATH_MAX : Nat := 4096

/-- The files of a directory by their names. There are no directories in it. -/
abbrev Directory := Bytes → Option Bytes

/-- A text that can be the name of a file. -/
def IsFileName (name : Bytes) : Prop :=
  name ≠ [] ∧ name ≠ lit "." ∧ name ≠ lit ".." ∧ SLASH ∉ name ∧ NUL ∉ name ∧ name.length ≤ NAME_MAX

instance : DecidablePred IsFileName := fun _ => inferInstanceAs (Decidable (_ ∧ _))

/-- `CRONTAB_DIR`, short enough for all files in it to have paths. -/
structure CrontabDir where
  path : Bytes
  short : path.length + NAME_MAX + 2 < PATH_MAX

/-- What `mkostemp` puts for the six letters of a template. -/
structure Letters where
  octets : Bytes
  length : octets.length = 6
  alnum : ∀ c ∈ octets, isAlnum c

/-! ### The installer -/

/-- `cron_file`, after the directory. The buffer has room for this many octets of the name. -/
def cronFile (user : Bytes) : Bytes := user.take LOGIN_NAME_MAX

/-- The template of `final_tmp_path`, after the directory. -/
def CrontabDir.template (dir : CrontabDir) (user : Bytes) : Bytes :=
  (user ++ lit ".XXXXXX").take (PATH_MAX - 1 - (dir.path.length + 1))

/-- The file that `mkostemp` creates: a new one. -/
def mkostemp (template : Bytes) (letters : Letters) (d : Directory) : Option Bytes :=
  if (lit "XXXXXX").isSuffixOf template then
    (some (template.take (template.length - 6) ++ letters.octets)).filter fun name =>
      IsFileName name ∧ d name = none
  else none

/-- `replace_crontab` in the directory of the crontabs. To rename a file fails if the new name is none. -/
def replaceIn (dir : CrontabDir) (calls : ReplaceCalls) (letters : Letters) (user : Bytes) (input : Input)
    (d : Directory) : Bool × Directory :=
  match mkostemp (dir.template user) letters d with
  | none => (false, d)
  | some tmp =>
    let calls := { calls with rename := calls.rename && IsFileName (cronFile user) }
    let r := replaceCrontab calls input (d (cronFile user))
    (r.1, Function.update (Function.update d (cronFile user) r.2.crontab) tmp r.2.temp)

/-! ### The generator -/

/-- A list of all files of a directory, as `for_each_file` goes through them. -/
def Enumerates (files : List (Bytes × Bytes)) (d : Directory) : Prop :=
  ∀ name content, (name, content) ∈ files ↔ d name = some content

/-- The files of the spool that a run parses. -/
def parsedFiles (files : List (Bytes × Bytes)) : List (Bytes × Bytes) := files.filter fun file => 46 ∉ file.1

/-- What a run does with a file of the spool that it parses. -/
def parseSpoolFile (cfg : Config) (host : Host) (md5 : Md5) (top : Toplevel) (s : GenState)
    (file : Bytes × Bytes) : Except Fault GenState := do
  let r ← parseCrontab host (spoolKind cfg top file.1) top.inheritVariables (some file.2) s.rng
  return r.jobs.foldl (generateTimerUnit host md5) { s with rng := r.rng }

theorem spoolStep_eq (cfg : Config) (host : Host) (md5 : Md5) (top : Toplevel) (s : GenState)
    (file : Bytes × Bytes) :
    spoolStep cfg host md5 top s file =
      if 46 ∈ file.1 then .ok s else parseSpoolFile cfg host md5 top s file := by
  unfold spoolStep parseSpoolFile
  split <;> rfl

/-- The rounds of a run for the spool are those for the files it parses. -/
theorem foldlM_spoolStep (cfg : Config) (host : Host) (md5 : Md5) (top : Toplevel)
    (files : List (Bytes × Bytes)) (s : GenState) :
    files.foldlM (spoolStep cfg host md5 top) s =
      (parsedFiles files).foldlM (parseSpoolFile cfg host md5 top) s := by
  induction files generalizing s with
  | nil => rfl
  | cons file files ih =>
    rw [List.foldlM_cons, spoolStep_eq, parsedFiles, List.filter_cons]
    split
    next hdot =>
      rw [if_neg (by simpa using hdot)]
      exact ih s
    next hdot =>
      rw [if_pos (by simpa using hdot), List.foldlM_cons]
      exact bind_congr fun s => ih s

/-! ### Names -/

theorem template_eq_of_length {dir : CrontabDir} {user : Bytes} (h : (dir.template user).length ≤ NAME_MAX) :
    dir.template user = user ++ lit ".XXXXXX" := by
  refine List.take_of_length_le (Nat.le_of_not_lt fun hlt => ?_)
  have hlen : (dir.template user).length = PATH_MAX - 1 - (dir.path.length + 1) := by
    rw [CrontabDir.template, List.length_take]
    omega
  have := dir.short
  omega

theorem mkostemp_new {template : Bytes} {letters : Letters} {d : Directory} {tmp : Bytes}
    (h : mkostemp template letters d = some tmp) : IsFileName tmp ∧ d tmp = none := by
  unfold mkostemp at h
  split at h
  next => exact of_decide_eq_true (Option.filter_eq_some_iff.1 h).2
  next => cases h

/-- The temporary file is named after the user. -/
theorem mkostemp_eq_some {dir : CrontabDir} {letters : Letters} {d : Directory} {user tmp : Bytes}
    (h : mkostemp (dir.template user) letters d = some tmp) :
    tmp = user ++ 46 :: letters.octets ∧ IsFileName tmp ∧ d tmp = none := by
  unfold mkostemp at h
  split at h
  next hsuffix =>
    obtain ⟨htmp, hname⟩ := Option.filter_eq_some_iff.1 h
    obtain ⟨hname, hnew⟩ := of_decide_eq_true hname
    cases htmp
    have hsix : 6 ≤ (dir.template user).length := (List.isSuffixOf_iff_suffix.1 hsuffix).length_le
    have htemplate := @template_eq_of_length dir user (by
      have := hname.2.2.2.2.2
      rw [List.length_append, List.length_take, letters.length] at this
      omega)
    refine ⟨?_, hname, hnew⟩
    have hdot : lit ".XXXXXX" = 46 :: lit "XXXXXX" := by decide
    have hlen : (user ++ 46 :: lit "XXXXXX").length - 6 = (user ++ [46]).length := by
      rw [List.length_append, List.length_append]
      rfl
    rw [htemplate, hdot, hlen, show user ++ 46 :: lit "XXXXXX" = (user ++ [46]) ++ lit "XXXXXX" by simp,
      List.take_left, List.append_assoc]
    rfl
  next => cases h

/-- A user name after which a crontab and its temporary file can be named. -/
def Installable (user : Bytes) : Prop := IsFileName user ∧ user.length + 7 ≤ NAME_MAX

theorem isFileName_temp {user : Bytes} (h : Installable user) (letters : Letters) :
    IsFileName (user ++ 46 :: letters.octets) := by
  obtain ⟨⟨-, -, -, hslash, hnul, -⟩, hlen⟩ := h
  have hlen' : (user ++ 46 :: letters.octets).length = user.length + 7 := by
    rw [List.length_append, List.length_cons, letters.length]
  have hne (w : Bytes) (hw : w.length < 7) : user ++ 46 :: letters.octets ≠ w := fun heq => by
    have := congrArg List.length heq
    omega
  have hno {c : UInt8} (hc : c ∉ user) (h46 : c ≠ 46) (halnum : isAlnum c = false) :
      c ∉ user ++ 46 :: letters.octets := by
    rw [List.mem_append, List.mem_cons]
    rintro (h | h | h)
    · exact hc h
    · exact h46 h
    · rw [letters.alnum c h] at halnum; cases halnum
  exact ⟨hne _ (by decide), hne _ (by decide), hne _ (by decide), hno hslash (by decide) (by decide),
    hno hnul (by decide) (by decide), by omega⟩

theorem mkostemp_of_installable {dir : CrontabDir} {letters : Letters} {d : Directory} {user : Bytes}
    (h : Installable user) (hd : d (user ++ 46 :: letters.octets) = none) :
    mkostemp (dir.template user) letters d = some (user ++ 46 :: letters.octets) := by
  have hdot : lit ".XXXXXX" = 46 :: lit "XXXXXX" := by decide
  have htemplate : dir.template user = (user ++ [46]) ++ lit "XXXXXX" := by
    rw [CrontabDir.template, List.take_of_length_le, hdot, List.append_assoc]
    · rfl
    · have := dir.short
      have := h.2
      rw [List.length_append]
      change user.length + 7 ≤ _
      omega
  have hlen : ((user ++ [46]) ++ lit "XXXXXX").length - 6 = (user ++ [46]).length := by
    have h6 : (lit "XXXXXX").length = 6 := by decide
    rw [List.length_append, h6, Nat.add_sub_cancel]
  rw [mkostemp, htemplate, if_pos (List.isSuffixOf_iff_suffix.2 (List.suffix_append ..)), hlen, List.take_left,
    List.append_assoc]
  exact Option.filter_eq_some_iff.2 ⟨rfl, decide_eq_true ⟨isFileName_temp h letters, hd⟩⟩

/-- What an installation that reports success leaves in the directory. -/
theorem replaceIn_eq_true {dir : CrontabDir} {calls : ReplaceCalls} {letters : Letters} {user : Bytes}
    {input : Input} {d d' : Directory} (h : replaceIn dir calls letters user input d = (true, d')) :
    Installable user ∧ ∃ content, d' user = some content := by
  unfold replaceIn at h
  split at h
  next => cases h
  next tmp htmp =>
    obtain ⟨rfl, hname, -⟩ := mkostemp_eq_some htmp
    have hlen : user.length + 7 ≤ NAME_MAX := by
      have := hname.2.2.2.2.2
      rwa [List.length_append, List.length_cons, letters.length] at this
    have hcron : cronFile user = user := List.take_of_length_le (by
      have : NAME_MAX ≤ LOGIN_NAME_MAX := by decide
      omega)
    rw [hcron] at h
    dsimp only at h
    obtain ⟨hok, rfl⟩ := Prod.mk.inj h
    unfold replaceCrontab at hok ⊢
    have hne : user ≠ user ++ 46 :: letters.octets := by simp
    split at hok
    · cases hok
    next hm =>
      split at hok
      · cases hok
      next hf =>
        dsimp only at hok
        split at hok
        · cases hok
        next hflush =>
          split at hok
          · cases hok
          next hrename =>
            have hfile : IsFileName user := by
              simp only [Bool.not_eq_true', Bool.not_eq_false, Bool.and_eq_true, decide_eq_true_eq] at hrename
              exact hrename.2
            refine ⟨⟨hfile, hlen⟩, ?_⟩
            rw [Function.update_of_ne hne, Function.update_self, if_neg hm, if_neg hf]
            dsimp only
            rw [if_neg hflush, if_neg hrename]
            exact ⟨_, rfl⟩

/-! ### The law -/

/-- A crontab that is installed for a user is parsed by the next run. -/
def InstalledParsed (dir : CrontabDir) (user : Bytes) : Prop :=
  ∀ calls letters input d d' files, replaceIn dir calls letters user input d = (true, d') →
    Enumerates files d' → ∃ content, d' user = some content ∧ (user, content) ∈ parsedFiles files

/-- The temporary file of an installation that got no further is not parsed, whatever is in it. -/
def LeftOverNotParsed (dir : CrontabDir) (user : Bytes) : Prop :=
  ∀ letters d tmp content files, mkostemp (dir.template user) letters d = some tmp →
    Enumerates files (Function.update d tmp (some content)) → ∀ file ∈ parsedFiles files, file.1 ≠ tmp

theorem leftOverNotParsed (dir : CrontabDir) (user : Bytes) : LeftOverNotParsed dir user := by
  rintro letters d tmp content files h - file hfile rfl
  have hdot : 46 ∉ file.1 := of_decide_eq_true (List.mem_filter.1 hfile).2
  rw [(mkostemp_eq_some h).1] at hdot
  exact hdot (by simp)

theorem installedParsed_of_notMem {dir : CrontabDir} {user : Bytes} (h : 46 ∉ user) :
    InstalledParsed dir user := by
  intro calls letters input d d' files hok hfiles
  obtain ⟨-, content, hcontent⟩ := replaceIn_eq_true hok
  exact ⟨content, hcontent, List.mem_filter.2 ⟨(hfiles user content).2 hcontent, decide_eq_true h⟩⟩

/-- Calls that all succeed. -/
def ReplaceCalls.succeeding : ReplaceCalls where
  mkostemp := true
  fdopen := true
  fwrite _ := 4096
  fflush := true
  rename := true

def sixLetters : Letters where
  octets := lit "aaaaaa"
  length := by decide
  alnum := by decide +kernel

/-- A crontab that is put into an empty directory. -/
theorem replaceIn_succeeding {dir : CrontabDir} {user : Bytes} (h : Installable user) {input : Input}
    {content : Bytes}
    (hreplace : replaceCrontab .succeeding input none = (true, { crontab := some content, temp := none })) :
    replaceIn dir .succeeding sixLetters user input (fun _ => none) =
      (true, Function.update (fun _ => none) user (some content)) := by
  have hcron : cronFile user = user := List.take_of_length_le (by
    have : NAME_MAX ≤ LOGIN_NAME_MAX := by decide
    have := h.2
    omega)
  have hrename : (ReplaceCalls.succeeding.rename && IsFileName user) = true :=
    Bool.and_eq_true_iff.2 ⟨rfl, decide_eq_true h.1⟩
  rw [replaceIn, mkostemp_of_installable h rfl]
  dsimp only
  rw [hcron, hrename, show { ReplaceCalls.succeeding with rename := true } = ReplaceCalls.succeeding from rfl,
    hreplace]
  refine Prod.ext rfl (Function.update_eq_self_iff.2 ?_)
  rw [Function.update_of_ne (by simp)]

theorem enumerates_singleton (name content : Bytes) :
    Enumerates [(name, content)] (Function.update (fun _ => none) name (some content)) := by
  intro other content'
  rw [List.mem_singleton, Prod.mk.injEq, Function.update_apply]
  split
  next h => simp [h, eq_comm]
  next h => simp [h]

/-- **Every installed crontab is run, and only those**, exactly for the users without a dot in their names,
beside those for whom nothing can be installed. -/
theorem installed_parsed_iff (cfg : Config) (host : Host) (md5 : Md5) (top : Toplevel) (dir : CrontabDir)
    (user : Bytes) :
    (∀ files s, files.foldlM (spoolStep cfg host md5 top) s =
      (parsedFiles files).foldlM (parseSpoolFile cfg host md5 top) s) ∧
    ((((host.getpwnam user).isSome → InstalledParsed dir user) ∧ LeftOverNotParsed dir user) ↔
      ((host.getpwnam user).isSome → Installable user → 46 ∉ user)) := by
  refine ⟨foldlM_spoolStep cfg host md5 top, fun h hknown hinstallable hdot => ?_, fun h =>
    ⟨fun hknown calls letters input d d' files hok => ?_, leftOverNotParsed dir user⟩⟩
  · have hempty : replaceCrontab .succeeding [] none = (true, { crontab := some [], temp := none }) := by
      decide +kernel
    obtain ⟨content, -, hparsed⟩ := h.1 hknown _ _ _ _ _ _ (replaceIn_succeeding hinstallable hempty)
      (enumerates_singleton user [])
    exact of_decide_eq_true (List.mem_filter.1 hparsed).2 hdot
  · exact installedParsed_of_notMem (h hknown (replaceIn_eq_true hok).1) calls letters input d d' files hok

/-- The usual place of the crontabs. -/
def varSpoolCron : CrontabDir where
  path := lit "/var/spool/cron"
  short := by decide

/-- A host on which every name is that of a user. -/
def everyUserHost : Host :=
  { Host.bare with getpwnam := fun _ => some { dir := lit "/", uid := 1000, gid := 1000 } }

/-- A crontab is installed for a user with a dot in the name, and a run parses nothing. -/
theorem installed_not_parsed :
    (everyUserHost.getpwnam (lit "jane.doe")).isSome ∧
    ∃ d', replaceIn varSpoolCron .succeeding sixLetters (lit "jane.doe") ((lit "@daily true\n").map some)
        (fun _ => none) = (true, d') ∧
      d' (lit "jane.doe") = some (lit "@daily true\n") ∧
      Enumerates [(lit "jane.doe", lit "@daily true\n")] d' ∧
      parsedFiles [(lit "jane.doe", lit "@daily true\n")] = [] := by
  have hinstallable : Installable (lit "jane.doe") := ⟨by decide +kernel, by decide⟩
  refine ⟨rfl, _, replaceIn_succeeding hinstallable ?_, Function.update_self .., enumerates_singleton _ _, ?_⟩
  all_goals decide +kernel

end SystemdCron
