import SystemdCron.EnvironmentLine
import SystemdCron.Lib.CommandLine

/-!
# Commands without a scriptlet

A command that is one word and names a regular file is put after `ExecStart=` as it is. The line then denotes
that file exactly if its path is plain (`directStart_denotes_iff`).
-/

namespace SystemdCron

open Bytes CommandLine

/-- When there is no scriptlet, the command is one word, and this word names a regular file. -/
theorem Job.generateScriptlet_none {host : Host} {targetDir : Bytes} {j j' : Job}
    (h : j.generateScriptlet host targetDir = (j', none)) :
    j.command.size = 1 ∧ j'.execstart = j.execstart ++ j.unescaped (j.command.get 0) ∧
      host.isRegular j'.userUid j'.userGid (cstr j'.execstart) := by
  obtain ⟨home, uid, gid, hp⟩ := j.pullUser_eq host
  unfold generateScriptlet at h
  rw [hp] at h
  extract_lets scriptlet wrapped j1 j2 at h
  split at h
  next hsize =>
    split at h
    next =>
      split at h
      next hregular =>
        obtain ⟨rfl, -⟩ := Prod.mk.inj h
        exact ⟨hsize, rfl, hregular⟩
      next => cases h
    next => cases h
  next => cases h

theorem Job.execStart_mem (cfg : Config) (host : Host) (j : Job) :
    lit "ExecStart=" ++ cstr j.execstart ∈ j.generateService cfg host := by
  simp [generateService]

/-- **A direct start runs the file that was checked** exactly if its path is plain: it has no white space, quote
or backslash, no specifier or `%%`, and no variable or `$$`. -/
theorem directStart_denotes_iff (e : Assignments.Escapes) (letter : UInt8 → Bool) (isName : Bytes → Bool)
    (cfg : Config) {host : Host} {targetDir : Bytes} {j j' : Job}
    (h : j.generateScriptlet host targetDir = (j', none)) :
    ∃ p, p = cstr (j.execstart ++ j.unescaped (j.command.get 0)) ∧
      host.isRegular j'.userUid j'.userGid p ∧
      lit "ExecStart=" ++ p ∈ j'.generateService cfg host ∧
      ((∀ value values wordsOf, argv e ⟨letter, value⟩ ⟨isName, values, wordsOf⟩ p = [p]) ↔
        PlainWord letter isName p) := by
  obtain ⟨-, hexec, hregular⟩ := Job.generateScriptlet_none h
  exact ⟨cstr j'.execstart, by rw [hexec], hregular, j'.execStart_mem cfg host,
    argv_eq_singleton_iff e letter isName _⟩

/-- A host with one user and one file. -/
def fileHost (path : Bytes) : Host :=
  { Host.bare with
    getpwnam := fun _ => some { dir := lit "/root", uid := 0, gid := 0 }
    isRegular := fun _ _ p => p == path }

/-- A job that runs a file with a percent sign in its name. -/
def percentJob : Job :=
  (crontabJobs (fileHost (lit "/opt/50%n")) systemKind {} (lit "* * * * * root /opt/50\\%n") fun _ => 0).get
    ⟨0, by decide +kernel⟩

theorem generateScriptlet_percentJob :
    percentJob.generateScriptlet (fileHost (lit "/opt/50%n")) (lit "/run") =
      ((percentJob.generateScriptlet (fileHost (lit "/opt/50%n")) (lit "/run")).1, none) :=
  Prod.ext rfl (by decide +kernel)

/-- The specifier for the name of the unit is read in the path. -/
theorem directStart_percent :
    ∃ j', percentJob.generateScriptlet (fileHost (lit "/opt/50%n")) (lit "/run") = (j', none) ∧
      (fileHost (lit "/opt/50%n")).isRegular j'.userUid j'.userGid (lit "/opt/50%n") ∧
      lit "ExecStart=/opt/50%n" ∈ j'.generateService {} (fileHost (lit "/opt/50%n")) ∧
      argv letterEscapes ⟨isAlnum, fun _ => lit "cron-crontab-root-0.service"⟩
        ⟨fun _ => false, fun _ => [], fun _ => []⟩ (lit "/opt/50%n") =
          [lit "/opt/50cron-crontab-root-0.service"] ∧
      lit "/opt/50cron-crontab-root-0.service" ≠ lit "/opt/50%n" :=
  ⟨_, generateScriptlet_percentJob, by decide +kernel, by decide +kernel, by decide +kernel, by decide +kernel⟩

theorem directStart_denotes_iff_percent :
    ∃ (j' : Job) (p : Bytes),
      p = cstr (percentJob.execstart ++ percentJob.unescaped (percentJob.command.get 0)) ∧
      (fileHost (lit "/opt/50%n")).isRegular j'.userUid j'.userGid p ∧
      lit "ExecStart=" ++ p ∈ j'.generateService {} (fileHost (lit "/opt/50%n")) ∧
      ((∀ value values wordsOf,
          argv letterEscapes ⟨isAlnum, value⟩ ⟨fun _ => false, values, wordsOf⟩ p = [p]) ↔
        PlainWord isAlnum (fun _ => false) p) :=
  ⟨_, directStart_denotes_iff letterEscapes isAlnum (fun _ => false) {} generateScriptlet_percentJob⟩

end SystemdCron
