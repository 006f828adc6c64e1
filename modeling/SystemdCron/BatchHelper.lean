import SystemdCron.Settings
import SystemdCron.Lib.ExecLine

/-!
# The privileged helper line

`generate_service` writes the values of `CRON_BATCH_THROTTLE_GROUP` and `CRON_BATCH_LOADAVG_BELOW` into
an `ExecStartPre=!` line as they are. What the line then denotes is decided by the rule for command
lines: `helperLine_denotes_iff`.
-/

namespace SystemdCron

open Bytes ExecLine

/-! ### What the line denotes -/

/-- The helper that is run for a crontab. -/
def helperPath (cfg : Config) (environment : Env) : Bytes :=
  if throttleGroup environment ≠ [] then cfg.THROTTLE_GROUP else cfg.LOADAVG_DAM

/-- The arguments it is meant to get: the values that are set. -/
def helperArgs (environment : Env) : List Bytes :=
  [throttleGroup environment, loadavgBelow environment].filter (· ≠ [])

/-- A path that a command line has no other use for. -/
structure PlainPath (letter : UInt8 → Bool) (path : Bytes) : Prop where
  noPrefix : ∀ x ∈ path.head?, isPrefix x = false
  word : Word letter path

/-- A value that a command line has no other use for. -/
structure PlainArgument (letter : UInt8 → Bool) (v : Bytes) : Prop where
  noNul : NUL ∉ v
  word : Word letter v
  notSemicolon : v ≠ [SEMICOLON]

/-- The helper line of a job: a prefix, the path and the values as C strings see them. -/
theorem Job.helperLine_eq {cfg : Config} {j : Job} {environment : Env}
    (hl : j.cronBatchLoadavgBelow = loadavgBelow environment)
    (hg : j.cronBatchThrottleGroup = throttleGroup environment) (hne : helperArgs environment ≠ []) :
    j.helperLine cfg = some (lit "ExecStartPre=" ++
      BANG :: joinWords (helperPath cfg environment :: (helperArgs environment).map cstr)) := by
  have hlit : lit "ExecStartPre=!" = lit "ExecStartPre=" ++ [BANG] := by decide
  rw [helperLine, hl, hg, hlit]
  by_cases hg0 : throttleGroup environment = []
  · have hl0 : loadavgBelow environment ≠ [] := by
      rintro hl0
      exact hne (by simp [helperArgs, hg0, hl0])
    simp [helperArgs, helperPath, hg0, hl0, joinWords_cons_cons]
  · by_cases hl0 : loadavgBelow environment = []
    · simp [helperArgs, helperPath, hg0, hl0, joinWords_cons_cons, cstr]
    · simp [helperArgs, helperPath, hg0, hl0, joinWords_cons_cons]

theorem Job.helperLine_mem {cfg : Config} {host : Host} {j : Job} {l : Bytes}
    (h : j.helperLine cfg = some l) : l ∈ j.generateService cfg host := by
  simp [generateService, h]

/-- The helper line of a crontab job denotes, whatever the specifiers stand for, the one command of the
helper with the values for arguments if and only if the path and the values are plain. -/
theorem helperLine_denotes_iff {cfg : Config} {host : Host} {kind : CrontabKind} {environment : Env}
    {line : Bytes} {rng rng' : Rng} {j : Job} (letter : UInt8 → Bool)
    (h : parseJob host kind environment line rng = .ok (j, rng')) (hne : helperArgs environment ≠ []) :
    ∃ text, j.helperLine cfg = some (lit "ExecStartPre=" ++ text) ∧
      lit "ExecStartPre=" ++ text ∈ j.generateService cfg host ∧
      ((∀ value, commands ⟨letter, value⟩ text =
        [{ prefixes := [BANG], argv := helperPath cfg environment :: helperArgs environment }]) ↔
      PlainPath letter (helperPath cfg environment) ∧
        ∀ v ∈ helperArgs environment, PlainArgument letter v) := by
  obtain ⟨hl, hg⟩ := parseJob_batch h
  have hline := @Job.helperLine_eq cfg _ _ hl hg hne
  refine ⟨_, hline, Job.helperLine_mem hline, ?_⟩
  have hpath : helperPath cfg environment ≠ [] := by
    rw [helperPath]
    split
    · exact List.append_ne_nil_of_right_ne_nil _ (by decide)
    · exact List.append_ne_nil_of_right_ne_nil _ (by decide)
  have hargs : ∀ v ∈ helperArgs environment, v ≠ [] := fun v hv => by simpa using List.of_mem_filter hv
  have hprefix : List.Forall₂ (· <+: ·) ((helperArgs environment).map cstr) (helperArgs environment) := by
    rw [List.forall₂_map_left_iff, List.forall₂_same]
    exact fun v _ => cstr_isPrefix v
  rw [commands_joinWords_iff (by decide) hpath hargs hprefix]
  constructor
  · rintro ⟨hcstr, hhead, hwords, hsemi⟩
    refine ⟨⟨hhead, hwords _ (by simp)⟩, fun v hv => ⟨?_, hwords v (by simp [hv]), hsemi v hv⟩⟩
    exact cstr_eq_iff.1 (List.map_inj_left.1 (hcstr.trans (List.map_id _).symm) v hv)
  · rintro ⟨⟨hhead, hpathword⟩, hargs⟩
    refine ⟨?_, hhead, fun v hv => ?_, fun v hv => (hargs v hv).notSemicolon⟩
    · rw [List.map_congr_left fun v hv => cstr_eq_iff.2 (hargs v hv).noNul, List.map_id']
    · rcases List.mem_cons.1 hv with rfl | hv
      · exact hpathword
      · exact (hargs v hv).word

/-- A job under a throttle group that has a `;` between blanks. -/
def twoCommandsJob : Job :=
  (systemJobs (lit "CRON_BATCH_THROTTLE_GROUP=a ; !/bin/x\n* * * * * root true")).get ⟨0, by decide +kernel⟩

/-- The rest of the group is a second command, with a prefix of its own. -/
theorem helperLine_two_commands :
    ∃ text, twoCommandsJob.helperLine {} = some (lit "ExecStartPre=" ++ text) ∧
      (∀ s, commands s text =
        [{ prefixes := [BANG], argv := [Config.THROTTLE_GROUP {}, lit "a"] },
         { prefixes := [BANG], argv := [lit "/bin/x"] }]) ∧
      ¬ ∀ value, commands ⟨fun _ => false, value⟩ text =
        [{ prefixes := [BANG], argv := [Config.THROTTLE_GROUP {}, lit "a ; !/bin/x"] }] := by
  refine ⟨lit "!/usr/libexec/systemd-cron/throttle_group a ; !/bin/x", by decide +kernel, fun s => ?_,
    fun h => absurd (h fun _ => []) (by decide +kernel)⟩
  rfl

/-- The settings of the group `backup` with a load threshold. -/
def backupSettings : Env :=
  .ofList [(lit "CRON_BATCH_THROTTLE_GROUP", lit "backup"), (lit "CRON_BATCH_LOADAVG_BELOW", lit "1.5")]

theorem helperLine_denotes_backup :
    ∃ j rng', parseJob .bare systemKind backupSettings (lit "* * * * * root true") (fun _ => 0) =
        .ok (j, rng') ∧
      ∃ text, j.helperLine {} = some (lit "ExecStartPre=" ++ text) ∧
        lit "ExecStartPre=" ++ text ∈ j.generateService {} .bare ∧
        ((∀ value, commands ⟨fun _ => true, value⟩ text =
          [{ prefixes := [BANG]
             argv := helperPath {} backupSettings :: helperArgs backupSettings }]) ↔
        PlainPath (fun _ => true) (helperPath {} backupSettings) ∧
          ∀ v ∈ helperArgs backupSettings, PlainArgument (fun _ => true) v) := by
  have hok : (parseJob .bare systemKind backupSettings (lit "* * * * * root true") fun _ => 0).isOk := by
    decide +kernel
  cases h : parseJob .bare systemKind backupSettings (lit "* * * * * root true") fun _ => 0 with
  | error f => rw [h] at hok; cases hok
  | ok r => exact ⟨_, _, rfl, helperLine_denotes_iff _ h (by decide +kernel)⟩

end SystemdCron
