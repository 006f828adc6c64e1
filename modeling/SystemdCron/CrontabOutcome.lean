import SystemdCron.CrontabRuns

/-!
# What `crontab` keeps and what it tells

`edit_kept_iff` says when an edit is still there after `crontab -e`, in its temporary file or in a crontab, and
`remove_told_iff` when a crontab is gone after a `crontab -r` that reports success.
-/

namespace SystemdCron

open Bytes Stdio

namespace Invocation

variable (c : Invocation)

/-! ### Edits -/

/-- `replace_crontab` on an edit. -/
def editReplace (run : EditFinish) (user content : Bytes) (files : Files) : Bool × Directory :=
  replaceIn c.dir run.direct run.letters user (run.reader.stream content) files.spool

/-- The helper is asked to install an edit: `replace_crontab` did not, for a reason of which the helper is free. -/
def AsksHelper (run : EditFinish) (user content : Bytes) (files : Files) : Prop :=
  ¬ (c.editReplace run user content files).1 ∧ c.isCurrentUser user ∧ run.replaceErr ≠ .denied .ENOSPC ∧
    run.replaceErr ≠ .denied .EROFS ∧ c.HAVE_SETGID

/-- The helper on an edit. -/
def editHelper (run : EditFinish) (user content : Bytes) (files : Files) : Nat × Bytes × Directory :=
  execSetgid c.process run.setgid (lit "w") (run.rewound.stream content) (c.editReplace run user content files).2

/-- The helper installs an edit, as it says. -/
def HelperInstalls (run : EditFinish) (user content : Bytes) (files : Files) : Prop :=
  c.AsksHelper run user content files ∧ run.vfork ∧ (c.editHelper run user content files).1 = 0

/-- The generator accepts an edit. -/
def AcceptsEdit (run : EditFinish) (tmp content : Bytes) : Prop :=
  run.editor = 0 ∧ c.check run.check (c.tmpPath tmp) (some content)

/-- An edit goes nowhere: the editor exits with the status of a command that is not found, the accepted file cannot
be opened again, the helper cannot be started, or it writes the crontab of another. -/
def EditDropped (run : EditFinish) (user tmp content : Bytes) (files : Files) : Prop :=
  run.editor = 127 ∨ c.AcceptsEdit run tmp content ∧
    (run.freopen = false ∨ c.AsksHelper run user content files ∧ run.vfork = false ∨
      c.HelperInstalls run user content files ∧ ¬ c.process.owns (cronFile user))

/-- An edit is installed without all of its octets. -/
def EditCut (run : EditFinish) (user tmp content : Bytes) (files : Files) : Prop :=
  c.AcceptsEdit run tmp content ∧ run.freopen ∧
    ((c.editReplace run user content files).1 ∧ ¬ BlocksWhole run.direct.fwrite run.reader content ∨
      c.HelperInstalls run user content files ∧ c.process.owns (cronFile user) ∧ ¬ LinesWhole run.rewound content)

/-- An edit is lost: it goes nowhere and was not in the crontab before, or some of it is missing there. -/
def EditLost (run : EditFinish) (user tmp content : Bytes) (files : Files) : Prop :=
  c.EditDropped run user tmp content files ∧ files.spool (cronFile user) ≠ some content ∨
    c.EditCut run user tmp content files

/-- The end of what is printed where an edit is kept. -/
def keptMessage (tmp : Bytes) : Bytes := lit "your edit is kept here: " ++ c.tmpPath tmp ++ [LF]

/-- An edit is the crontab that it is for, or it is kept in its temporary file, of which the user is told. -/
def Kept (user tmp content : Bytes) (outcome : Outcome) : Prop :=
  outcome.files.spool (cronFile user) = some content ∨
    outcome.files.tmp tmp = some content ∧ c.keptMessage tmp <:+ outcome.stderr

variable {c}

/-- An accepted edit that `replace_crontab` installs. -/
theorem editInstall_replace {run : EditFinish} {user content : Bytes} {files : Files}
    (h : (c.editReplace run user content files).1) (tmp : Bytes) :
    c.editInstall run user tmp content files =
      { status := 0
        files := { files with
          spool := (c.editReplace run user content files).2, tmp := Function.update files.tmp tmp none } } :=
  if_pos h

/-- An accepted edit that the helper installs. -/
theorem editInstall_helper {run : EditFinish} {user content : Bytes} {files : Files}
    (h : c.HelperInstalls run user content files) (tmp : Bytes) :
    c.editInstall run user tmp content files =
      { status := 0
        files := { files with
          spool := (c.editHelper run user content files).2.2, tmp := Function.update files.tmp tmp none } } := by
  obtain ⟨⟨hr, huser, hspace, hrofs, hsetgid⟩, hvfork, hstatus⟩ := h
  unfold editInstall
  extract_lets kept removed r
  have hr' : ¬ r.1 := hr
  rw [if_neg hr', if_neg (by simp [huser]), if_neg hspace, if_neg hrofs, if_pos hsetgid, if_neg (by simp [hvfork])]
  exact if_neg (not_not_intro hstatus)

/-- An accepted edit for which the helper cannot be started. -/
theorem editInstall_vfork {run : EditFinish} {user content : Bytes} {files : Files}
    (h : c.AsksHelper run user content files) (hvfork : run.vfork = false) (tmp : Bytes) :
    c.editInstall run user tmp content files =
      { status := 125
        stderr := c.noChild
        files := { files with spool := (c.editReplace run user content files).2 } } := by
  obtain ⟨hr, huser, hspace, hrofs, hsetgid⟩ := h
  unfold editInstall
  extract_lets kept removed r
  have hr' : ¬ r.1 := hr
  rw [if_neg hr', if_neg (by simp [huser]), if_neg hspace, if_neg hrofs, if_pos hsetgid, if_pos (by simp [hvfork])]
  rfl

/-- An accepted edit that nobody installs, of which the user is told. -/
theorem editInstall_told {run : EditFinish} {user content : Bytes} {files : Files}
    (h : ¬ (c.editReplace run user content files).1)
    (hvfork : c.AsksHelper run user content files → run.vfork = true)
    (hh : ¬ c.HelperInstalls run user content files) (tmp : Bytes) :
    (c.editInstall run user tmp content files).files.tmp = files.tmp ∧
      c.keptMessage tmp <:+ (c.editInstall run user tmp content files).stderr := by
  unfold editInstall
  extract_lets kept removed r
  have hr : ¬ r.1 := h
  rw [if_neg hr]
  split
  · exact ⟨rfl, List.suffix_append _ _⟩
  next huser =>
    split
    · exact ⟨rfl, List.suffix_append _ _⟩
    next hspace =>
      split
      · exact ⟨rfl, List.suffix_append _ _⟩
      next hrofs =>
        split
        next hsetgid =>
          have hasks : c.AsksHelper run user content files := ⟨h, by simpa using huser, hspace, hrofs, hsetgid⟩
          have hstatus : (c.editHelper run user content files).1 ≠ 0 := fun hstatus =>
            hh ⟨hasks, hvfork hasks, hstatus⟩
          rw [if_neg (by simp [hvfork hasks])]
          exact (if_pos hstatus).symm ▸ ⟨rfl, List.suffix_refl _⟩
        next => exact ⟨rfl, List.suffix_append _ _⟩

/-- Where the file is gone, or is not named, only the crontab can have the edit. -/
theorem kept_iff_spool {user tmp content : Bytes} {outcome : Outcome}
    (h : outcome.files.tmp tmp = none ∨ ¬ c.keptMessage tmp <:+ outcome.stderr) :
    c.Kept user tmp content outcome ↔ outcome.files.spool (cronFile user) = some content := by
  refine or_iff_left ?_
  rintro ⟨htmp, htold⟩
  rcases h with hnone | huntold
  · rw [hnone] at htmp
    cases htmp
  · exact huntold htold

/-- What `replace_crontab` did not install is what it was. -/
theorem editReplace_spool {run : EditFinish} {user content : Bytes} {files : Files}
    (h : ¬ (c.editReplace run user content files).1) :
    (c.editReplace run user content files).2 (cronFile user) = files.spool (cronFile user) := by
  obtain ⟨left, v, -, hne, hleft⟩ := (replaceIn_spool c.dir run.direct run.letters user (run.reader.stream content)
    files.spool).1 (Bool.eq_false_iff.2 h)
  rw [editReplace, hleft, Function.update_of_ne hne.symm]

/-- What the helper installed is in the crontab of its user. -/
theorem editHelper_spool_iff {run : EditFinish} {user content : Bytes} {files : Files}
    (h : c.HelperInstalls run user content files) :
    (c.editHelper run user content files).2.2 (cronFile user) = some content ↔
      c.process.owns (cronFile user) ∧ LinesWhole run.rewound content ∨
        ¬ c.process.owns (cronFile user) ∧ files.spool (cronFile user) = some content := by
  obtain ⟨name, hown, hspool⟩ := (execSetgid_write c.process run.setgid (run.rewound.stream content)
    (c.editReplace run user content files).2).2 h.2.2
  have hspool : (c.editHelper run user content files).2.2 = _ := hspool
  rw [hspool, linesWhole_iff]
  by_cases howns : c.process.owns (cronFile user)
  · obtain rfl : name = cronFile user := Option.some.inj (hown.2.symm.trans howns.2)
    rw [Function.update_self, Option.some_inj]
    simp [howns]
  · have hne : cronFile user ≠ name := fun heq => howns (heq ▸ hown)
    rw [Function.update_of_ne hne, editReplace_spool h.1.1]
    simp [howns]

/-- An accepted edit, opened again. -/
theorem editInstall_kept_iff (run : EditFinish) {user tmp content : Bytes} {files : Files}
    (htmp : files.tmp tmp = some content) (hchild : ¬ c.keptMessage tmp <:+ c.noChild)
    (haccepted : c.AcceptsEdit run tmp content) (hfreopen : run.freopen = true) :
    c.Kept user tmp content (c.editInstall run user tmp content files) ↔ ¬ c.EditLost run user tmp content files := by
  have hremoved : (Function.update files.tmp tmp none) tmp = none := Function.update_self ..
  have h127 : run.editor ≠ 127 := by
    rw [haccepted.1]
    exact Nat.zero_ne_add_one 126
  -- what is left of the ways to lose it
  have hlost : c.EditLost run user tmp content files ↔
      (c.AsksHelper run user content files ∧ run.vfork = false ∨
          c.HelperInstalls run user content files ∧ ¬ c.process.owns (cronFile user)) ∧
        files.spool (cronFile user) ≠ some content ∨
      (c.editReplace run user content files).1 ∧ ¬ BlocksWhole run.direct.fwrite run.reader content ∨
      c.HelperInstalls run user content files ∧ c.process.owns (cronFile user) ∧ ¬ LinesWhole run.rewound content := by
    simp [EditLost, EditDropped, EditCut, haccepted, hfreopen, h127]
  rw [hlost]
  by_cases hr : (c.editReplace run user content files).1
  · have hasks : ¬ c.AsksHelper run user content files := fun h => h.1 hr
    have hh : ¬ c.HelperInstalls run user content files := fun h => hasks h.1
    obtain ⟨-, hspool⟩ := (replaceIn_spool c.dir run.direct run.letters user (run.reader.stream content)
      files.spool).2 hr
    have hspool : (c.editReplace run user content files).2 = _ := hspool
    rw [editInstall_replace hr, kept_iff_spool (.inl hremoved)]
    dsimp only
    rw [hspool, Function.update_self, Option.some_inj, ← blocksWhole_iff]
    simp [hr, hasks, hh]
  by_cases hh : c.HelperInstalls run user content files
  · rw [editInstall_helper hh, kept_iff_spool (.inl hremoved), editHelper_spool_iff hh]
    by_cases howns : c.process.owns (cronFile user)
    · simp [hr, hh, hh.2.1, howns]
    · simp [hr, hh, hh.2.1, howns]
  by_cases hasks : c.AsksHelper run user content files ∧ run.vfork = false
  · rw [editInstall_vfork hasks.1 hasks.2, kept_iff_spool (.inr hchild)]
    dsimp only
    rw [editReplace_spool hr]
    simp [hr, hh, hasks.1, hasks.2]
  · obtain ⟨hleft, htold⟩ := editInstall_told hr (fun h => by simpa [h] using hasks) hh tmp
    refine iff_of_true (.inr ⟨hleft ▸ htmp, htold⟩) ?_
    rintro (⟨hdropped | hdropped, -⟩ | hcut | hcut)
    · exact hasks hdropped
    · exact hh hdropped.1
    · exact hr hcut.1
    · exact hh hcut.1

/-- **An edit is kept** exactly if it is not lost in one of the ways that `EditLost` lists. -/
theorem edit_kept_iff (c : Invocation) (run : EditFinish) {user tmp content : Bytes} {files : Files}
    (htmp : files.tmp tmp = some content) (hchild : ¬ c.keptMessage tmp <:+ c.noChild) :
    c.Kept user tmp content (c.editFinish run user tmp files) ↔ ¬ c.EditLost run user tmp content files := by
  have hremoved : (Function.update files.tmp tmp none) tmp = none := Function.update_self ..
  by_cases haccepted : c.AcceptsEdit run tmp content
  · have h0 := haccepted.1
    have h127 : run.editor ≠ 127 := by
      rw [h0]
      exact Nat.zero_ne_add_one 126
    unfold editFinish
    extract_lets kept removed
    rw [if_neg h127, if_neg (not_not_intro h0), htmp, if_neg (by simp [haccepted.2])]
    cases hfreopen : run.freopen with
    | false =>
      refine (kept_iff_spool (.inl hremoved)).trans ?_
      simp [EditLost, EditDropped, EditCut, haccepted, hfreopen]
    | true => exact editInstall_kept_iff run htmp hchild haccepted hfreopen
  have hlost : c.EditLost run user tmp content files ↔
      run.editor = 127 ∧ files.spool (cronFile user) ≠ some content := by
    simp [EditLost, EditDropped, EditCut, haccepted]
  rw [hlost]
  unfold editFinish
  extract_lets kept removed
  by_cases h127 : run.editor = 127
  · rw [if_pos h127]
    refine (kept_iff_spool (.inl hremoved)).trans ?_
    simp [h127]
  rw [if_neg h127]
  by_cases h0 : run.editor = 0
  · have hcheck : ¬ c.check run.check (c.tmpPath tmp) (some content) := fun h => haccepted ⟨h0, h⟩
    rw [if_neg (not_not_intro h0), htmp, if_pos (by simp [hcheck])]
    exact iff_of_true (.inr ⟨htmp, List.suffix_append _ _⟩) fun h => h127 h.1
  · rw [if_pos h0]
    exact iff_of_true (.inr ⟨htmp, List.suffix_append _ _⟩) fun h => h127 h.1

/-- An edit with a NUL in its second line, of the user who runs the helper. -/
def editWithNul : Bytes := lit "@daily true\n@daily echo a" ++ NUL :: lit "b\n"

/-- The files with an edit. -/
def editedFiles (content : Bytes) : Files :=
  { twoCrontabs.files with tmp := Function.update (fun _ => none) (lit "crontab_aaaaaa") (some content) }

/-- The generator accepts the edit, the helper installs it up to the NUL, and the temporary file is gone. -/
theorem edit_kept_iff_nul :
    ¬ (hostedBy { bobAsAlice with getenv := fun _ => none }).Kept (lit "bob") (lit "crontab_aaaaaa") editWithNul
      ((hostedBy { bobAsAlice with getenv := fun _ => none }).editFinish (MainRun.plain (.regular [])).editFinish
        (lit "bob") (lit "crontab_aaaaaa") (editedFiles editWithNul)) := by
  have htmp : (editedFiles editWithNul).tmp (lit "crontab_aaaaaa") = some editWithNul := rfl
  rw [edit_kept_iff _ _ htmp (by decide)]
  refine not_not_intro (.inr ⟨⟨rfl, ?_⟩, rfl, .inr ⟨⟨⟨?_, ?_⟩, rfl, ?_⟩, ?_, ?_⟩⟩)
  · decide +kernel
  · decide
  · exact ⟨by decide, by decide, by decide, by decide⟩
  · decide +kernel
  · exact ⟨by decide, rfl⟩
  · exact fun h => h.2 (by decide)

/-! ### Removals -/

/-- There are entries of a user. -/
def HasEntries (user : Bytes) (files : Files) : Prop :=
  ∃ content, files.spool (cronFile user) = some content ∧ content ≠ []

/-- A removal that reports success and does nothing for the user: it is not wanted after all, files of the spool can
be looked up though it is read-only, or the helper removes the crontab of another. -/
def Misreports (run : RemoveRun) (user : Bytes) (ask : Bool) : Prop :=
  ask ∧ run.confirm = false ∨
  run.unlink = some .EROFS ∧ run.access ∨
  (∃ e, run.unlink = some e ∧ e ≠ .EROFS) ∧ c.isCurrentUser user ∧ c.HAVE_SETGID ∧ run.setgid.exec = none ∧
    run.setgid.unlink = none ∧ ∃ name, c.process.owns name ∧ name ≠ cronFile user

/-- To delete, the helper reports success exactly if it can delete its crontab, or there is none. -/
theorem execSetgid_delete (p : Process) (run : SetgidRun) (d : Directory) :
    let s := execSetgid p run (lit "d") [] d
    (s.1 = 0 → run.exec = none ∧ run.unlink = none ∧ ∃ name, p.owns name ∧ s.2.2 = Function.update d name none) ∧
    (run.exec = none → run.unlink = none → ∀ name, p.owns name → s.1 = 0) := by
  unfold execSetgid
  split
  next err hexec =>
    refine ⟨fun h => ?_, fun h => by rw [hexec] at h; cases h⟩
    dsimp only at h
    split at h <;> cases h
  next hexec =>
    unfold setgidMain
    split
    next huid => exact ⟨nofun, fun _ _ _ hown => absurd (of_decide_eq_true huid) hown.1⟩
    next hpw =>
      refine ⟨nofun, fun _ _ _ hown => ?_⟩
      have hsome := hown.2
      rw [hpw] at hsome
      cases hsome
    next name huid hpw =>
      have hown : p.owns (cronFile name) := ⟨of_decide_eq_false huid, by rw [hpw]; rfl⟩
      have hr : ¬ (lit "d").head? = some 114 := by decide
      have hw : ¬ (lit "d").head? = some 119 := by decide
      have hd : (lit "d").head? = some 100 := by decide
      rw [if_neg hr, if_neg hw, if_pos hd]
      split
      next d' hunlink =>
        obtain ⟨hdenied, rfl⟩ := unlink_ok hunlink
        exact ⟨fun _ => ⟨hexec, hdenied, _, hown, rfl⟩, fun _ _ _ _ => rfl⟩
      next hunlink =>
        obtain ⟨hdenied, hnone⟩ := unlink_eq_enoent hunlink
        exact ⟨fun _ => ⟨hexec, hdenied, _, hown, (Function.update_eq_self_iff.2 hnone.symm).symm⟩, fun _ _ _ _ => rfl⟩
      next e hunlink =>
        have hdenied := unlink_eq_denied hunlink
        exact ⟨nofun, fun _ hnone => by rw [hdenied] at hnone; cases hnone⟩

theorem hasEntries_update_iff {user : Bytes} {d : Directory} {v : Option Bytes} {files : Files} {name : Bytes}
    (hfiles : files.spool = Function.update d name v) (hv : v = none ∨ v = some []) :
    HasEntries user files ↔ name ≠ cronFile user ∧ ∃ content, d (cronFile user) = some content ∧ content ≠ [] := by
  unfold HasEntries
  rw [hfiles]
  by_cases h : name = cronFile user
  · subst h
    rw [Function.update_self]
    refine iff_of_false ?_ fun h => h.1 rfl
    rintro ⟨content, hcontent, hne⟩
    rcases hv with rfl | rfl
    · cases hcontent
    · cases hcontent; exact hne rfl
  · rw [Function.update_of_ne (Ne.symm h), and_iff_right h]

/-- **A removal is reported** only if there are no entries any more, exactly if it does not misreport. -/
theorem remove_told_iff (c : Invocation) (run : RemoveRun) (user : Bytes) (ask : Bool) (files : Files) :
    ((c.remove run user ask files).status = 0 → ¬ HasEntries user (c.remove run user ask files).files) ↔
      ¬ (HasEntries user files ∧ c.Misreports run user ask) := by
  unfold remove
  by_cases hask : ask ∧ run.confirm = false
  · rw [if_pos (by simp [hask.1, hask.2])]
    have hmis : c.Misreports run user ask := .inl hask
    simp [hmis]
  rw [if_neg (by simpa using hask)]
  cases hunlink : unlink run.unlink files.spool (cronFile user) with
  | ok spool =>
    obtain ⟨hdenied, rfl⟩ := unlink_ok hunlink
    dsimp only
    rw [hasEntries_update_iff rfl (.inl rfl)]
    simp [Misreports, hask, hdenied]
  | error err =>
    dsimp only
    cases err with
    | ENOENT =>
      obtain ⟨-, hnone⟩ := unlink_eq_enoent hunlink
      have hempty : ¬ HasEntries user files := fun ⟨content, hcontent, _⟩ => by rw [hnone] at hcontent; cases hcontent
      rw [if_pos (.inl rfl)]
      exact iff_of_true (fun _ => hempty) fun h => hempty h.1
    | denied e =>
      have hdenied := unlink_eq_denied hunlink
      by_cases he : e = .EROFS
      · subst he
        have hmis : c.Misreports run user ask ↔ run.access := by simp [Misreports, hask, hdenied]
        rw [hmis]
        by_cases hfile : (files.spool (cronFile user)).isSome
        · cases haccess : run.access with
          | true =>
            rw [if_pos (.inr ⟨rfl, rfl, hfile⟩)]
            exact ⟨fun h h' => h rfl h'.1, fun h _ h' => h ⟨h', rfl⟩⟩
          | false =>
            rw [if_neg (by simp), if_pos rfl]
            exact iff_of_true (fun h => absurd h one_ne_zero) fun h => Bool.false_ne_true h.2
        · have hempty : ¬ HasEntries user files := fun ⟨content, hcontent, _⟩ => hfile (by rw [hcontent]; rfl)
          rw [if_neg (by simp [hfile]), if_pos rfl]
          exact iff_of_true (fun h => absurd h one_ne_zero) fun h => hempty h.1
      · have he' : ¬ (Errno.denied e = .denied .EROFS) := fun h => he (Errno.denied.inj h)
        have hmis : c.Misreports run user ask ↔ c.isCurrentUser user ∧ c.HAVE_SETGID ∧ run.setgid.exec = none ∧
            run.setgid.unlink = none ∧ ∃ name, c.process.owns name ∧ name ≠ cronFile user := by
          simp [Misreports, hask, hdenied, he]
        rw [hmis, if_neg (by simp [he]), if_neg he']
        by_cases huser : c.isCurrentUser user
        · rw [if_neg (by simp [huser])]
          by_cases hsetgid : c.HAVE_SETGID
          · rw [if_pos hsetgid]
            obtain ⟨hdone, hdo⟩ := execSetgid_delete c.process run.setgid files.spool
            dsimp only
            by_cases hstatus : (execSetgid c.process run.setgid (lit "d") [] files.spool).1 = 0
            · obtain ⟨hexec, hnone, name, hown, hspool⟩ := hdone hstatus
              have hname : (∃ name, c.process.owns name ∧ name ≠ cronFile user) ↔ name ≠ cronFile user :=
                ⟨fun ⟨name', hown', hne⟩ => Option.some.inj (hown'.2.symm.trans hown.2) ▸ hne,
                  fun hne => ⟨name, hown, hne⟩⟩
              rw [hasEntries_update_iff hspool (.inl rfl), hname]
              simp only [hstatus, huser, hsetgid, hexec, hnone, true_and, forall_const]
              exact not_congr and_comm
            · refine iff_of_true (fun h => absurd h hstatus) ?_
              rintro ⟨-, -, -, hexec, hnone, name, hown, -⟩
              exact hstatus (hdo hexec hnone name hown)
          · rw [if_neg hsetgid]
            refine iff_of_true ?_ fun h => hsetgid h.2.2.1
            split
            · rw [hasEntries_update_iff rfl (.inr rfl)]
              exact fun _ h => h.1 rfl
            · exact fun h => absurd h one_ne_zero
        · rw [if_pos (by simp [huser])]
          exact iff_of_true (fun h => absurd h one_ne_zero) fun h => huser h.2.1

end Invocation

end SystemdCron
