import SystemdCron.SpoolCalls

/-!
# Crontabs are whole

Every temporary file of the spool has one process (`Inv`), which is why the calls of the others do not show in what
is installed, and nobody writes to a crontab in its place but to wipe it, which is why a reader reads all of one.
-/

namespace SystemdCron

open Bytes Stdio Machine

namespace SpoolCalls

/-! ### Texts -/

/-- A text that the stream of an installation can have taken: a beginning of every piece, for the helper all of it. -/
def Installation.Puts (i : Installation) (pieces : List Bytes) (text : Bytes) : Prop :=
  ∃ chunks, List.Forall₂ (· <+: ·) chunks pieces ∧ text = chunks.flatten ∧
    (i.helper → chunks = pieces ∧ pieces.length ≤ MAX_LINES)

theorem puts_nil (i : Installation) : i.Puts [] [] := ⟨[], .nil, rfl, fun _ => ⟨rfl, Nat.zero_le _⟩⟩

theorem Installation.Puts.append {i : Installation} {done : List Bytes} {taken chunk piece : Bytes}
    (h : i.Puts done taken) (hchunk : chunk <+: piece)
    (hhelper : i.helper → chunk = piece ∧ done.length + 1 ≤ MAX_LINES) :
    i.Puts (done ++ [piece]) (taken ++ chunk) := by
  obtain ⟨chunks, hchunks, rfl, hall⟩ := h
  refine ⟨chunks ++ [chunk], List.rel_append hchunks (.cons hchunk .nil), by simp, fun hi => ?_⟩
  obtain ⟨rfl, hlen⟩ := hhelper hi
  exact ⟨by rw [(hall hi).1], by rwa [List.length_append]⟩

/-- What a crontab is after a task. -/
inductive Leaves : Task → Option Bytes → Prop
  | installed {i : Installation} {text : Bytes} (h : i.Puts i.pieces text) : Leaves (.install i) (some text)
  | removed (name : CrontabName) : Leaves (.unlink name) none
  | wiped (name : CrontabName) : Leaves (.truncate name) (some [])

/-! ### The invariant -/

/-- What is in the temporary file of an installation, and what its stream has taken. -/
def Installation.Holds (i : Installation) (content : Nat → Bytes) : Pc → Prop
  | .created _ file => content file = []
  | .copying _ file taken rest => content file <+: taken ∧ ∃ done, i.pieces = done ++ rest ∧ i.Puts done taken
  | .flushed _ file => i.Puts i.pieces (content file)
  | _ => True

theorem Installation.Holds.congr {i : Installation} {content content' : Nat → Bytes} {pc : Pc}
    (h : i.Holds content pc) (heq : ∀ tmp file, pc.temp = some (tmp, file) → content' file = content file) :
    i.Holds content' pc := by
  cases pc with
  | created tmp file => exact (heq tmp file rfl).trans h
  | copying tmp file taken rest => exact ⟨(heq tmp file rfl) ▸ h.1, h.2⟩
  | flushed tmp file => rw [Holds, heq tmp file rfl]; exact h
  | _ => trivial

variable {P : Type} {task : P → Task} {s s' : State P} {p q : P}

/-- A temporary file is there, and is that of one process. -/
structure Inv (task : P → Task) (s : State P) : Prop where
  sound : s.volume.Sound
  temp : ∀ p tmp file, (s.pc p).temp = some (tmp, file) → 46 ∈ tmp ∧ s.volume.file tmp = some file
  apart : ∀ p q tmp file file', (s.pc p).temp = some (tmp, file) → (s.pc q).temp = some (tmp, file') → p = q
  holds : ∀ p i, task p = .install i → i.Holds s.volume.content (s.pc p)

/-- The beginning: nobody has done anything. -/
structure State.Start (s : State P) : Prop where
  sound : s.volume.Sound
  ready : ∀ p, s.pc p = .ready

theorem State.Start.inv (h : s.Start) : Inv task s where
  sound := h.sound
  temp p tmp file htemp := by rw [h.ready p] at htemp; cases htemp
  apart p q tmp file file' htemp _ := by rw [h.ready p] at htemp; cases htemp
  holds p i _ := by rw [h.ready p]; trivial

theorem Inv.tmp_ne (h : Inv task s) (hpq : q ≠ p) {tmp tmp' : Bytes} {file file' : Nat}
    (hp : (s.pc p).temp = some (tmp, file)) (hq : (s.pc q).temp = some (tmp', file')) : tmp' ≠ tmp := by
  rintro rfl
  exact hpq (h.apart q p _ _ _ hq hp)

theorem Inv.file_ne (h : Inv task s) (hpq : q ≠ p) {tmp tmp' : Bytes} {file file' : Nat}
    (hp : (s.pc p).temp = some (tmp, file)) (hq : (s.pc q).temp = some (tmp', file')) : file' ≠ file := by
  rintro rfl
  exact h.tmp_ne hpq hp hq (h.sound.eq_of_file _ _ _ (h.temp _ _ _ hq).2 (h.temp _ _ _ hp).2)

/-- The name of a crontab is that of no temporary file. -/
theorem Inv.tmp_ne_name (h : Inv task s) (name : CrontabName) {tmp : Bytes} {file : Nat}
    (hp : (s.pc p).temp = some (tmp, file)) : tmp ≠ name.1 := by
  rintro rfl
  exact name.2 (h.temp _ _ _ hp).1

/-- A file that has the name of a crontab is no temporary file. -/
theorem Inv.file_ne_crontab (h : Inv task s) {name : CrontabName} {tmp : Bytes} {file file' : Nat}
    (hname : s.volume.file name.1 = some file) (hp : (s.pc p).temp = some (tmp, file')) : file' ≠ file := by
  rintro rfl
  exact h.tmp_ne_name name hp (h.sound.eq_of_file _ _ _ (h.temp _ _ _ hp).2 hname)

variable [DecidableEq P]

/-- A step keeps the invariant if the temporary files of the other processes stay, and that of its own is as it
should be. -/
theorem Inv.update (h : Inv task s) {v : Volume Bytes Bytes} {pc : Pc} (hv : v.Sound)
    (hothers : ∀ q tmp file, q ≠ p → (s.pc q).temp = some (tmp, file) →
      v.file tmp = some file ∧ v.content file = s.volume.content file)
    (hown : ∀ tmp file, pc.temp = some (tmp, file) →
      46 ∈ tmp ∧ v.file tmp = some file ∧ ∀ q file', q ≠ p → (s.pc q).temp ≠ some (tmp, file'))
    (hholds : ∀ i, task p = .install i → i.Holds v.content pc) :
    Inv task (s.set v p pc) where
  sound := hv
  temp q tmp file htemp := by
    by_cases hq : q = p
    · subst hq
      rw [State.set_pc_self] at htemp
      exact ⟨(hown tmp file htemp).1, (hown tmp file htemp).2.1⟩
    · rw [s.set_pc_of_ne v hq] at htemp
      exact ⟨(h.temp q tmp file htemp).1, (hothers q tmp file hq htemp).1⟩
  apart q r tmp file file' hq hr := by
    by_cases hqp : q = p
    · subst hqp
      by_cases hrp : r = q
      · exact hrp.symm
      · rw [State.set_pc_self] at hq
        rw [s.set_pc_of_ne v hrp] at hr
        exact absurd hr ((hown tmp file hq).2.2 r file' hrp)
    · rw [s.set_pc_of_ne v hqp] at hq
      by_cases hrp : r = p
      · subst hrp
        rw [State.set_pc_self] at hr
        exact absurd hq ((hown tmp file' hr).2.2 q file hqp)
      · rw [s.set_pc_of_ne v hrp] at hr
        exact h.apart q r tmp file file' hq hr
  holds q i hi := by
    by_cases hq : q = p
    · subst hq
      rw [State.set_pc_self]
      exact hholds i hi
    · rw [s.set_pc_of_ne v hq]
      exact (h.holds q i hi).congr fun tmp file htemp => (hothers q tmp file hq htemp).2

theorem Goes.temp {t : Task} {pc pc' : Pc} (h : Goes t pc pc') {x : Bytes × Nat} (hx : pc'.temp = some x) :
    pc.temp = some x := by
  cases h with
  | refused => cases hx
  | opened _ tmp file => exact hx
  | left hpc => cases hx
  | put _ tmp file taken piece rest short =>
    unfold Installation.put at hx
    dsimp only at hx
    split at hx
    · exact hx
    · exact hx
  | failed hpc taken => exact hpc.trans hx

theorem Goes.holds {i : Installation} {content : Nat → Bytes} {pc pc' : Pc} (h : Goes (.install i) pc pc')
    (hpc : i.Holds content pc) : i.Holds content pc' := by
  cases h with
  | refused => trivial
  | opened ht tmp file =>
    cases ht
    exact ⟨hpc ▸ List.nil_prefix, [], rfl, puts_nil i⟩
  | left hpc => trivial
  | put ht tmp file taken piece rest short =>
    cases ht
    obtain ⟨hfile, done, hpieces, hputs⟩ := hpc
    unfold Installation.put
    dsimp only
    split
    · trivial
    next hgo =>
      refine ⟨hfile.trans (List.prefix_append _ _), done ++ [piece], by simp [hpieces], hputs.append ?_ fun hi => ?_⟩
      · cases short with
        | none => exact List.prefix_rfl
        | some n => exact List.take_prefix n piece
      · rw [hi, Bool.true_and, Bool.not_eq_true, Bool.or_eq_false_iff, decide_eq_false_iff_not, hpieces] at hgo
        obtain ⟨hshort, hlines⟩ := hgo
        rw [List.length_append, List.length_cons] at hlines
        exact ⟨by rw [Option.isSome_eq_false_iff.1 hshort |> Option.isNone_iff_eq_none.1]; rfl, by omega⟩
  | failed hpc taken => trivial

/-- To write to a temporary file concerns no other process. -/
theorem Inv.write (h : Inv task s) {tmp : Bytes} {file : Nat} (hp : (s.pc p).temp = some (tmp, file)) {pc : Pc}
    (hpc : ∀ x, pc.temp = some x → (s.pc p).temp = some x) (content : Bytes)
    (hholds : ∀ i, task p = .install i → i.Holds (s.volume.write file content).content pc) :
    Inv task (s.set (s.volume.write file content) p pc) := by
  refine h.update (h.sound.write file content) (fun q tmp' file' hq htemp => ?_) (fun tmp' file' htemp => ?_) hholds
  · exact ⟨(h.temp q tmp' file' htemp).2, Function.update_of_ne (h.file_ne hq hp htemp) _ _⟩
  · have hp' := hpc _ htemp
    exact ⟨(h.temp p tmp' file' hp').1, (h.temp p tmp' file' hp').2, fun q _ hq htemp' => h.tmp_ne hq hp' htemp' rfl⟩

/-- A process that is over has no temporary file. -/
theorem Inv.over (h : Inv task s) {v : Volume Bytes Bytes} (ok : Bool) (hv : v.Sound)
    (hothers : ∀ q tmp file, q ≠ p → (s.pc q).temp = some (tmp, file) →
      v.file tmp = s.volume.file tmp ∧ v.content file = s.volume.content file) :
    Inv task (s.set v p (.over ok)) :=
  h.update hv
    (fun q tmp file hq htemp => ⟨(hothers q tmp file hq htemp).1.trans (h.temp q tmp file htemp).2,
      (hothers q tmp file hq htemp).2⟩)
    (fun _ _ htemp => by cases htemp) fun _ _ => trivial

/-- **A step** keeps the invariant. -/
theorem Moves.inv (hmoves : Moves task s p s') (h : Inv task s) : Inv task s' := by
  have hkeep (q : P) (tmp : Bytes) (file : Nat) (_ : q ≠ p) (hq : (s.pc q).temp = some (tmp, file)) :
      s.volume.file tmp = some file ∧ s.volume.content file = s.volume.content file := ⟨(h.temp q tmp file hq).2, rfl⟩
  cases hmoves with
  | goes hgoes =>
    refine h.update h.sound hkeep (fun tmp file htemp => ?_) fun i hi => ?_
    · have hp := hgoes.temp htemp
      exact ⟨(h.temp p tmp file hp).1, (h.temp p tmp file hp).2, fun q file' hq htemp' => h.tmp_ne hq hp htemp' rfl⟩
    · exact (hi ▸ hgoes).holds (h.holds p i hi)
  | @create tmp hpc hdot hnew =>
    have hne {q : P} {tmp' : Bytes} {file : Nat} (hq : (s.pc q).temp = some (tmp', file)) : tmp' ≠ tmp := by
      rintro rfl
      rw [(h.temp q _ _ hq).2] at hnew
      cases hnew
    refine h.update (h.sound.create tmp []) (fun q tmp' file _ hq => ?_) (fun tmp' file htemp => ?_) fun i hi => ?_
    · have hfile := (h.temp q tmp' file hq).2
      rw [Volume.file_create, Function.update_of_ne (hne hq)]
      exact ⟨hfile, Function.update_of_ne (h.sound.lt_used _ _ hfile).ne _ _⟩
    · cases htemp
      exact ⟨hdot, Function.update_self .., fun q file' _ hq => hne hq rfl⟩
    · exact Function.update_self ..
  | @write taken file n hpc =>
    obtain ⟨tmp, hp⟩ := Pc.temp_of_stream hpc
    refine h.write hp (fun _ htemp => htemp) _ fun i hi => ?_
    have hholds := h.holds p i hi
    cases hpc' : s.pc p with
    | copying tmp' file' taken' rest =>
      rw [hpc'] at hpc hholds
      cases hpc
      refine ⟨?_, hholds.2⟩
      rw [show (s.volume.write file (taken.take n)).content file = taken.take n from Function.update_self ..]
      exact List.take_prefix n taken
    | failed => trivial
    | _ => rw [hpc'] at hpc; cases hpc
  | @flush tmp taken file hpc =>
    have hp : (s.pc p).temp = some (tmp, file) := by rw [hpc]; rfl
    refine h.write hp (fun x (htemp : (Pc.flushed tmp file).temp = some x) => hp.trans htemp) _ fun i hi => ?_
    have hholds := h.holds p i hi
    rw [hpc] at hholds
    obtain ⟨-, done, hpieces, hputs⟩ := hholds
    rw [List.append_nil] at hpieces
    change i.Puts i.pieces ((s.volume.write file taken).content file)
    rw [show (s.volume.write file taken).content file = taken from Function.update_self .., hpieces]
    exact hputs
  | @rename i tmp file ht hpc =>
    have hp : (s.pc p).temp = some (tmp, file) := by rw [hpc]; rfl
    refine h.over true (h.sound.rename tmp i.name.1) fun q tmp' file' hq htemp => ⟨?_, rfl⟩
    exact (Function.update_of_ne (h.tmp_ne hq hp htemp) _ _).trans
      (Function.update_of_ne (h.tmp_ne_name i.name htemp) _ _)
  | @cleanup tmp taken file hpc =>
    have hp : (s.pc p).temp = some (tmp, file) := by rw [hpc]; rfl
    exact h.over false (h.sound.unlink tmp) fun q tmp' file' hq htemp =>
      ⟨Function.update_of_ne (h.tmp_ne hq hp htemp) _ _, rfl⟩
  | @unlink name ht hpc =>
    exact h.over true (h.sound.unlink name.1) fun q tmp' file' hq htemp =>
      ⟨Function.update_of_ne (h.tmp_ne_name name htemp) _ _, rfl⟩
  | @truncate name file ht hpc hfile =>
    exact h.over true (h.sound.write file []) fun q tmp' file' hq htemp =>
      ⟨rfl, Function.update_of_ne (h.file_ne_crontab hfile htemp) _ _⟩
  | fopen ht hpc hfile =>
    exact h.update h.sound hkeep (fun _ _ htemp => by cases htemp) fun _ _ => trivial
  | read hpc hmore hend =>
    refine h.update h.sound hkeep (fun _ _ htemp => ?_) fun i hi => ?_
    · split at htemp <;> cases htemp
    · split <;> trivial

/-- One state after another, by the calls of any processes. -/
abbrev Reaches (task : P → Task) : State P → State P → Prop := Relation.ReflTransGen (Next (step task) fun _ _ => True)

theorem Reaches.inv {s₀ : State P} (h : Reaches task s₀ s) (h₀ : s₀.Start) : Inv task s :=
  invariant h₀.inv (fun _ _ hs ⟨_, _, hstep⟩ => (step_moves hstep).inv hs) h

/-! ### What is seen -/

theorem Goes.ne_over {t : Task} {pc pc' : Pc} (h : Goes t pc pc') : pc' ≠ .over true := by
  cases h with
  | put _ tmp file taken piece rest short =>
    unfold Installation.put
    dsimp only
    split <;> nofun
  | _ => nofun

/-- **A step** changes no crontab, or a process is over with what it was to do. -/
theorem Moves.look (hmoves : Moves task s p s') (h : Inv task s) :
    Keeps s.volume.look s'.volume.look ∧ s'.pc p ≠ .over true ∨
    s'.pc p = .over true ∧ ∃ v, Sets s.volume.look s'.volume.look (task p).name.1 v ∧ Leaves (task p) v := by
  cases hmoves with
  | @goes pc hgoes =>
    refine .inl ⟨keeps_refl _, ?_⟩
    rw [State.set_pc_self]
    exact hgoes.ne_over
  | @create tmp hpc hdot hnew =>
    refine .inl ⟨?_, ?_⟩
    · rw [State.set_volume, Volume.look_create h.sound]
      exact keeps_update hdot _
    · rw [State.set_pc_self]
      nofun
  | @write taken file n hpc =>
    obtain ⟨tmp, hp⟩ := Pc.temp_of_stream hpc
    obtain ⟨hdot, hfile⟩ := h.temp p tmp file hp
    refine .inl ⟨?_, ?_⟩
    · rw [State.set_volume, Volume.look_write h.sound hfile]
      exact keeps_update hdot _
    · rw [State.set_pc_self]
      intro hpc'
      rw [hpc'] at hpc
      cases hpc
  | @flush tmp taken file hpc =>
    obtain ⟨hdot, hfile⟩ := h.temp p tmp file (by rw [hpc]; rfl)
    refine .inl ⟨?_, ?_⟩
    · rw [State.set_volume, Volume.look_write h.sound hfile]
      exact keeps_update hdot _
    · rw [State.set_pc_self]
      nofun
  | @rename i tmp file ht hpc =>
    obtain ⟨hdot, hfile⟩ := h.temp p tmp file (by rw [hpc]; rfl)
    have hholds := h.holds p i ht
    rw [hpc] at hholds
    refine .inr ⟨State.set_pc_self .., some (s.volume.content file), fun other hother => ?_, ht ▸ .installed hholds⟩
    rw [State.set_volume, Volume.look_rename, Volume.look_eq hfile, keeps_update hdot none other hother, ht]
    exact sets_update _ _ _ other hother
  | @cleanup tmp taken file hpc =>
    obtain ⟨hdot, -⟩ := h.temp p tmp file (by rw [hpc]; rfl)
    refine .inl ⟨?_, ?_⟩
    · rw [State.set_volume, Volume.look_unlink]
      exact keeps_update hdot _
    · rw [State.set_pc_self]
      nofun
  | @unlink name ht hpc =>
    refine .inr ⟨State.set_pc_self .., none, ?_, ht ▸ .removed name⟩
    rw [State.set_volume, Volume.look_unlink, ht]
    exact sets_update _ _ _
  | @truncate name file ht hpc hfile =>
    refine .inr ⟨State.set_pc_self .., some [], ?_, ht ▸ .wiped name⟩
    rw [State.set_volume, Volume.look_write h.sound hfile, ht]
    exact sets_update _ _ _
  | fopen ht hpc hfile =>
    refine .inl ⟨keeps_refl _, ?_⟩
    rw [State.set_pc_self]
    nofun
  | read hpc hmore hend =>
    refine .inl ⟨keeps_refl _, ?_⟩
    rw [State.set_pc_self]
    split <;> nofun

/-! ### Readers -/

/-- A file that is written to by the name of a crontab only. -/
structure Settled (s : State P) (name : CrontabName) (file : Nat) : Prop where
  lt_used : file < s.volume.used
  temp : ∀ p tmp, (s.pc p).temp ≠ some (tmp, file)
  eq_name : ∀ other, s.volume.file other = some file → other = name.1

omit [DecidableEq P] in
theorem Inv.settled (h : Inv task s) {name : CrontabName} {file : Nat} (hname : s.volume.file name.1 = some file) :
    Settled s name file where
  lt_used := h.sound.lt_used _ _ hname
  temp _ _ hp := h.file_ne_crontab hname hp rfl
  eq_name _ hother := h.sound.eq_of_file _ _ _ hother hname

theorem Settled.set {name : CrontabName} {file : Nat} (h : Settled s name file) {v : Volume Bytes Bytes} {pc : Pc}
    (hused : s.volume.used ≤ v.used) (hpc : ∀ tmp, pc.temp ≠ some (tmp, file))
    (hfile : ∀ other, v.file other = some file → s.volume.file other = some file) :
    Settled (s.set v p pc) name file where
  lt_used := h.lt_used.trans_le hused
  temp q tmp := by
    by_cases hq : q = p
    · subst hq
      rw [State.set_pc_self]
      exact hpc tmp
    · rw [s.set_pc_of_ne v hq]
      exact h.temp q tmp
  eq_name other hother := h.eq_name other (hfile other hother)

/-- **A step** does not change what is in a settled file. -/
theorem Moves.settled (hmoves : Moves task s p s') (hinv : Inv task s) {name : CrontabName} {file : Nat}
    (h : Settled s name file) (hwipe : task p ≠ .truncate name) :
    Settled s' name file ∧ s'.volume.content file = s.volume.content file := by
  have hne {tmp : Bytes} {file' : Nat} (hp : (s.pc p).temp = some (tmp, file')) : file ≠ file' := by
    rintro rfl
    exact h.temp p tmp hp
  cases hmoves with
  | goes hgoes => exact ⟨h.set le_rfl (fun tmp htemp => h.temp p tmp (hgoes.temp htemp)) fun _ hother => hother, rfl⟩
  | @create tmp hpc hdot hnew =>
    refine ⟨h.set (Nat.le_succ _) (fun tmp' htemp => ?_) fun other hother => ?_,
      Function.update_of_ne h.lt_used.ne _ _⟩
    · cases htemp
      exact absurd h.lt_used (lt_irrefl _)
    · rw [Volume.file_create, Function.update_apply] at hother
      split at hother
      · cases hother
        exact absurd h.lt_used (lt_irrefl _)
      · exact hother
  | @write taken file' n hpc =>
    obtain ⟨tmp, hp⟩ := Pc.temp_of_stream hpc
    exact ⟨h.set le_rfl (h.temp p) fun _ hother => hother, Function.update_of_ne (hne hp) _ _⟩
  | @flush tmp taken file' hpc =>
    have hp : (s.pc p).temp = some (tmp, file') := by rw [hpc]; rfl
    exact ⟨h.set le_rfl (fun tmp' htemp => h.temp p tmp' (hp.trans htemp)) fun _ hother => hother,
      Function.update_of_ne (hne hp) _ _⟩
  | @rename i tmp file' ht hpc =>
    have hp : (s.pc p).temp = some (tmp, file') := by rw [hpc]; rfl
    refine ⟨h.set le_rfl (fun _ htemp => by cases htemp) fun other hother => ?_, rfl⟩
    rcases Volume.file_rename hother with ⟨-, htmp⟩ | ⟨-, -, hother⟩
    · exact absurd (Option.some.inj (htmp.symm.trans (hinv.temp p tmp file' hp).2)) (hne hp)
    · exact hother
  | cleanup hpc =>
    exact ⟨h.set le_rfl (fun _ htemp => by cases htemp) fun _ hother => (Volume.file_unlink hother).2, rfl⟩
  | unlink ht hpc =>
    exact ⟨h.set le_rfl (fun _ htemp => by cases htemp) fun _ hother => (Volume.file_unlink hother).2, rfl⟩
  | @truncate name' file' ht hpc hfile =>
    refine ⟨h.set le_rfl (fun _ htemp => by cases htemp) fun _ hother => hother, Function.update_of_ne ?_ _ _⟩
    rintro rfl
    exact hwipe (ht.trans (congrArg Task.truncate (Subtype.ext (h.eq_name _ hfile))))
  | fopen ht hpc hfile => exact ⟨h.set le_rfl (fun _ htemp => by cases htemp) fun _ hother => hother, rfl⟩
  | read hpc hmore hend =>
    refine ⟨h.set le_rfl (fun _ htemp => ?_) fun _ hother => hother, rfl⟩
    split at htemp <;> cases htemp

/-- A reader opened a crontab before it read, and reads what was in it. -/
def Reads (task : P → Task) (s₀ s : State P) (p : P) : Pc → Prop
  | .reading file got => ∃ s₁, Reaches task s₀ s₁ ∧ Reaches task s₁ s ∧ s₁.pc p = .reading file [] ∧
      s₁.volume.look (task p).name.1 = some (s.volume.content file) ∧ Settled s (task p).name file ∧
      got <+: s.volume.content file
  | .hasRead got => ∃ s₁ file, Reaches task s₀ s₁ ∧ Reaches task s₁ s ∧ s₁.pc p = .reading file [] ∧
      s₁.volume.look (task p).name.1 = some got
  | _ => True

theorem Moves.pc_of_ne (hmoves : Moves task s p s') (hq : q ≠ p) : s'.pc q = s.pc q := by
  cases hmoves with
  | _ => exact s.set_pc_of_ne _ hq _

/-- **A step** of another process is none of a reader's concern. -/
theorem Reads.other {s₀ : State P} (h : Reads task s₀ s q (s.pc q)) (hs : Reaches task s s')
    (hmoves : Moves task s p s') (hq : q ≠ p) (hinv : Inv task s) (hwipe : task p ≠ .truncate (task q).name) :
    Reads task s₀ s' q (s'.pc q) := by
  rw [hmoves.pc_of_ne hq]
  cases hpc : s.pc q with
  | reading file got =>
    rw [hpc] at h
    obtain ⟨s₁, hs₁, hs₁s, hopen, hlook, hsettled, hgot⟩ := h
    obtain ⟨hsettled', hcontent⟩ := hmoves.settled hinv hsettled hwipe
    exact ⟨s₁, hs₁, hs₁s.trans hs, hopen, hcontent ▸ hlook, hsettled', hcontent ▸ hgot⟩
  | hasRead got =>
    rw [hpc] at h
    obtain ⟨s₁, file, hs₁, hs₁s, hopen, hlook⟩ := h
    exact ⟨s₁, file, hs₁, hs₁s.trans hs, hopen, hlook⟩
  | _ => trivial

theorem Goes.reads {t : Task} {pc pc' : Pc} (h : Goes t pc pc') (s₀ s : State P) (p : P) : Reads task s₀ s p pc' := by
  cases h with
  | put _ tmp file taken piece rest short =>
    unfold Installation.put
    dsimp only
    split <;> trivial
  | _ => trivial

/-- **A step** of a reader. -/
theorem Reads.self {s₀ : State P} (h : Reads task s₀ s p (s.pc p)) (hs₀ : Reaches task s₀ s')
    (hs : Reaches task s s') (hmoves : Moves task s p s') (hinv : Inv task s) : Reads task s₀ s' p (s'.pc p) := by
  cases hmoves with
  | goes hgoes =>
    rw [State.set_pc_self]
    exact hgoes.reads s₀ _ p
  | @fopen name file ht hpc hfile =>
    rw [State.set_pc_self]
    refine ⟨_, hs₀, .refl, State.set_pc_self .., ?_, ?_, List.nil_prefix⟩
    · rw [ht]
      exact Volume.look_eq hfile
    · rw [ht]
      exact (hinv.settled hfile).set le_rfl (fun _ htemp => by cases htemp) fun _ hother => hother
  | @read file got more hpc hmore hend =>
    rw [State.set_pc_self]
    rw [hpc] at h
    obtain ⟨s₁, hs₁, hs₁s, hopen, hlook, hsettled, hgot⟩ := h
    obtain ⟨rest, hrest⟩ := hgot
    rw [← hrest, List.drop_left] at hmore hend
    by_cases hnil : more = []
    · rw [if_pos hnil] at hs ⊢
      rw [hend hnil, List.append_nil] at hrest
      exact ⟨s₁, file, hs₁, hs₁s.trans hs, hopen, hrest ▸ hlook⟩
    · rw [if_neg hnil] at hs ⊢
      refine ⟨s₁, hs₁, hs₁s.trans hs, hopen, hlook, ?_, ?_⟩
      · exact hsettled.set le_rfl (fun _ htemp => by cases htemp) fun _ hother => hother
      · change got ++ more <+: s.volume.content file
        rw [← hrest]
        exact (List.prefix_append_right_inj got).2 hmore
  | write hpc =>
    obtain ⟨tmp, hp⟩ := Pc.temp_of_stream hpc
    rw [State.set_pc_self]
    cases hpc' : s.pc p with
    | reading | hasRead => rw [hpc'] at hpc; cases hpc
    | _ => trivial
  | _ =>
    rw [State.set_pc_self]
    trivial

/-! ### Runs -/

/-- **Crontabs are whole** in every state of every run: each is what it was in the beginning or what one of the
processes makes of it; a step changes no crontab, or that of its process, which is over with success then; and what
a reader has read in the end was all of the crontab when it was opened, unless somebody may wipe it. -/
theorem crontabs_whole {s₀ : State P} (h₀ : s₀.Start) (h : Reaches task s₀ s) :
    (∀ name : CrontabName, s.volume.look name.1 = s₀.volume.look name.1 ∨
      ∃ p, (task p).name = name ∧ Leaves (task p) (s.volume.look name.1)) ∧
    (∀ a s', step task s a = some s' →
      Keeps s.volume.look s'.volume.look ∧ s'.pc a.process ≠ .over true ∨
      s'.pc a.process = .over true ∧
        ∃ v, Sets s.volume.look s'.volume.look (task a.process).name.1 v ∧ Leaves (task a.process) v) ∧
    ∀ p got, s.pc p = .hasRead got → (∀ q, task q ≠ .truncate (task p).name) →
      ∃ s₁ file, Reaches task s₀ s₁ ∧ Reaches task s₁ s ∧ s₁.pc p = .reading file [] ∧
        s₁.volume.look (task p).name.1 = some got := by
  refine ⟨fun name => ?_, fun a s' hstep => (step_moves hstep).look (h.inv h₀), fun p got hpc hwipe => ?_⟩
  · induction h with
    | refl => exact .inl rfl
    | @tail s s' hs hnext ih =>
      obtain ⟨a, -, hstep⟩ := hnext
      rcases (step_moves hstep).look (Reaches.inv hs h₀) with ⟨hkeep, -⟩ | ⟨-, v, hset, hv⟩
      · rw [hkeep name.1 name.2]
        exact ih
      · rw [hset name.1 name.2]
        split
        next hname => exact .inr ⟨a.process, Subtype.ext hname.symm, hv⟩
        next => exact ih
  · suffices hreads : Reads task s₀ s p (s.pc p) by
      rw [hpc] at hreads
      exact hreads
    clear hpc
    induction h with
    | refl =>
      rw [h₀.ready p]
      trivial
    | @tail s s' hs hnext ih =>
      have hs' : Reaches task s s' := .single hnext
      obtain ⟨a, -, hstep⟩ := hnext
      have hmoves := step_moves hstep
      by_cases hp : p = a.process
      · subst hp
        exact ih.self (Relation.ReflTransGen.trans hs hs') hs' hmoves (Reaches.inv hs h₀)
      · exact ih.other hs' hmoves hp (Reaches.inv hs h₀) (hwipe a.process)

/-- A spool with one crontab. -/
def oneCrontab (name content : Bytes) : Volume Bytes Bytes where
  file := Function.update (fun _ => none) name (some 0)
  content _ := content
  used := 1

theorem oneCrontab_sound (name content : Bytes) : (oneCrontab name content).Sound := by
  have hfile {n : Bytes} {i : Nat} (h : (oneCrontab name content).file n = some i) : n = name ∧ i = 0 := by
    unfold oneCrontab at h
    dsimp only at h
    rw [Function.update_apply] at h
    split at h
    next hn => exact ⟨hn, (Option.some.inj h).symm⟩
    next => cases h
  exact ⟨fun n i h => (hfile h).2 ▸ Nat.one_pos, fun m n i hm hn => (hfile hm).1.trans (hfile hn).1.symm⟩

/-- One process replaces the crontab of a user, and another reads it. -/
def replaceAndRead : Bool → Task
  | false => .install (.direct varSpoolCron (lit "jane") ((lit "@daily true\n").map some) (by decide))
  | true => .read ⟨lit "jane", by decide⟩

/-- A crontab is replaced while it is read: what is read is all of the one that was there before. -/
theorem crontabs_whole_replaced :
    ∃ s, Reaches replaceAndRead ⟨oneCrontab (lit "jane") (lit "@hourly"), fun _ => .ready⟩ s ∧
      s.volume.look (lit "jane") = some (lit "@daily true\n") ∧ s.pc true = .hasRead (lit "@hourly") ∧
      ∃ s₁ file, Reaches replaceAndRead ⟨oneCrontab (lit "jane") (lit "@hourly"), fun _ => .ready⟩ s₁ ∧
        Reaches replaceAndRead s₁ s ∧ s₁.pc true = .reading file [] ∧
        s₁.volume.look (lit "jane") = some (lit "@hourly") := by
  have hrun : (run (step replaceAndRead) (fun _ _ => True)
      ⟨oneCrontab (lit "jane") (lit "@hourly"), fun _ => .ready⟩
      [.mkostemp false true sixLetters, .fopen true true, .fdopen false true, .read true 3, .fwrite false none,
        .write false 5, .fflush false true, .rename false true, .read true 4096, .read true 4096]).map
      (fun s => (s.volume.look (lit "jane"), s.pc true)) =
      some (some (lit "@daily true\n"), .hasRead (lit "@hourly")) := by decide +kernel
  obtain ⟨s, hs, heq⟩ := Option.map_eq_some_iff.1 hrun
  obtain ⟨hlook, hpc⟩ := Prod.mk.inj heq
  have hreaches := run_reaches hs
  exact ⟨s, hreaches, hlook, hpc, (crontabs_whole ⟨oneCrontab_sound _ _, fun _ => rfl⟩ hreaches).2.2 true _ hpc
    (fun q => by cases q <;> nofun)⟩

end SpoolCalls

end SystemdCron
