import SystemdCron.Environment

/-!
# The home in `PATH` and in the command

`decode_command` writes out the home in the elements of `PATH` that begin with `~/` and in the first word of the
command. `tilde_expansion_iff` says for which jobs it leaves the other elements as they are: an empty element
is lost if there is one with `~/`.
-/

namespace SystemdCron

open Bytes

/-- The elements of a `PATH`, empty ones included. -/
def pathElements (path : Bytes) : List Bytes := path.splitOn COLON

/-- An element with the home written out. -/
def expandElement (home p : Bytes) : Bytes := if (lit "~/").isPrefixOf p then home ++ p.drop 1 else p

/-- An absolute home directory without a colon. -/
structure Home where
  dir : Bytes
  absolute : dir.head? = some SLASH
  colon : COLON ∉ dir

namespace Job

/-- `decode_command`, which alone sets the two, was not called. -/
structure Undecoded (j : Job) : Prop where
  environmentPATHStorage : j.environmentPATHStorage = []
  command0 : j.command.command0 = none

/-- The home is written out exactly, in `PATH` and in the first word of the command, and `decode_command` has
nothing to do any more. -/
def TildeExpanded (host : Host) (home : Bytes) (j : Job) : Prop :=
  ((j.decodeCommand host).environment[lit "PATH"]?.map pathElements =
    j.environment[lit "PATH"]?.map fun path => (pathElements path).map (expandElement home)) ∧
  (j.decodeCommand host).command.hunks = expandTilde (some home) j.command.hunks ∧
  ∀ n, (decodeCommand host)^[n + 1] j = j.decodeCommand host

end Job

/-- The job of a line comes to `decode_command` like this. -/
theorem parseLine_undecoded {host : Host} {kind : CrontabKind} {environment : Env} {line : Bytes}
    {rng rng' : Rng} {j : Job} (h : parseLine host kind environment line rng = .ok (j, rng')) : j.Undecoded := by
  have hsettings := parseLine_sameSettings h
  have hline := newJob_sameLine host kind environment line
  exact ⟨hsettings.environmentPATHStorage.trans hline.environmentPATHStorage,
    hsettings.command0.trans (congrArg Command.command0 hline.command)⟩

/-! ### Elements -/

theorem contains_iff {s pat : Bytes} : contains s pat ↔ pat <:+: s := by
  rw [contains, List.any_eq_true]
  simp only [List.mem_tails, List.isPrefixOf_iff_prefix, List.infix_iff_prefix_suffix, and_comm]

/-- A `PATH` is an element, or an element in front of a colon and of a `PATH`. -/
theorem path_induction {motive : Bytes → Prop} (last : ∀ e, COLON ∉ e → motive e)
    (element : ∀ e t, COLON ∉ e → motive t → motive (e ++ COLON :: t)) (path : Bytes) : motive path := by
  induction h : path.length using Nat.strong_induction_on generalizing path with
  | _ n ih =>
    subst h
    by_cases hc : COLON ∈ path
    · obtain ⟨e, t, rfl, he⟩ := List.eq_append_cons_of_mem hc
      exact element e t he (ih t.length (by simp; omega) t rfl)
    · exact last path hc

theorem pathElements_last {e : Bytes} (he : COLON ∉ e) : pathElements e = [e] := List.splitOn_eq_singleton he

theorem pathElements_element {e : Bytes} (he : COLON ∉ e) (t : Bytes) :
    pathElements (e ++ COLON :: t) = e :: pathElements t := List.splitOn_append_cons_self_of_not_mem he t

theorem colon_notMem_of_mem_pathElements {path p : Bytes} (h : p ∈ pathElements path) : COLON ∉ p := by
  induction path using path_induction with
  | last e he =>
    rw [pathElements_last he, List.mem_singleton] at h
    rwa [h]
  | element e t he ih =>
    rw [pathElements_element he, List.mem_cons] at h
    rcases h with rfl | h
    · exact he
    · exact ih h

/-- A word without a colon that begins a text is in front of the colon. -/
theorem prefix_element_iff {w e : Bytes} (hw : COLON ∉ w) (t : Bytes) : w <+: e ++ COLON :: t ↔ w <+: e := by
  refine ⟨fun h => ?_, fun h => h.trans (List.prefix_append _ _)⟩
  rcases List.prefix_or_prefix_of_prefix h (List.prefix_append e _) with h' | ⟨u, rfl⟩
  · exact h'
  · rw [List.prefix_append_right_inj] at h
    cases u with
    | nil => simp
    | cons c u =>
      rw [List.cons_prefix_cons] at h
      exact absurd (by simp [h.1]) hw

/-- The first colon of a text is the one behind its first element. -/
theorem infix_element_iff {w e : Bytes} (he : COLON ∉ e) (t : Bytes) :
    COLON :: w <:+: e ++ COLON :: t ↔ w <+: t ∨ COLON :: w <:+: t := by
  induction e with
  | nil =>
    rw [List.nil_append, List.infix_cons_iff, List.cons_prefix_cons]
    simp
  | cons c e ih =>
    rw [List.mem_cons, not_or] at he
    rw [List.cons_append, List.infix_cons_iff, List.cons_prefix_cons, ih he.2]
    simp [he.1]

/-- An element begins with a word if the text does, or if the word stands after a colon. -/
theorem exists_pathElement_iff {w : Bytes} (hw : COLON ∉ w) (path : Bytes) :
    (w <+: path ∨ COLON :: w <:+: path) ↔ ∃ p ∈ pathElements path, w <+: p := by
  induction path using path_induction with
  | last e he =>
    have hnone : ¬ COLON :: w <:+: e := fun h => he (h.subset List.mem_cons_self)
    simp [pathElements_last he, hnone]
  | element e t he ih =>
    rw [pathElements_element he, List.exists_mem_cons_iff, prefix_element_iff hw, infix_element_iff he, ih]

/-- Whether `decode_command` changes a `PATH`. -/
theorem tilde_iff (path : Bytes) : ((lit "~/").isPrefixOf path || contains path (lit ":~/")) ↔
    ∃ p ∈ pathElements path, lit "~/" <+: p := by
  rw [Bool.or_eq_true, List.isPrefixOf_iff_prefix, contains_iff]
  exact exists_pathElement_iff (by decide) path

theorem expandElement_of_not {home p : Bytes} (h : ¬ lit "~/" <+: p) : expandElement home p = p :=
  if_neg (by rwa [List.isPrefixOf_iff_prefix])

theorem colon_notMem_expandElement (home : Home) {p : Bytes} (h : COLON ∉ p) :
    COLON ∉ expandElement home.dir p := by
  unfold expandElement
  split
  · rw [List.mem_append, not_or]
    exact ⟨home.colon, fun hc => h (List.mem_of_mem_drop hc)⟩
  · exact h

/-- No element begins with `~/` any more. -/
theorem not_tilde_expandElement (home : Home) (p : Bytes) : ¬ lit "~/" <+: expandElement home.dir p := by
  unfold expandElement
  split
  · obtain ⟨r, hr⟩ := List.head?_eq_some_iff.1 home.absolute
    rw [hr]
    exact fun h => absurd (List.cons_prefix_cons.1 h).1 (by decide)
  next h => rwa [List.isPrefixOf_iff_prefix] at h

theorem dropLast_flatMap_colon (f : Bytes → Bytes) {ps : List Bytes} (h : ps ≠ []) :
    (ps.flatMap fun p => f p ++ [COLON]).dropLast = [COLON].intercalate (ps.map f) := by
  induction ps with
  | nil => exact absurd rfl h
  | cons p ps ih =>
    rw [List.flatMap_cons, List.map_cons]
    by_cases hps : ps = []
    · subst hps
      simp
    · have hne : (ps.flatMap fun p => f p ++ [COLON]) ≠ [] := by
        obtain ⟨q, qs, rfl⟩ := List.exists_cons_of_ne_nil hps
        simp
      rw [List.dropLast_append_of_ne_nil hne, ih hps, List.intercalate_cons_of_ne_nil (by simpa using hps)]

/-- The expanded `PATH` has the elements that are not empty, with the home written out. -/
theorem pathElements_expandPath (home : Home) {path : Bytes} (h : ∃ p ∈ pathElements path, lit "~/" <+: p) :
    pathElements (Job.expandPath home.dir path).dropLast =
      ((pathElements path).filter (· ≠ [])).map (expandElement home.dir) := by
  have htok : softTokenise (· == COLON) path = (pathElements path).filter (· ≠ []) := softTokenise_eq _ _
  have hne : (pathElements path).filter (· ≠ []) ≠ [] := by
    obtain ⟨p, hp, hpre⟩ := h
    have hp0 : p ≠ [] := by
      rintro rfl
      exact absurd hpre (by decide)
    exact List.ne_nil_of_mem (List.mem_filter.2 ⟨hp, by simpa using hp0⟩)
  have hcolon : ∀ p ∈ ((pathElements path).filter (· ≠ [])).map (expandElement home.dir), COLON ∉ p := by
    intro p hp
    obtain ⟨q, hq, rfl⟩ := List.mem_map.1 hp
    exact colon_notMem_expandElement home (colon_notMem_of_mem_pathElements (List.mem_of_mem_filter hq))
  rw [Job.expandPath, htok]
  exact (congrArg pathElements (dropLast_flatMap_colon (expandElement home.dir) hne)).trans
    (List.splitOn_intercalate COLON hcolon (by simpa using hne))

/-- The elements are all there exactly if none is empty. -/
theorem map_filter_eq_map_iff (f : Bytes → Bytes) (ps : List Bytes) :
    (ps.filter (· ≠ [])).map f = ps.map f ↔ [] ∉ ps := by
  constructor
  · intro h hmem
    have hlen := congrArg List.length h
    rw [List.length_map, List.length_map, List.length_filter_eq_length_iff] at hlen
    simpa using hlen [] hmem
  · intro h
    rw [List.filter_eq_self.2 fun p hp => by simpa using ne_of_mem_of_not_mem hp h]

/-- Nothing is to be written out exactly if no element begins with `~/`. -/
theorem map_expandElement_iff (home : Home) (ps : List Bytes) :
    ps.map (expandElement home.dir) = ps ↔ ¬ ∃ p ∈ ps, lit "~/" <+: p := by
  have hself : ps.map (expandElement home.dir) = ps.map id ↔ ∀ p ∈ ps, expandElement home.dir p = p :=
    List.map_inj_left
  rw [List.map_id] at hself
  rw [hself]
  constructor
  · rintro h ⟨p, hp, hpre⟩
    exact not_tilde_expandElement home p (by rwa [h p hp])
  · exact fun h p hp => expandElement_of_not fun hpre => h ⟨p, hp, hpre⟩

/-! ### `decode_command` -/

namespace Job

variable {host : Host} {home : Home} {j : Job}

/-- No element of an expanded `PATH` begins with `~/`. -/
theorem not_tilde_expandedPath (home : Home) (path : Bytes) :
    ¬ ∃ p ∈ pathElements (expandedPath (some home.dir) path), lit "~/" <+: p := by
  unfold expandedPath
  dsimp only
  split
  next h =>
    rw [pathElements_expandPath home ((tilde_iff path).1 h)]
    rintro ⟨p, hp, hpre⟩
    obtain ⟨q, -, rfl⟩ := List.mem_map.1 hp
    exact not_tilde_expandElement home q hpre
  next h => rwa [tilde_iff] at h

theorem expandPathVariable_idem (h : j.environmentPATHStorage = []) :
    (j.expandPathVariable home.dir).expandPathVariable home.dir = j.expandPathVariable home.dir := by
  have hpath := expandPathVariable_environment j home.dir h (lit "PATH")
  rw [if_pos rfl] at hpath
  generalize j.expandPathVariable home.dir = d at hpath
  unfold expandPathVariable
  rw [hpath]
  rcases j.environment[lit "PATH"]? with - | path
  · rfl
  · exact if_neg fun h => not_tilde_expandedPath home path ((tilde_iff _).1 h)

theorem not_tilde_expandCommand : ¬ lit "~/" <+: (j.expandCommand home.dir).command.get 0 := by
  unfold expandCommand
  split
  · obtain ⟨r, hr⟩ := List.head?_eq_some_iff.1 home.absolute
    rw [Command.get, hr]
    exact fun h => absurd (List.cons_prefix_cons.1 h).1 (by decide)
  next h => rwa [List.isPrefixOf_iff_prefix] at h

theorem expandCommand_size (hj : j.command.command0 = none) (hsize : j.command.size ≠ 0) :
    (j.expandCommand home.dir).command.size = j.command.size := by
  unfold expandCommand
  split
  · simp only [Command.size, hj, Option.isSome_none, Option.isSome_some, List.length_drop, if_true,
      Bool.false_eq_true, if_false] at hsize ⊢
    omega
  · rfl

/-- What `decode_command` does for a user with a home. -/
theorem decodeCommand_of_home (hhome : (j.pullUser host).userHome = some home.dir) (hsize : j.command.size ≠ 0) :
    j.decodeCommand host = ((j.pullUser host).expandCommand home.dir).expandPathVariable home.dir := by
  rw [decodeCommand, if_neg hsize]
  dsimp only
  rw [hhome]

theorem Undecoded.expandCommand (hj : j.Undecoded) :
    ((j.pullUser host).expandCommand home.dir).environmentPATHStorage = [] ∧
      ((j.pullUser host).expandCommand home.dir).environment = j.environment := by
  obtain ⟨_, _, _, hp⟩ := j.pullUser_eq host
  obtain ⟨_, _, hc⟩ := (j.pullUser host).expandCommand_eq home.dir
  rw [hc, hp]
  exact ⟨hj.environmentPATHStorage, rfl⟩

/-- Once decoded, a job stays as it is. -/
theorem decodeCommand_idem (hj : j.Undecoded) (hhome : (j.pullUser host).userHome = some home.dir) :
    (j.decodeCommand host).decodeCommand host = j.decodeCommand host := by
  by_cases hsize : j.command.size = 0
  · rw [decodeCommand, decodeCommand, if_pos hsize, if_pos hsize]
  rw [decodeCommand_of_home hhome hsize]
  have hidem := @expandPathVariable_idem home _ (@Undecoded.expandCommand host home j hj).1
  have hcommand := expandPathVariable_command home.dir ((j.pullUser host).expandCommand home.dir)
  have huser := expandPathVariable_userHome home.dir ((j.pullUser host).expandCommand home.dir)
  have hsize' : ((j.pullUser host).expandCommand home.dir).command.size ≠ 0 := by
    rw [expandCommand_size (by rw [pullUser_command]; exact hj.command0) (by rwa [pullUser_command]),
      pullUser_command]
    exact hsize
  have hword := @not_tilde_expandCommand home (j.pullUser host)
  rw [expandCommand_userHome, hhome] at huser
  rw [← hcommand] at hsize' hword
  generalize (((j.pullUser host).expandCommand home.dir).expandPathVariable home.dir) = d at *
  have hpull : d.pullUser host = d := by
    rw [pullUser, huser]
    rfl
  have hexpand : d.expandCommand home.dir = d := by
    rw [Job.expandCommand, if_neg]
    rwa [List.isPrefixOf_iff_prefix]
  rw [decodeCommand_of_home (by rw [hpull]; exact huser) hsize', hpull, hexpand, hidem]

/-- What becomes of `PATH`. -/
theorem decodeCommand_path (hj : j.Undecoded) (hhome : (j.pullUser host).userHome = some home.dir) :
    (j.decodeCommand host).environment[lit "PATH"]? =
      if j.command.size = 0 then j.environment[lit "PATH"]?
      else j.environment[lit "PATH"]?.map (expandedPath (some home.dir)) := by
  split
  next hsize => rw [decodeCommand, if_pos hsize]
  next hsize =>
    obtain ⟨hstorage, henv⟩ := @Undecoded.expandCommand host home j hj
    rw [decodeCommand_of_home hhome hsize, expandPathVariable_environment _ _ hstorage, if_pos rfl, henv]

end Job

/-- The elements of a `PATH` are expanded exactly if none is empty, or none begins with `~/`. -/
theorem pathElements_expandedPath_iff (home : Home) (path : Bytes) :
    pathElements (Job.expandedPath (some home.dir) path) = (pathElements path).map (expandElement home.dir) ↔
      ((∃ p ∈ pathElements path, lit "~/" <+: p) → [] ∉ pathElements path) := by
  unfold Job.expandedPath
  dsimp only
  split
  next h =>
    rw [tilde_iff] at h
    rw [pathElements_expandPath home h, map_filter_eq_map_iff, forall_prop_of_true h]
  next h =>
    rw [tilde_iff] at h
    exact iff_of_true (((map_expandElement_iff home _).2 h).symm) fun h' => absurd h' h

/-- **The home is written out** exactly, once and for all, unless `PATH` has an element with `~/` and the command
is empty or `PATH` has an empty element, too. -/
theorem tilde_expansion_iff (host : Host) (home : Home) (j : Job) (hj : j.Undecoded)
    (hhome : (j.pullUser host).userHome = some home.dir) :
    j.TildeExpanded host home.dir ↔
      ∀ path, j.environment[lit "PATH"]? = some path → (∃ p ∈ pathElements path, lit "~/" <+: p) →
        j.command.size ≠ 0 ∧ [] ∉ pathElements path := by
  have hwords : (j.decodeCommand host).command.hunks = Job.expandTilde (some home.dir) j.command.hunks := by
    rw [Job.decodeCommand_hunks host hj.command0, Command.hunks_eq, hj.command0, Option.toList_none, List.nil_append]
    by_cases hsize : j.command.size = 0
    · have hnil : j.command.command = [] := List.eq_nil_of_length_eq_zero (by unfold Command.size at hsize; omega)
      rw [hnil]
      rfl
    · rw [Job.decodeCommand_of_home hhome hsize, Job.expandPathVariable_userHome, Job.expandCommand_userHome, hhome]
  have hiterate : ∀ n, (Job.decodeCommand host)^[n + 1] j = j.decodeCommand host := by
    intro n
    induction n with
    | zero => rfl
    | succ n ih => rw [Function.iterate_succ_apply', ih, Job.decodeCommand_idem hj hhome]
  rw [Job.TildeExpanded, and_iff_left ⟨hwords, hiterate⟩, Job.decodeCommand_path hj hhome]
  rcases j.environment[lit "PATH"]? with - | path
  · simp
  · simp only [Option.some.injEq, forall_eq']
    by_cases hsize : j.command.size = 0
    · rw [if_pos hsize, Option.map_some, Option.map_some, Option.some.injEq, eq_comm, map_expandElement_iff]
      simp [hsize]
    · rw [if_neg hsize, Option.map_some, Option.map_some, Option.map_some, Option.some.injEq,
        pathElements_expandedPath_iff]
      simp [hsize]

/-- A job of a user with the home `/root`. -/
def rootJob (path : Bytes) : Job :=
  { Job.new (lit "/etc/crontab") (lit "0 0 * * * root ~/job") with
    environment := ({} : Env).insert (lit "PATH") path
    userHome := some (lit "/root")
    command := { command := [lit "~/job"], command0 := none, nopercent := false } }

def rootHome : Home where
  dir := lit "/root"
  absolute := by decide
  colon := by decide

theorem rootJob_undecoded (path : Bytes) : (rootJob path).Undecoded := ⟨rfl, rfl⟩

theorem tilde_expansion_iff_root : (rootJob (lit "~/bin:/usr/bin")).TildeExpanded .bare rootHome.dir := by
  refine (tilde_expansion_iff .bare rootHome (rootJob (lit "~/bin:/usr/bin")) (rootJob_undecoded _) rfl).2 ?_
  intro path hpath _
  rw [rootJob, Env.getElem?_insert, if_pos rfl, Option.some.injEq] at hpath
  rw [← hpath]
  decide +kernel

/-- The empty element of `~/bin::/usr/bin` is lost. -/
theorem tilde_expansion_empty :
    ¬ ∀ (host : Host) (home : Home) (j : Job), j.Undecoded → (j.pullUser host).userHome = some home.dir →
      j.TildeExpanded host home.dir := by
  intro h
  have hpath := (h .bare rootHome (rootJob (lit "~/bin::/usr/bin")) (rootJob_undecoded _) rfl).1
  revert hpath
  decide +kernel

end SystemdCron
