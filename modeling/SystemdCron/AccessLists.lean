import SystemdCron.Install

/-!
# `cron.allow` and `cron.deny`

The access check of `crontab_setgid w` reads the two files into a buffer for a user name, so that a line
is compared in pieces, and each piece as a C string. `access_lists_iff` says for which files the check is
one of whole lines.
-/

namespace SystemdCron

open Bytes Stdio

/-- A login name, which fits into `LOGIN_NAME_MAX` octets with its terminating NUL. -/
structure LoginName where
  name : Bytes
  ne_nil : name ≠ []
  nul : NUL ∉ name
  newline : LF ∉ name
  trimmed : name.getLast? ≠ some SPACE
  length : name.length < LOGIN_NAME_MAX

/-- The lines of a file, without their newlines. -/
def fileLines (content : Bytes) : List Bytes :=
  (getlines (content.length + 1) content).map fun line => line.takeWhile (· != LF)

/-- A line without its trailing spaces. -/
def trimLine (line : Bytes) : Bytes := line.rdropWhile (· == SPACE)

/-- A file lists a name: it is a line of it. -/
def Listed (content name : Bytes) : Prop := ∃ line ∈ fileLines content, trimLine line = name

instance (content name : Bytes) : Decidable (Listed content name) :=
  inferInstanceAs (Decidable (∃ line ∈ fileLines content, trimLine line = name))

/-- The piece of a line that fills the buffer after so many others, as a C string. -/
def bufferPiece (line : Bytes) (k : Nat) : Bytes :=
  cstr ((line.drop ((LOGIN_NAME_MAX - 1) * k)).take (LOGIN_NAME_MAX - 1))

/-- The name is in a line that does not fit into the buffer, or that has a NUL. -/
def Stray (content name : Bytes) : Prop :=
  ∃ line ∈ fileLines content, (LOGIN_NAME_MAX ≤ line.length ∨ NUL ∈ line) ∧
    ∃ k, trimLine (bufferPiece line k) = name

/-- A user that runs `crontab_setgid`; a file that does not exist is none. -/
def LoginName.caller (user : LoginName) (allow deny : Option Bytes) (DEFAULT_NOACCESS : Bool) :
    SetgidCaller where
  name := user.name
  allow := allow.map (·.map some)
  deny := deny.map (·.map some)
  DEFAULT_NOACCESS := DEFAULT_NOACCESS

/-- The decision by whole lines. -/
def Admitted (user : LoginName) (allow deny : Option Bytes) (DEFAULT_NOACCESS : Bool) : Prop :=
  match allow, deny with
  | some allow, _ => Listed allow user.name
  | none, some deny => ¬ Listed deny user.name
  | none, none => DEFAULT_NOACCESS = false

/-! ### Trimming -/

/-- What is left of a text without its trailing `p`s. -/
theorem rdropWhile_eq_iff {p : UInt8 → Bool} {v s : Bytes} (hv : ∀ c, v.getLast? = some c → p c = false) :
    s.rdropWhile p = v ↔ ∃ w, s = v ++ w ∧ ∀ c ∈ w, p c := by
  constructor
  · rintro rfl
    exact ⟨s.rtakeWhile p, List.rdropWhile_append_rtakeWhile.symm, fun c => List.mem_rtakeWhile_imp⟩
  · rintro ⟨w, rfl, hw⟩
    rw [List.rdropWhile, List.reverse_append, List.dropWhile_append_of_pos fun c hc =>
      hw c (List.mem_reverse.1 hc), ← List.rdropWhile, List.rdropWhile_eq_self_iff]
    intro hne
    rw [hv _ (List.getLast?_eq_some_getLast hne)]
    exact Bool.false_ne_true

theorem LoginName.getLast? (user : LoginName) {c : UInt8} (h : user.name.getLast? = some c) :
    (c == SPACE) = false ∧ (c == LF) = false := by
  constructor
  · exact beq_eq_false_iff_ne.2 fun hc => user.trimmed (hc ▸ h)
  · exact beq_eq_false_iff_ne.2 fun hc => user.newline (hc ▸ List.mem_of_getLast? h)

theorem trimLine_eq_iff (user : LoginName) {line : Bytes} :
    trimLine line = user.name ↔ ∃ w, line = user.name ++ w ∧ ∀ c ∈ w, c = SPACE := by
  rw [trimLine, rdropWhile_eq_iff fun c hc => (user.getLast? hc).1]
  simp only [beq_iff_eq]

/-- `rtrim` takes newlines and spaces off; that the first octet stays makes no difference for a name. -/
theorem rtrim_eq_iff (user : LoginName) {s : Bytes} :
    rtrim s = user.name ↔ ∃ w, s = user.name ++ w ∧ ∀ c ∈ w, c = SPACE ∨ c = LF := by
  have hlast := fun c => @user.getLast? c
  obtain ⟨x, r, hname⟩ := List.exists_cons_of_ne_nil user.ne_nil
  rw [hname] at hlast ⊢
  cases s with
  | nil => simp [rtrim]
  | cons y s =>
    have hr : ∀ c, r.getLast? = some c → (c == SPACE || c == LF) = false := by
      intro c hc
      have hboth := hlast c (by rw [List.getLast?_cons, hc]; rfl)
      rw [hboth.1, hboth.2]
      rfl
    rw [rtrim, List.cons.injEq, rdropWhile_eq_iff hr]
    simp only [List.cons_append, List.cons.injEq, Bool.or_eq_true, beq_iff_eq]
    constructor
    · rintro ⟨rfl, w, rfl, hw⟩
      exact ⟨w, ⟨rfl, rfl⟩, hw⟩
    · rintro ⟨w, ⟨rfl, rfl⟩, hw⟩
      exact ⟨rfl, w, rfl, hw⟩

/-! ### Pieces -/

theorem newline_notMem_takeWhile (s : Bytes) : LF ∉ s.takeWhile (· != LF) := fun h =>
  absurd (List.mem_takeWhile_imp h) (by decide)

theorem takeWhile_of_newline {s : Bytes} (h : ∀ c ∈ s, c = LF) : s.takeWhile (· != LF) = [] := by
  cases s with
  | nil => rfl
  | cons c r => rw [List.takeWhile_cons_of_neg (by simp [h c (by simp)])]

theorem takeWhile_append_of_notMem {x : UInt8} {s : Bytes} (h : x ∉ s) (t : Bytes) :
    (s ++ t).takeWhile (· != x) = s ++ t.takeWhile (· != x) :=
  List.takeWhile_append_of_pos fun _ hc => bne_iff_ne.2 (ne_of_mem_of_not_mem hc h)

/-- A line has its newline after it, if anything. -/
theorem getlines_split {content line : Bytes} {n : Nat} (h : line ∈ getlines n content) :
    ∃ e : Bytes, line = line.takeWhile (· != LF) ++ e ∧ ∀ c ∈ e, c = LF := by
  induction n generalizing content with
  | zero => cases h
  | succ n ih =>
    rw [getlines] at h
    split at h
    · cases h
    · rcases List.mem_cons.1 h with rfl | h
      · have htail : ∀ c ∈ (content.dropWhile (· != LF)).take 1, c = LF := by
          rcases hdrop : content.dropWhile (· != LF) with - | ⟨c, t⟩
          · simp
          · have hc := List.head_dropWhile_not (p := (· != LF)) (l := content) (by rw [hdrop]; simp)
            simp only [hdrop, List.head_cons, bne_eq_false_iff_eq] at hc
            simpa using hc
        refine ⟨_, ?_, htail⟩
        rw [firstLine, takeWhile_append_of_notMem (newline_notMem_takeWhile content),
          takeWhile_of_newline htail, List.append_nil]
      · exact ih h

/-- The newline after a line matters to none of its pieces. -/
theorem cstr_piece {line e : Bytes} (he : ∀ c ∈ e, c = LF) (i n : Nat) :
    ∃ e' : Bytes, cstr (((line ++ e).drop i).take n) = cstr ((line.drop i).take n) ++ e' ∧
      ∀ c ∈ e', c = LF := by
  rw [List.drop_append, List.take_append]
  generalize (line.drop i).take n = piece
  have hmem := fun c (hc : c ∈ (e.drop (i - line.length)).take (n - (line.drop i).length)) =>
    he c (List.mem_of_mem_drop (List.mem_of_mem_take hc))
  by_cases hnul : NUL ∈ piece
  · refine ⟨[], ?_, by simp⟩
    obtain ⟨u, v, rfl, hu⟩ := List.eq_append_cons_of_mem hnul
    rw [List.append_nil, List.append_assoc, cstr, cstr, takeWhile_append_of_notMem hu,
      takeWhile_append_of_notMem hu]
    rfl
  · refine ⟨_, ?_, hmem⟩
    rw [cstr_eq_iff.2 hnul, cstr_eq_iff, List.mem_append, not_or]
    exact ⟨hnul, fun hc => absurd (hmem NUL hc) (by decide)⟩

/-- The newline after a text is trimmed, too. -/
theorem rtrim_append_iff (user : LoginName) {s e : Bytes} (hs : LF ∉ s) (he : ∀ c ∈ e, c = LF) :
    rtrim (s ++ e) = user.name ↔ trimLine s = user.name := by
  rw [rtrim_eq_iff, trimLine_eq_iff]
  constructor
  · rintro ⟨w, hw, hmem⟩
    have hcut := congrArg (List.takeWhile (· != LF)) hw
    rw [takeWhile_append_of_notMem hs, takeWhile_append_of_notMem user.newline, takeWhile_of_newline he,
      List.append_nil] at hcut
    refine ⟨_, hcut, fun c hc => ?_⟩
    rcases hmem c ((List.takeWhile_sublist _).subset hc) with h | h
    · exact h
    · exact absurd (h ▸ hc) (newline_notMem_takeWhile w)
  · rintro ⟨w, rfl, hw⟩
    refine ⟨w ++ e, List.append_assoc .., fun c hc => ?_⟩
    rcases List.mem_append.1 hc with h | h
    · exact .inl (hw c h)
    · exact .inr (he c h)

theorem lists_iff_piece (user : LoginName) (content : Bytes) :
    lists (content.map some) user.name ↔
      ∃ line ∈ fileLines content, ∃ k, trimLine (bufferPiece line k) = user.name := by
  have hpiece : ∀ line ∈ getlines (content.length + 1) content, ∀ k,
      rtrim (cstr ((line.drop ((LOGIN_NAME_MAX - 1) * k)).take (LOGIN_NAME_MAX - 1))) = user.name ↔
        trimLine (bufferPiece (line.takeWhile (· != LF)) k) = user.name := by
    intro line hline k
    obtain ⟨e, hsplit, he⟩ := getlines_split hline
    obtain ⟨e', hcut, he'⟩ := @cstr_piece (line.takeWhile (· != LF)) e he
      ((LOGIN_NAME_MAX - 1) * k) (LOGIN_NAME_MAX - 1)
    rw [← hsplit] at hcut
    rw [hcut, ← rtrim_append_iff user (fun hlf => ?_) he']
    · rfl
    · exact newline_notMem_takeWhile line (List.mem_of_mem_drop (List.mem_of_mem_take
        ((cstr_isPrefix _).subset hlf)))
  rw [lists, List.any_eq_true]
  simp only [beq_iff_eq, fileLines, List.mem_map, exists_exists_and_eq_and, List.length_map,
    mem_fgetss_iff (n := LOGIN_NAME_MAX - 1) (by decide) (Nat.lt_succ_self content.length)
      (Nat.lt_succ_self content.length)]
  constructor
  · rintro ⟨p, ⟨-, line, hline, k, rfl⟩, htrim⟩
    exact ⟨line, hline, k, (hpiece line hline k).1 htrim⟩
  · rintro ⟨line, hline, k, htrim⟩
    have hrtrim := (hpiece line hline k).2 htrim
    refine ⟨_, ⟨fun hnil => ?_, line, hline, k, rfl⟩, hrtrim⟩
    rw [hnil] at hrtrim
    exact user.ne_nil hrtrim.symm

/-- A listed name is in the first piece of its line. -/
theorem trimLine_first_piece (user : LoginName) {line : Bytes} (h : trimLine line = user.name) :
    trimLine (bufferPiece line 0) = user.name := by
  obtain ⟨w, rfl, hw⟩ := (trimLine_eq_iff user).1 h
  have hlen := user.length
  have hnul : NUL ∉ user.name ++ w.take (LOGIN_NAME_MAX - 1 - user.name.length) := by
    rw [List.mem_append, not_or]
    exact ⟨user.nul, fun hc => absurd (hw NUL (List.mem_of_mem_take hc)) (by decide)⟩
  rw [bufferPiece, Nat.mul_zero, List.drop_zero, List.take_append, List.take_of_length_le (by omega),
    cstr_eq_iff.2 hnul, trimLine_eq_iff]
  exact ⟨_, rfl, fun c hc => hw c (List.mem_of_mem_take hc)⟩

/-- A line that fits into the buffer and has no NUL has no other piece. -/
theorem trimLine_of_piece (user : LoginName) {line : Bytes} (hlen : line.length < LOGIN_NAME_MAX)
    (hnul : NUL ∉ line) {k : Nat} (h : trimLine (bufferPiece line k) = user.name) :
    trimLine line = user.name := by
  cases k with
  | zero =>
    rwa [bufferPiece, Nat.mul_zero, List.drop_zero, List.take_of_length_le (by omega),
      cstr_eq_iff.2 hnul] at h
  | succ k =>
    have hover : line.drop ((LOGIN_NAME_MAX - 1) * (k + 1)) = [] := by
      rw [List.drop_eq_nil_iff, Nat.mul_succ]
      omega
    rw [bufferPiece, hover] at h
    exact absurd h.symm user.ne_nil

theorem lists_iff (user : LoginName) (content : Bytes) :
    lists (content.map some) user.name ↔ Listed content user.name ∨ Stray content user.name := by
  rw [lists_iff_piece]
  constructor
  · rintro ⟨line, hline, k, hk⟩
    rcases Nat.lt_or_ge line.length LOGIN_NAME_MAX with hlen | hlen
    · by_cases hnul : NUL ∈ line
      · exact .inr ⟨line, hline, .inr hnul, k, hk⟩
      · exact .inl ⟨line, hline, trimLine_of_piece user hlen hnul hk⟩
    · exact .inr ⟨line, hline, .inl hlen, k, hk⟩
  · rintro (⟨line, hline, h⟩ | ⟨line, hline, -, k, hk⟩)
    · exact ⟨line, hline, 0, trimLine_first_piece user h⟩
    · exact ⟨line, hline, k, hk⟩

/-- **The access check** is one of whole lines exactly if the name is not in a piece of a longer line, or of
one with a NUL, of the file that decides, without being a line of it. -/
theorem access_lists_iff (user : LoginName) (allow deny : Option Bytes) (DEFAULT_NOACCESS : Bool) :
    ((user.caller allow deny DEFAULT_NOACCESS).mayInstall ↔ Admitted user allow deny DEFAULT_NOACCESS) ↔
      ∀ content, allow.or deny = some content → Stray content user.name → Listed content user.name := by
  have hiff := lists_iff user
  have habsorb : ∀ {p q : Prop}, (p ∨ q ↔ p) ↔ (q → p) := by tauto
  cases allow with
  | some allow =>
    simp only [SetgidCaller.mayInstall, LoginName.caller, Admitted, Option.map_some, Option.some_or,
      Option.some.injEq, forall_eq', hiff, habsorb]
  | none =>
    cases deny with
    | some deny =>
      simp only [SetgidCaller.mayInstall, LoginName.caller, Admitted, Option.map_some, Option.map_none,
        Option.none_or, Option.some.injEq, forall_eq', Bool.not_eq_true', ← Bool.not_eq_true, hiff,
        not_iff_not, habsorb]
    | none =>
      simp [SetgidCaller.mayInstall, LoginName.caller, Admitted]

def alice : LoginName where
  name := lit "alice"
  ne_nil := by decide
  nul := by decide
  newline := by decide
  trimmed := by decide
  length := by decide

/-- A line that has a name as its second piece admits the user. -/
theorem access_lists_piece :
    ¬ ∀ (user : LoginName) (allow deny : Option Bytes) (DEFAULT_NOACCESS : Bool),
      (user.caller allow deny DEFAULT_NOACCESS).mayInstall ↔ Admitted user allow deny DEFAULT_NOACCESS := by
  intro h
  have hadmitted : Listed (List.replicate 255 120 ++ lit "alice\n") (lit "alice") :=
    (h alice (some (List.replicate 255 120 ++ lit "alice\n")) none false).1 (by decide +kernel)
  revert hadmitted
  decide +kernel

end SystemdCron
