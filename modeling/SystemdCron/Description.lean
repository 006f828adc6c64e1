import SystemdCron.Unit
import SystemdCron.Lib.ExecLine

/-!
# The line of a job in its unit

`describe_line` writes the line of a job for `Description=`, and `generate_service` writes that text once more,
quoted, for `LogExtraFields=`. A line in UTF-8 is read back as it was (`expand_describeLine`), and the quoted
text is read back as it stands in the description, whatever the line (`readQuoted_quoteDescription`).
-/

namespace SystemdCron

open Bytes ExecLine

/-- The octets of a text in UTF-8. -/
def utf8 (cs : List Char) : Bytes := cs.flatMap String.utf8EncodeChar

/-- A text with every percent sign doubled. -/
def doublePercent (s : Bytes) : Bytes := s.flatMap fun c => if c = PERCENT then [PERCENT, PERCENT] else [c]

/-- The text before the first quote that has no backslash before it, without the backslashes before quotes
and backslashes, and what comes after that quote; `escaped` says whether a backslash was the last octet. -/
def readQuoted : (escaped : Bool) → Bytes → Option (Bytes × Bytes)
  | _, [] => none
  | true, c :: r =>
    (readQuoted false r).map fun p =>
      ((if c = DQUOTE ∨ c = BACKSLASH then [c] else [BACKSLASH, c]) ++ p.1, p.2)
  | false, c :: r =>
    if c = DQUOTE then some ([], r)
    else if c = BACKSLASH then readQuoted true r
    else (readQuoted false r).map fun p => (c :: p.1, p.2)

/-- The values of a key, in the order of their lines. -/
def valuesOf (key : Bytes) (ls : List Bytes) : List Bytes :=
  ls.filterMap fun l => if (key ++ [EQUALS]).isPrefixOf l then some (l.drop (key.length + 1)) else none

/-! ### Characters -/

/-- An octet that continues a character. -/
def IsContinuation (d : UInt8) : Prop := 0x80 ≤ d.toNat ∧ d.toNat ≤ 0xBF

theorem mbrlenRest_length {lo hi c : UInt8} {n : Nat} {others r : Bytes} (hlo : lo.toNat ≤ c.toNat)
    (hhi : c.toNat ≤ hi.toNat) (hn : others.length = n) (ho : ∀ d ∈ others, IsContinuation d) :
    mbrlenRest lo hi (n + 1) (c :: (others ++ r)) = .length (n + 2) := by
  have htake : (others ++ r).take (n + 1 - 1) = others := by simp [← hn]
  have hno : ¬ (c < lo ∨ hi < c) := by simp only [UInt8.lt_iff_toNat_lt]; omega
  have hany : ¬ others.any (fun d => d < 0x80 || 0xBF < d) = true := by
    rw [List.any_eq_true]
    rintro ⟨d, hd, h⟩
    obtain ⟨h1, h2⟩ := ho d hd
    simp only [Bool.or_eq_true, decide_eq_true_eq, UInt8.lt_iff_toNat_lt, UInt8.reduceToNat] at h
    omega
  rw [mbrlenRest, if_neg hno]
  simp only [htake, if_neg hany, hn]
  rw [if_neg (by omega)]

theorem not_lt_of_toNat {a b : UInt8} (h : b.toNat ≤ a.toNat) : ¬ a < b := fun hlt =>
  Nat.not_lt.2 h (UInt8.lt_iff_toNat_lt.1 hlt)

theorem mbrlen_one {a : UInt8} (h0 : a.toNat ≠ 0) (h : a.toNat < 0x80) (r : Bytes) :
    mbrlen (a :: r) = .length 1 := by
  have hne : a ≠ 0 := fun h => h0 (congrArg UInt8.toNat h)
  have hlt : a < 0x80 := UInt8.lt_iff_toNat_lt.2 h
  simp [mbrlen, hne, hlt]

/-- The first octet of a longer character. -/
theorem mbrlen_of_le {a : UInt8} (h : 0xC2 ≤ a.toNat) (r : Bytes) :
    mbrlen (a :: r) =
      if a < 0xE0 then mbrlenRest 0x80 0xBF 1 r
      else if a < 0xF0 then
        mbrlenRest (if a = 0xE0 then 0xA0 else 0x80) (if a = 0xED then 0x9F else 0xBF) 2 r
      else if a < 0xF5 then
        mbrlenRest (if a = 0xF0 then 0x90 else 0x80) (if a = 0xF4 then 0x8F else 0xBF) 3 r
      else .invalid := by
  have h0 : a ≠ 0 := by rintro rfl; revert h; decide
  have h1 : ¬ a < 0x80 := not_lt_of_toNat (le_trans (by decide) h)
  have h2 : ¬ a < 0xC2 := not_lt_of_toNat h
  rw [mbrlen, if_neg h0, if_neg h1, if_neg h2]

theorem mbrlen_two {a b : UInt8} (h : 0xC2 ≤ a.toNat) (h' : a.toNat < 0xE0) (hb : IsContinuation b)
    (r : Bytes) : mbrlen (a :: b :: r) = .length 2 := by
  rw [mbrlen_of_le h, if_pos (UInt8.lt_iff_toNat_lt.2 h')]
  exact @mbrlenRest_length _ _ b 0 [] r hb.1 hb.2 rfl nofun

theorem mbrlen_three {a b c : UInt8} (h : 0xE0 ≤ a.toNat) (h' : a.toNat < 0xF0) (hb : IsContinuation b)
    (hE0 : a.toNat = 0xE0 → 0xA0 ≤ b.toNat) (hED : a.toNat = 0xED → b.toNat ≤ 0x9F) (hc : IsContinuation c)
    (r : Bytes) : mbrlen (a :: b :: c :: r) = .length 3 := by
  have hlt : ¬ a < 0xE0 := not_lt_of_toNat h
  rw [mbrlen_of_le (by omega), if_neg hlt, if_pos (UInt8.lt_iff_toNat_lt.2 h')]
  refine @mbrlenRest_length _ _ b 1 [c] r ?_ ?_ rfl (by simpa using hc)
  · split
    next ha => exact hE0 (congrArg UInt8.toNat ha)
    next => exact hb.1
  · split
    next ha => exact hED (congrArg UInt8.toNat ha)
    next => exact hb.2

theorem mbrlen_four {a b c d : UInt8} (h : 0xF0 ≤ a.toNat) (h' : a.toNat < 0xF5) (hb : IsContinuation b)
    (hF0 : a.toNat = 0xF0 → 0x90 ≤ b.toNat) (hF4 : a.toNat = 0xF4 → b.toNat ≤ 0x8F) (hc : IsContinuation c)
    (hd : IsContinuation d) (r : Bytes) : mbrlen (a :: b :: c :: d :: r) = .length 4 := by
  have hlt : ¬ a < 0xE0 := not_lt_of_toNat (le_trans (by decide) h)
  have hlt' : ¬ a < 0xF0 := not_lt_of_toNat h
  rw [mbrlen_of_le (by omega), if_neg hlt, if_neg hlt', if_pos (UInt8.lt_iff_toNat_lt.2 h')]
  refine @mbrlenRest_length _ _ b 2 [c, d] r ?_ ?_ rfl (by simpa using ⟨hc, hd⟩)
  · split
    next ha => exact hF0 (congrArg UInt8.toNat ha)
    next => exact hb.1
  · split
    next ha => exact hF4 (congrArg UInt8.toNat ha)
    next => exact hb.2

theorem toNat_ofNat {n : Nat} (h : n < 256) : (UInt8.ofNat n).toNat = n := by
  rw [UInt8.toNat_ofNat', Nat.mod_eq_of_lt h]

theorem isContinuation_ofNat (n : Nat) : IsContinuation (UInt8.ofNat (n % 64 + 128)) := by
  unfold IsContinuation
  rw [toNat_ofNat (by omega)]
  omega

/-- `mbrlen` finds the characters of UTF-8. -/
theorem mbrlen_utf8EncodeChar {c : Char} (hc : c ≠ '\x00') (r : Bytes) :
    mbrlen (String.utf8EncodeChar c ++ r) = .length (String.utf8EncodeChar c).length := by
  have hpos : c.val.toNat ≠ 0 := fun h => hc (Char.ext (UInt32.toNat_inj.1 h))
  have hvalid : c.val.toNat < 0xD800 ∨ 0xDFFF < c.val.toNat ∧ c.val.toNat < 0x110000 := c.valid
  unfold String.utf8EncodeChar
  generalize c.val.toNat = v at hpos hvalid
  dsimp only
  split
  next => exact mbrlen_one (by rw [toNat_ofNat] <;> omega) (by rw [toNat_ofNat] <;> omega) r
  next =>
    split
    next =>
      exact mbrlen_two (by rw [toNat_ofNat] <;> omega) (by rw [toNat_ofNat] <;> omega)
        (isContinuation_ofNat _) r
    next =>
      split
      next =>
        refine mbrlen_three ?_ ?_ (isContinuation_ofNat _) ?_ ?_ (isContinuation_ofNat _) r <;>
          simp only [toNat_ofNat (show v / 4096 % 16 + 224 < 256 by omega),
            toNat_ofNat (show v / 64 % 64 + 128 < 256 by omega)] <;> omega
      next =>
        refine mbrlen_four ?_ ?_ (isContinuation_ofNat _) ?_ ?_ (isContinuation_ofNat _)
          (isContinuation_ofNat _) r <;>
          simp only [toNat_ofNat (show v / 262144 % 8 + 240 < 256 by omega),
            toNat_ofNat (show v / 4096 % 64 + 128 < 256 by omega)] <;> omega

/-! ### The description -/

theorem utf8_cons (c : Char) (cs : List Char) : utf8 (c :: cs) = String.utf8EncodeChar c ++ utf8 cs := rfl

theorem percent_notMem_utf8EncodeChar {c : Char} (h : c ≠ '%') : PERCENT ∉ String.utf8EncodeChar c := by
  have hne : c.val.toNat ≠ 37 := fun h' => h (Char.ext (UInt32.toNat_inj.1 h'))
  unfold String.utf8EncodeChar
  generalize c.val.toNat = v at hne
  have hno {n : Nat} (hn : n < 256) (h : n ≠ 37) : PERCENT ≠ UInt8.ofNat n := fun he => by
    have := congrArg UInt8.toNat he
    rw [toNat_ofNat hn] at this
    exact h this.symm
  have hcont (n : Nat) : PERCENT ≠ UInt8.ofNat (n % 64 + 128) := hno (by omega) (by omega)
  dsimp only
  split
  next => simpa only [List.mem_singleton] using hno (by omega) hne
  next =>
    split
    next =>
      simp only [List.mem_cons, List.not_mem_nil, or_false, not_or]
      exact ⟨hno (by omega) (by omega), hcont _⟩
    next =>
      split
      next =>
        simp only [List.mem_cons, List.not_mem_nil, or_false, not_or]
        exact ⟨hno (by omega) (by omega), hcont _, hcont _⟩
      next =>
        simp only [List.mem_cons, List.not_mem_nil, or_false, not_or]
        exact ⟨hno (by omega) (by omega), hcont _, hcont _, hcont _⟩

theorem doublePercent_append (a b : Bytes) : doublePercent (a ++ b) = doublePercent a ++ doublePercent b :=
  List.flatMap_append

theorem doublePercent_of_notMem {s : Bytes} (h : PERCENT ∉ s) : doublePercent s = s := by
  induction s with
  | nil => rfl
  | cons c r ih =>
    have hc : c ≠ PERCENT := fun hc => h (hc ▸ List.mem_cons_self)
    rw [doublePercent, List.flatMap_cons, if_neg hc]
    exact congrArg (c :: ·) (ih fun hr => h (List.mem_cons_of_mem c hr))

/-- The loop over the rest of a line in UTF-8, with the copy or without it. -/
theorem describeLoop_utf8 {line : Bytes} {cs : List Char} (h0 : '\x00' ∉ cs) {fuel : Nat}
    (hfuel : (utf8 cs).length ≤ fuel) {before : Bytes} (hline : line = before ++ utf8 cs)
    (escaped : Option Bytes) :
    (describeLoop line fuel (utf8 cs) escaped).getD line = escaped.getD before ++ doublePercent (utf8 cs) := by
  induction cs generalizing fuel before escaped with
  | nil =>
    have hnil : line = before := by rw [hline]; exact List.append_nil _
    have hstop : describeLoop line fuel [] escaped = escaped := by cases fuel <;> rfl
    exact hnil ▸ (congrArg (·.getD line) hstop).trans (List.append_nil _).symm
  | cons c cs ih =>
    have hc : c ≠ '\x00' := fun h => h0 (h ▸ List.mem_cons_self)
    have hcs : '\x00' ∉ cs := fun h => h0 (List.mem_cons_of_mem c h)
    have hne : utf8 (c :: cs) ≠ [] := by
      rw [utf8_cons, ← List.length_pos_iff, List.length_append, String.length_utf8EncodeChar]
      have := c.utf8Size_pos
      omega
    have hlen := congrArg List.length (utf8_cons c cs)
    rw [List.length_append, String.length_utf8EncodeChar] at hlen
    have hpos := c.utf8Size_pos
    rcases fuel with - | fuel
    · omega
    have htake : line.take (line.length - (utf8 (c :: cs)).length) = before := by
      rw [hline, List.length_append, Nat.add_sub_cancel, List.take_left]
    rw [describeLoop, if_neg hne]
    simp only [utf8_cons, mbrlen_utf8EncodeChar hc, List.drop_left, List.take_left] at htake ⊢
    rw [htake, doublePercent_append]
    by_cases hp : c = '%'
    · subst hp
      have hhead : (String.utf8EncodeChar '%' ++ utf8 cs).head? = some PERCENT := rfl
      have hrest : line = before ++ [PERCENT] ++ utf8 cs := by rw [hline, utf8_cons]; simp; rfl
      rw [if_pos hhead, ih hcs (by omega) hrest]
      simp
      rfl
    · have hno := percent_notMem_utf8EncodeChar hp
      have hhead : (String.utf8EncodeChar c ++ utf8 cs).head? ≠ some PERCENT := by
        obtain ⟨d, r, hd⟩ : ∃ d r, String.utf8EncodeChar c = d :: r :=
          List.exists_cons_of_length_pos (by rw [String.length_utf8EncodeChar]; exact hpos)
        rw [hd] at hno ⊢
        exact fun h => hno (List.mem_cons.2 (.inl (Option.some.inj h).symm))
      have hrest : line = before ++ String.utf8EncodeChar c ++ utf8 cs := by
        rw [hline, utf8_cons, List.append_assoc]
      rw [if_neg hhead, ih hcs (by omega) hrest, doublePercent_of_notMem hno]
      cases escaped <;> simp

theorem describeLine_utf8 {cs : List Char} (h0 : '\x00' ∉ cs) :
    describeLine (utf8 cs) = doublePercent (utf8 cs) :=
  @describeLoop_utf8 _ cs h0 _ le_rfl [] rfl none

theorem expand_doublePercent (s : Specifiers) (t : Bytes) : expand s (doublePercent t) = t := by
  induction t with
  | nil => rfl
  | cons c r ih =>
    rw [doublePercent, List.flatMap_cons]
    by_cases hc : c = PERCENT
    · rw [if_pos hc, List.cons_append, List.singleton_append, expand, if_pos ⟨rfl, rfl⟩, hc]
      exact congrArg _ ih
    · rw [if_neg hc, List.singleton_append, expand_cons_of_ne hc]
      exact congrArg _ ih

/-- A line in UTF-8 is read back from its description, whatever the specifiers stand for. -/
theorem expand_describeLine (s : Specifiers) {cs : List Char} (h0 : '\x00' ∉ cs) :
    expand s (describeLine (utf8 cs)) = utf8 cs := by
  rw [describeLine_utf8 h0, expand_doublePercent]

/-! ### The quoted text -/

theorem readQuoted_quoteDescription (text r : Bytes) :
    readQuoted false (quoteDescription text ++ DQUOTE :: r) = some (text, r) := by
  induction text with
  | nil => exact if_pos rfl
  | cons c text ih =>
    by_cases hc : c = DQUOTE ∨ c = BACKSLASH
    · have hcons : quoteDescription (c :: text) = BACKSLASH :: c :: quoteDescription text := by
        rw [quoteDescription, List.flatMap_cons, if_pos hc]; rfl
      rw [hcons, List.cons_append, List.cons_append, readQuoted, if_neg (by decide), if_pos rfl, readQuoted,
        if_pos hc, ih]
      rfl
    · obtain ⟨hq, hb⟩ := not_or.1 hc
      have hcons : quoteDescription (c :: text) = c :: quoteDescription text := by
        rw [quoteDescription, List.flatMap_cons, if_neg hc]; rfl
      rw [hcons, List.cons_append, readQuoted, if_neg hq, if_neg hb, ih]
      rfl

/-! ### The lines of a unit -/

@[simp] theorem valuesOf_nil (key : Bytes) : valuesOf key [] = [] := rfl

theorem valuesOf_append (key : Bytes) (ls ls' : List Bytes) :
    valuesOf key (ls ++ ls') = valuesOf key ls ++ valuesOf key ls' := List.filterMap_append

theorem valuesOf_cons_self (key v : Bytes) (ls : List Bytes) :
    valuesOf key ((key ++ EQUALS :: v) :: ls) = v :: valuesOf key ls := by
  have hpre : (key ++ [EQUALS]).isPrefixOf (key ++ EQUALS :: v) :=
    List.isPrefixOf_iff_prefix.2 ⟨v, by simp⟩
  have hdrop : (key ++ EQUALS :: v).drop (key.length + 1) = v := by
    rw [List.drop_append, Nat.add_sub_cancel_left, List.drop_eq_nil_of_le (by omega)]
    rfl
  rw [valuesOf, List.filterMap_cons_some (by rw [if_pos hpre])]
  rw [hdrop]
  rfl

/-- A line that begins in another way. -/
def Other (key l : Bytes) : Prop :=
  l = [] ∨ ∃ w, w <+: l ∧ ¬ w <+: key ++ [EQUALS] ∧ ¬ key ++ [EQUALS] <+: w

theorem valuesOf_eq_nil {key : Bytes} {ls : List Bytes} (h : ∀ l ∈ ls, Other key l) : valuesOf key ls = [] := by
  rw [valuesOf, List.filterMap_eq_nil_iff]
  intro l hl
  refine if_neg fun hpre => ?_
  rw [List.isPrefixOf_iff_prefix] at hpre
  rcases h l hl with rfl | ⟨w, hw, hno, hno'⟩
  · have := hpre.length_le
    simp at this
  · exact (List.prefix_or_prefix_of_prefix hw hpre).elim hno hno'

/-- How the lines of a service begin that are about neither the description nor the log. -/
def otherHeads : List Bytes :=
  ["Documentation=", "SourcePath=", "OnFailure=", "OnSuccess=", "Before=", "Requires", "[", "User=", "PAMName=",
    "KillMode=", "WorkingDirectory=", "Type=", "IgnoreSIGPIPE=", "SyslogFacility=", "LogNamespace=",
    "LogLevelMax=", "ExecStart", "ExecStart=", "TimeoutStartSec=", "Environment=", "StandardInput=",
    "StandardInputData=", "CPUSchedulingPolicy=", "IOSchedulingClass="].map lit

/-- A key of which no line begins so. -/
def Apart (key : Bytes) : Prop := ∀ w ∈ otherHeads, ¬ w <+: key ++ [EQUALS] ∧ ¬ key ++ [EQUALS] <+: w

theorem Apart.other {key : Bytes} (hkey : Apart key) (w : Bytes) (hw : w ∈ otherHeads) (l : Bytes) :
    Other key (w ++ l) := .inr ⟨w, List.prefix_append w l, hkey w hw⟩

theorem Job.other_of_mailLines {key : Bytes} (hkey : Apart key) (cfg : Config) (host : Host) (j : Job) :
    (∀ l ∈ (j.mailLines cfg host).1, Other key l) ∧ ∀ l ∈ (j.mailLines cfg host).2.toList, Other key l := by
  have hfail (l : Bytes) : Other key (lit "OnFailure=" ++ l) := hkey.other _ (by decide) l
  have hsuccess (nonempty : Bool) : Other key (j.formatOnSuccess cfg nonempty).1 ∧
      ∀ l ∈ (j.formatOnSuccess cfg nonempty).2.toList, Other key l := by
    unfold formatOnSuccess
    split
    · exact ⟨hkey.other (lit "OnSuccess=") (by decide) _, nofun⟩
    · refine ⟨hkey.other (lit "Before=") (by decide) _, fun l hl => ?_⟩
      obtain rfl := List.mem_singleton.1 hl
      exact hkey.other (lit "ExecStart") (by decide) (lit "=-+/usr/bin/systemctl start --no-block " ++ _)
  unfold mailLines
  split
  · exact ⟨nofun, nofun⟩
  split
  · exact ⟨nofun, nofun⟩
  dsimp only
  split
  · exact ⟨by simpa using hfail _, nofun⟩
  · exact ⟨by simpa using ⟨hfail _, (hsuccess false).1⟩, (hsuccess false).2⟩
  · exact ⟨by simpa using ⟨hfail _, (hsuccess true).1⟩, (hsuccess true).2⟩

/-- The text after the tag of a description: the line with the quotes around it. -/
def Job.describedLine (j : Job) : Bytes := j.lineQuote ++ describeLine j.line ++ j.lineQuote

/-- The values of a key of which no other line begins so. -/
theorem Job.valuesOf_generateService {key : Bytes} (hkey : Apart key) (cfg : Config) (host : Host) (j : Job) :
    valuesOf key (j.generateService cfg host) =
      valuesOf key [lit "Description" ++ EQUALS :: (lit "[Cron] " ++ j.describedLine)] ++
        valuesOf key [lit "LogExtraFields" ++
          EQUALS :: (lit "CRON_JOB=" ++ DQUOTE :: (quoteDescription j.describedLine ++ [DQUOTE]))] := by
  have hone {l : Bytes} (h : Other key l) : valuesOf key [l] = [] := valuesOf_eq_nil (by simpa using h)
  have hlit (w : Bytes) (hw : w ∈ otherHeads) (l : Bytes) : valuesOf key [w ++ l] = [] :=
    hone (hkey.other w hw l)
  have hplain (l : Bytes) (hl : ∃ w ∈ otherHeads, w <+: l) : valuesOf key [l] = [] := by
    obtain ⟨w, hw, r, rfl⟩ := hl
    exact hlit w hw r
  have hif (p : Prop) [Decidable p] {ls ls' : List Bytes} (h : valuesOf key ls = [])
      (h' : valuesOf key ls' = []) : valuesOf key (if p then ls else ls') = [] := by
    split <;> assumption
  have hcons (l l' : Bytes) (ls : List Bytes) :
      valuesOf key (l :: l' :: ls) = valuesOf key [l] ++ valuesOf key (l' :: ls) :=
    valuesOf_append key [l] (l' :: ls)
  obtain ⟨hmail, hshim⟩ := j.other_of_mailLines hkey cfg host
  have hboot : valuesOf key (j.bootDelayLine cfg host).toList = [] := by
    unfold bootDelayLine
    split
    · exact hlit (lit "ExecStart") (by decide) (lit "Pre=-" ++ _)
    · rfl
  have hhelper : valuesOf key (j.helperLine cfg).toList = [] := by
    unfold helperLine
    split
    · exact hlit (lit "ExecStart") (by decide) (lit "Pre=!" ++ _)
    split
    · exact hlit (lit "ExecStart") (by decide) (lit "Pre=!" ++ _)
    · rfl
  unfold generateService generateUnitHeader
  extract_lets mail boot helper
  have hsource := hif (j.filename = lit "-") (valuesOf_nil key)
    (hlit (lit "SourcePath=") (by decide) (cstr j.filename))
  have htwo (l : Bytes) (h : valuesOf key [l] = []) (ls : List Bytes) (h' : valuesOf key ls = []) :
      valuesOf key (l :: ls) = [] := (valuesOf_append key [l] ls).trans (congrArg₂ _ h h')
  have hrequires (ls : List Bytes) (h : valuesOf key ls = []) :=
    hif (j.user ≠ lit "root" ∨ Bytes.contains j.filename cfg.STATEDIR)
      (htwo _ (hplain (lit "Requires=systemd-user-sessions.service") (by decide)) ls h) (valuesOf_nil key)
  have hpam : valuesOf key
      [if cfg.PAMNAME ≠ [] then lit "PAMName=" ++ cfg.PAMNAME else lit "KillMode=process"] = [] := by
    split
    · exact hlit (lit "PAMName=") (by decide) _
    · exact hplain _ (by decide)
  have hnamespace := hif (j.cronLogNamespace ≠ [])
    (hlit (lit "LogNamespace=") (by decide) (cstr j.cronLogNamespace)) (valuesOf_nil key)
  have hlevel := hif (cfg.USE_LOGLEVELMAX ≠ lit "no")
    (hlit (lit "LogLevelMax=") (by decide) cfg.USE_LOGLEVELMAX) (valuesOf_nil key)
  have htimeout := hif (boot.isSome || helper.isSome) (hplain (lit "TimeoutStartSec=infinity") (by decide))
    (valuesOf_nil key)
  have hexec := hlit (lit "ExecStart=") (by decide) (cstr j.execstart)
  have henvironment := hif j.environment.isEmpty (valuesOf_nil key)
    (hlit (lit "Environment=") (by decide) (environmentWrite j.environment))
  have hinput := hif (j.inputData = []) (valuesOf_nil key)
    (htwo _ (hplain (lit "StandardInput=data") (by decide)) _
      (hlit (lit "StandardInputData=") (by decide) (j.inputChunks.foldl B64.feed {}).finish))
  have hbatch := hif (j.batch = true)
    (htwo _ (hplain (lit "CPUSchedulingPolicy=idle") (by decide)) _
      (hplain (lit "IOSchedulingClass=idle") (by decide))) (valuesOf_nil key)
  simp only [valuesOf_append, hinput, hbatch]
  simp only [hcons, hboot, hhelper, hsource, hpam, hnamespace, hlevel, htimeout, hexec, henvironment, mail,
    boot, helper, valuesOf_eq_nil hmail, valuesOf_eq_nil hshim, hplain (lit "[Unit]") (by decide),
    hplain (lit "[Service]") (by decide), hlit (lit "User=") (by decide),
    hplain (lit "WorkingDirectory=-~") (by decide), hplain (lit "Type=oneshot") (by decide),
    hplain (lit "IgnoreSIGPIPE=false") (by decide), hplain (lit "SyslogFacility=cron") (by decide),
    hplain (lit "Documentation=man:systemd-crontab-generator(8)") (by decide), List.append_nil, List.nil_append]
  rw [hrequires]
  · have hempty : valuesOf key [[]] = [] := hone (.inl rfl)
    have hdescription : lit "Description=[" ++ lit "Cron" ++ lit "] " =
        lit "Description" ++ EQUALS :: lit "[Cron] " := by decide
    have hlog : lit "LogExtraFields=CRON_JOB=\"" =
        lit "LogExtraFields" ++ EQUALS :: (lit "CRON_JOB=" ++ [DQUOTE]) := by decide
    have hquote : lit "\"" = [DQUOTE] := by decide
    rw [hempty, hdescription, hlog, hquote]
    simp [describedLine, quoteDescription]
  · split
    · exact hlit (lit "Requires") (by decide) (lit "MountsFor=" ++ _)
    · rfl

/-- **Job lines are recoverable from the unit.** A line in UTF-8 is read back from its description: whatever
the specifiers stand for, what is left of `%%` is a percent sign, and there is no other. The job in the fields
of the log, whatever its line, is quoted up to the end of the value and reads as the description does. -/
theorem line_recoverable (s : Specifiers) :
    (∀ cs : List Char, '\x00' ∉ cs → expand s (describeLine (utf8 cs)) = utf8 cs) ∧
    ∀ (cfg : Config) (host : Host) (j : Job), ∃ text quoted,
      valuesOf (lit "Description") (j.generateService cfg host) = [lit "[Cron] " ++ text] ∧
      text = j.lineQuote ++ describeLine j.line ++ j.lineQuote ∧
      valuesOf (lit "LogExtraFields") (j.generateService cfg host) = [lit "CRON_JOB=" ++ DQUOTE :: quoted] ∧
      readQuoted false quoted = some (text, []) := by
  refine ⟨fun cs h0 => expand_describeLine s h0, fun cfg host j =>
    ⟨j.describedLine, quoteDescription j.describedLine ++ [DQUOTE], ?_, rfl, ?_,
      readQuoted_quoteDescription _ _⟩⟩
  · rw [Job.valuesOf_generateService (by unfold Apart; decide), valuesOf_cons_self, valuesOf_nil]
    refine congrArg (_ :: ·) (valuesOf_eq_nil fun l hl => ?_)
    obtain rfl := List.mem_singleton.1 hl
    exact .inr ⟨lit "LogExtraFields", List.prefix_append _ _, by decide, by decide⟩
  · rw [Job.valuesOf_generateService (by unfold Apart; decide), valuesOf_cons_self, valuesOf_nil]
    refine congrArg (· ++ _) (valuesOf_eq_nil fun l hl => ?_)
    obtain rfl := List.mem_singleton.1 hl
    exact .inr ⟨lit "Description", List.prefix_append _ _, by decide, by decide⟩

/-- The line of `a%ü`. -/
theorem line_recoverable_percent :
    expand ⟨fun _ => false, fun _ => []⟩ (describeLine (utf8 ['a', '%', 'ü'])) = utf8 ['a', '%', 'ü'] :=
  (line_recoverable _).1 _ (by decide)

end SystemdCron
