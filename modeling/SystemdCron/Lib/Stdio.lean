import SystemdCron.Lib.Bytes

/-!
# Reading from a stream

`fread` and `fgets` on a stream some of whose reads fail. What they return and what they leave is the
stream again (`fread_conserves`, `fgets_conserves`), but a loop that takes a failed read for the end leaves
octets behind. `flatten_freads_iff` and `flatten_fgetss_iff` say for which streams the two usual loops get all.
-/

namespace Stdio

open Bytes

/-- What is still to be read: the octets, and in between the reads that fail. -/
abbrev Input := List (Option UInt8)

/-- The octets of a stream. -/
def octets (s : Input) : Bytes := s.reduceOption

@[simp] theorem octets_nil : octets [] = [] := rfl
@[simp] theorem octets_none (s : Input) : octets (none :: s) = octets s := rfl
@[simp] theorem octets_some (c : UInt8) (s : Input) : octets (some c :: s) = c :: octets s := rfl

/-- A stream without octets is one of failed reads. -/
theorem octets_eq_nil_iff {s : Input} : octets s = [] ↔ s.all Option.isNone := by
  induction s with
  | nil => simp
  | cons x s ih => cases x <;> simp [ih]

/-! ### Blocks -/

/-- What a call of `fread` returns, whether it sets the end-of-file indicator, and what it leaves. -/
structure Fread where
  octets : Bytes
  eof : Bool
  rest : Input
  deriving DecidableEq, Repr

/-- `fread(buf, 1, n, from)`: fewer than `n` octets if there are no more, or if a read fails. -/
def fread : Nat → Input → Fread
  | 0, s => { octets := [], eof := false, rest := s }
  | _ + 1, [] => { octets := [], eof := true, rest := [] }
  | _ + 1, none :: s => { octets := [], eof := false, rest := s }
  | n + 1, some c :: s => let r := fread n s; { r with octets := c :: r.octets }

/-- The blocks of a loop that calls `fread` until it returns nothing or the end-of-file indicator is set. -/
def freads (n : Nat) : Nat → Input → List Bytes
  | 0, _ => []
  | fuel + 1, s =>
    let r := fread n s
    if r.octets = [] then []
    else r.octets :: if r.eof then [] else freads n fuel r.rest

/-- No read fails at the start of a block with octets still to come; `m` octets are missing from the
present block. -/
def readsThrough (n : Nat) : Nat → Input → Bool
  | _, [] => true
  | m, none :: s => if m = n then s.all Option.isNone else readsThrough n n s
  | m, some _ :: s => readsThrough n (if m ≤ 1 then n else m - 1) s

theorem fread_conserves (n : Nat) (s : Input) :
    octets s = (fread n s).octets ++ octets (fread n s).rest := by
  fun_induction fread n s with
  | case1 s => rfl
  | case2 => rfl
  | case3 n s => rfl
  | case4 n c s r ih => simp [ih, r]

theorem fread_eof {n : Nat} {s : Input} (h : (fread n s).eof) : (fread n s).rest = [] := by
  fun_induction fread n s with
  | case1 s => cases h
  | case2 => rfl
  | case3 n s => cases h
  | case4 n c s r ih => exact ih h

theorem fread_length {n : Nat} {s : Input} (h : (fread n s).octets ≠ []) :
    (fread n s).rest.length < s.length := by
  have hle : ∀ n s, (fread n s).rest.length ≤ s.length := by
    intro n s
    fun_induction fread n s with
    | case1 s => exact le_rfl
    | case2 => exact le_rfl
    | case3 n s => simp
    | case4 n c s r ih => exact ih.trans (by simp)
  match n, s with
  | 0, _ => exact absurd rfl h
  | _ + 1, [] => exact absurd rfl h
  | _ + 1, none :: s => exact absurd rfl h
  | n + 1, some c :: s => exact Nat.lt_succ_of_le (hle n s)

/-- A block is read through, and then the rest of the stream. -/
theorem readsThrough_fread {n m : Nat} (s : Input) (h0 : 0 < m) (hm : m ≤ n) :
    readsThrough n m s ↔
      if m = n ∧ (fread m s).octets = [] then octets s = [] else readsThrough n n (fread m s).rest := by
  induction s generalizing m with
  | nil =>
    obtain ⟨m, rfl⟩ : ∃ k, m = k + 1 := ⟨m - 1, by omega⟩
    simp [readsThrough, fread]
  | cons x s ih =>
    obtain ⟨m, rfl⟩ : ∃ k, m = k + 1 := ⟨m - 1, by omega⟩
    cases x with
    | none =>
      simp only [readsThrough, fread, and_true, octets_none, octets_eq_nil_iff]
      split <;> rfl
    | some c =>
      rw [readsThrough, fread]
      simp only [reduceCtorEq, and_false, if_false]
      rcases m with - | m
      · rfl
      · rw [if_neg (by omega), Nat.add_sub_cancel, ih (by omega) (by omega), if_neg (by omega)]

theorem flatten_freads_isPrefix (n fuel : Nat) (s : Input) : (freads n fuel s).flatten <+: octets s := by
  induction fuel generalizing s with
  | zero => exact List.nil_prefix
  | succ fuel ih =>
    rw [freads]
    split
    · exact List.nil_prefix
    · rw [fread_conserves n s, List.flatten_cons, List.prefix_append_right_inj]
      split
      · exact List.nil_prefix
      · exact ih _

/-- The loop gets all octets exactly if no read fails at the start of a block. -/
theorem flatten_freads_iff {n fuel : Nat} (h0 : 0 < n) {s : Input} (h : s.length < fuel) :
    (freads n fuel s).flatten = octets s ↔ readsThrough n n s := by
  induction fuel generalizing s with
  | zero => omega
  | succ fuel ih =>
    rw [readsThrough_fread s h0 le_rfl, freads]
    by_cases hr : (fread n s).octets = []
    · rw [if_pos hr, if_pos ⟨rfl, hr⟩]
      exact eq_comm
    · have hcond : ¬ (n = n ∧ (fread n s).octets = []) := fun hc => hr hc.2
      rw [if_neg hr, if_neg hcond, fread_conserves n s, List.flatten_cons, List.append_cancel_left_eq]
      have hlen := fread_length hr
      by_cases he : (fread n s).eof
      · simp [he, fread_eof he, readsThrough]
      · rw [if_neg he]
        exact ih (by omega)

/-! ### Lines -/

/-- The octets of a line, up to and with the newline, or none if a read fails. -/
def readLine : Nat → Input → Option Bytes × Input
  | 0, s => (some [], s)
  | _ + 1, [] => (some [], [])
  | _ + 1, none :: s => (none, s)
  | n + 1, some c :: s =>
    if c = LF then (some [c], s)
    else let r := readLine n s; (r.1.map (c :: ·), r.2)

/-- `fgets(buffer, n + 1, from)`: a null pointer if there are no more octets, or if a read fails. -/
def fgets (n : Nat) (s : Input) : Option Bytes × Input :=
  let r := readLine n s
  if r.1 = some [] then (none, r.2) else r

/-- The texts of a loop that calls `fgets` until it returns a null pointer. -/
def fgetss (n : Nat) : Nat → Input → List Bytes
  | 0, _ => []
  | fuel + 1, s =>
    match fgets n s with
    | (none, _) => []
    | (some b, s) => b :: fgetss n fuel s

/-- No read fails inside a line, or with octets still to come; `m` octets fit into the rest of the
buffer. -/
def linesThrough (n : Nat) : Nat → Input → Bool
  | _, [] => true
  | m, none :: s => m = n && s.all Option.isNone
  | m, some c :: s => linesThrough n (if c = LF ∨ m ≤ 1 then n else m - 1) s

theorem readLine_conserves {n : Nat} {s rest : Input} {b : Bytes} (h : readLine n s = (some b, rest)) :
    octets s = b ++ octets rest ∧ rest.length + b.length = s.length := by
  induction s generalizing n b with
  | nil => cases n <;> (cases h; exact ⟨rfl, rfl⟩)
  | cons x s ih =>
    rcases n with - | n
    · cases h; exact ⟨rfl, rfl⟩
    cases x with
    | none => cases h
    | some c =>
      rw [readLine] at h
      split at h
      · cases h; exact ⟨rfl, rfl⟩
      · simp only [Prod.mk.injEq, Option.map_eq_some_iff] at h
        obtain ⟨⟨b', hb', rfl⟩, rfl⟩ := h
        obtain ⟨h1, h2⟩ := ih (Prod.ext hb' rfl)
        exact ⟨by rw [octets_some, h1, List.cons_append], by simp only [List.length_cons]; omega⟩

/-- A line is read through, and then the rest of the stream. -/
theorem linesThrough_readLine {n m : Nat} (s : Input) (h0 : 0 < m) (hm : m ≤ n) :
    linesThrough n m s ↔
      if (readLine m s).1 = none then m = n ∧ octets s = [] else linesThrough n n (readLine m s).2 := by
  induction s generalizing m with
  | nil =>
    obtain ⟨m, rfl⟩ : ∃ k, m = k + 1 := ⟨m - 1, by omega⟩
    simp [linesThrough, readLine]
  | cons x s ih =>
    obtain ⟨m, rfl⟩ : ∃ k, m = k + 1 := ⟨m - 1, by omega⟩
    cases x with
    | none => simp [linesThrough, readLine, octets_eq_nil_iff]
    | some c =>
      rw [linesThrough, readLine]
      by_cases hc : c = LF
      · simp [hc]
      · rcases m with - | m
        · simp [hc, readLine]
        · have hif : (if c = LF ∨ m + 1 + 1 ≤ 1 then n else m + 1 + 1 - 1) = m + 1 :=
            if_neg (by rintro (h | h) <;> [exact hc h; omega])
          simp only [hif, if_neg hc, Option.map_eq_none_iff, @ih (m + 1) (by omega) (by omega)]
          split
          · exact iff_of_false (by omega) (by simp)
          · rfl

theorem fgets_conserves {n : Nat} {s rest : Input} {b : Bytes} (h : fgets n s = (some b, rest)) :
    octets s = b ++ octets rest ∧ rest.length + b.length = s.length ∧ b ≠ [] := by
  simp only [fgets] at h
  split at h
  · cases h
  next hne =>
    obtain ⟨h1, h2⟩ := readLine_conserves h
    exact ⟨h1, h2, fun hb => hne (by rw [h, hb])⟩

/-- No more lines: a read fails, or the stream is at its end. -/
theorem fgets_eq_none {n : Nat} (h0 : 0 < n) {s : Input} (h : (fgets n s).1 = none) :
    (readLine n s).1 = none ∨ s = [] := by
  simp only [fgets] at h
  split at h
  next hb =>
    obtain ⟨n, rfl⟩ : ∃ k, n = k + 1 := ⟨n - 1, by omega⟩
    match s with
    | [] => exact .inr rfl
    | none :: s => cases hb
    | some c :: s =>
      rw [readLine] at hb
      split at hb
      · cases hb
      · obtain ⟨_, _, hc⟩ := Option.map_eq_some_iff.1 hb
        cases hc
  next => exact .inl h

theorem flatten_fgetss_isPrefix (n fuel : Nat) (s : Input) : (fgetss n fuel s).flatten <+: octets s := by
  induction fuel generalizing s with
  | zero => exact List.nil_prefix
  | succ fuel ih =>
    rw [fgetss]
    split
    · exact List.nil_prefix
    next b rest hb =>
      rw [(fgets_conserves hb).1, List.flatten_cons, List.prefix_append_right_inj]
      exact ih _

/-- The loop gets all octets exactly if no read fails inside a line or with octets still to come. -/
theorem flatten_fgetss_iff {n fuel : Nat} (h0 : 0 < n) {s : Input} (h : s.length < fuel) :
    (fgetss n fuel s).flatten = octets s ↔ linesThrough n n s := by
  induction fuel generalizing s with
  | zero => omega
  | succ fuel ih =>
    rw [fgetss]
    split
    next hnone =>
      rcases fgets_eq_none h0 (congrArg Prod.fst hnone) with hr | rfl
      · rw [linesThrough_readLine s h0 le_rfl, if_pos hr]
        exact ⟨fun h => ⟨rfl, h.symm⟩, fun h => h.2.symm⟩
      · exact iff_of_true rfl rfl
    next b rest hb =>
      obtain ⟨hs, hlen, hne⟩ := fgets_conserves hb
      have hr : readLine n s = (some b, rest) := by
        simp only [fgets] at hb
        split at hb
        · cases hb
        · exact hb
      have hpos := List.length_pos_of_ne_nil hne
      rw [linesThrough_readLine s h0 le_rfl, if_neg (by simp [hr]), hr, hs, List.flatten_cons,
        List.append_cancel_left_eq]
      exact ih (by omega)

/-! ### Whole lines -/

/-- A line: the octets up to the first newline, and with it. -/
def firstLine (s : Bytes) : Bytes := s.takeWhile (· != LF) ++ (s.dropWhile (· != LF)).take 1

/-- The texts of a loop that calls `getline` until the end of a file. -/
def getlines : Nat → Bytes → List Bytes
  | 0, _ => []
  | fuel + 1, s => if s = [] then [] else firstLine s :: getlines fuel (s.drop (firstLine s).length)

theorem firstLine_append (s : Bytes) : firstLine s ++ s.drop (firstLine s).length = s := by
  have h : firstLine s ++ (s.dropWhile (· != LF)).drop 1 = s := by
    rw [firstLine, List.append_assoc, List.take_append_drop, List.takeWhile_append_dropWhile]
  have hdrop := congrArg (List.drop (firstLine s).length) h
  rw [List.drop_left] at hdrop
  rw [← hdrop, h]

theorem firstLine_ne_nil {s : Bytes} (h : s ≠ []) : firstLine s ≠ [] := by
  obtain ⟨c, r, rfl⟩ := List.exists_cons_of_ne_nil h
  by_cases hc : c = LF
  · simp [firstLine, hc]
  · simp [firstLine, hc]

/-- A line ends in a newline, or it is the last. -/
theorem drop_firstLine (s : Bytes) :
    s.drop (firstLine s).length = [] ∨ ∃ t, firstLine s = t ++ [LF] := by
  rcases hdrop : s.dropWhile (· != LF) with - | ⟨c, t⟩
  · refine .inl ?_
    have hline : firstLine s = s := by
      conv_rhs => rw [← s.takeWhile_append_dropWhile (p := (· != LF))]
      rw [firstLine, hdrop, List.take_nil]
    rw [hline, List.drop_length]
  · have hc := List.head_dropWhile_not (p := (· != LF)) (l := s) (by rw [hdrop]; simp)
    simp only [hdrop, List.head_cons, bne_eq_false_iff_eq] at hc
    exact .inr ⟨s.takeWhile (· != LF), by rw [firstLine, hdrop, hc]; rfl⟩

theorem length_drop_firstLine {s : Bytes} (h : s ≠ []) : (s.drop (firstLine s).length).length < s.length := by
  have := List.length_pos_iff.2 h
  have := List.length_pos_iff.2 (firstLine_ne_nil h)
  rw [List.length_drop]
  omega

theorem flatten_getlines {n : Nat} {s : Bytes} (h : s.length < n) : (getlines n s).flatten = s := by
  induction n generalizing s with
  | zero => omega
  | succ n ih =>
    rw [getlines]
    split
    next hs => rw [hs]; rfl
    next hs =>
      have := length_drop_firstLine hs
      rw [List.flatten_cons, ih (by omega), firstLine_append]

/-! ### Lines in pieces -/

/-- What `fgets` returns where no read fails: what fits of the first line. -/
theorem readLine_some (n : Nat) (s : Bytes) :
    readLine n (s.map some) =
      (some ((firstLine s).take n), (s.drop ((firstLine s).take n).length).map some) := by
  induction n generalizing s with
  | zero => simp [readLine]
  | succ n ih =>
    rcases s with - | ⟨c, r⟩
    · simp [readLine, firstLine]
    · rw [List.map_cons, readLine]
      by_cases hc : c = LF
      · simp [hc, firstLine]
      · have hline : firstLine (c :: r) = c :: firstLine r := by simp [firstLine, hc]
        rw [if_neg hc, ih, hline]
        rfl

theorem firstLine_drop {n : Nat} {s : Bytes} (h : n < (firstLine s).length) :
    firstLine (s.drop n) = (firstLine s).drop n := by
  induction n generalizing s with
  | zero => rfl
  | succ n ih =>
    rcases s with - | ⟨c, r⟩
    · simp [firstLine] at h
    · by_cases hc : c = LF
      · simp [firstLine, hc] at h
      · have hline : firstLine (c :: r) = c :: firstLine r := by simp [firstLine, hc]
        rw [hline, List.length_cons] at h
        rw [hline, List.drop_succ_cons, List.drop_succ_cons, ih (by omega)]

theorem fgets_some {n : Nat} (h0 : 0 < n) {s : Bytes} (hs : s ≠ []) :
    fgets n (s.map some) =
      (some ((firstLine s).take n), (s.drop ((firstLine s).take n).length).map some) := by
  have hne : (firstLine s).take n ≠ [] := by
    rw [Ne, List.take_eq_nil_iff, not_or]
    exact ⟨by omega, firstLine_ne_nil hs⟩
  rw [fgets, readLine_some]
  exact if_neg fun h => hne (Option.some.inj h)

/-- **Pieces**: the loop that calls `fgets` gets the lines in pieces as large as the buffer. -/
theorem mem_fgetss_iff {n : Nat} (h0 : 0 < n) {fuel m : Nat} {s p : Bytes} (hfuel : s.length < fuel)
    (hm : s.length < m) :
    p ∈ fgetss n fuel (s.map some) ↔
      p ≠ [] ∧ ∃ line ∈ getlines m s, ∃ k, p = (line.drop (n * k)).take n := by
  induction fuel generalizing s m with
  | zero => omega
  | succ fuel ih =>
    obtain ⟨m, rfl⟩ : ∃ k, m = k + 1 := ⟨m - 1, by omega⟩
    by_cases hs : s = []
    · subst hs
      obtain ⟨n, rfl⟩ : ∃ k, n = k + 1 := ⟨n - 1, by omega⟩
      simp [fgetss, fgets, readLine, getlines]
    have hpos := List.length_pos_iff.2 (firstLine_ne_nil hs)
    have hlen := List.length_pos_iff.2 hs
    rw [fgetss, fgets_some h0 hs, getlines, if_neg hs]
    dsimp only
    rw [List.mem_cons]
    rcases Nat.lt_or_ge n (firstLine s).length with hlt | hle
    · -- The line goes on in the next piece, which begins the rest of the line.
      have htake : ((firstLine s).take n).length = n := by rw [List.length_take]; omega
      have hsub : (firstLine s).length ≤ s.length := by
        have := congrArg List.length (firstLine_append s)
        rw [List.length_append] at this
        omega
      have hrest : getlines (m + 1) (s.drop n) =
          (firstLine s).drop n :: getlines m (s.drop (firstLine s).length) := by
        have hne : s.drop n ≠ [] := fun h => by
          rw [List.drop_eq_nil_iff] at h
          omega
        rw [getlines, if_neg hne, firstLine_drop hlt, List.drop_drop, List.length_drop,
          Nat.add_sub_cancel' hlt.le]
      rw [htake, @ih (m + 1) _ (by rw [List.length_drop]; omega) (by rw [List.length_drop]; omega), hrest,
        List.exists_mem_cons_iff, List.exists_mem_cons_iff]
      have hpiece : ∀ k, (((firstLine s).drop n).drop (n * k)).take n = ((firstLine s).drop (n * (k + 1))).take n :=
        fun k => by rw [List.drop_drop, Nat.mul_succ, Nat.add_comm]
      constructor
      · rintro (rfl | ⟨hp, ⟨k, hk⟩ | hline⟩)
        · exact ⟨List.ne_nil_of_length_pos (by omega), .inl ⟨0, rfl⟩⟩
        · exact ⟨hp, .inl ⟨k + 1, hk.trans (hpiece k)⟩⟩
        · exact ⟨hp, .inr hline⟩
      · rintro ⟨hp, ⟨k, hk⟩ | hline⟩
        · cases k with
          | zero => exact .inl hk
          | succ k => exact .inr ⟨hp, .inl ⟨k, hk.trans (hpiece k).symm⟩⟩
        · exact .inr ⟨hp, .inr hline⟩
    · have htake : (firstLine s).take n = firstLine s := List.take_of_length_le hle
      have hrest := length_drop_firstLine hs
      rw [htake, @ih m _ (by omega) (by omega), List.exists_mem_cons_iff]
      constructor
      · rintro (rfl | ⟨hp, hline⟩)
        · exact ⟨firstLine_ne_nil hs, .inl ⟨0, htake.symm⟩⟩
        · exact ⟨hp, .inr hline⟩
      · rintro ⟨hp, ⟨k, hk⟩ | hline⟩
        · cases k with
          | zero => exact .inl (hk.trans htake)
          | succ k =>
            -- The line is over after its first piece.
            have hover : (firstLine s).drop (n * (k + 1)) = [] := by
              rw [List.drop_eq_nil_iff, Nat.mul_succ]
              omega
            rw [hover, List.take_nil] at hk
            exact absurd hk hp
        · exact .inr ⟨hp, hline⟩

end Stdio
