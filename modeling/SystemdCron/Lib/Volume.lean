import Mathlib

/-!
# Names and files

A directory with files behind its names: a file keeps what is in it when its name is given to another. Where no
file has two names (`Sound`), an operation on names and files changes what is seen under the names (`look`) as a
function is updated (`look_create`, `look_write`, `look_rename`, `look_unlink`).
-/

/-- The files that names refer to, what is in each, and how many there have been. -/
structure Volume (N C : Type*) where
  file : N → Option ℕ
  content : ℕ → C
  used : ℕ

namespace Volume

variable {N C : Type*}

/-- What is in the file under a name. -/
def look (v : Volume N C) (n : N) : Option C := (v.file n).map v.content

/-- A file is overwritten, whatever its name is. -/
def write (v : Volume N C) (i : ℕ) (c : C) : Volume N C := { v with content := Function.update v.content i c }

/-- The files under names have been created, and none has two names. -/
structure Sound (v : Volume N C) : Prop where
  lt_used : ∀ n i, v.file n = some i → i < v.used
  eq_of_file : ∀ m n i, v.file m = some i → v.file n = some i → m = n

theorem look_eq {v : Volume N C} {n : N} {i : ℕ} (h : v.file n = some i) : v.look n = some (v.content i) := by
  rw [look, h]
  rfl

theorem Sound.write {v : Volume N C} (h : v.Sound) (i : ℕ) (c : C) : (v.write i c).Sound := ⟨h.lt_used, h.eq_of_file⟩

variable [DecidableEq N]

/-- A new file under a name. -/
def create (v : Volume N C) (n : N) (c : C) : Volume N C where
  file := Function.update v.file n (some v.used)
  content := Function.update v.content v.used c
  used := v.used + 1

/-- A file gets the name of another, which is lost if it has no other name. -/
def rename (v : Volume N C) (m n : N) : Volume N C :=
  { v with file := Function.update (Function.update v.file n (v.file m)) m none }

def unlink (v : Volume N C) (n : N) : Volume N C := { v with file := Function.update v.file n none }

variable {v : Volume N C} {m n : N} {i : ℕ}

/-! ### Files -/

theorem file_create (v : Volume N C) (n : N) (c : C) :
    (v.create n c).file = Function.update v.file n (some v.used) := rfl

theorem file_rename {k : N} (h : (v.rename m n).file k = some i) :
    k = n ∧ v.file m = some i ∨ k ≠ m ∧ k ≠ n ∧ v.file k = some i := by
  unfold rename at h
  dsimp only at h
  rw [Function.update_apply, Function.update_apply] at h
  split at h
  · cases h
  next hkm =>
    split at h
    next hkn => exact .inl ⟨hkn, h⟩
    next hkn => exact .inr ⟨hkm, hkn, h⟩

theorem file_unlink {k : N} (h : (v.unlink n).file k = some i) : k ≠ n ∧ v.file k = some i := by
  unfold unlink at h
  dsimp only at h
  rw [Function.update_apply] at h
  split at h
  · cases h
  next hk => exact ⟨hk, h⟩

/-! ### Sound volumes -/

theorem Sound.create (h : v.Sound) (n : N) (c : C) : (v.create n c).Sound := by
  have hcases {k : N} {i : ℕ} (hk : (v.create n c).file k = some i) :
      k = n ∧ i = v.used ∨ k ≠ n ∧ v.file k = some i := by
    rw [file_create, Function.update_apply] at hk
    split at hk
    next hkn => exact .inl ⟨hkn, (Option.some.inj hk).symm⟩
    next hkn => exact .inr ⟨hkn, hk⟩
  refine ⟨fun k i hk => ?_, fun k l i hk hl => ?_⟩
  · rcases hcases hk with ⟨-, rfl⟩ | ⟨-, hk⟩
    · exact Nat.lt_succ_self _
    · exact Nat.lt_succ_of_lt (h.lt_used k i hk)
  · rcases hcases hk with ⟨rfl, rfl⟩ | ⟨-, hk⟩
    · rcases hcases hl with ⟨rfl, -⟩ | ⟨-, hl⟩
      · rfl
      · exact absurd (h.lt_used l _ hl) (lt_irrefl _)
    · rcases hcases hl with ⟨-, rfl⟩ | ⟨-, hl⟩
      · exact absurd (h.lt_used k _ hk) (lt_irrefl _)
      · exact h.eq_of_file k l i hk hl

theorem Sound.rename (h : v.Sound) (m n : N) : (v.rename m n).Sound := by
  refine ⟨fun k i hk => ?_, fun k l i hk hl => ?_⟩
  · rcases file_rename hk with ⟨-, hm⟩ | ⟨-, -, hk⟩
    · exact h.lt_used m i hm
    · exact h.lt_used k i hk
  · rcases file_rename hk with ⟨hkn, hm⟩ | ⟨hkm, -, hk⟩
    · rcases file_rename hl with ⟨hln, -⟩ | ⟨hlm, -, hl⟩
      · exact hkn.trans hln.symm
      · exact absurd (h.eq_of_file l m i hl hm) hlm
    · rcases file_rename hl with ⟨-, hm⟩ | ⟨-, -, hl⟩
      · exact absurd (h.eq_of_file k m i hk hm) hkm
      · exact h.eq_of_file k l i hk hl

theorem Sound.unlink (h : v.Sound) (n : N) : (v.unlink n).Sound :=
  ⟨fun k i hk => h.lt_used k i (file_unlink hk).2,
    fun k l i hk hl => h.eq_of_file k l i (file_unlink hk).2 (file_unlink hl).2⟩

/-! ### What is seen -/

theorem look_create (h : v.Sound) (n : N) (c : C) : (v.create n c).look = Function.update v.look n (some c) := by
  funext k
  rw [Function.update_apply]
  by_cases hk : k = n
  · rw [if_pos hk, look, file_create, hk, Function.update_self]
    exact congrArg some (Function.update_self ..)
  · rw [if_neg hk, look, look, file_create, Function.update_of_ne hk]
    cases hf : v.file k with
    | none => rfl
    | some i => exact congrArg some (Function.update_of_ne (h.lt_used k i hf).ne _ _)

theorem look_write (h : v.Sound) (hn : v.file n = some i) (c : C) :
    (v.write i c).look = Function.update v.look n (some c) := by
  funext k
  rw [Function.update_apply]
  by_cases hk : k = n
  · rw [if_pos hk, look, show (v.write i c).file k = some i from hk ▸ hn]
    exact congrArg some (Function.update_self ..)
  · rw [if_neg hk, look, look, show (v.write i c).file = v.file from rfl]
    cases hf : v.file k with
    | none => rfl
    | some j =>
      have hj : j ≠ i := by
        rintro rfl
        exact hk (h.eq_of_file k n j hf hn)
      exact congrArg some (Function.update_of_ne hj _ _)

theorem look_rename (v : Volume N C) (m n : N) :
    (v.rename m n).look = Function.update (Function.update v.look n (v.look m)) m none := by
  funext k
  simp only [look, rename, Function.update_apply]
  split
  · rfl
  · split
    · rfl
    · rfl

theorem look_unlink (v : Volume N C) (n : N) : (v.unlink n).look = Function.update v.look n none := by
  funext k
  simp only [look, unlink, Function.update_apply]
  split
  · rfl
  · rfl

end Volume
