import Mathlib

/-!
# Writes in an order

A list of writes, each a key and a value, of which the last to a key is the one that stays. Blocks of writes
can be put in another order if no key is in two of them (`Same.of_perm`).
-/

namespace WriteLog

variable {K V : Type} [DecidableEq K]

/-- The value of a key after some writes. -/
def lastWrite (l : List (K × V)) (k : K) : Option V := l.reverse.lookup k

theorem lookup_append (a b : List (K × V)) (k : K) : (a ++ b).lookup k = (a.lookup k).or (b.lookup k) := by
  induction a with
  | nil => rfl
  | cons p a ih =>
    rw [List.cons_append, List.lookup_cons, List.lookup_cons, ih]
    split <;> rfl

theorem lastWrite_append (a b : List (K × V)) (k : K) :
    lastWrite (a ++ b) k = (lastWrite b k).or (lastWrite a k) := by
  rw [lastWrite, List.reverse_append, lookup_append]
  rfl

theorem lastWrite_eq_none {l : List (K × V)} {k : K} : lastWrite l k = none ↔ ∀ p ∈ l, p.1 ≠ k := by
  rw [lastWrite, List.lookup_eq_none_iff]
  exact ⟨fun h p hp heq => bne_iff_ne.1 (h p (List.mem_reverse.2 hp)) heq.symm,
    fun h p hp => bne_iff_ne.2 fun heq => h p (List.mem_reverse.1 hp) heq.symm⟩

/-- Two blocks write to no common key. -/
def Disjoint (a b : List (K × V)) : Prop := ∀ p ∈ a, ∀ q ∈ b, p.1 ≠ q.1

omit [DecidableEq K] in
theorem Disjoint.symm {a b : List (K × V)} (h : Disjoint a b) : Disjoint b a :=
  fun q hq p hp heq => h p hp q hq heq.symm

/-- Writes that leave the same. -/
def Same (l l' : List (K × V)) : Prop := ∀ k, lastWrite l k = lastWrite l' k

namespace Same

variable {a a' b b' : List (K × V)}

theorem refl (l : List (K × V)) : Same l l := fun _ => rfl

theorem trans {c : List (K × V)} (h : Same a b) (h' : Same b c) : Same a c := fun k => (h k).trans (h' k)

theorem append (ha : Same a a') (hb : Same b b') : Same (a ++ b) (a' ++ b') := by
  intro k
  rw [lastWrite_append, lastWrite_append, ha k, hb k]

/-- Two blocks that write to no common key can be exchanged. -/
theorem swap (h : Disjoint a b) : Same (a ++ b) (b ++ a) := by
  intro k
  rw [lastWrite_append, lastWrite_append]
  cases ha : lastWrite a k with
  | none => rw [Option.or_none, Option.none_or]
  | some v =>
    have hb : lastWrite b k = none := by
      rw [lastWrite_eq_none]
      rintro q hq rfl
      have hne : lastWrite a q.1 ≠ none := by rw [ha]; exact Option.some_ne_none v
      exact hne (lastWrite_eq_none.2 fun p hp => h p hp q hq)
    rw [hb, Option.none_or, Option.or_none]

/-- **Blocks of writes** to different keys can be put in any order. -/
theorem of_perm {bs bs' : List (List (K × V))} (h : bs.Perm bs') (hd : bs.Pairwise Disjoint) :
    Same bs.flatten bs'.flatten := by
  induction h with
  | nil => exact refl []
  | cons b _ ih =>
    rw [List.flatten_cons, List.flatten_cons]
    exact (refl b).append (ih (List.pairwise_cons.1 hd).2)
  | swap a b bs =>
    have hba : Disjoint b a := (List.pairwise_cons.1 hd).1 a (by simp)
    rw [List.flatten_cons, List.flatten_cons, List.flatten_cons, List.flatten_cons, ← List.append_assoc,
      ← List.append_assoc]
    exact (swap hba).append (refl bs.flatten)
  | trans h1 _ ih1 ih2 =>
    exact (ih1 hd).trans (ih2 ((h1.pairwise_iff fun h => Disjoint.symm h).1 hd))

end Same

end WriteLog
