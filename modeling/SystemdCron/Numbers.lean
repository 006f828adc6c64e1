import SystemdCron.Run

/-!
# The numbers of a run

The names that a run gives are a function of its requests alone: the number of a job is how many jobs with its
identifier were numbered before it (`units_execute`).
-/

namespace SystemdCron

open Bytes

/-- Whether `generate_timer_unit` gives a job units. -/
def Job.isLive (host : Host) (j : Job) : Bool := j.valid && j.isActive host

/-- Whether a request uses up a number of an identifier. -/
def counts (host : Host) (id : Bytes) : Request → Bool
  | .timer j => j.isLive host && j.sequential && j.jobid == id
  | .named _ => false

/-- The counter of an identifier after some requests. -/
def counter (host : Host) (id : Bytes) (l : List Request) : Nat := l.countP (counts host id) % 2 ^ 64

/-- The units of a request that comes after others. -/
def unitOf (host : Host) (md5 : Md5) (done : List Request) : Request → Option Job
  | .timer j => if j.isLive host then some (j.generateUnitName md5 (counter host j.jobid done)).1 else none
  | .named j => some j

/-- The units of some requests that come after others. -/
def unitsAfter (host : Host) (md5 : Md5) (done : List Request) : List Request → List Job
  | [] => []
  | r :: rest => (unitOf host md5 done r).toList ++ unitsAfter host md5 (done ++ [r]) rest

variable {host : Host} {md5 : Md5}

theorem counter_append (id : Bytes) (l : List Request) (r : Request) :
    counter host id (l ++ [r]) =
      if counts host id r then (counter host id l + 1) % 2 ^ 64 else counter host id l := by
  unfold counter
  rw [List.countP_append, List.countP_singleton]
  split
  · rw [Nat.mod_add_mod]
  · rw [Nat.add_zero]

/-- Executables use up no numbers. -/
theorem counter_append_named (id : Bytes) (l : List Request) (jobs : List Job) :
    counter host id (l ++ jobs.map .named) = counter host id l := by
  rw [counter, counter, List.countP_append, List.countP_map]
  have : jobs.countP (counts host id ∘ Request.named) = 0 := List.countP_eq_zero.2 fun _ _ => nofun
  rw [this, Nat.add_zero]

/-- A request that is served: its unit, and the counters after it. -/
theorem serve_eq {s : GenState} {done : List Request}
    (hs : ∀ id, s.seqs.getD id 0 = counter host id done) (r : Request) :
    (serve host md5 s r).units = s.units ++ (unitOf host md5 done r).toList ∧
      ∀ id, (serve host md5 s r).seqs.getD id 0 = counter host id (done ++ [r]) := by
  cases r with
  | named j =>
    refine ⟨rfl, fun id => ?_⟩
    rw [counter_append, if_neg (by simp [counts])]
    exact hs id
  | timer j =>
    cases hlive : j.isLive host with
    | false =>
      have hserve : serve host md5 s (.timer j) = s := if_neg (by rw [← Job.isLive, hlive]; decide)
      have hcounts (id : Bytes) : counts host id (.timer j) = false := by simp [counts, hlive]
      refine ⟨by simp [hserve, unitOf, hlive], fun id => ?_⟩
      rw [hserve, counter_append, hcounts, if_neg (by decide), hs]
    | true =>
      have hserve : serve host md5 s (.timer j) = { s with
          seqs := s.seqs.insert j.jobid (j.generateUnitName md5 (s.seqs.getD j.jobid 0)).2
          units := s.units ++ [(j.generateUnitName md5 (s.seqs.getD j.jobid 0)).1] } :=
        if_pos (by rw [← Job.isLive, hlive])
      rw [hserve, hs]
      refine ⟨by rw [unitOf, if_pos hlive]; rfl, fun id => ?_⟩
      rw [counter_append, Std.TreeMap.getD_insert]
      by_cases hid : j.jobid = id
      · subst hid
        rw [if_pos Std.ReflCmp.compare_self, Job.generateUnitName]
        cases hseq : j.sequential with
        | true => rw [if_pos rfl, if_pos (by simp [counts, hlive, hseq])]
        | false => rw [if_neg (by decide), if_neg (by simp [counts, hseq])]
      · rw [if_neg fun h => hid (Std.LawfulEqCmp.eq_of_compare h), if_neg (by simp [counts, hid])]
        exact hs id

theorem units_foldl_serve {s : GenState} {done : List Request}
    (hs : ∀ id, s.seqs.getD id 0 = counter host id done) (l : List Request) :
    (l.foldl (serve host md5) s).units = s.units ++ unitsAfter host md5 done l := by
  induction l generalizing s done with
  | nil => exact (List.append_nil _).symm
  | cons r rest ih =>
    obtain ⟨hunits, hcounters⟩ := serve_eq hs r
    rw [List.foldl_cons, ih hcounters, hunits, unitsAfter, List.append_assoc]

/-- **The units of a run** are those of its requests, one after the other. -/
theorem units_execute (hours : Std.TreeMap Bytes Nat) (rng : Rng) (l : List Request) :
    (execute host md5 hours rng l).units = unitsAfter host md5 [] l :=
  units_foldl_serve (s := .start fun _ => 0) (fun _ => rfl) l

theorem unitsAfter_append (done l l' : List Request) :
    unitsAfter host md5 done (l ++ l') = unitsAfter host md5 done l ++ unitsAfter host md5 (done ++ l) l' := by
  induction l generalizing done with
  | nil => rw [List.append_nil]; rfl
  | cons r rest ih =>
    rw [List.cons_append, unitsAfter, ih, unitsAfter, List.append_assoc, List.append_assoc,
      List.singleton_append]

/-- Executables keep the names that they come with. -/
theorem unitsAfter_named (done : List Request) (jobs : List Job) :
    unitsAfter host md5 done (jobs.map .named) = jobs := by
  induction jobs generalizing done with
  | nil => rfl
  | cons j jobs ih => rw [List.map_cons, unitsAfter, ih]; rfl

theorem mem_unitsAfter {done l : List Request} {u : Job} :
    u ∈ unitsAfter host md5 done l ↔ ∃ a r b, l = a ++ r :: b ∧ unitOf host md5 (done ++ a) r = some u := by
  induction l generalizing done with
  | nil => simp [unitsAfter]
  | cons r rest ih =>
    rw [unitsAfter, List.mem_append, ih, Option.mem_toList]
    constructor
    · rintro (h | ⟨a, r', b, rfl, h⟩)
      · exact ⟨[], r, rest, rfl, by rw [List.append_nil]; exact h⟩
      · exact ⟨r :: a, r', b, rfl, by rwa [List.append_assoc] at h⟩
    · rintro ⟨a, r', b, h, hu⟩
      rcases a with - | ⟨r'', a⟩
      · obtain ⟨rfl, rfl⟩ := List.cons.inj h
        rw [List.append_nil] at hu
        exact .inl hu
      · obtain ⟨rfl, rfl⟩ := List.cons.inj h
        exact .inr ⟨a, r', b, rfl, by rwa [List.append_assoc]⟩

/-- Requests with names of their own do not use up numbers. -/
theorem unitsAfter_congr {done done' : List Request}
    (h : ∀ id, counter host id done = counter host id done') (l : List Request) :
    unitsAfter host md5 done l = unitsAfter host md5 done' l := by
  induction l generalizing done done' with
  | nil => rfl
  | cons r rest ih =>
    have hunit : unitOf host md5 done r = unitOf host md5 done' r := by
      cases r with
      | timer j => rw [unitOf, h, unitOf]
      | named j => rfl
    have hcounters (id : Bytes) : counter host id (done ++ [r]) = counter host id (done' ++ [r]) := by
      rw [counter_append, counter_append, h]
    rw [unitsAfter, hunit, ih hcounters, unitsAfter]

/-- The elements that satisfy a predicate come one after the other. -/
theorem exists_split_countP {α : Type} {p : α → Bool} {n : Nat} {l : List α} (h : n < l.countP p) :
    ∃ a x b, l = a ++ x :: b ∧ p x ∧ a.countP p = n := by
  induction l generalizing n with
  | nil => cases h
  | cons x l ih =>
    by_cases hx : p x
    · rw [List.countP_cons_of_pos hx] at h
      rcases n with - | n
      · exact ⟨[], x, l, rfl, hx, rfl⟩
      · obtain ⟨a, y, b, rfl, hy, hn⟩ := ih (Nat.lt_of_succ_lt_succ h)
        exact ⟨x :: a, y, b, rfl, hy, by rw [List.countP_cons_of_pos hx, hn]⟩
    · rw [List.countP_cons_of_neg hx] at h
      obtain ⟨a, y, b, rfl, hy, hn⟩ := ih h
      exact ⟨x :: a, y, b, rfl, hy, by rw [List.countP_cons_of_neg hx, hn]⟩

/-! ### Names -/

/-- A text that is the identifier of a job, a dash, and what `generate_unit_name` may put after it: a number
that was given out for the identifier, or the digest of the job. -/
def Taken (host : Host) (md5 : Md5) (jobs : List Job) (text : Bytes) : Prop :=
  ∃ j ∈ jobs, j.isLive host ∧ ∃ suffix, text = j.jobid ++ DASH :: suffix ∧
    if j.sequential then
      ∃ n < 2 ^ 64, n < jobs.countP (fun j' => j'.isLive host && j'.sequential && j'.jobid == j.jobid) ∧
        suffix = decimal n
    else suffix = md5.hex j.hashInput

theorem counter_map_timer (id : Bytes) (jobs : List Job) :
    counter host id (jobs.map .timer) =
      jobs.countP (fun j => j.isLive host && j.sequential && j.jobid == id) % 2 ^ 64 := by
  rw [counter, List.countP_map]
  rfl

/-- The names that jobs get, without the common beginning, are the texts that are taken. -/
theorem taken_iff {jobs : List Job} {text : Bytes} :
    Taken host md5 jobs text ↔
      ∃ u ∈ unitsAfter host md5 [] (jobs.map .timer), u.unitName = lit "cron-" ++ text := by
  constructor
  · rintro ⟨j, hj, hlive, suffix, rfl, hsuffix⟩
    split at hsuffix
    next hseq =>
      obtain ⟨n, hn, hcount, rfl⟩ := hsuffix
      obtain ⟨a, j', b, rfl, hj', ha⟩ := exists_split_countP hcount
      simp only [Bool.and_eq_true, beq_iff_eq] at hj'
      obtain ⟨⟨hlive', hseq'⟩, hid⟩ := hj'
      refine ⟨_, mem_unitsAfter.2 ⟨a.map .timer, .timer j', b.map .timer, by simp, if_pos hlive'⟩, ?_⟩
      rw [List.nil_append, counter_map_timer, hid, ha, Nat.mod_eq_of_lt hn, Job.generateUnitName, if_pos hseq']
      simp [Job.stem, hid]
    next hseq =>
      obtain ⟨a, b, rfl⟩ := List.append_of_mem hj
      refine ⟨_, mem_unitsAfter.2 ⟨a.map .timer, .timer j, b.map .timer, by simp, if_pos hlive⟩, ?_⟩
      rw [Job.generateUnitName, if_neg hseq, hsuffix]
      simp [Job.stem]
  · rintro ⟨u, hu, hname⟩
    obtain ⟨a, r, b, hsplit, hunit⟩ := mem_unitsAfter.1 hu
    obtain ⟨a', rest, hjobs, rfl, hrest⟩ := List.map_eq_append_iff.1 hsplit
    obtain ⟨j, b', rfl, rfl, rfl⟩ := List.map_eq_cons_iff.1 hrest
    subst hjobs
    rw [unitOf, List.nil_append] at hunit
    split at hunit
    next hlive =>
      rw [← Option.some.inj hunit, Job.generateUnitName] at hname
      refine ⟨j, by simp, hlive, ?_⟩
      split at hname
      next hseq =>
        refine ⟨decimal (counter host j.jobid (a'.map .timer)), ?_, ?_⟩
        · have := hname
          simp only [Job.stem, List.append_assoc, List.append_cancel_left_eq] at this
          exact this.symm
        · rw [if_pos hseq]
          refine ⟨counter host j.jobid (a'.map .timer), Nat.mod_lt _ (by decide), ?_, rfl⟩
          rw [counter_map_timer, List.countP_append, List.countP_cons_of_pos (by simp [hlive, hseq])]
          exact (Nat.mod_le _ _).trans_lt (by omega)
      next hseq =>
        refine ⟨md5.hex j.hashInput, ?_, by rw [if_neg hseq]⟩
        have := hname
        simp only [Job.stem, List.append_assoc, List.append_cancel_left_eq] at this
        exact this.symm
    next => cases hunit

end SystemdCron
