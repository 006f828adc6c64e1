import SystemdCron.DrawFree
import SystemdCron.RunPartsNames
import SystemdCron.Lib.WriteLog

/-!
# The order of enumeration

`for_each_file` takes the files of a directory in the order in which `readdir` returns them. `enumeration_order`
says when the files that a run leaves do not depend on it: the files of `/etc/cron.d` and of the spool may not
ask for units of one name, nor may the executables of one period be told apart only by the characters that
`decode` deletes.
-/

namespace SystemdCron

open Bytes WriteLog

variable {cfg : Config} {host : Host} {md5 : Md5}

/-! ### Units of blocks of jobs -/

/-- Two jobs that ask for a number of one counter, or for one digest. -/
def Job.Clash (md5 : Md5) (a b : Job) : Prop :=
  a.jobid = b.jobid ∧ a.sequential = b.sequential ∧ (a.sequential ∨ md5.hex a.hashInput = md5.hex b.hashInput)

instance (a b : Job) : Decidable (a.Clash md5 b) :=
  inferInstanceAs (Decidable (_ ∧ _ ∧ (_ ∨ _)))

/-- No live job of one list clashes with one of the other. -/
def JobsApart (host : Host) (md5 : Md5) (js ks : List Job) : Prop :=
  ∀ a ∈ js, ∀ b ∈ ks, a.isLive host → b.isLive host → ¬ a.Clash md5 b

instance (js ks : List Job) : Decidable (JobsApart host md5 js ks) :=
  inferInstanceAs (Decidable (∀ a ∈ js, ∀ b ∈ ks, a.isLive host → b.isLive host → ¬ a.Clash md5 b))

theorem Job.Clash.symm {a b : Job} (h : a.Clash md5 b) : b.Clash md5 a := by
  obtain ⟨hid, hseq, hname⟩ := h
  exact ⟨hid.symm, hseq.symm, hname.imp (hseq ▸ ·) Eq.symm⟩

theorem JobsApart.symm {js ks : List Job} (h : JobsApart host md5 js ks) : JobsApart host md5 ks js :=
  fun a ha b hb hla hlb hc => h b hb a ha hlb hla hc.symm

theorem counter_perm {l l' : List Request} (h : l.Perm l') (id : Bytes) :
    counter host id l = counter host id l' := by
  rw [counter, counter, h.countP_eq]

theorem counter_append_congr {id : Bytes} {done done' : List Request}
    (h : counter host id done = counter host id done') (l : List Request) :
    counter host id (done ++ l) = counter host id (done' ++ l) := by
  unfold counter at h ⊢
  rw [List.countP_append, List.countP_append, Nat.add_mod, h, ← Nat.add_mod]

/-- The units depend on the counters of the live jobs that are numbered. -/
theorem unitsAfter_congr_live {done done' l : List Request}
    (h : ∀ j, .timer j ∈ l → j.isLive host → j.sequential →
      counter host j.jobid done = counter host j.jobid done') :
    unitsAfter host md5 done l = unitsAfter host md5 done' l := by
  induction l generalizing done done' with
  | nil => rfl
  | cons r rest ih =>
    have hunit : unitOf host md5 done r = unitOf host md5 done' r := by
      cases r with
      | named j => rfl
      | timer j =>
        rw [unitOf, unitOf]
        cases hlive : j.isLive host with
        | false => rfl
        | true =>
          cases hseq : j.sequential with
          | true => rw [h j (by simp) hlive hseq]
          | false => simp only [Job.generateUnitName, hseq, Bool.false_eq_true, if_false]
    have hrest := @ih (done ++ [r]) (done' ++ [r]) fun j hj hlive hseq => by
      rw [counter_append, counter_append, h j (by simp [hj]) hlive hseq]
    rw [unitsAfter, hunit, hrest, unitsAfter]

/-- Jobs that clash with none of some others leave the counters of these alone. -/
theorem JobsApart.counter_append {js ks : List Job} (h : JobsApart host md5 js ks) {k : Job} (hk : k ∈ ks)
    (hlive : k.isLive host) (hseq : k.sequential) (done : List Request) :
    counter host k.jobid (done ++ js.map .timer) = counter host k.jobid done := by
  have hnone : (js.map Request.timer).countP (counts host k.jobid) = 0 := by
    rw [List.countP_eq_zero]
    rintro r hr hcounts
    obtain ⟨j, hj, rfl⟩ := List.mem_map.1 hr
    simp only [counts, Bool.and_eq_true, beq_iff_eq] at hcounts
    obtain ⟨⟨hjlive, hjseq⟩, hid⟩ := hcounts
    exact h j hj k hk hjlive hlive ⟨hid, hjseq.trans hseq.symm, .inl hjseq⟩
  rw [counter, counter, List.countP_append, hnone, Nat.add_zero]

/-- The units of blocks of jobs are those of each block alone. -/
theorem unitsAfter_blocks {blocks : List (List Job)} (hd : blocks.Pairwise (JobsApart host md5))
    {done done' : List Request}
    (h : ∀ block ∈ blocks, ∀ j ∈ block, j.isLive host → j.sequential →
      counter host j.jobid done' = counter host j.jobid done) :
    unitsAfter host md5 done' (blocks.flatten.map .timer) =
      (blocks.map fun block => unitsAfter host md5 done (block.map .timer)).flatten := by
  induction blocks generalizing done' with
  | nil => rfl
  | cons block blocks ih =>
    obtain ⟨hblock, hblocks⟩ := List.pairwise_cons.1 hd
    have hfirst : unitsAfter host md5 done' (block.map .timer) =
        unitsAfter host md5 done (block.map .timer) := by
      refine unitsAfter_congr_live fun j hj hlive hseq => ?_
      obtain ⟨j', hj', heq⟩ := List.mem_map.1 hj
      cases heq
      exact h block (by simp) j hj' hlive hseq
    have hrest := @ih hblocks (done' ++ block.map .timer) fun b hb j hj hlive hseq => by
      rw [(hblock b hb).counter_append hj hlive hseq]
      exact h b (by simp [hb]) j hj hlive hseq
    rw [List.flatten_cons, List.map_append, unitsAfter_append, hfirst, hrest, List.map_cons, List.flatten_cons]

/-! ### Names of blocks -/

/-- Jobs that do not clash have different names, whatever their numbers. -/
theorem Job.generateUnitName_ne {a b : Job} (h : ¬ a.Clash md5 b) {m n : Nat} (hm : m < 2 ^ 64)
    (hn : n < 2 ^ 64) : (a.generateUnitName md5 m).1.unitName ≠ (b.generateUnitName md5 n).1.unitName := by
  intro he
  have hname (j : Job) (k : Nat) : (j.generateUnitName md5 k).1.unitName =
      j.stem ++ if j.sequential then decimal k else md5.hex j.hashInput := by
    unfold Job.generateUnitName
    split <;> rfl
  have hdash (j : Job) (k : Nat) : DASH ∉ if j.sequential then decimal k else md5.hex j.hashInput := by
    split
    · exact dash_notMem_decimal k
    · exact md5.dash_notMem_hex _
  rw [hname, hname, Job.stem_append_inj (hdash a m) (hdash b n)] at he
  obtain ⟨hid, hsuffix⟩ := he
  cases ha : a.sequential <;> cases hb : b.sequential <;> rw [ha, hb] at hsuffix
  · exact h ⟨hid, ha.trans hb.symm, .inr hsuffix⟩
  · exact decimal_ne_hex md5 _ hn hsuffix.symm
  · exact decimal_ne_hex md5 _ hm hsuffix
  · exact h ⟨hid, ha.trans hb.symm, .inl ha⟩

theorem mem_unitsAfter_timers {done : List Request} {js : List Job} {u : Job}
    (hu : u ∈ unitsAfter host md5 done (js.map .timer)) :
    ∃ j ∈ js, j.isLive host ∧ ∃ n < 2 ^ 64, u = (j.generateUnitName md5 n).1 := by
  obtain ⟨a, r, b, hsplit, hunit⟩ := mem_unitsAfter.1 hu
  have hr : r ∈ js.map Request.timer := by rw [hsplit]; simp
  obtain ⟨j, hj, rfl⟩ := List.mem_map.1 hr
  rw [unitOf] at hunit
  split at hunit
  next hlive =>
    cases hunit
    exact ⟨j, hj, hlive, counter host j.jobid (done ++ a), Nat.mod_lt _ (by decide), rfl⟩
  next => cases hunit

theorem JobsApart.unitName_ne {js ks : List Job} (h : JobsApart host md5 js ks) {done done' : List Request}
    {u v : Job} (hu : u ∈ unitsAfter host md5 done (js.map .timer))
    (hv : v ∈ unitsAfter host md5 done' (ks.map .timer)) : u.unitName ≠ v.unitName := by
  obtain ⟨a, ha, halive, m, hm, rfl⟩ := mem_unitsAfter_timers hu
  obtain ⟨b, hb, hblive, n, hn, rfl⟩ := mem_unitsAfter_timers hv
  exact Job.generateUnitName_ne (h a ha b hb halive hblive) hm hn

/-! ### Files -/

/-- The files that `output` writes for some units, each a path and a content, in order. -/
def written (cfg : Config) (host : Host) (targetDir : Bytes) (units : List Job) : List (Bytes × Bytes) :=
  units.flatMap fun u => (u.output cfg host targetDir).map fun f => (f.path, f.content)

variable {targetDir : Bytes}

theorem written_append (us vs : List Job) :
    written cfg host targetDir (us ++ vs) = written cfg host targetDir us ++ written cfg host targetDir vs :=
  List.flatMap_append

theorem written_flatten (blocks : List (List Job)) :
    written cfg host targetDir blocks.flatten = (blocks.map (written cfg host targetDir)).flatten := by
  induction blocks with
  | nil => rfl
  | cons b bs ih => rw [List.flatten_cons, written_append, ih, List.map_cons, List.flatten_cons]

/-- Units of different names have different files. -/
theorem written_disjoint {us vs : List Job} (h : ∀ u ∈ us, ∀ v ∈ vs, u.unitName ≠ v.unitName) :
    Disjoint (written cfg host targetDir us) (written cfg host targetDir vs) := by
  intro p hp q hq
  obtain ⟨u, hu, hp⟩ := List.mem_flatMap.1 hp
  obtain ⟨v, hv, hq⟩ := List.mem_flatMap.1 hq
  obtain ⟨f, hf, rfl⟩ := List.mem_map.1 hp
  obtain ⟨g, hg, rfl⟩ := List.mem_map.1 hq
  exact Job.keepApart_of_ne (h u hu v hv) f hf g hg

/-- Blocks of units whose names are apart can be put in any order. -/
theorem written_perm {blocks blocks' : List (List Job)} (h : blocks.Perm blocks')
    (hd : blocks.Pairwise fun us vs => ∀ u ∈ us, ∀ v ∈ vs, u.unitName ≠ v.unitName) :
    Same (written cfg host targetDir blocks.flatten) (written cfg host targetDir blocks'.flatten) := by
  rw [written_flatten, written_flatten]
  exact .of_perm (h.map _) (List.pairwise_map.2 (hd.imp written_disjoint))

/-- The files of a directory, in two orders. -/
theorem written_blocks {blocks blocks' : List (List Job)} (h : blocks.Perm blocks')
    (hd : blocks.Pairwise (JobsApart host md5)) {done done' : List Request}
    (hdone : ∀ id, counter host id done = counter host id done') :
    Same (written cfg host targetDir (unitsAfter host md5 done (blocks.flatten.map .timer)))
      (written cfg host targetDir (unitsAfter host md5 done' (blocks'.flatten.map .timer))) := by
  have hd' : blocks'.Pairwise (JobsApart host md5) := (h.pairwise_iff fun h => JobsApart.symm h).1 hd
  rw [unitsAfter_blocks hd fun _ _ j _ _ _ => (rfl : counter host j.jobid done = _),
    unitsAfter_blocks hd' fun _ _ j _ _ _ => (hdone j.jobid).symm]
  refine written_perm (h.map _) (List.pairwise_map.2 (hd.imp ?_))
  intro js ks hjk u hu v hv
  exact hjk.unitName_ne hu hv

/-! ### Runs -/

/-- Two enumerations of the same files. -/
structure Sources.SameFiles (s t : Sources) : Prop where
  crontab : s.crontab = t.crontab
  cronD : s.cronD.Perm t.cronD
  runParts : ∀ period, (s.runParts period).Perm (t.runParts period)
  anacrontab : s.anacrontab = t.anacrontab
  spool : Option.Rel List.Perm s.spool t.spool

/-- No unit of a file can have the name of a unit of another file of the directory. -/
structure Sources.Apart (cfg : Config) (host : Host) (md5 : Md5) (top : Toplevel) (s : Sources) : Prop where
  cronD : s.cronD.Pairwise fun f g =>
    JobsApart host md5 (jobsAlone (cronDRequests cfg host top f)) (jobsAlone (cronDRequests cfg host top g))
  runParts : cfg.USE_RUNPARTS = false → ∀ p ∈ runPartsPeriods,
    ((s.runParts p.1).filter (isRunPart cfg host p.1)).Pairwise fun a b => cleaned a ≠ cleaned b
  spool : (s.spool.getD []).Pairwise fun f g =>
    JobsApart host md5 (jobsAlone (spoolRequests cfg host top f)) (jobsAlone (spoolRequests cfg host top g))

theorem Sources.SameFiles.spool_getD {s t : Sources} (h : s.SameFiles t) :
    (s.spool.getD []).Perm (t.spool.getD []) := by
  have hspool := h.spool
  generalize s.spool = a at hspool
  generalize t.spool = b at hspool
  cases hspool with
  | some h => exact h
  | none => exact .refl []

/-- The executables of `/etc/cron.*`, in two orders. -/
theorem written_runParts (top : Toplevel) (hours : Std.TreeMap Bytes Nat) {names names' : Bytes → List Bytes}
    (h : ∀ period, (names period).Perm (names' period))
    (hd : cfg.USE_RUNPARTS = false → ∀ p ∈ runPartsPeriods,
      ((names p.1).filter (isRunPart cfg host p.1)).Pairwise fun a b => cleaned a ≠ cleaned b) :
    Same (written cfg host targetDir (runPartsRequests cfg host top hours names).flatten)
      (written cfg host targetDir (runPartsRequests cfg host top hours names').flatten) := by
  unfold runPartsRequests
  cases hcfg : cfg.USE_RUNPARTS with
  | true => exact .refl _
  | false =>
    have hperiods : ∀ ps ⊆ runPartsPeriods,
        Same (written cfg host targetDir (ps.map fun p => ((names p.1).filter (isRunPart cfg host p.1)).map
            fun name => runPartsJob host top { GenState.start (fun _ => 0) with distroStartHour := hours } p.1
              name p.2).flatten)
          (written cfg host targetDir (ps.map fun p => ((names' p.1).filter (isRunPart cfg host p.1)).map
            fun name => runPartsJob host top { GenState.start (fun _ => 0) with distroStartHour := hours } p.1
              name p.2).flatten) := by
      intro ps hps
      induction ps with
      | nil => exact .refl _
      | cons p ps ih =>
        obtain ⟨hp, hps⟩ := List.cons_subset.1 hps
        simp only [List.map_cons, List.flatten_cons, written_append]
        refine .append ?_ (ih hps)
        -- Every executable is a block of one unit.
        set job := fun name => runPartsJob host top
          { GenState.start (fun _ => 0) with distroStartHour := hours } p.1 name p.2
        have hsingle (l : List Bytes) : l.map job = (l.map fun name => [job name]).flatten :=
          List.map_eq_flatMap
        rw [hsingle, hsingle]
        refine written_perm (((h p.1).filter _).map _) (List.pairwise_map.2 ((hd hcfg p hp).imp ?_))
        intro a b hab u hu v hv he
        obtain rfl := List.mem_singleton.1 hu
        obtain rfl := List.mem_singleton.1 hv
        rw [runPartsJob_unitName host top _ hp, runPartsJob_unitName host top _ hp] at he
        exact hab (List.cons.inj (List.append_cancel_left (List.append_cancel_left he))).2
    exact hperiods runPartsPeriods (List.Subset.refl _)

/-- Two runs over the same files ask for the same, but for the order within the directories. -/
structure Requests.SameFiles (cfg : Config) (host : Host) (top : Toplevel) (s t : Sources) (q q' : Requests) :
    Prop where
  crontab : q.crontab = q'.crontab
  cronD : q.cronD = s.cronD.map fun file => jobsAlone (cronDRequests cfg host top file)
  cronD' : q'.cronD = t.cronD.map fun file => jobsAlone (cronDRequests cfg host top file)
  runParts : q.runParts = runPartsRequests cfg host top q.distroStartHour s.runParts
  runParts' : q'.runParts = runPartsRequests cfg host top q.distroStartHour t.runParts
  anacrontab : q.anacrontab = q'.anacrontab
  spool : q.spool = (s.spool.getD []).map fun file => jobsAlone (spoolRequests cfg host top file)
  spool' : q'.spool = (t.spool.getD []).map fun file => jobsAlone (spoolRequests cfg host top file)

/-- The units of a run, by the places that ask for them. -/
theorem Requests.units_list (q : Requests) :
    let crontab := q.crontab.map Request.timer
    let cronD := crontab ++ q.cronD.flatten.map .timer
    let runParts := cronD ++ q.runParts.flatten.map .named
    let anacrontab := runParts ++ q.anacrontab.map .timer
    unitsAfter host md5 [] q.list =
      unitsAfter host md5 [] crontab ++ unitsAfter host md5 crontab (q.cronD.flatten.map .timer) ++
        q.runParts.flatten ++ unitsAfter host md5 runParts (q.anacrontab.map .timer) ++
        unitsAfter host md5 anacrontab (q.spool.flatten.map Request.timer) := by
  intro crontab cronD runParts anacrontab
  rw [Requests.list, unitsAfter_append, unitsAfter_append, unitsAfter_append, unitsAfter_append,
    unitsAfter_named]
  simp only [List.nil_append]
  rfl

theorem Requests.SameFiles.written {top : Toplevel} {s t : Sources} {q q' : Requests} (h : s.SameFiles t)
    (hq : Requests.SameFiles cfg host top s t q q') (hapart : s.Apart cfg host md5 top) :
    Same (written cfg host targetDir (unitsAfter host md5 [] q.list))
      (written cfg host targetDir (unitsAfter host md5 [] q'.list)) := by
  have hcronD : q.cronD.Perm q'.cronD := by
    rw [hq.cronD, hq.cronD']
    exact h.cronD.map _
  have hspool : q.spool.Perm q'.spool := by
    rw [hq.spool, hq.spool']
    exact h.spool_getD.map _
  have hdone : (q.crontab.map Request.timer ++ q.cronD.flatten.map Request.timer).Perm
      (q'.crontab.map Request.timer ++ q'.cronD.flatten.map Request.timer) := by
    rw [hq.crontab]
    exact (hcronD.flatten.map _).append_left _
  have hcounter (id : Bytes) (js ks : List Job) :
      counter host id (q.crontab.map Request.timer ++ q.cronD.flatten.map Request.timer ++ js.map .named) =
        counter host id
          (q'.crontab.map Request.timer ++ q'.cronD.flatten.map Request.timer ++ ks.map .named) := by
    rw [counter_append_named, counter_append_named, counter_perm hdone]
  rw [q.units_list, q'.units_list]
  simp only [written_append]
  refine .append (.append (.append (.append ?_ ?_) ?_) ?_) ?_
  · rw [hq.crontab]
    exact .refl _
  · refine written_blocks hcronD ?_ fun id => by rw [hq.crontab]
    rw [hq.cronD]
    exact List.pairwise_map.2 hapart.cronD
  · rw [hq.runParts, hq.runParts']
    exact written_runParts top _ h.runParts hapart.runParts
  · rw [hq.anacrontab]
    rw [unitsAfter_congr fun id => hcounter id _ _]
    exact .refl _
  · refine written_blocks hspool ?_ fun id => ?_
    · rw [hq.spool]
      exact List.pairwise_map.2 hapart.spool
    · rw [hq.anacrontab]
      exact counter_append_congr (hcounter id _ _) _

end SystemdCron
