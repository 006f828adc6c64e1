import SystemdCron.UnitNames

/-!
# Requests of a run

A run of the generator, taken apart: the jobs that each file asks for (`requests`), which do not depend on
one another, and the counters that give them their names (`execute`). `realmain_eq` puts them together.
-/

namespace SystemdCron

open Bytes

/-- A unit that is asked for: by a job that `generate_timer_unit` gets, or by an executable of a directory,
whose unit is named after it. -/
inductive Request where
  | timer (job : Job)
  | named (job : Job)

/-- What a request does to the counters and the units. -/
def serve (host : Host) (md5 : Md5) (s : GenState) : Request → GenState
  | .timer job => generateTimerUnit host md5 s job
  | .named job => { s with units := s.units ++ [job] }

/-- The state after some requests. -/
def execute (host : Host) (md5 : Md5) (distroStartHour : Std.TreeMap Bytes Nat) (rng : Rng)
    (l : List Request) : GenState :=
  { l.foldl (serve host md5) (.start fun _ => 0) with distroStartHour, rng }

/-- What the files of a run ask for, one list for each file of a directory. -/
structure Requests where
  crontab : List Job
  cronD : List (List Job)
  runParts : List (List Job)
  anacrontab : List Job
  spool : List (List Job)
  distroStartHour : Std.TreeMap Bytes Nat
  rng : Rng

/-- The requests in the order they are served in. -/
def Requests.list (q : Requests) : List Request :=
  q.crontab.map .timer ++ q.cronD.flatten.map .timer ++ q.runParts.flatten.map .named ++
    q.anacrontab.map .timer ++ q.spool.flatten.map .timer

/-! ### What the files ask for -/

/-- How a file of `/etc/cron.d` is parsed. -/
def cronDKind (top : Toplevel) (name : Bytes) : CrontabKind where
  filename := lit "/etc/cron.d/" ++ name
  withuser := .fromCmd0
  anacrontab := false
  dfltSuccess := top.cronMailSuccess
  dfltFormat := top.cronMailFormat

/-- How a file of the spool is parsed. -/
def spoolKind (cfg : Config) (top : Toplevel) (name : Bytes) : CrontabKind where
  filename := cfg.STATEDIR ++ [SLASH] ++ name
  withuser := .fromBasename
  anacrontab := false
  dfltSuccess := top.cronMailSuccess
  dfltFormat := top.cronMailFormat

/-- How `/etc/anacrontab` is parsed. -/
def anacrontabKind (top : Toplevel) : CrontabKind where
  filename := lit "/etc/anacrontab"
  withuser := .fromBasename
  anacrontab := true
  dfltSuccess := top.cronMailSuccess
  dfltFormat := top.cronMailFormat

/-- A job of `/etc/crontab`: a request, or an hour at which the files of a directory start. -/
def crontabRequest (s : List Job × Std.TreeMap Bytes Nat) (job : Job) :
    Except Fault (List Job × Std.TreeMap Bytes Nat) :=
  if !job.valid then .ok s
  else if Bytes.contains job.line (lit "/etc/cron.hourly") then .ok s
  else
    match [lit "daily", lit "weekly", lit "monthly"].find?
      (fun dir => Bytes.contains job.line (lit "/etc/cron." ++ dir)) with
    | some dir =>
      match job.timespecHour.toList with
      | [] => .error .outOfBounds
      | hour :: _ => .ok (if hour = TIMESPEC_ASTERISK then s else (s.1, s.2.insert dir hour))
    | none => .ok (s.1 ++ [job], s.2)

def cronDRequests (cfg : Config) (host : Host) (top : Toplevel) (file : Bytes × Bytes) (rng : Rng) :
    Except Fault (List Job × Rng) :=
  if isMasked host file.1 cfg.CROND2TIMER || isBackup cfg file.1 then .ok ([], rng)
  else
    (parseCrontab host (cronDKind top file.1) top.inheritVariables (some file.2) rng).map fun r =>
      ((r.jobs.filter (·.valid)).map (withFallbackMailto top), r.rng)

def spoolRequests (cfg : Config) (host : Host) (top : Toplevel) (file : Bytes × Bytes) (rng : Rng) :
    Except Fault (List Job × Rng) :=
  if 46 ∈ file.1 then .ok ([], rng)
  else
    (parseCrontab host (spoolKind cfg top file.1) top.inheritVariables (some file.2) rng).map fun r =>
      (r.jobs, r.rng)

/-- The executables of `/etc/cron.{period}` that are run. -/
def isRunPart (cfg : Config) (host : Host) (period name : Bytes) : Bool :=
  !(isMasked host name cfg.PART2TIMER || isBackup cfg name ||
    !host.isExecutable (cstr (lit "/etc/cron." ++ period ++ [SLASH] ++ name)))

def runPartsRequests (cfg : Config) (host : Host) (top : Toplevel)
    (distroStartHour : Std.TreeMap Bytes Nat) (runParts : Bytes → List Bytes) : List (List Job) :=
  if cfg.USE_RUNPARTS then []
  else
    runPartsPeriods.map fun p =>
      ((runParts p.1).filter (isRunPart cfg host p.1)).map fun name =>
        runPartsJob host top { GenState.start (fun _ => 0) with distroStartHour } p.1 name p.2

/-- What the files of a directory ask for. -/
def filesRequests {α : Type} (f : α → Rng → Except Fault (List Job × Rng)) :
    List α → Rng → Except Fault (List (List Job) × Rng)
  | [], rng => .ok ([], rng)
  | file :: files, rng => do
    let (jobs, rng) ← f file rng
    let (others, rng) ← filesRequests f files rng
    return (jobs :: others, rng)

/-- What a run is asked for. -/
def requests (cfg : Config) (host : Host) (sources : Sources) (rng : Rng) : Except Fault Requests := do
  let r ← parseCrontab host systemKind {} sources.crontab rng
  let (crontab, distroStartHour) ← r.jobs.foldlM crontabRequest ([], {})
  let top := toplevelOf host r.preview
  let (cronD, rng) ← filesRequests (cronDRequests cfg host top) sources.cronD r.rng
  let runParts := runPartsRequests cfg host top distroStartHour sources.runParts
  let r ← parseCrontab host (anacrontabKind top) {} sources.anacrontab rng
  let anacrontab := r.jobs.filter (·.valid)
  let (spool, rng) ← filesRequests (spoolRequests cfg host top) (sources.spool.getD []) r.rng
  return { crontab, cronD, runParts, anacrontab, spool, distroStartHour, rng }

/-- How requests are read: the results `r` for `/etc/crontab` and `r'` for `/etc/anacrontab`, and the draws
`rng'` left after `/etc/cron.d`. -/
structure Reads (cfg : Config) (host : Host) (sources : Sources) (rng : Rng) (q : Requests)
    (r r' : Crontab) (rng' : Rng) : Prop where
  parseTop : parseCrontab host systemKind {} sources.crontab rng = .ok r
  crontab : r.jobs.foldlM crontabRequest ([], {}) = .ok (q.crontab, q.distroStartHour)
  cronD : filesRequests (cronDRequests cfg host (toplevelOf host r.preview)) sources.cronD r.rng =
    .ok (q.cronD, rng')
  runParts : q.runParts =
    runPartsRequests cfg host (toplevelOf host r.preview) q.distroStartHour sources.runParts
  parseAnacrontab : parseCrontab host (anacrontabKind (toplevelOf host r.preview)) {} sources.anacrontab rng' =
    .ok r'
  anacrontab : q.anacrontab = r'.jobs.filter (·.valid)
  spool : filesRequests (spoolRequests cfg host (toplevelOf host r.preview)) (sources.spool.getD []) r'.rng =
    .ok (q.spool, q.rng)

theorem requests_ok_iff {cfg : Config} {host : Host} {sources : Sources} {rng : Rng} {q : Requests} :
    requests cfg host sources rng = .ok q ↔ ∃ r r' rng', Reads cfg host sources rng q r r' rng' := by
  constructor
  · intro h
    unfold requests at h
    dsimp only [bind, Except.bind] at h
    rcases h1 : parseCrontab host systemKind {} sources.crontab rng with f | r
    · rw [h1] at h; cases h
    rw [h1] at h
    dsimp only at h
    rcases h2 : r.jobs.foldlM crontabRequest ([], {}) with f | ⟨crontab, hours⟩
    · rw [h2] at h; cases h
    rw [h2] at h
    dsimp only at h
    rcases h3 : filesRequests (cronDRequests cfg host (toplevelOf host r.preview)) sources.cronD r.rng with
      f | ⟨cronD, rng'⟩
    · rw [h3] at h; cases h
    rw [h3] at h
    dsimp only at h
    rcases h4 : parseCrontab host (anacrontabKind (toplevelOf host r.preview)) {} sources.anacrontab rng' with
      f | r'
    · rw [h4] at h; cases h
    rw [h4] at h
    dsimp only at h
    rcases h5 : filesRequests (spoolRequests cfg host (toplevelOf host r.preview)) (sources.spool.getD [])
      r'.rng with f | ⟨spool, rng''⟩
    · rw [h5] at h; cases h
    rw [h5] at h
    cases h
    exact ⟨r, r', rng', h1, h2, h3, rfl, h4, rfl, h5⟩
  · rintro ⟨r, r', rng', h⟩
    unfold requests
    dsimp only [bind, Except.bind]
    rw [h.parseTop]
    dsimp only
    rw [h.crontab]
    dsimp only
    rw [h.cronD]
    dsimp only
    rw [h.parseAnacrontab]
    dsimp only
    rw [h.spool]
    refine congrArg Except.ok ?_
    rw [← h.runParts, ← h.anacrontab]

/-! ### Serving them -/

section
variable {cfg : Config} {host : Host} {md5 : Md5} {hours : Std.TreeMap Bytes Nat} {rng : Rng}
  {l : List Request}

theorem execute_append (rs : List Request) :
    execute host md5 hours rng (l ++ rs) =
      { rs.foldl (serve host md5) (l.foldl (serve host md5) (.start fun _ => 0)) with
        distroStartHour := hours, rng } := by
  rw [execute, List.foldl_append]

theorem generateTimerUnit_other (s : GenState) (hours : Std.TreeMap Bytes Nat) (rng : Rng) (j : Job) :
    generateTimerUnit host md5 { s with distroStartHour := hours, rng } j =
      { generateTimerUnit host md5 s j with distroStartHour := hours, rng } := by
  unfold generateTimerUnit
  dsimp only
  split <;> rfl

theorem serve_other (s : GenState) (hours : Std.TreeMap Bytes Nat) (rng : Rng) (r : Request) :
    serve host md5 { s with distroStartHour := hours, rng } r =
      { serve host md5 s r with distroStartHour := hours, rng } := by
  cases r with
  | timer j => exact generateTimerUnit_other s hours rng j
  | named j => rfl

theorem execute_snoc (r : Request) :
    serve host md5 (execute host md5 hours rng l) r = execute host md5 hours rng (l ++ [r]) := by
  rw [execute_append, execute, serve_other]
  rfl

/-- A loop over requests. -/
theorem foldl_execute (rs : List Request) :
    rs.foldl (serve host md5) (execute host md5 hours rng l) = execute host md5 hours rng (l ++ rs) := by
  induction rs generalizing l with
  | nil => rw [List.append_nil]; rfl
  | cons r rs ih => rw [List.foldl_cons, execute_snoc, ih, List.append_assoc, List.singleton_append]

/-- A loop over the jobs of a file, of which some are requests. -/
theorem foldl_filter_execute {f : GenState → Job → GenState} {p : Job → Bool} {g : Job → Request}
    (hf : ∀ s j, f s j = if p j then serve host md5 s (g j) else s) (js : List Job) :
    js.foldl f (execute host md5 hours rng l) =
      execute host md5 hours rng (l ++ (js.filter p).map g) := by
  rw [← foldl_execute]
  generalize execute host md5 hours rng l = s
  induction js generalizing s with
  | nil => rfl
  | cons j js ih =>
    rw [List.foldl_cons, hf, ih, List.filter_cons]
    split <;> rfl

/-- A loop commutes with a map of its states if its rounds do. -/
theorem foldlM_map_state {α β γ : Type} {f : β → γ} {g : β → α → Except Fault β}
    {g' : γ → α → Except Fault γ} (h : ∀ s a, g' (f s) a = (g s a).map f) (as : List α) (s : β) :
    as.foldlM g' (f s) = (as.foldlM g s).map f := by
  induction as generalizing s with
  | nil => rfl
  | cons a as ih =>
    rw [List.foldlM_cons, List.foldlM_cons, h]
    rcases g s a with e | s'
    · rfl
    · exact ih s'

theorem crontabJob_execute (js : List Job) (job : Job) :
    crontabJob host md5 (execute host md5 hours rng (js.map .timer)) job =
      (crontabRequest (js, hours) job).map fun s => execute host md5 s.2 rng (s.1.map .timer) := by
  unfold crontabJob crontabRequest
  split
  · rfl
  split
  · rfl
  rcases [lit "daily", lit "weekly", lit "monthly"].find?
    (fun dir => Bytes.contains job.line (lit "/etc/cron." ++ dir)) with - | dir
  · dsimp only [Except.map]
    rw [List.map_append]
    exact congrArg Except.ok (execute_snoc (.timer job))
  · rcases job.timespecHour.toList with - | ⟨hour, _⟩
    · rfl
    · dsimp only [Except.map]
      split <;> rfl

theorem cronDStep_execute (top : Toplevel) (file : Bytes × Bytes) :
    cronDStep cfg host md5 top (execute host md5 hours rng l) file =
      (cronDRequests cfg host top file rng).map fun s =>
        execute host md5 hours s.2 (l ++ s.1.map .timer) := by
  unfold cronDStep cronDRequests
  split
  · rw [Except.map, List.map_nil, List.append_nil]
    rfl
  · change (parseCrontab host (cronDKind top file.1) top.inheritVariables (some file.2) rng).bind _ = _
    rcases parseCrontab host (cronDKind top file.1) top.inheritVariables (some file.2) rng with f | r
    · rfl
    · dsimp only [Except.map]
      rw [List.map_map]
      refine congrArg Except.ok (foldl_filter_execute (fun s j => ?_) r.jobs)
      unfold cronDJob
      cases j.valid <;> rfl

theorem spoolStep_execute (top : Toplevel) (file : Bytes × Bytes) :
    spoolStep cfg host md5 top (execute host md5 hours rng l) file =
      (spoolRequests cfg host top file rng).map fun s =>
        execute host md5 hours s.2 (l ++ s.1.map .timer) := by
  unfold spoolStep spoolRequests
  split
  · rw [Except.map, List.map_nil, List.append_nil]
    rfl
  · change (parseCrontab host (spoolKind cfg top file.1) top.inheritVariables (some file.2) rng).bind _ = _
    rcases parseCrontab host (spoolKind cfg top file.1) top.inheritVariables (some file.2) rng with f | r
    · rfl
    · have hall := @foldl_filter_execute host md5 hours r.rng l (generateTimerUnit host md5) (fun _ => true)
        .timer (fun _ _ => rfl) r.jobs
      rw [List.filter_true] at hall
      exact congrArg Except.ok hall

/-- A loop over the files of a directory. -/
theorem foldlM_execute {α : Type} {f : GenState → α → Except Fault GenState}
    {g : α → Rng → Except Fault (List Job × Rng)}
    (hf : ∀ rng l file, f (execute host md5 hours rng l) file =
      (g file rng).map fun s => execute host md5 hours s.2 (l ++ s.1.map .timer)) (files : List α) :
    files.foldlM f (execute host md5 hours rng l) =
      (filesRequests g files rng).map fun s => execute host md5 hours s.2 (l ++ s.1.flatten.map .timer) := by
  induction files generalizing rng l with
  | nil =>
    rw [filesRequests, Except.map, List.flatten_nil, List.map_nil, List.append_nil]
    rfl
  | cons file files ih =>
    rw [List.foldlM_cons, hf, filesRequests]
    rcases g file rng with e | ⟨jobs, rng'⟩
    · rfl
    · change files.foldlM f (execute host md5 hours rng' (l ++ jobs.map .timer)) = _
      rw [ih]
      change _ = ((filesRequests g files rng').bind fun s => .ok (jobs :: s.1, s.2)).map _
      rcases filesRequests g files rng' with e | ⟨others, rng''⟩
      · rfl
      · simp only [Except.map, Except.bind, List.flatten_cons, List.map_append, List.append_assoc]

theorem runParts_execute (top : Toplevel) (runParts : Bytes → List Bytes) :
    (if cfg.USE_RUNPARTS then execute host md5 hours rng l
      else
        runPartsPeriods.foldl (fun s p => (runParts p.1).foldl (runPartsStep cfg host top p.1 p.2) s)
          (execute host md5 hours rng l)) =
      execute host md5 hours rng
        (l ++ (runPartsRequests cfg host top hours runParts).flatten.map .named) := by
  unfold runPartsRequests
  split
  · rw [List.flatten_nil, List.map_nil, List.append_nil]
  -- The job of an executable depends on the start hours only, which no request changes.
  have hnames : ∀ (p : Bytes × Nat) (names : List Bytes) (l : List Request),
      names.foldl (runPartsStep cfg host top p.1 p.2) (execute host md5 hours rng l) =
        execute host md5 hours rng (l ++ ((names.filter (isRunPart cfg host p.1)).map fun name =>
          runPartsJob host top { GenState.start (fun _ => 0) with distroStartHour := hours } p.1 name
            p.2).map .named) := by
    intro p names
    induction names with
    | nil => intro l; rw [List.filter_nil, List.map_nil, List.map_nil, List.append_nil]; rfl
    | cons name names ih =>
      intro l
      rw [List.foldl_cons, List.filter_cons, runPartsStep, isRunPart]
      by_cases hskip : isMasked host name cfg.PART2TIMER || isBackup cfg name ||
          !host.isExecutable (cstr (lit "/etc/cron." ++ p.1 ++ [SLASH] ++ name))
      · rw [if_pos hskip, if_neg (by rw [hskip]; decide)]
        exact ih l
      · rw [if_neg hskip, if_pos (by rw [Bool.eq_false_iff.2 hskip]; rfl)]
        have hone := @execute_snoc host md5 hours rng l
          (.named (runPartsJob host top { GenState.start (fun _ => 0) with distroStartHour := hours } p.1
            name p.2))
        have hrest := ih (l ++ [.named (runPartsJob host top
          { GenState.start (fun _ => 0) with distroStartHour := hours } p.1 name p.2)])
        rw [← hone, List.append_assoc] at hrest
        exact hrest
  have hperiods : ∀ (ps : List (Bytes × Nat)) (l : List Request),
      ps.foldl (fun s p => (runParts p.1).foldl (runPartsStep cfg host top p.1 p.2) s)
          (execute host md5 hours rng l) =
        execute host md5 hours rng (l ++ ((ps.map fun p =>
          ((runParts p.1).filter (isRunPart cfg host p.1)).map fun name =>
            runPartsJob host top { GenState.start (fun _ => 0) with distroStartHour := hours } p.1 name
              p.2).flatten.map .named)) := by
    intro ps
    induction ps with
    | nil => intro l; rw [List.map_nil, List.flatten_nil, List.map_nil, List.append_nil]; rfl
    | cons p ps ih =>
      intro l
      rw [List.foldl_cons, hnames, ih, List.map_cons, List.flatten_cons, List.map_append,
        List.append_assoc]
  exact hperiods runPartsPeriods l

/-- **A run serves what its files ask for**, one request after the other. -/
theorem realmain_eq (cfg : Config) (host : Host) (md5 : Md5) (sources : Sources) (rng : Rng) :
    realmain cfg host md5 sources rng =
      (requests cfg host sources rng).map fun q => execute host md5 q.distroStartHour q.rng q.list := by
  unfold realmain requests
  dsimp only [bind, Except.bind]
  rcases parseCrontab host systemKind {} sources.crontab rng with f | r
  · rfl
  have hcrontab : r.jobs.foldlM (crontabJob host md5)
        { seqs := {}, units := [], distroStartHour := {}, rng := r.rng } =
      (r.jobs.foldlM crontabRequest ([], {})).map fun s => execute host md5 s.2 r.rng (s.1.map .timer) :=
    foldlM_map_state (f := fun s : List Job × Std.TreeMap Bytes Nat =>
      execute host md5 s.2 r.rng (s.1.map .timer)) (fun s job => crontabJob_execute s.1 job) r.jobs ([], {})
  dsimp only
  rw [hcrontab]
  rcases r.jobs.foldlM crontabRequest ([], {}) with f | ⟨crontab, hours⟩
  · rfl
  dsimp only [Except.map]
  rw [foldlM_execute (g := cronDRequests cfg host (toplevelOf host r.preview))
    fun rng l file => cronDStep_execute _ file]
  rcases filesRequests (cronDRequests cfg host (toplevelOf host r.preview)) sources.cronD r.rng with
    f | ⟨cronD, rng'⟩
  · rfl
  dsimp only [Except.map]
  rw [runParts_execute]
  generalize runPartsRequests cfg host (toplevelOf host r.preview) hours sources.runParts = runParts
  set l := crontab.map Request.timer ++ cronD.flatten.map .timer ++ runParts.flatten.map .named
  rw [show (execute host md5 hours rng' l).rng = rng' from rfl, ← anacrontabKind]
  rcases parseCrontab host (anacrontabKind (toplevelOf host r.preview)) {} sources.anacrontab rng' with
    f | r'
  · rfl
  dsimp only
  have hanacrontab := @foldl_filter_execute host md5 hours r'.rng l (anacrontabJob host md5) (·.valid)
    .timer (fun s j => by unfold anacrontabJob; cases j.valid <;> rfl) r'.jobs
  change List.foldlM (spoolStep cfg host md5 (toplevelOf host r.preview))
    (List.foldl (anacrontabJob host md5) (execute host md5 hours r'.rng _) r'.jobs) _ = _
  rw [hanacrontab, foldlM_execute (g := spoolRequests cfg host (toplevelOf host r.preview))
    fun rng l file => spoolStep_execute _ file]
  rcases filesRequests (spoolRequests cfg host (toplevelOf host r.preview)) (sources.spool.getD []) r'.rng with
    f | ⟨spool, rng''⟩
  · rfl
  · rfl

end

end SystemdCron
