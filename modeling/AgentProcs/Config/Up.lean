import AgentProcs.Config.StartupOrder
import AgentProcs.Machinery.Stages
import AgentProcs.Protocol.Client

/-!
# Config/Up — starting a project

    EnableProxy ▸ Run db, Run cache ▸ Wait db ▸ Run api ▸ Wait api ▸ ⋯ ▸ exit 0
                                         └── Error ──▸ exit 1

`up` enables the proxy if it is to, and goes through the groups of the startup order: all of a group
are started side by side, then all of it are waited for that say how they get ready.  What was not
asked for is left out, also where something depends on it.
-/

namespace AgentProcs

/-- A process of the config, all of it. -/
structure ProcessSettings extends ProcessDef where
  cmd : String
  cwd : Option String
  env : List (String × String)
  ready : Option String
  port : Option ℕ
  autorestart : Option String
  maxRestarts : Option ℕ
  restartDelay : Option ℕ
  watch : Option (List String)
  watchIgnore : Option (List String)
  deriving DecidableEq, Repr

/-- The config file, and the directory it is in. -/
structure ConfigFile where
  directory : String
  processes : List (String × ProcessSettings)
  nodup : (processes.map (·.1)).Nodup
  proxy : Option Bool
  proxyPort : Option ℕ

/-- What `up` is called with. -/
structure UpArgs where
  only : Option String
  proxy : Bool
  deriving DecidableEq, Repr

/-- Parse a mode string; unknown values are `never`. -/
def RestartMode.parse (s : String) : RestartMode :=
  match s with
  | "always" => .always
  | "on-failure" => .onFailure
  | _ => .never

def RestartPolicy.fromArgs (mode : String) (maxRestarts restartDelay : Option ℕ) :
    RestartPolicy where
  mode := .parse mode
  maxRestarts := maxRestarts
  restartDelayMs := restartDelay.getD 1000

/-- There is nothing to watch without a path. -/
def WatchConfig.fromArgs (paths ignore : List String) : Option WatchConfig :=
  if paths = [] then none else some ⟨paths, if ignore = [] then none else some ignore⟩

/-- `Path::join`, on paths as they are written. -/
def joinPath (base path : String) : String :=
  if base = "" ∨ base.toList.getLast? = some '/' then base ++ path else base ++ "/" ++ path

/-- A relative directory is one of the config file's. -/
def resolveCwd (directory cwd : String) : String :=
  if cwd.toList.head? = some '/' then cwd else joinPath directory cwd

namespace ProcessSettings

variable (settings : ProcessSettings)

/-- The request that starts the process. -/
def runRequest (directory name : String) : Request :=
  .run settings.cmd (some name) (settings.cwd.map (resolveCwd directory))
    (if settings.env = [] then none else some settings.env) settings.port
    (settings.autorestart.map fun mode =>
      .fromArgs mode settings.maxRestarts settings.restartDelay)
    (settings.watch.bind fun paths => WatchConfig.fromArgs paths (settings.watchIgnore.getD []))

/-- The request that waits until it is ready. -/
def readyRequest (name : String) : Option Request :=
  settings.ready.map fun ready => .wait name (some ready) false false (some 30)

end ProcessSettings

/-- The processes the command is about: the `--only` list, or all. -/
def UpArgs.selects (args : UpArgs) (name : String) : Bool :=
  args.only.all fun only => name ∈ only.splitOn ","

namespace ConfigFile

variable (config : ConfigFile) (args : UpArgs)

/-- As far as the startup order goes. -/
def project : ProjectConfig where
  processes := config.processes.map fun p => (p.1, p.2.toProcessDef)
  nodup := by simpa [Function.comp_def] using config.nodup

def settings (name : String) : Option ProcessSettings := config.processes.lookup name

def enablesProxy : Bool := args.proxy || config.proxy.getD false

/-- The process says how it gets ready. -/
def saysReady (name : String) : Bool := ((config.settings name).bind (·.ready)).isSome

end ConfigFile

/-- A request of `up`. -/
inductive UpTask where
  | enableProxy
  | start (name : String)
  | ready (name : String)
  deriving DecidableEq, Repr

namespace UpTask

/-- What is sent. -/
def request (config : ConfigFile) : UpTask → Option Request
  | enableProxy => some (.enableProxy config.proxyPort)
  | start name => (config.settings name).map (·.runRequest config.directory name)
  | ready name => (config.settings name).bind (·.readyRequest name)

/-- The exit code that an answer ends `up` with. -/
def verdict : UpTask → ClientResult → Option ℤ
  | enableProxy, .ok (.error code _) => some code.exitCode
  | enableProxy, .error _ => some 1
  | enableProxy, .ok _ => none
  | start _, .ok (.runOk ..) => none
  | start _, .ok (.error code _) => some code.exitCode
  | start _, _ => some 1
  | ready _, .ok (.error ..) => some 1
  | ready _, _ => none

end UpTask

namespace ConfigFile

variable (config : ConfigFile) (args : UpArgs)

/-- The processes of a group that are started. -/
def groupNames (group : List String) : List String := group.filter args.selects

def starts (group : List String) : List UpTask := (groupNames args group).map .start

def readies (group : List String) : List UpTask :=
  ((groupNames args group).filter config.saysReady).map .ready

/-- What comes before the groups. -/
def preludes : List (List UpTask) := if config.enablesProxy args then [[.enableProxy]] else []

/-- The stages of `up`. -/
def upStages (groups : List (List String)) : List (List UpTask) :=
  config.preludes args ++ groups.flatMap fun group => [starts args group, config.readies args group]

def upPlan (groups : List (List String)) : Plan UpTask ClientResult ℤ where
  stages := config.upStages args groups
  verdict := UpTask.verdict

/-- `up` on a project with this startup order. -/
def up (groups : List (List String)) :
    Machine (Work UpTask ClientResult ℤ) (WorkEvent UpTask ClientResult) :=
  work (config.upPlan args groups)

end ConfigFile

/-- What comes before the first request: the config is loaded, and put in order.  `load_config`
reads a file and parses it, and may fail. -/
def upPrepare (loaded : Except String ConfigFile) (orders : ℕ → IterationOrder) :
    Except ℤ (ConfigFile × List (List String)) :=
  match loaded with
  | .error _ => .error 1
  | .ok config =>
    match config.project.startupOrder orders with
    | .ok groups => .ok (config, groups)
    | .error (.config _) => .error 1
    -- a panic
    | .error .underflow => .error 101

/-- `up`, from what loading its config comes to: without a config in order it ends where it
begins. -/
def upExecute (loaded : Except String ConfigFile) (args : UpArgs) (orders : ℕ → IterationOrder) :
    Machine (Work UpTask ClientResult ℤ) (WorkEvent UpTask ClientResult) :=
  match upPrepare loaded orders with
  | .ok (config, groups) => config.up args groups
  | .error code => overAtOnce code

/-- What `up` returns, once it does. -/
def Outcome.exitCode : Outcome ℤ → Option ℤ
  | working => none
  | finished => some 0
  | failed code => some code

/-! ## The groups -/

section Groups

variable {config : ConfigFile} {args : UpArgs} {orders : ℕ → IterationOrder}
  {groups : List (List String)} {n d : String} {t u : UpTask}

theorem groups_layers (horder : config.project.startupOrder orders = .ok groups) :
    LayersFrom config.project.dependsOn {x | x ∈ config.project.names} 0 groups :=
  ((config.project.startupOrder_ok_iff orders groups).mp horder).2

/-- Every process has its group. -/
theorem exists_group (horder : config.project.startupOrder orders = .ok groups)
    (hn : n ∈ config.project.names) : ∃ (i : ℕ) (group : List String),
      groups[i]? = some group ∧ n ∈ group := by
  have hmem := (groups_layers horder).mem_flatten.mpr ⟨hn, not_shallow_zero⟩
  obtain ⟨group, hgroup, hn⟩ := List.mem_flatten.mp hmem
  obtain ⟨i, hi⟩ := List.mem_iff_getElem?.mp hgroup
  exact ⟨i, group, hi, hn⟩

/-- **A dependency is in an earlier group.** -/
theorem group_lt (horder : config.project.startupOrder orders = .ok groups)
    (hdep : Relation.TransGen (fun x y => y ∈ config.project.dependsOn x) n d) {i j : ℕ}
    {group group' : List String} (hi : groups[i]? = some group) (hn : n ∈ group)
    (hj : groups[j]? = some group') (hd : d ∈ group') : j < i := by
  have hlayers := groups_layers horder
  have hshallow := isGreatest_chainBelow_iff.mp (((hlayers.getElem? hi).2.2 n).mp hn).2
  have hdeep := isGreatest_chainBelow_iff.mp (((hlayers.getElem? hj).2.2 d).mp hd).2
  rw [Nat.zero_add] at hshallow hdeep
  by_contra hle
  exact hdeep.2 ((hshallow.1.descend hdep).mono (Nat.le_of_not_lt hle))

theorem mem_names_of_dependency
    (horder : config.project.startupOrder orders = .ok groups)
    (hdep : Relation.TransGen (fun x y => y ∈ config.project.dependsOn x) n d) :
    d ∈ config.project.names := by
  obtain ⟨x, -, hx⟩ := Relation.TransGen.tail'_iff.mp hdep
  by_contra hunknown
  exact ((config.project.startupOrder_ok_iff orders groups).mp horder).1 ⟨x, d, hx, hunknown⟩

/-! ## The stages -/

theorem getElem?_flatMap_pair {α β : Type*} (f g : α → β) (l : List α) (i : ℕ) :
    (l.flatMap fun x => [f x, g x])[2 * i]? = l[i]?.map f ∧
      (l.flatMap fun x => [f x, g x])[2 * i + 1]? = l[i]?.map g := by
  induction l generalizing i with
  | nil => simp
  | cons x l ih =>
    cases i with
    | zero => simp
    | succ i => simpa [Nat.mul_succ] using ih i

/-- The stage in which a group is started. -/
def startStage (config : ConfigFile) (args : UpArgs) (i : ℕ) : ℕ :=
  (config.preludes args).length + 2 * i

theorem startStage_eq {i : ℕ} {group : List String} (hi : groups[i]? = some group) :
    (config.upStages args groups)[startStage config args i]? =
      some (ConfigFile.starts args group) := by
  rw [ConfigFile.upStages, startStage, List.getElem?_append_right (Nat.le_add_right _ _),
    Nat.add_sub_cancel_left]
  rw [(getElem?_flatMap_pair (ConfigFile.starts args) (config.readies args) groups i).1, hi]
  rfl

theorem readyStage_eq {i : ℕ} {group : List String} (hi : groups[i]? = some group) :
    (config.upStages args groups)[startStage config args i + 1]? =
      some (config.readies args group) := by
  rw [ConfigFile.upStages, startStage, List.getElem?_append_right (by omega), Nat.add_assoc,
    Nat.add_sub_cancel_left]
  rw [(getElem?_flatMap_pair (ConfigFile.starts args) (config.readies args) groups i).2, hi]
  rfl

theorem mem_starts {group : List String} :
    t ∈ ConfigFile.starts args group ↔ ∃ n ∈ group, args.selects n = true ∧ t = .start n := by
  rw [ConfigFile.starts, List.mem_map]
  constructor
  · rintro ⟨n, hn, rfl⟩
    obtain ⟨hgroup, hselects⟩ := List.mem_filter.mp hn
    exact ⟨n, hgroup, hselects, rfl⟩
  · rintro ⟨n, hgroup, hselects, rfl⟩
    exact ⟨n, List.mem_filter.mpr ⟨hgroup, hselects⟩, rfl⟩

theorem mem_readies {group : List String} : t ∈ config.readies args group ↔
    ∃ n ∈ group, args.selects n = true ∧ config.saysReady n = true ∧ t = .ready n := by
  rw [ConfigFile.readies, List.mem_map]
  constructor
  · rintro ⟨n, hn, rfl⟩
    obtain ⟨hn, hready⟩ := List.mem_filter.mp hn
    obtain ⟨hgroup, hselects⟩ := List.mem_filter.mp hn
    exact ⟨n, hgroup, hselects, hready, rfl⟩
  · rintro ⟨n, hgroup, hselects, hready, rfl⟩
    exact ⟨n, List.mem_filter.mpr ⟨List.mem_filter.mpr ⟨hgroup, hselects⟩, hready⟩, rfl⟩

/-- A stage is the first, or starts a group, or waits for one. -/
theorem stage_cases {i : ℕ} {tasks : List UpTask}
    (hi : (config.upStages args groups)[i]? = some tasks) (ht : t ∈ tasks) :
    t = .enableProxy ∧ i = 0 ∧ config.enablesProxy args = true ∨
    (∃ n, t = .start n ∧ args.selects n = true ∧ ∃ (j : ℕ) (group : List String),
      groups[j]? = some group ∧ n ∈ group ∧ i = startStage config args j) ∨
    ∃ n, t = .ready n ∧ args.selects n = true ∧ config.saysReady n = true ∧
      ∃ (j : ℕ) (group : List String),
        groups[j]? = some group ∧ n ∈ group ∧ i = startStage config args j + 1 := by
  rw [ConfigFile.upStages] at hi
  rcases Nat.lt_or_ge i (config.preludes args).length with hlt | hge
  · rw [List.getElem?_append_left hlt, ConfigFile.preludes] at hi
    rw [ConfigFile.preludes] at hlt
    split_ifs at hi hlt with henables
    · obtain rfl : i = 0 := Nat.lt_one_iff.mp hlt
      obtain rfl := Option.some.inj hi
      exact .inl ⟨List.mem_singleton.mp ht, rfl, henables⟩
    · exact absurd hlt (Nat.not_lt_zero i)
  · rw [List.getElem?_append_right hge] at hi
    obtain ⟨hstart, hready⟩ := getElem?_flatMap_pair (ConfigFile.starts args) (config.readies args)
      groups ((i - (config.preludes args).length) / 2)
    rcases Nat.mod_two_eq_zero_or_one (i - (config.preludes args).length) with heven | hodd
    · have hindex : i - (config.preludes args).length =
          2 * ((i - (config.preludes args).length) / 2) := by omega
      rw [hindex, hstart] at hi
      obtain ⟨group, hgroup, rfl⟩ := Option.map_eq_some_iff.mp hi
      obtain ⟨n, hn, hselects, rfl⟩ := mem_starts.mp ht
      exact .inr (.inl ⟨n, rfl, hselects, _, group, hgroup, hn, by rw [startStage]; omega⟩)
    · have hindex : i - (config.preludes args).length =
          2 * ((i - (config.preludes args).length) / 2) + 1 := by omega
      rw [hindex, hready] at hi
      obtain ⟨group, hgroup, rfl⟩ := Option.map_eq_some_iff.mp hi
      obtain ⟨n, hn, hselects, hready, rfl⟩ := mem_readies.mp ht
      exact .inr (.inr ⟨n, rfl, hselects, hready, _, group, hgroup, hn, by rw [startStage]; omega⟩)

/-- No task is in two stages. -/
theorem upStage_unique (hnodup : groups.flatten.Nodup) {i j : ℕ} {xs ys : List UpTask}
    (hi : (config.upStages args groups)[i]? = some xs) (hxs : t ∈ xs)
    (hj : (config.upStages args groups)[j]? = some ys) (hys : t ∈ ys) : i = j := by
  rcases stage_cases hi hxs with ⟨rfl, hi₀, -⟩ | ⟨n, rfl, -, k, group, hk, hn, hik⟩ |
    ⟨n, rfl, -, -, k, group, hk, hn, hik⟩
  all_goals
    rcases stage_cases hj hys with ⟨ht, hj₀, -⟩ | ⟨m, ht, -, l, group', hl, hm, hjl⟩ |
      ⟨m, ht, -, -, l, group', hl, hm, hjl⟩
  · exact hi₀.trans hj₀.symm
  all_goals cases ht
  · rw [hik, hjl, index_unique hnodup hk hn hl hm]
  · rw [hik, hjl, index_unique hnodup hk hn hl hm]

theorem nodup_stage (hnodup : groups.flatten.Nodup) {tasks : List UpTask}
    (htasks : tasks ∈ config.upStages args groups) : tasks.Nodup := by
  have hgroup {group : List String} (h : group ∈ groups) :
      (ConfigFile.groupNames args group).Nodup :=
    ((List.nodup_flatten.mp hnodup).1 group h).filter _
  rcases List.mem_append.mp htasks with hprelude | hpair
  · rw [ConfigFile.preludes] at hprelude
    split_ifs at hprelude with henables
    · rw [List.mem_singleton.mp hprelude]
      exact List.nodup_singleton _
    · exact absurd hprelude List.not_mem_nil
  · obtain ⟨group, hmem, htasks⟩ := List.mem_flatMap.mp hpair
    rcases List.mem_pair.mp htasks with rfl | rfl
    · exact (hgroup hmem).map fun _ _ h => UpTask.start.inj h
    · exact ((hgroup hmem).filter _).map fun _ _ h => UpTask.ready.inj h

/-- **Each task is in one stage, once.** -/
theorem nodup_upStages (hnodup : groups.flatten.Nodup) :
    (config.upPlan args groups).stages.flatten.Nodup := by
  refine List.nodup_flatten.mpr ⟨fun _ => nodup_stage hnodup, ?_⟩
  refine List.pairwise_iff_getElem.mpr fun i j hi hj hlt t hti htj => ?_
  have hsame := upStage_unique hnodup (List.getElem?_eq_getElem hi) hti
    (List.getElem?_eq_getElem hj) htj
  omega

end Groups

/-! ## What has been answered -/

/-- A run of `up`, step by step. -/
abbrev UpRun := List (Transition (Work UpTask ClientResult ℤ) (WorkEvent UpTask ClientResult))

namespace UpRun

def Answers (ts : UpRun) (t : UpTask) (r : ClientResult) : Prop := ∃ σ ∈ ts, σ.ev = .answer t r

/-- The proxy was enabled, if it was to be. -/
def ProxyEnabled (ts : UpRun) : Prop := ∃ resp, ts.Answers .enableProxy (.ok resp) ∧
  ∀ code message, resp ≠ .error code message

/-- The process was started. -/
def Started (ts : UpRun) (n : String) : Prop :=
  ∃ name id pid port url, ts.Answers (.start n) (.ok (.runOk name id pid port url))

/-- The process was waited for, and the daemon had nothing against it. -/
def WaitedFor (ts : UpRun) (n : String) : Prop :=
  ∃ r, ts.Answers (.ready n) r ∧ ∀ code message, r ≠ .ok (.error code message)

end UpRun

theorem verdict_enableProxy_iff {r : ClientResult} : UpTask.verdict .enableProxy r = none ↔
    ∃ resp, r = .ok resp ∧ ∀ code message, resp ≠ .error code message := by
  rcases r with _ | resp
  · simp [UpTask.verdict]
  · cases resp <;> simp [UpTask.verdict]

theorem verdict_start_iff {n : String} {r : ClientResult} : UpTask.verdict (.start n) r = none ↔
    ∃ name id pid port url, r = .ok (.runOk name id pid port url) := by
  rcases r with _ | resp
  · simp [UpTask.verdict]
  · cases resp <;> simp [UpTask.verdict]

theorem verdict_ready_iff {n : String} {r : ClientResult} : UpTask.verdict (.ready n) r = none ↔
    ∀ code message, r ≠ .ok (.error code message) := by
  rcases r with _ | resp
  · simp [UpTask.verdict]
  · cases resp <;> simp [UpTask.verdict]

section Runs

variable {config : ConfigFile} {args : UpArgs} {orders : ℕ → IterationOrder}
  {groups : List (List String)} {n d : String} {t : UpTask} {ts us vs : UpRun}
  {w : Work UpTask ClientResult ℤ}

theorem proxyEnabled_of_passed (h : ∃ r, UpTask.verdict .enableProxy r = none ∧
    ts.Answers .enableProxy r) : ts.ProxyEnabled := by
  obtain ⟨r, hverdict, hanswer⟩ := h
  obtain ⟨resp, rfl, hok⟩ := verdict_enableProxy_iff.mp hverdict
  exact ⟨resp, hanswer, hok⟩

theorem started_of_passed (h : ∃ r, UpTask.verdict (.start n) r = none ∧
    ts.Answers (.start n) r) : ts.Started n := by
  obtain ⟨r, hverdict, hanswer⟩ := h
  obtain ⟨name, id, pid, port, url, rfl⟩ := verdict_start_iff.mp hverdict
  exact ⟨name, id, pid, port, url, hanswer⟩

theorem waitedFor_of_passed (h : ∃ r, UpTask.verdict (.ready n) r = none ∧
    ts.Answers (.ready n) r) : ts.WaitedFor n := by
  obtain ⟨r, hverdict, hanswer⟩ := h
  exact ⟨r, hanswer, verdict_ready_iff.mp hverdict⟩

theorem enableStage_eq (groups : List (List String)) (henables : config.enablesProxy args = true) :
    (config.upStages args groups)[0]? = some [.enableProxy] ∧
      (config.preludes args).length = 1 := by
  rw [ConfigFile.upStages, ConfigFile.preludes, if_pos henables]
  exact ⟨rfl, rfl⟩

/-- The tasks of a process, by its group. -/
theorem start_mem {group : List String} (hn : n ∈ group) (hselects : args.selects n = true) :
    UpTask.start n ∈ ConfigFile.starts args group := mem_starts.mpr ⟨n, hn, hselects, rfl⟩

theorem ready_mem {group : List String} (hn : n ∈ group) (hselects : args.selects n = true)
    (hready : config.saysReady n = true) : UpTask.ready n ∈ config.readies args group :=
  mem_readies.mpr ⟨n, hn, hselects, hready, rfl⟩

/-- The process that is asked for, by its group. -/
theorem group_of_ask {σ : Transition (Work UpTask ClientResult ℤ) (WorkEvent UpTask ClientResult)}
    (hrun : (config.up args groups).Run .start (us ++ σ :: vs) w) (hask : σ.ev = .ask (.start n)) :
    args.selects n = true ∧ ∃ (j : ℕ) (group : List String),
      groups[j]? = some group ∧ n ∈ group := by
  obtain ⟨-, hstep, -⟩ := hrun.of_append_cons
  obtain ⟨-, -, tasks, hstage, hmem⟩ := of_ask (hask ▸ hstep)
  rcases stage_cases hstage hmem with ⟨ht, -⟩ | ⟨m, ht, hselects, j, group, hj, hn, -⟩ | ⟨m, ht, -⟩
  · cases ht
  · obtain rfl := UpTask.start.inj ht
    exact ⟨hselects, j, group, hj, hn⟩
  · cases ht

/-- **Before a process is started**, those it depends on have been, and have been waited for. -/
theorem dependencies_before_ask (horder : config.project.startupOrder orders = .ok groups)
    {σ : Transition (Work UpTask ClientResult ℤ) (WorkEvent UpTask ClientResult)}
    (hrun : (config.up args groups).Run .start (us ++ σ :: vs) w) (hask : σ.ev = .ask (.start n))
    (hdep : Relation.TransGen (fun x y => y ∈ config.project.dependsOn x) n d)
    (hd : args.selects d = true) :
    UpRun.Started us d ∧ (config.saysReady d = true → UpRun.WaitedFor us d) := by
  have hnodup : (config.upPlan args groups).stages.flatten.Nodup :=
    nodup_upStages (groups_layers horder).nodup_flatten
  obtain ⟨hselects, j, group, hj, hn⟩ := group_of_ask hrun hask
  obtain ⟨k, group', hk, hmem⟩ := exists_group horder (mem_names_of_dependency horder hdep)
  have hlt := group_lt horder hdep hj hn hk hmem
  have hstart : (config.upStages args groups)[startStage config args j]? = _ := startStage_eq hj
  refine ⟨started_of_passed (answered_before_ask hnodup hrun hask hstart (start_mem hn hselects) ?_
    (startStage_eq hk) (start_mem hmem hd)), fun hready =>
    waitedFor_of_passed (answered_before_ask hnodup hrun hask hstart (start_mem hn hselects) ?_
      (readyStage_eq hk) (ready_mem hmem hd hready))⟩
  · rw [startStage, startStage]
    omega
  · rw [startStage, startStage]
    omega

theorem proxyEnabled_before_ask (horder : config.project.startupOrder orders = .ok groups)
    {σ : Transition (Work UpTask ClientResult ℤ) (WorkEvent UpTask ClientResult)}
    (hrun : (config.up args groups).Run .start (us ++ σ :: vs) w) (hask : σ.ev = .ask (.start n))
    (henables : config.enablesProxy args = true) : UpRun.ProxyEnabled us := by
  have hnodup : (config.upPlan args groups).stages.flatten.Nodup :=
    nodup_upStages (groups_layers horder).nodup_flatten
  obtain ⟨hselects, j, group, hj, hn⟩ := group_of_ask hrun hask
  obtain ⟨hfirst, hlength⟩ := enableStage_eq groups henables
  refine proxyEnabled_of_passed (answered_before_ask hnodup hrun hask (startStage_eq hj)
    (start_mem hn hselects) ?_ hfirst (List.mem_singleton_self _))
  rw [startStage, hlength]
  omega

theorem mem_names_of_group (horder : config.project.startupOrder orders = .ok groups) {j : ℕ}
    {group : List String} (hj : groups[j]? = some group) (hn : n ∈ group) :
    n ∈ config.project.names :=
  ((groups_layers horder).mem_flatten.mp
    (List.mem_flatten.mpr ⟨group, List.mem_of_getElem? hj, hn⟩)).1

/-- **Before a process is started**, the proxy is on if it is to be, and whatever it depends on, as
far as it was asked for, has been started and waited for; nothing else is started, and nothing
twice. -/
theorem up_order (horder : config.project.startupOrder orders = .ok groups)
    {σ : Transition (Work UpTask ClientResult ℤ) (WorkEvent UpTask ClientResult)}
    (hrun : (config.up args groups).Run .start (us ++ σ :: vs) w) (hask : σ.ev = .ask (.start n)) :
    n ∈ config.project.names ∧ args.selects n = true ∧ (∀ ψ ∈ us ++ vs, ψ.ev ≠ .ask (.start n)) ∧
    (config.enablesProxy args = true → UpRun.ProxyEnabled us) ∧
    ∀ d, Relation.TransGen (fun x y => y ∈ config.project.dependsOn x) n d → args.selects d = true →
      UpRun.Started us d ∧ (config.saysReady d = true → UpRun.WaitedFor us d) := by
  obtain ⟨hselects, j, group, hj, hn⟩ := group_of_ask hrun hask
  exact ⟨mem_names_of_group horder hj hn, hselects, asked_alone hrun hask,
    proxyEnabled_before_ask horder hrun hask,
    fun d hdep hd => dependencies_before_ask horder hrun hask hdep hd⟩

/-! ## A project of two -/

namespace Shop

def db : ProcessSettings where
  dependsOn := []
  cmd := "pg"
  cwd := none
  env := []
  ready := some "ready"
  port := none
  autorestart := none
  maxRestarts := none
  restartDelay := none
  watch := none
  watchIgnore := none

def shopConfig : ConfigFile where
  directory := "."
  processes := [("db", db), ("web", { db with dependsOn := ["db"], cmd := "node", ready := none })]
  nodup := by decide
  proxy := none
  proxyPort := none

def shopOrders : ℕ → IterationOrder := fun _ => ⟨id, fun _ => .refl _⟩

theorem order : shopConfig.project.startupOrder shopOrders = .ok [["db"], ["web"]] := by
  have hgraph : shopConfig.project.dependencyGraph =
      .ok ⟨[("db", 0), ("web", 1)], Function.update (fun _ => []) "db" ["web"]⟩ := rfl
  have hdb : readyNames (shopOrders 0) [("db", 0), ("web", 1)] = ["db"] := rfl
  have hweb : readyNames (shopOrders 1) [("web", 0)] = ["web"] := rfl
  have hend : startupLoop (Function.update (fun _ => []) "db" ["web"]) shopOrders 2 [] =
      .ok [] := by
    rw [startupLoop, dif_pos (by decide), if_pos rfl]
  have hlast : startupLoop (Function.update (fun _ => []) "db" ["web"]) shopOrders 1 [("web", 0)] =
      .ok [["web"]] := by
    have htake : takeLayer (Function.update (fun _ => []) "db" ["web"]) [("web", 0)]
      (readyNames (shopOrders 1) [("web", 0)]) = .ok [] := rfl
    rw [startupLoop_layer _ _ (by decide) htake, hend, hweb, List.mergeSort_singleton]
    rfl
  rw [ProjectConfig.startupOrder, hgraph]
  change startupLoop _ shopOrders 0 _ = _
  have htake : takeLayer (Function.update (fun _ => []) "db" ["web"]) [("db", 0), ("web", 1)]
    (readyNames (shopOrders 0) [("db", 0), ("web", 1)]) = .ok [("web", 0)] := rfl
  rw [startupLoop_layer _ _ (by decide) htake, hlast, hdb, List.mergeSort_singleton]
  rfl

def shopArgs : UpArgs := ⟨none, false⟩

/-- The daemon starts everything, and nothing gets ready in time. -/
def reply : UpTask → ClientResult
  | .enableProxy => .ok (.ok "Proxy listening on http://localhost:9090")
  | .start name => .ok (.runOk name "p1" 41 none none)
  | .ready _ => .ok .waitTimeout

theorem exists_run : ∃ ts w, (shopConfig.up shopArgs [["db"], ["web"]]).Run .start ts w ∧
    w.outcome = .finished := by
  have hpasses (t : UpTask) :
      (shopConfig.upPlan shopArgs [["db"], ["web"]]).verdict t (reply t) = none := by
    cases t <;> rfl
  exact exists_run_finished hpasses

/-- The database is started and waited for before the web server is started. -/
theorem db_before_web : ∃ us : UpRun, us.Started "db" ∧ us.WaitedFor "db" := by
  obtain ⟨ts, w, hrun, hfin⟩ := exists_run
  obtain ⟨⟨σ, hσ, hask⟩, -⟩ := of_finished (t := .start "web") hrun hfin (by decide)
  obtain ⟨us, vs, rfl⟩ := List.append_of_mem hσ
  obtain ⟨-, -, -, -, hdeps⟩ := up_order order hrun hask
  obtain ⟨hstarted, hwaited⟩ := hdeps "db" (.single (by decide)) (by decide)
  exact ⟨us, hstarted, hwaited (by decide)⟩

end Shop

/-! ## The exit code -/

/-- The process comes after the task: it depends on the process that the task is about. -/
def UpTask.Before (config : ConfigFile) (n : String) : UpTask → Prop
  | enableProxy => True
  | start d => Relation.TransGen (fun x y => y ∈ config.project.dependsOn x) n d
  | ready d => Relation.TransGen (fun x y => y ∈ config.project.dependsOn x) n d

theorem exitCode_ne_zero (code : ErrorCode) : code.exitCode ≠ 0 := by
  cases code <;> decide

theorem verdict_ne_zero {r : ClientResult} {k : ℤ} (h : t.verdict r = some k) : k ≠ 0 := by
  unfold UpTask.verdict at h
  split at h
  · exact Option.some.inj h ▸ exitCode_ne_zero _
  · exact Option.some.inj h ▸ by decide
  · cases h
  · cases h
  · exact Option.some.inj h ▸ exitCode_ne_zero _
  · exact Option.some.inj h ▸ by decide
  · exact Option.some.inj h ▸ by decide
  · cases h

/-- A task is answered once. -/
theorem answers_unique (hrun : (config.up args groups).Run .start ts w) {r r' : ClientResult}
    (h : UpRun.Answers ts t r) (h' : UpRun.Answers ts t r') : r = r' := by
  obtain ⟨σ, hσ, hr⟩ := h
  obtain ⟨σ', hσ', hr'⟩ := h'
  exact Option.some.inj ((answers_of_mem hrun hσ hr).symm.trans (answers_of_mem hrun hσ' hr'))

/-- Everything that was asked for has been done. -/
structure UpRun.Complete (config : ConfigFile) (args : UpArgs) (ts : UpRun) : Prop where
  proxy : config.enablesProxy args = true → ts.ProxyEnabled
  started : ∀ n ∈ config.project.names, args.selects n = true → ts.Started n
  waitedFor : ∀ n ∈ config.project.names, args.selects n = true → config.saysReady n = true →
    ts.WaitedFor n

/-- What is done was answered without a verdict. -/
theorem UpRun.Complete.passed (h : UpRun.Complete config args ts)
    (horder : config.project.startupOrder orders = .ok groups)
    {i : ℕ} {tasks : List UpTask} (hi : (config.upStages args groups)[i]? = some tasks)
    (ht : t ∈ tasks) : ∃ r, t.verdict r = none ∧ ts.Answers t r := by
  rcases stage_cases hi ht with ⟨rfl, -, henables⟩ | ⟨n, rfl, hselects, j, group, hj, hn, -⟩ |
    ⟨n, rfl, hselects, hready, j, group, hj, hn, -⟩
  · obtain ⟨resp, hanswer, hok⟩ := h.proxy henables
    exact ⟨_, verdict_enableProxy_iff.mpr ⟨resp, rfl, hok⟩, hanswer⟩
  · obtain ⟨name, id, pid, port, url, hanswer⟩ :=
      h.started n (mem_names_of_group horder hj hn) hselects
    exact ⟨_, rfl, hanswer⟩
  · obtain ⟨r, hanswer, hok⟩ := h.waitedFor n (mem_names_of_group horder hj hn) hselects hready
    exact ⟨r, verdict_ready_iff.mpr hok, hanswer⟩

theorem complete_of_finished (horder : config.project.startupOrder orders = .ok groups)
    (hrun : (config.up args groups).Run .start ts w) (hfin : w.outcome = .finished) :
    UpRun.Complete config args ts := by
  have hpassed {i : ℕ} {tasks : List UpTask} {t : UpTask}
      (hi : (config.upStages args groups)[i]? = some tasks) (ht : t ∈ tasks) :
      ∃ r, t.verdict r = none ∧ UpRun.Answers ts t r :=
    (of_finished hrun hfin (List.mem_flatten.mpr ⟨tasks, List.mem_of_getElem? hi, ht⟩)).2
  refine ⟨fun henables => ?_, fun n hn hselects => ?_, fun n hn hselects hready => ?_⟩
  · have hstage := (enableStage_eq groups henables).1
    exact proxyEnabled_of_passed (hpassed hstage (List.mem_singleton_self _))
  · obtain ⟨i, group, hi, hn⟩ := exists_group horder hn
    exact started_of_passed (hpassed (startStage_eq hi) (start_mem hn hselects))
  · obtain ⟨i, group, hi, hn⟩ := exists_group horder hn
    exact waitedFor_of_passed (hpassed (readyStage_eq hi) (ready_mem hn hselects hready))

/-- What comes after a task is in a later stage. -/
theorem stage_lt_of_before (horder : config.project.startupOrder orders = .ok groups) {i j : ℕ}
    {tasks tasks' : List UpTask} (hi : (config.upStages args groups)[i]? = some tasks)
    (ht : t ∈ tasks) (hj : (config.upStages args groups)[j]? = some tasks')
    (hn : .start n ∈ tasks') (hbefore : t.Before config n) : i < j := by
  rcases stage_cases hj hn with ⟨h, -⟩ | ⟨m, h, -, k, group, hk, hmem, rfl⟩ | ⟨m, h, -⟩
  · cases h
  · obtain rfl := UpTask.start.inj h
    rcases stage_cases hi ht with ⟨rfl, rfl, henables⟩ | ⟨d, rfl, -, l, group', hl, hd, rfl⟩ |
      ⟨d, rfl, -, -, l, group', hl, hd, rfl⟩
    · rw [startStage, (enableStage_eq groups henables).2]
      omega
    · have hlt := group_lt horder hbefore hk hmem hl hd
      rw [startStage, startStage]
      omega
    · have hlt := group_lt horder hbefore hk hmem hl hd
      rw [startStage, startStage]
      omega
  · cases h

/-- **The exit code of the groups**: 0 exactly if everything that was asked for has been done;
otherwise some answer made it what it is, and nothing that comes after that request was started. -/
theorem exit_of_run (horder : config.project.startupOrder orders = .ok groups)
    (hrun : (config.up args groups).Run .start ts w) {code : ℤ}
    (hexit : w.outcome.exitCode = some code) :
    (code = 0 ↔ UpRun.Complete config args ts) ∧
    (code ≠ 0 → ∃ t r, UpRun.Answers ts t r ∧ t.verdict r = some code ∧
      ∀ n, t.Before config n → ∀ σ ∈ ts, σ.ev ≠ .ask (.start n)) := by
  cases hw : w.outcome with
  | working => rw [hw] at hexit; cases hexit
  | finished =>
    obtain rfl : 0 = code := by
      rw [hw] at hexit
      exact Option.some.inj hexit
    exact ⟨iff_of_true rfl (complete_of_finished horder hrun hw), fun h => absurd rfl h⟩
  | failed k =>
    obtain rfl : k = code := by
      rw [hw] at hexit
      exact Option.some.inj hexit
    have hnodup : (config.upPlan args groups).stages.flatten.Nodup :=
      nodup_upStages (groups_layers horder).nodup_flatten
    obtain ⟨i, tasks, hi, ⟨t, ht, r, hverdict, hanswer⟩, hothers⟩ := of_failed hnodup hrun hw
    have hfails : t.verdict r = some k := hverdict
    refine ⟨iff_of_false (verdict_ne_zero hfails) fun hcomplete => ?_, fun _ =>
      ⟨t, r, hanswer, hfails, fun n hbefore σ hσ hask => ?_⟩⟩
    · obtain ⟨r', hpassed, hanswer'⟩ := hcomplete.passed horder hi ht
      rw [answers_unique hrun hanswer hanswer', hpassed] at hfails
      cases hfails
    · obtain ⟨hstep, -⟩ := hrun.step_of_mem hσ
      obtain ⟨-, -, tasks', hj, hn⟩ := of_ask (hask ▸ hstep)
      exact (hothers _ tasks' _ hj hn).2.2 (stage_lt_of_before horder hi ht hj hn hbefore) σ hσ hask

theorem upPrepare_ok {loaded : Except String ConfigFile}
    (h : upPrepare loaded orders = .ok (config, groups)) :
    loaded = .ok config ∧ config.project.startupOrder orders = .ok groups := by
  unfold upPrepare at h
  split at h
  · cases h
  · split at h
    · rename_i horder
      cases h
      exact ⟨rfl, horder⟩
    · cases h
    · cases h

/-- **Without a first request** `up` returns 1: there is no config, or it depends on what it does
not have, or on itself. -/
theorem upPrepare_error {loaded : Except String ConfigFile} {code : ℤ}
    (h : upPrepare loaded orders = .error code) :
    code = 1 ∧ ∀ config, loaded = .ok config →
      config.project.HasUnknownDep ∨ Cyclic config.project.dependsOn := by
  unfold upPrepare at h
  split at h
  · exact ⟨(Except.error.inj h).symm, fun _ h => by cases h⟩
  · rename_i config
    obtain ⟨-, -, hordered, hpanic⟩ := config.project.startupOrder_results orders
    split at h
    · cases h
    · rename_i horder
      refine ⟨(Except.error.inj h).symm, fun _ hsame => ?_⟩
      obtain rfl := Except.ok.inj hsame
      by_contra hno
      obtain ⟨groups, hgroups⟩ := hordered.mpr (not_or.mp hno)
      rw [horder] at hgroups
      cases hgroups
    · rename_i horder
      exact absurd horder hpanic

/-- **The exit code of `up`**: 0 exactly if there is a config, its processes can be put in order,
and everything that was asked for has been done.  Otherwise it is 1 and nothing was asked, there
being no such config or order; or some answer made it what it is, and nothing that comes after that
request was started. -/
theorem up_exit {loaded : Except String ConfigFile} {w₀ : Work UpTask ClientResult ℤ}
    (h₀ : (upExecute loaded args orders).init w₀)
    (hrun : (upExecute loaded args orders).Run w₀ ts w)
    {code : ℤ} (hexit : w.outcome.exitCode = some code) :
    (code = 0 ↔ ∃ config, loaded = .ok config ∧ ¬config.project.HasUnknownDep ∧
      ¬Cyclic config.project.dependsOn ∧ UpRun.Complete config args ts) ∧
    (code ≠ 0 → (code = 1 ∧ ts = [] ∧ ∀ config, loaded = .ok config →
        config.project.HasUnknownDep ∨ Cyclic config.project.dependsOn) ∨
      ∃ config t r, loaded = .ok config ∧ UpRun.Answers ts t r ∧ t.verdict r = some code ∧
        ∀ n, t.Before config n → ∀ σ ∈ ts, σ.ev ≠ .ask (.start n)) := by
  cases hprepare : upPrepare loaded orders with
  | error k =>
    obtain ⟨hone, hdisorder⟩ := upPrepare_error hprepare
    rw [upExecute, hprepare] at h₀ hrun
    obtain ⟨rfl, rfl⟩ := of_overAtOnce hrun
    obtain rfl : w = { (Work.start : Work UpTask ClientResult ℤ) with outcome := .failed k } := h₀
    obtain rfl : k = code := Option.some.inj hexit
    refine ⟨iff_of_false (by omega) ?_, fun _ => .inl ⟨hone, rfl, hdisorder⟩⟩
    rintro ⟨config, hloaded, hknown, hacyclic, -⟩
    exact (hdisorder config hloaded).elim hknown hacyclic
  | ok prepared =>
    obtain ⟨config, groups⟩ := prepared
    obtain ⟨rfl, horder⟩ := upPrepare_ok hprepare
    rw [upExecute, hprepare] at h₀ hrun
    obtain rfl : w₀ = .start := h₀
    obtain ⟨hzero, hnonzero⟩ := exit_of_run horder hrun hexit
    obtain ⟨hknown, hacyclic⟩ :=
      (config.project.startupOrder_results orders).2.2.1.mp ⟨groups, horder⟩
    refine ⟨⟨fun h => ⟨config, rfl, hknown, hacyclic, hzero.mp h⟩, ?_⟩, fun h => .inr ?_⟩
    · rintro ⟨config', hsame, -, -, hcomplete⟩
      obtain rfl := Except.ok.inj hsame
      exact hzero.mpr hcomplete
    · obtain ⟨t, r, hanswer, hverdict, hnot⟩ := hnonzero h
      exact ⟨config, t, r, rfl, hanswer, hverdict, hnot⟩

namespace Shop

/-- All is done, and `up` returns 0. -/
theorem shop_exit : ∃ ts : UpRun, UpRun.Complete shopConfig shopArgs ts := by
  obtain ⟨ts, w, hrun, hfin⟩ := exists_run
  have hexit : w.outcome.exitCode = some 0 := by rw [hfin]; rfl
  have hprepare : upPrepare (.ok shopConfig) shopOrders = .ok (shopConfig, [["db"], ["web"]]) := by
    rw [upPrepare, order]
  have hsame : upExecute (.ok shopConfig) shopArgs shopOrders =
      shopConfig.up shopArgs [["db"], ["web"]] := by
    rw [upExecute, hprepare]
  have h₀ : (upExecute (.ok shopConfig) shopArgs shopOrders).init .start := by
    rw [hsame]
    rfl
  obtain ⟨config, hloaded, -, -, hcomplete⟩ := (up_exit h₀ (hsame ▸ hrun) hexit).1.mp rfl
  obtain rfl := Except.ok.inj hloaded
  exact ⟨ts, hcomplete⟩

end Shop

end Runs

end AgentProcs
