import AgentProcs.Machinery.Layers
import Mathlib.Data.String.Basic

/-!
# Config/StartupOrder — the order in which the processes of a project start

    depends_on        api: db, cache    web: api
    in_degree         db 0   cache 0   api 2   web 1
    startup_order     [cache, db] ▸ [api] ▸ [web]

Whoever depends on nothing that is left is ready; the ready ones are taken away together, and each
takes its dependents' degrees down.  A `HashMap` is gone through in an order of its own, which the
model takes as a parameter of every round.
-/

namespace AgentProcs

/-- A process of the config, as far as its place in the order goes. -/
structure ProcessDef where
  dependsOn : List String
  deriving DecidableEq, Repr

/-- The project's processes, in the order the map is gone through. -/
structure ProjectConfig where
  processes : List (String × ProcessDef)
  nodup : (processes.map (·.1)).Nodup

inductive ConfigError where
  | unknownDep (source target : String)
  | cycleDetected
  deriving DecidableEq, Repr

/-- Why there is no order: an error, or a panic where a degree falls below zero. -/
inductive StartupFailure where
  | config (error : ConfigError)
  | underflow
  deriving DecidableEq, Repr

/-- A `HashMap<&str, usize>`. -/
abbrev Degrees := List (String × ℕ)

/-- An order in which a map is gone through. -/
structure IterationOrder where
  arrange : Degrees → Degrees
  perm : ∀ degrees, (arrange degrees).Perm degrees

namespace Degrees

def names (degrees : Degrees) : List String := degrees.map (·.1)

/-- `*degrees.entry(name).or_insert(0) += 1`. -/
def increment (name : String) (degrees : Degrees) : Degrees :=
  if name ∈ degrees.names then degrees.map fun e => if e.1 = name then (e.1, e.2 + 1) else e
  else degrees ++ [(name, 1)]

/-- `*deg -= 1`, if the name is there. -/
def decrement (name : String) (degrees : Degrees) : Except StartupFailure Degrees :=
  if (name, 0) ∈ degrees then .error .underflow
  else .ok (degrees.map fun e => if e.1 = name then (e.1, e.2 - 1) else e)

def remove (name : String) (degrees : Degrees) : Degrees := degrees.filter (·.1 ≠ name)

end Degrees

/-- In-degrees, and who depends on whom. -/
structure DependencyGraph where
  inDegree : Degrees
  dependents : String → List String

namespace ProjectConfig

variable (config : ProjectConfig)

def names : List String := config.processes.map (·.1)

/-- One edge, if its end is a process. -/
def addDependency (graph : DependencyGraph) (edge : String × String) :
    Except StartupFailure DependencyGraph :=
  let (name, dep) := edge
  if dep ∈ config.names then
    .ok { inDegree := graph.inDegree.increment name
          dependents := Function.update graph.dependents dep (graph.dependents dep ++ [name]) }
  else .error (.config (.unknownDep name dep))

/-- Every process with every entry of its `depends_on`. -/
def edges : List (String × String) :=
  config.processes.flatMap fun p => p.2.dependsOn.map (p.1, ·)

def dependencyGraph : Except StartupFailure DependencyGraph :=
  config.edges.foldlM config.addDependency ⟨config.names.map (·, 0), fun _ => []⟩

end ProjectConfig

section Loop

variable (dependents : String → List String)

/-- Take a process away, and its dependents' degrees down. -/
def takeAway (remaining : Degrees) (name : String) : Except StartupFailure Degrees :=
  (dependents name).foldlM (fun remaining dep => remaining.decrement dep) (remaining.remove name)

/-- Those that depend on nothing that is left. -/
def readyNames (order : IterationOrder) (remaining : Degrees) : List String :=
  ((order.arrange remaining).filter (·.2 = 0)).map (·.1)

def takeLayer (remaining : Degrees) (ready : List String) : Except StartupFailure Degrees :=
  ready.foldlM (takeAway dependents) remaining

/-! ## The loop ends -/

variable {dependents} {order : IterationOrder} {remaining remaining' : Degrees} {name : String}
  {ready : List String}

theorem names_decrement (h : remaining.decrement name = .ok remaining') :
    remaining'.names = remaining.names := by
  unfold Degrees.decrement at h
  split at h
  · cases h
  · obtain rfl := Except.ok.inj h
    rw [Degrees.names, List.map_map]
    refine List.map_congr_left fun e _ => ?_
    by_cases he : e.1 = name <;> simp [he]

theorem names_decrements {deps : List String}
    (h : deps.foldlM (fun remaining dep => remaining.decrement dep) remaining = .ok remaining') :
    remaining'.names = remaining.names := by
  induction deps generalizing remaining with
  | nil =>
    obtain rfl := Except.ok.inj h
    rfl
  | cons dep deps ih =>
    rw [List.foldlM_cons] at h
    cases hdec : remaining.decrement dep with
    | error e => rw [hdec] at h; cases h
    | ok next =>
      rw [hdec] at h
      exact (ih h).trans (names_decrement hdec)

theorem names_remove : (remaining.remove name).names = remaining.names.filter (· ≠ name) := by
  rw [Degrees.names, Degrees.names, List.filter_map]
  rfl

theorem names_takeAway (h : takeAway dependents remaining name = .ok remaining') :
    remaining'.names = remaining.names.filter (· ≠ name) :=
  (names_decrements h).trans names_remove

/-- **A layer taken away** leaves the other names. -/
theorem names_takeLayer (h : takeLayer dependents remaining ready = .ok remaining') :
    remaining'.names = remaining.names.filter (· ∉ ready) := by
  induction ready generalizing remaining with
  | nil =>
    obtain rfl := Except.ok.inj h
    simp
  | cons name ready ih =>
    rw [takeLayer, List.foldlM_cons] at h
    cases haway : takeAway dependents remaining name with
    | error e => rw [haway] at h; cases h
    | ok next =>
      rw [haway] at h
      rw [ih h, names_takeAway haway, List.filter_filter]
      refine List.filter_congr fun x _ => ?_
      simp [Bool.and_comm]

theorem mem_readyNames : name ∈ readyNames order remaining ↔ (name, 0) ∈ remaining := by
  simp [readyNames, (order.perm remaining).mem_iff]

theorem length_takeLayer (hready : readyNames order remaining ≠ [])
    (h : takeLayer dependents remaining (readyNames order remaining) = .ok remaining') :
    remaining'.length < remaining.length := by
  obtain ⟨name, hname⟩ := List.exists_mem_of_ne_nil _ hready
  have hmem : name ∈ remaining.names :=
    List.mem_map.mpr ⟨_, mem_readyNames.mp hname, rfl⟩
  have hlength : remaining'.names.length < remaining.names.length := by
    rw [names_takeLayer h]
    exact List.length_filter_lt_length_iff_exists.mpr ⟨name, hmem, by simpa using hname⟩
  simpa [Degrees.names] using hlength

variable (dependents) (orders : ℕ → IterationOrder)

/-- The rounds from this one on. -/
def startupLoop (round : ℕ) (remaining : Degrees) : Except StartupFailure (List (List String)) :=
  let ready := readyNames (orders round) remaining
  if _ : ready = [] then
    if remaining = [] then .ok [] else .error (.config .cycleDetected)
  else
    match hlayer : takeLayer dependents remaining ready with
    | .error failure => .error failure
    | .ok remaining' => do
      let groups ← startupLoop (round + 1) remaining'
      .ok (ready.mergeSort (· ≤ ·) :: groups)
termination_by remaining.length
decreasing_by exact length_takeLayer ‹¬ready = []› hlayer

end Loop

/-- **The groups in which the processes start.** -/
def ProjectConfig.startupOrder (config : ProjectConfig) (orders : ℕ → IterationOrder) :
    Except StartupFailure (List (List String)) := do
  let graph ← config.dependencyGraph
  startupLoop graph.dependents orders 0 graph.inDegree

/-! ## What a graph holds -/

namespace ProjectConfig

variable {config : ProjectConfig} {edges : List (String × String)} {graph : DependencyGraph}

/-- These edges have been added. -/
structure Graphed (config : ProjectConfig) (edges : List (String × String))
    (graph : DependencyGraph) : Prop where
  inDegree : graph.inDegree = config.names.map fun x => (x, edges.countP (·.1 = x))
  dependents : ∀ dep x, (graph.dependents dep).count x = edges.count (x, dep)

theorem Graphed.nil : Graphed config [] ⟨config.names.map (·, 0), fun _ => []⟩ :=
  ⟨by simp, by simp⟩

theorem Graphed.add (h : Graphed config edges graph) {name dep : String}
    (hname : name ∈ config.names) :
    Graphed config (edges ++ [(name, dep)]) ⟨graph.inDegree.increment name,
      Function.update graph.dependents dep (graph.dependents dep ++ [name])⟩ := by
  constructor
  · have hmem : name ∈ graph.inDegree.names := by
      rw [Degrees.names, h.inDegree, List.map_map]
      simpa [Function.comp_def] using hname
    rw [Degrees.increment, if_pos hmem, h.inDegree, List.map_map]
    refine List.map_congr_left fun x _ => ?_
    by_cases hx : x = name
    · simp [hx]
    · simp [hx, Ne.symm hx]
  · intro dep' x
    change (Function.update graph.dependents dep (graph.dependents dep ++ [name]) dep').count x = _
    by_cases hdep : dep' = dep
    · subst hdep
      rw [Function.update_self, List.count_append, List.count_append, h.dependents]
      by_cases hx : x = name
      · simp [hx]
      · simp [Ne.symm hx]
    · rw [Function.update_of_ne hdep, List.count_append, h.dependents]
      simp [Ne.symm hdep]

/-- **Building the graph** gets to the end, or stops at an edge that leads nowhere. -/
theorem addDependencies_cases (added : List (String × String))
    (hnames : ∀ e ∈ added, e.1 ∈ config.names) (h : Graphed config edges graph) :
    ((∀ e ∈ added, e.2 ∈ config.names) ∧ ∃ graph', added.foldlM config.addDependency graph =
      .ok graph' ∧ Graphed config (edges ++ added) graph') ∨
    ∃ e ∈ added, e.2 ∉ config.names ∧ added.foldlM config.addDependency graph =
      .error (.config (.unknownDep e.1 e.2)) := by
  induction added generalizing edges graph with
  | nil => exact .inl ⟨by simp, graph, rfl, by simpa using h⟩
  | cons e added ih =>
    obtain ⟨name, dep⟩ := e
    obtain ⟨hname, hrest⟩ := List.forall_mem_cons.mp hnames
    rw [List.foldlM_cons, addDependency]
    by_cases hdep : dep ∈ config.names
    · rw [if_pos hdep]
      obtain ⟨hknown, graph', hadd, hgraphed⟩ | ⟨e, he, hunknown, hadd⟩ := ih hrest (h.add hname)
      · refine .inl ⟨List.forall_mem_cons.mpr ⟨hdep, hknown⟩, graph', hadd, ?_⟩
        simpa using hgraphed
      · exact .inr ⟨e, List.mem_cons_of_mem _ he, hunknown, hadd⟩
    · rw [if_neg hdep]
      exact .inr ⟨(name, dep), List.mem_cons_self, hdep, rfl⟩

/-- What a process depends on. -/
def dependsOn (config : ProjectConfig) (name : String) : List String :=
  ((config.processes.lookup name).map (·.dependsOn)).getD []

variable {name dep : String}

theorem lookup_eq_some_iff {processDef : ProcessDef} :
    config.processes.lookup name = some processDef ↔ (name, processDef) ∈ config.processes := by
  constructor
  · intro h
    obtain ⟨before, after, heq, -⟩ := List.lookup_eq_some_iff.mp h
    simp [heq]
  · intro hmem
    obtain ⟨before, after, heq⟩ := List.append_of_mem hmem
    refine List.lookup_eq_some_iff.mpr ⟨before, after, heq, fun p hp => ?_⟩
    have hnodup := config.nodup
    rw [heq, List.map_append, List.nodup_append] at hnodup
    have hne : p.1 ≠ name := hnodup.2.2 p.1 (List.mem_map_of_mem hp) name (by simp)
    simpa using Ne.symm hne

theorem dependsOn_of_mem {processDef : ProcessDef} (h : (name, processDef) ∈ config.processes) :
    config.dependsOn name = processDef.dependsOn := by
  rw [dependsOn, lookup_eq_some_iff.mpr h]
  rfl

theorem names_of_dependsOn (h : dep ∈ config.dependsOn name) : name ∈ config.names := by
  rw [dependsOn] at h
  cases hlookup : config.processes.lookup name with
  | none => simp [hlookup] at h
  | some processDef => exact List.mem_map_of_mem (lookup_eq_some_iff.mp hlookup)

theorem mem_edges : (name, dep) ∈ config.edges ↔ dep ∈ config.dependsOn name := by
  rw [edges, List.mem_flatMap]
  constructor
  · rintro ⟨p, hp, hdep⟩
    obtain ⟨dep, hdep, heq⟩ := List.mem_map.mp hdep
    obtain ⟨rfl, rfl⟩ := Prod.mk.inj heq
    rwa [dependsOn_of_mem hp]
  · intro h
    obtain ⟨⟨name, processDef⟩, hp, rfl⟩ := List.mem_map.mp (names_of_dependsOn h)
    rw [dependsOn_of_mem hp] at h
    exact ⟨_, hp, List.mem_map_of_mem h⟩

theorem filter_flatMap_dependsOn {processes : List (String × ProcessDef)}
    (hnodup : (processes.map (·.1)).Nodup) :
    (processes.flatMap fun p => p.2.dependsOn.map (p.1, ·)).filter (·.1 = name) =
      (((processes.lookup name).map (·.dependsOn)).getD []).map (name, ·) := by
  induction processes with
  | nil => rfl
  | cons p processes ih =>
    obtain ⟨x, processDef⟩ := p
    rw [List.map_cons, List.nodup_cons] at hnodup
    rw [List.flatMap_cons, List.filter_append, ih hnodup.2]
    by_cases hx : x = name
    · subst hx
      have hnone : processes.lookup x = none := by
        refine List.lookup_eq_none_iff.mpr fun p hp => ?_
        have hne : p.1 ≠ x := fun h => hnodup.1 (List.mem_map.mpr ⟨p, hp, h⟩)
        simpa using Ne.symm hne
      simp [hnone, List.filter_map, Function.comp_def]
    · have hbeq : (name == x) = false := beq_false_of_ne (Ne.symm hx)
      simp [List.lookup_cons, hbeq, hx, List.filter_map, Function.comp_def]

/-- **The edges of a process** are its `depends_on`. -/
theorem filter_edges : config.edges.filter (·.1 = name) = (config.dependsOn name).map (name, ·) :=
  filter_flatMap_dependsOn config.nodup

theorem countP_edges : config.edges.countP (·.1 = name) = (config.dependsOn name).length := by
  rw [List.countP_eq_length_filter, filter_edges, List.length_map]

theorem count_edges : config.edges.count (name, dep) = (config.dependsOn name).count dep := by
  have hfilter := List.count_filter (l := config.edges) (p := fun e => e.1 = name)
    (a := (name, dep)) (by simp)
  have hinjective : Function.Injective fun dep : String => (name, dep) :=
    Prod.mk_right_injective name
  rw [← hfilter, filter_edges, List.count_map_of_injective _ _ hinjective]

end ProjectConfig

/-! ## Taking away -/

section Counted

variable {below dependents : String → List String} {remaining : Degrees} {name : String}

/-- **Each degree** is the number of dependencies that are left. -/
structure Degrees.Counted (below : String → List String) (remaining : Degrees) : Prop where
  nodup : remaining.names.Nodup
  degree : ∀ e ∈ remaining, e.2 = (below e.1).countP (· ∈ remaining.names)

/-- Decrements that the degrees can take. -/
theorem decrements_eq {deps : List String} (hle : ∀ e ∈ remaining, deps.count e.1 ≤ e.2) :
    deps.foldlM (fun remaining dep => remaining.decrement dep) remaining =
      .ok (remaining.map fun e => (e.1, e.2 - deps.count e.1)) := by
  induction deps generalizing remaining with
  | nil => simp [pure, Except.pure]
  | cons dep deps ih =>
    have hpositive : (dep, 0) ∉ remaining := by
      intro hmem
      simpa using hle _ hmem
    rw [List.foldlM_cons, Degrees.decrement, if_neg hpositive]
    change List.foldlM _ _ deps = _
    rw [ih, List.map_map]
    · congr 1
      refine List.map_congr_left fun e _ => ?_
      by_cases he : e.1 = dep
      · simp [he, Nat.sub_sub, Nat.add_comm]
      · simp [he, Ne.symm he]
    · intro e he
      obtain ⟨e, hmem, rfl⟩ := List.mem_map.mp he
      have hcount := hle e hmem
      by_cases hdep : e.1 = dep
      · rw [if_pos hdep]
        rw [hdep, List.count_cons_self] at hcount
        simp only [hdep]
        omega
      · rw [if_neg hdep]
        rwa [List.count_cons_of_ne (Ne.symm hdep)] at hcount

theorem countP_without {deps names : List String} (hname : name ∈ names) :
    deps.countP (· ∈ names) = deps.countP (· ∈ names.filter (· ≠ name)) + deps.count name := by
  induction deps with
  | nil => rfl
  | cons dep deps ih =>
    rw [List.countP_cons, List.countP_cons, List.count_cons, ih]
    by_cases hdep : dep = name
    · simp [hdep, hname]
      omega
    · simp [hdep]
      omega

/-- **One taken away**, the degrees are right again. -/
theorem Degrees.Counted.takeAway (h : Degrees.Counted below remaining) (hname : name ∈ remaining.names)
    (hcount : ∀ x, (dependents name).count x = (below x).count name) :
    ∃ remaining', takeAway dependents remaining name = .ok remaining' ∧
      Degrees.Counted below remaining' := by
  have hdegree : ∀ e ∈ remaining.remove name, (dependents name).count e.1 +
      (below e.1).countP (· ∈ remaining.names.filter (· ≠ name)) = e.2 := by
    intro e he
    rw [h.degree e (List.mem_of_mem_filter he), hcount, countP_without hname, Nat.add_comm]
  have haway := decrements_eq fun e he => (hdegree e he) ▸ Nat.le_add_right _ _
  have hnames := names_takeAway haway
  refine ⟨_, haway, ?_, ?_⟩
  · rw [hnames]
    exact h.nodup.filter _
  · intro e he
    rw [hnames]
    obtain ⟨e, hmem, rfl⟩ := List.mem_map.mp he
    rw [← hdegree e hmem, Nat.add_sub_cancel_left]

/-- **A layer taken away**, too. -/
theorem Degrees.Counted.takeLayer {ready : List String} (h : Degrees.Counted below remaining)
    (hnodup : ready.Nodup) (hready : ∀ x ∈ ready, x ∈ remaining.names)
    (hcount : ∀ x y, (dependents y).count x = (below x).count y) :
    ∃ remaining', takeLayer dependents remaining ready = .ok remaining' ∧
      Degrees.Counted below remaining' := by
  induction ready generalizing remaining with
  | nil => exact ⟨remaining, rfl, h⟩
  | cons name ready ih =>
    obtain ⟨hname, hready⟩ := List.forall_mem_cons.mp hready
    obtain ⟨hnot, hnodup⟩ := List.nodup_cons.mp hnodup
    obtain ⟨next, haway, hnext⟩ := h.takeAway hname fun x => hcount x name
    have hleft : ∀ x ∈ ready, x ∈ next.names := by
      intro x hx
      rw [names_takeAway haway]
      exact List.mem_filter.mpr ⟨hready x hx, by simpa using ne_of_mem_of_not_mem hx hnot⟩
    obtain ⟨remaining', hlayer, h'⟩ := ih hnext hnodup hleft
    refine ⟨remaining', ?_, h'⟩
    rw [AgentProcs.takeLayer, List.foldlM_cons, haway]
    exact hlayer

end Counted

/-! ## Layer by layer -/

section Peeled

variable {nodes : Set String} {below dependents : String → List String} {k : ℕ}
  {order : IterationOrder} {remaining : Degrees} {name : String}

/-- **The first `k` layers are gone.** -/
structure Peeled (nodes : Set String) (below : String → List String) (k : ℕ)
    (remaining : Degrees) : Prop extends Degrees.Counted below remaining where
  left : ∀ x, x ∈ remaining.names ↔ x ∈ nodes ∧ ¬Shallow below k x

/-- Nothing leads out of the graph. -/
def ClosedUnder (nodes : Set String) (below : String → List String) : Prop :=
  ∀ x, ∀ y ∈ below x, y ∈ nodes

/-- **The ready ones are the next layer.** -/
theorem Peeled.mem_readyNames (order : IterationOrder) (h : Peeled nodes below k remaining)
    (hclosed : ClosedUnder nodes below) : name ∈ readyNames order remaining ↔
      name ∈ nodes ∧ Shallow below (k + 1) name ∧ ¬Shallow below k name := by
  rw [AgentProcs.mem_readyNames, shallow_succ_iff]
  constructor
  · intro hmem
    have hname := (h.left name).mp (List.mem_map_of_mem hmem)
    refine ⟨hname.1, fun y hy => ?_, hname.2⟩
    by_contra hdeep
    have hnone := List.countP_eq_zero.mp (h.degree _ hmem).symm y hy
    exact hnone (by simpa using (h.left y).mpr ⟨hclosed name y hy, hdeep⟩)
  · rintro ⟨hnode, hshallow, hdeep⟩
    obtain ⟨⟨x, degree⟩, hmem, rfl⟩ := List.mem_map.mp ((h.left name).mpr ⟨hnode, hdeep⟩)
    have hzero : degree = 0 := by
      refine (h.degree _ hmem).trans (List.countP_eq_zero.mpr fun y hy hleft => ?_)
      exact ((h.left y).mp (by simpa using hleft)).2 (hshallow y hy)
    rwa [hzero] at hmem

theorem Peeled.nodup_readyNames (order : IterationOrder) (h : Peeled nodes below k remaining) :
    (readyNames order remaining).Nodup := by
  have hnodup : ((order.arrange remaining).map (·.1)).Nodup :=
    ((order.perm remaining).map _).nodup_iff.mpr h.nodup
  exact hnodup.sublist (List.filter_sublist.map _)

/-- One round takes the next layer. -/
theorem Peeled.takeLayer (order : IterationOrder) (h : Peeled nodes below k remaining)
    (hclosed : ClosedUnder nodes below)
    (hcount : ∀ x y, (dependents y).count x = (below x).count y) :
    ∃ remaining', takeLayer dependents remaining (readyNames order remaining) = .ok remaining' ∧
      Peeled nodes below (k + 1) remaining' := by
  have hready : ∀ x ∈ readyNames order remaining, x ∈ remaining.names := by
    intro x hx
    obtain ⟨hnode, -, hdeep⟩ := (h.mem_readyNames order hclosed).mp hx
    exact (h.left x).mpr ⟨hnode, hdeep⟩
  obtain ⟨remaining', hlayer, hcounted⟩ :=
    h.toCounted.takeLayer (h.nodup_readyNames order) hready hcount
  refine ⟨remaining', hlayer, hcounted, fun x => ?_⟩
  rw [names_takeLayer hlayer, List.mem_filter, h.left, decide_eq_true_iff,
    h.mem_readyNames order hclosed]
  constructor
  · rintro ⟨⟨hnode, hdeep⟩, hnot⟩
    exact ⟨hnode, fun hshallow => hnot ⟨hnode, hshallow, hdeep⟩⟩
  · rintro ⟨hnode, hdeep⟩
    exact ⟨⟨hnode, fun hshallow => hdeep (hshallow.mono (Nat.le_succ k))⟩, fun h => hdeep h.2.1⟩

section Rounds

variable (dependents) (orders : ℕ → IterationOrder) {round : ℕ}

/-- A round that takes a layer. -/
theorem startupLoop_layer {remaining' : Degrees}
    (hready : readyNames (orders round) remaining ≠ [])
    (hlayer : takeLayer dependents remaining (readyNames (orders round) remaining) =
      .ok remaining') : startupLoop dependents orders round remaining =
      (startupLoop dependents orders (round + 1) remaining').map
        ((readyNames (orders round) remaining).mergeSort (· ≤ ·) :: ·) := by
  rw [startupLoop, dif_neg hready]
  split
  · rename_i heq
    simp [hlayer] at heq
  · rename_i heq
    obtain rfl := Except.ok.inj (hlayer.symm.trans heq)
    cases startupLoop dependents orders (round + 1) remaining' <;> rfl

variable {dependents orders}

/-- The sorted layer is the next one. -/
theorem Peeled.layer (order : IterationOrder) (h : Peeled nodes below k remaining)
    (hclosed : ClosedUnder nodes below)
    (hready : readyNames order remaining ≠ []) {groups : List (List String)}
    (hgroups : LayersFrom below nodes (k + 1) groups) :
    LayersFrom below nodes k ((readyNames order remaining).mergeSort (· ≤ ·) :: groups) := by
  have hperm := List.mergeSort_perm (readyNames order remaining) (· ≤ ·)
  refine ⟨fun hnil => hready (hnil ▸ hperm).nil_eq.symm, ?_, fun x => ?_, hgroups⟩
  · have hsorted : ((readyNames order remaining).mergeSort (· ≤ ·)).Pairwise (· ≤ ·) := by
      simpa using @List.pairwise_mergeSort _ (fun x y : String => decide (x ≤ y))
        (by simpa using fun _ _ _ => le_trans) (by simpa using fun x y => le_total x y) _
    have hnodup := hperm.nodup_iff.mpr (h.nodup_readyNames order)
    exact (hsorted.and hnodup).imp fun ⟨hle, hne⟩ => lt_of_le_of_ne hle hne
  · rw [hperm.mem_iff, h.mem_readyNames order hclosed]

/-- **The loop lists the layers**, or it meets a cycle. -/
theorem startupLoop_cases (hclosed : ClosedUnder nodes below)
    (hcount : ∀ x y, (dependents y).count x = (below x).count y)
    (h : Peeled nodes below k remaining) :
    (∃ groups, startupLoop dependents orders round remaining = .ok groups ∧
      LayersFrom below nodes k groups) ∨
    startupLoop dependents orders round remaining = .error (.config .cycleDetected) ∧
      Cyclic below := by
  induction round, remaining using startupLoop.induct dependents orders generalizing k with
  | @case1 round ready hready =>
    refine .inl ⟨[], by rw [startupLoop, dif_pos hready, if_pos rfl], fun x hx => ?_⟩
    by_contra hdeep
    simpa [Degrees.names] using (h.left x).mpr ⟨hx, hdeep⟩
  | @case2 round remaining ready hready hleft =>
    refine .inr ⟨by rw [startupLoop, dif_pos hready, if_neg hleft], ?_⟩
    have hnames : remaining.names ≠ [] := by simpa [Degrees.names] using hleft
    refine cyclic_of_no_source hnames fun x hx => ?_
    obtain ⟨hnode, hdeep⟩ := (h.left x).mp hx
    have hblocked : ¬Shallow below (k + 1) x := by
      intro hshallow
      have hmem := (h.mem_readyNames (orders round) hclosed).mpr ⟨hnode, hshallow, hdeep⟩
      have hnone : readyNames (orders round) remaining = [] := hready
      simp [hnone] at hmem
    rw [shallow_succ_iff] at hblocked
    push Not at hblocked
    obtain ⟨y, hy, hdeepy⟩ := hblocked
    exact ⟨y, hy, (h.left y).mpr ⟨hclosed x y hy, hdeepy⟩⟩
  | @case3 round remaining ready hready failure hlayer =>
    obtain ⟨remaining', hok, -⟩ := h.takeLayer (orders round) hclosed hcount
    exact absurd (hlayer.symm.trans hok) (by simp)
  | @case4 round remaining ready hready remaining' hlayer ih =>
    obtain ⟨next, hok, hnext⟩ := h.takeLayer (orders round) hclosed hcount
    obtain rfl : remaining' = next := Except.ok.inj (hlayer.symm.trans hok)
    rw [startupLoop_layer dependents orders hready hlayer]
    obtain ⟨groups, hgroups, hlayers⟩ | ⟨herror, hcyclic⟩ := ih hnext
    · refine .inl ⟨_, by rw [hgroups]; rfl, h.layer (orders round) hclosed hready hlayers⟩
    · exact .inr ⟨by rw [herror]; rfl, hcyclic⟩

end Rounds

end Peeled

/-! ## The order -/

namespace ProjectConfig

variable {config : ProjectConfig} {graph : DependencyGraph}

/-- Some entry names no process. -/
def HasUnknownDep (config : ProjectConfig) : Prop :=
  ∃ source target, target ∈ config.dependsOn source ∧ target ∉ config.names

theorem Graphed.peeled (h : Graphed config config.edges graph)
    (hknown : ¬config.HasUnknownDep) :
    Peeled {x | x ∈ config.names} config.dependsOn 0 graph.inDegree := by
  have hnames : graph.inDegree.names = config.names := by
    simp [Degrees.names, h.inDegree, Function.comp_def]
  refine ⟨⟨hnames ▸ config.nodup, fun e he => ?_⟩, fun x => ?_⟩
  · rw [h.inDegree] at he
    obtain ⟨x, -, rfl⟩ := List.mem_map.mp he
    rw [hnames, countP_edges, eq_comm, List.countP_eq_length]
    intro y hy
    by_contra hunknown
    exact hknown ⟨x, y, hy, by simpa using hunknown⟩
  · rw [hnames]
    exact ⟨fun hx => ⟨hx, not_shallow_zero⟩, fun hx => hx.1⟩

/-- **An unknown dependency, the layers, or a cycle.** -/
theorem startupOrder_cases (config : ProjectConfig) (orders : ℕ → IterationOrder) :
    (∃ source target, target ∈ config.dependsOn source ∧ target ∉ config.names ∧
      config.startupOrder orders = .error (.config (.unknownDep source target))) ∨
    ¬config.HasUnknownDep ∧
      ((∃ groups, config.startupOrder orders = .ok groups ∧
        LayersFrom config.dependsOn {x | x ∈ config.names} 0 groups) ∨
      config.startupOrder orders = .error (.config .cycleDetected) ∧ Cyclic config.dependsOn) := by
  have hsources : ∀ e ∈ config.edges, e.1 ∈ config.names := fun e he =>
    names_of_dependsOn (mem_edges.mp he)
  obtain ⟨hknown, graph, hgraph, hgraphed⟩ | ⟨e, he, hunknown, hgraph⟩ :=
    addDependencies_cases config.edges hsources .nil
  · have hnone : ¬config.HasUnknownDep := fun ⟨source, target, hdep, hunknown⟩ =>
      hunknown (hknown _ (mem_edges.mpr hdep))
    have hclosed : ClosedUnder {x | x ∈ config.names} config.dependsOn := fun x y hy => by
      by_contra hunknown
      exact hnone ⟨x, y, hy, hunknown⟩
    have horder : config.startupOrder orders =
        startupLoop graph.dependents orders 0 graph.inDegree := by
      rw [startupOrder, dependencyGraph, hgraph]
      rfl
    have hcount : ∀ x y, (graph.dependents y).count x = (config.dependsOn x).count y :=
      fun x y => (hgraphed.dependents y x).trans count_edges
    rw [horder]
    exact .inr ⟨hnone, startupLoop_cases hclosed hcount (hgraphed.peeled hnone)⟩
  · refine .inl ⟨e.1, e.2, mem_edges.mp he, hunknown, ?_⟩
    rw [startupOrder, dependencyGraph, hgraph]
    rfl

/-- What goes round goes through processes. -/
theorem names_of_cycle {x : String}
    (hcycle : Relation.TransGen (fun x y => y ∈ config.dependsOn x) x x) : x ∈ config.names := by
  obtain ⟨y, hy, -⟩ := Relation.TransGen.head'_iff.mp hcycle
  exact names_of_dependsOn hy

/-- **The same processes** gone through in another order. -/
theorem dependsOn_eq_of_perm {config' : ProjectConfig}
    (hperm : config'.processes.Perm config.processes) : config'.dependsOn = config.dependsOn := by
  funext x
  have hlookup : config'.processes.lookup x = config.processes.lookup x := by
    refine Option.ext fun processDef => ?_
    rw [lookup_eq_some_iff, lookup_eq_some_iff, hperm.mem_iff]
  rw [dependsOn, dependsOn, hlookup]

/-- An order of the groups leaves no cycle. -/
theorem not_cyclic_of_layers {groups : List (List String)}
    (h : LayersFrom config.dependsOn {x | x ∈ config.names} 0 groups) :
    ¬Cyclic config.dependsOn := fun ⟨_, hcycle⟩ => h.not_cycle (names_of_cycle hcycle) hcycle

/-- **The result tells the configs apart.** -/
theorem startupOrder_results (config : ProjectConfig) (orders : ℕ → IterationOrder) :
    ((∃ source target, config.startupOrder orders =
      .error (.config (.unknownDep source target))) ↔ config.HasUnknownDep) ∧
    (config.startupOrder orders = .error (.config .cycleDetected) ↔
      ¬config.HasUnknownDep ∧ Cyclic config.dependsOn) ∧
    ((∃ groups, config.startupOrder orders = .ok groups) ↔
      ¬config.HasUnknownDep ∧ ¬Cyclic config.dependsOn) ∧
    config.startupOrder orders ≠ .error .underflow := by
  obtain ⟨source, target, hdep, hunknown, horder⟩ | ⟨hknown, ⟨layers, horder, hlayers⟩ |
    ⟨horder, hcyclic⟩⟩ := config.startupOrder_cases orders <;> rw [horder]
  · have hhas : config.HasUnknownDep := ⟨source, target, hdep, hunknown⟩
    exact ⟨iff_of_true ⟨source, target, rfl⟩ hhas, iff_of_false (by simp) fun h => h.1 hhas,
      iff_of_false (by simp) fun h => h.1 hhas, by simp⟩
  · have hacyclic := not_cyclic_of_layers hlayers
    exact ⟨iff_of_false (by simp) hknown, iff_of_false (by simp) fun h => hacyclic h.2,
      iff_of_true ⟨layers, rfl⟩ ⟨hknown, hacyclic⟩, by simp⟩
  · exact ⟨iff_of_false (by simp) hknown, iff_of_true rfl ⟨hknown, hcyclic⟩,
      iff_of_false (by simp) fun h => h.2 hcyclic, by simp⟩

/-- **The groups are the layers**, and nothing else is. -/
theorem startupOrder_ok_iff (config : ProjectConfig) (orders : ℕ → IterationOrder)
    (groups : List (List String)) : config.startupOrder orders = .ok groups ↔
      ¬config.HasUnknownDep ∧ LayersFrom config.dependsOn {x | x ∈ config.names} 0 groups := by
  obtain ⟨source, target, hdep, hunknown, horder⟩ | ⟨hknown, ⟨layers, horder, hlayers⟩ |
    ⟨horder, hcyclic⟩⟩ := config.startupOrder_cases orders <;> rw [horder]
  · exact iff_of_false (by simp) fun h => h.1 ⟨source, target, hdep, hunknown⟩
  · constructor
    · intro heq
      exact ⟨hknown, Except.ok.inj heq ▸ hlayers⟩
    · rintro ⟨-, h⟩
      rw [hlayers.unique h]
  · exact iff_of_false (by simp) fun h => not_cyclic_of_layers h.2 hcyclic

/-- Each process stands in one group, once. -/
theorem perm_flatten {groups : List (List String)}
    (h : LayersFrom config.dependsOn {x | x ∈ config.names} 0 groups) :
    groups.flatten.Perm config.names := by
  have hnodup : config.names.Nodup := config.nodup
  rw [List.perm_ext_iff_of_nodup h.nodup_flatten hnodup]
  intro x
  rw [h.mem_flatten]
  exact ⟨fun hx => hx.1, fun hx => ⟨hx, not_shallow_zero⟩⟩

/-- **The order the maps are gone through in** leaves no trace. -/
theorem startupOrder_ok_iff_of_perm {config' : ProjectConfig} (orders orders' : ℕ → IterationOrder)
    (hperm : config'.processes.Perm config.processes) (groups : List (List String)) :
    config'.startupOrder orders' = .ok groups ↔ config.startupOrder orders = .ok groups := by
  have hnames : ∀ x, x ∈ config'.names ↔ x ∈ config.names := fun x => (hperm.map _).mem_iff
  have hset : {x | x ∈ config'.names} = {x | x ∈ config.names} := Set.ext hnames
  have hunknown : config'.HasUnknownDep ↔ config.HasUnknownDep := by
    simp only [HasUnknownDep, dependsOn_eq_of_perm hperm, hnames]
  rw [startupOrder_ok_iff, startupOrder_ok_iff, dependsOn_eq_of_perm hperm, hset, hunknown]

/-- **The startup order is the list of the layers**: an unknown dependency is reported if there is
one, else a cycle if there is one; otherwise every process stands in the group that the longest
chain below it is long, whatever order the maps are gone through in. -/
theorem startupOrder_layers (config : ProjectConfig) (orders : ℕ → IterationOrder) :
    ((∃ source target, config.startupOrder orders =
      .error (.config (.unknownDep source target))) ↔ config.HasUnknownDep) ∧
    (config.startupOrder orders = .error (.config .cycleDetected) ↔
      ¬config.HasUnknownDep ∧ Cyclic config.dependsOn) ∧
    ((∃ groups, config.startupOrder orders = .ok groups) ↔
      ¬config.HasUnknownDep ∧ ¬Cyclic config.dependsOn) ∧
    config.startupOrder orders ≠ .error .underflow ∧
    (∀ groups, config.startupOrder orders = .ok groups → groups.flatten.Perm config.names ∧
      ∀ index group, groups[index]? = some group → group ≠ [] ∧ group.Pairwise (· < ·) ∧
        ∀ x ∈ group, IsGreatest {n | ChainBelow config.dependsOn x n} index) ∧
    ∀ (config' : ProjectConfig) (orders' : ℕ → IterationOrder),
      config'.processes.Perm config.processes → ∀ groups,
        (config'.startupOrder orders' = .ok groups ↔ config.startupOrder orders = .ok groups) := by
  obtain ⟨hunknown, hcycle, hok, hunderflow⟩ := config.startupOrder_results orders
  refine ⟨hunknown, hcycle, hok, hunderflow, fun groups horder => ?_,
    fun config' orders' hperm groups => startupOrder_ok_iff_of_perm orders orders' hperm groups⟩
  obtain ⟨-, hlayers⟩ := (config.startupOrder_ok_iff orders groups).mp horder
  refine ⟨perm_flatten hlayers, fun index group hgroup => ?_⟩
  obtain ⟨hne, hsorted, hmem⟩ := hlayers.getElem? hgroup
  refine ⟨hne, hsorted, fun x hx => ?_⟩
  simpa using ((hmem x).mp hx).2

end ProjectConfig

end AgentProcs
