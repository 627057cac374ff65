import AgentProcs.Machinery.Paths
import AgentProcs.Protocol.Messages

/-!
# Daemon/EventFilter — which changes restart a process

    /home/u/target/web/src/main.rs
    └─────── base ─────┘ └── r ──┘        a glob is tried on `r` and on all of it

A watcher is told the absolute path of what has changed.  It tries every glob on that path and on
what is left of it behind the base directory, which is all of it when the base is relative.
-/

namespace AgentProcs

/-- Default patterns always ignored by watchers. -/
def DEFAULT_IGNORE : List String :=
  ["**/.git/**", "**/node_modules/**", "**/target/**", "**/__pycache__/**", "**/*.pyc",
    "**/.DS_Store"]

/-- `Glob::new`: the paths that a pattern matches, or what is wrong with the pattern. -/
abbrev GlobCompiler := String → Except String (RawPath → Bool)

section Filter

variable (compile : GlobCompiler)

def buildWatchSet (paths : List String) : Except String (RawPath → Bool) := do
  let globs ← paths.mapM compile
  return fun path => globs.any (· path)

def buildIgnoreSet (userIgnore : Option (List String)) : Except String (RawPath → Bool) :=
  buildWatchSet compile (DEFAULT_IGNORE ++ userIgnore.getD [])

/-- Is the event of this path passed on? -/
def forwards (watchSet ignoreSet : RawPath → Bool) (base path : RawPath) : Bool :=
  let relative := (path.stripPrefix base).getD path
  if !watchSet relative && !watchSet path then false
  else if ignoreSet relative || ignoreSet path then false
  else true

/-- The directory that is watched. -/
def baseDir (cwd : Option String) : RawPath := .parse (cwd.getD ".")

/-- `create_watcher`, as far as its filter. -/
def createWatcher (config : WatchConfig) (cwd : Option String) : Except String (RawPath → Bool) := do
  let ignoreSet ← buildIgnoreSet compile config.ignore
  let watchSet ← buildWatchSet compile config.paths
  return forwards watchSet ignoreSet (baseDir cwd)

/-- The path that is reported of a file in the directory: the daemon's own directory comes first. -/
def reported (daemonCwd : RawPath) (cwd : Option String) (r : RawPath) : RawPath :=
  (daemonCwd.join (baseDir cwd)).join r

/-- One of these patterns matches the path. -/
def Matches (patterns : List String) (path : RawPath) : Prop :=
  ∃ pattern ∈ patterns, ∃ glob, compile pattern = .ok glob ∧ glob path = true

instance (patterns : List String) (path : RawPath) : Decidable (Matches compile patterns path) :=
  decidable_of_iff
    (patterns.any fun pattern => (compile pattern).toOption.any (· path)) (by
      simp only [List.any_eq_true, Matches]
      refine exists_congr fun pattern => and_congr_right fun _ => ?_
      cases compile pattern <;> simp [Except.toOption])

end Filter

namespace WatchConfig

variable (compile : GlobCompiler) (config : WatchConfig) (path : RawPath)

def Watches : Prop := Matches compile config.paths path

/-- By default, or because the user says so. -/
def Ignores : Prop := Matches compile (DEFAULT_IGNORE ++ config.ignore.getD []) path

instance : Decidable (config.Watches compile path) := inferInstanceAs (Decidable (Matches ..))

instance : Decidable (config.Ignores compile path) := inferInstanceAs (Decidable (Matches ..))

/-- **The path of the base does not matter** for this file: what `inside` is to say is that the base
is absolute, so that `r` is tried at all. -/
structure Blind (inside : Bool) (r full : RawPath) : Prop where
  kept : config.Watches compile r → ¬config.Ignores compile r →
    ¬config.Ignores compile full ∧ (inside = false → config.Watches compile full)
  dropped : config.Watches compile full → ¬config.Ignores compile full →
    inside = true ∧ config.Ignores compile r ∨
      config.Watches compile r ∧ ¬config.Ignores compile r

end WatchConfig

section Filter

variable {compile : GlobCompiler} {config : WatchConfig} {cwd : Option String}
  {daemonCwd r path : RawPath} {filter : RawPath → Bool}

/-- **A set of globs matches what one of its patterns matches.** -/
theorem buildWatchSet_iff {patterns : List String} {set : RawPath → Bool}
    (h : buildWatchSet compile patterns = .ok set) :
    set path = true ↔ Matches compile patterns path := by
  induction patterns generalizing set with
  | nil =>
    obtain rfl : (fun _ => false) = set := Except.ok.inj h
    simp [Matches]
  | cons pattern patterns ih =>
    rw [buildWatchSet, List.mapM_cons] at h
    cases hglob : compile pattern with
    | error e =>
      rw [hglob] at h
      cases h
    | ok glob =>
      cases hglobs : patterns.mapM compile with
      | error e =>
        rw [hglob, hglobs] at h
        cases h
      | ok globs =>
        rw [hglob, hglobs] at h
        obtain rfl : (fun path => (glob :: globs).any (· path)) = set := Except.ok.inj h
        have hset : buildWatchSet compile patterns = .ok fun path => globs.any (· path) := by
          rw [buildWatchSet, hglobs]
          rfl
        have hrest := ih hset
        simp only [List.any_cons, Bool.or_eq_true, hrest]
        simp [Matches, hglob]

theorem forwards_iff {watchSet ignoreSet : RawPath → Bool} {base : RawPath} :
    forwards watchSet ignoreSet base path = true ↔
      (watchSet ((path.stripPrefix base).getD path) = true ∨ watchSet path = true) ∧
      ¬ignoreSet ((path.stripPrefix base).getD path) = true ∧ ¬ignoreSet path = true := by
  rw [forwards]
  generalize watchSet ((path.stripPrefix base).getD path) = w
  generalize ignoreSet ((path.stripPrefix base).getD path) = i
  cases w <;> cases i <;> cases watchSet path <;> cases ignoreSet path <;> simp

/-- What is passed on, by the globs. -/
theorem createWatcher_iff (h : createWatcher compile config cwd = .ok filter) (path : RawPath) :
    filter path = true ↔
      (config.Watches compile ((path.stripPrefix (baseDir cwd)).getD path) ∨
        config.Watches compile path) ∧
      ¬config.Ignores compile ((path.stripPrefix (baseDir cwd)).getD path) ∧
      ¬config.Ignores compile path := by
  rw [createWatcher] at h
  cases hignore : buildIgnoreSet compile config.ignore with
  | error e =>
    rw [hignore] at h
    cases h
  | ok ignoreSet =>
    cases hwatch : buildWatchSet compile config.paths with
    | error e =>
      rw [hignore, hwatch] at h
      cases h
    | ok watchSet =>
      rw [hignore, hwatch] at h
      obtain rfl : forwards watchSet ignoreSet (baseDir cwd) = filter := Except.ok.inj h
      simp only [WatchConfig.Watches, WatchConfig.Ignores, ← buildWatchSet_iff hwatch,
        ← buildWatchSet_iff hignore, forwards_iff]

/-- **Only the path inside the project decides, exactly when** the globs make the same of the whole
path. -/
theorem forwarded_iff (compile : GlobCompiler) (config : WatchConfig) (cwd : Option String)
    (daemonCwd r : RawPath) (filter : RawPath → Bool) (hdaemon : daemonCwd.absolute = true)
    (hr : r.Clean) (h : createWatcher compile config cwd = .ok filter) :
    (filter (reported daemonCwd cwd r) = true ↔
      config.Watches compile r ∧ ¬config.Ignores compile r) ↔
    config.Blind compile (baseDir cwd).absolute r (reported daemonCwd cwd r) := by
  rw [createWatcher_iff h]
  cases hbase : (baseDir cwd).absolute with
  | true =>
    have hstrip : ((reported daemonCwd cwd r).stripPrefix (baseDir cwd)).getD
        (reported daemonCwd cwd r) = r := by
      have hjoin : daemonCwd.join (baseDir cwd) = baseDir cwd := if_pos hbase
      rw [reported, hjoin, RawPath.stripPrefix_join hbase hr, Option.getD_some]
    rw [hstrip]
    constructor
    · intro hiff
      refine ⟨fun hw hi => ?_, fun hw hi => ?_⟩
      · exact ⟨(hiff.mpr ⟨hw, hi⟩).2.2, nofun⟩
      · by_cases hir : config.Ignores compile r
        · exact .inl ⟨rfl, hir⟩
        · exact .inr (hiff.mp ⟨.inr hw, hir, hi⟩)
    · rintro ⟨hkept, hdropped⟩
      refine ⟨fun ⟨hw, hir, hi⟩ => ?_, fun ⟨hw, hir⟩ => ⟨.inl hw, hir, (hkept hw hir).1⟩⟩
      rcases hw with hw | hw
      · exact ⟨hw, hir⟩
      · exact (hdropped hw hi).resolve_left fun hno => hir hno.2
  | false =>
    have hfull : (reported daemonCwd cwd r).absolute = true := by
      rw [reported, RawPath.join_eq hr.relative, RawPath.join_eq hbase, hdaemon]
    rw [RawPath.stripPrefix_getD hfull hbase]
    constructor
    · intro hiff
      refine ⟨fun hw hi => ?_, fun hw hi => .inr (hiff.mp ⟨.inl hw, hi, hi⟩)⟩
      obtain ⟨hw', hi', -⟩ := hiff.mpr ⟨hw, hi⟩
      exact ⟨hi', fun _ => or_self_iff.mp hw'⟩
    · rintro ⟨hkept, hdropped⟩
      refine ⟨fun ⟨hw, hi, _⟩ => ?_, fun ⟨hw, hi⟩ => ?_⟩
      · exact (hdropped (or_self_iff.mp hw) hi).resolve_left fun hno => nomatch hno.1
      · obtain ⟨hi', hw'⟩ := hkept hw hi
        exact ⟨.inl (hw' rfl), hi', hi'⟩

end Filter

/-! ## A project below `target`, and one without a directory of its own -/

/-- Something in a directory of this name. -/
def isBelow (name : String) (p : RawPath) : Bool := p.pieces.dropLast.contains name

/-- What these patterns match. -/
def sampleGlobs : GlobCompiler
  | "**/.git/**" => .ok (isBelow ".git")
  | "**/node_modules/**" => .ok (isBelow "node_modules")
  | "**/target/**" => .ok (isBelow "target")
  | "**/__pycache__/**" => .ok (isBelow "__pycache__")
  | "**/*.pyc" => .ok fun p => p.pieces.getLast?.any fun x => ".pyc".toList.isSuffixOf x.toList
  | "**/.DS_Store" => .ok fun p => p.pieces.getLast? == some ".DS_Store"
  | "src/**" => .ok fun p => !p.absolute && p.pieces.head? == some "src" && 2 ≤ p.pieces.length
  | pattern => .error s!"unknown pattern: {pattern}"

def sampleConfig : WatchConfig := ⟨["src/**"], none⟩

def samplePath : RawPath := ⟨false, ["src", "main.rs"]⟩

/-- A source file below `target` is ignored, and without a directory none is watched. -/
theorem not_forwarded :
    sampleConfig.Watches sampleGlobs samplePath ∧ ¬sampleConfig.Ignores sampleGlobs samplePath ∧
    (∃ filter, createWatcher sampleGlobs sampleConfig (some "/home/u/target/web") = .ok filter ∧
      filter (reported ⟨true, ["home", "u", "web"]⟩ (some "/home/u/target/web") samplePath) =
        false) ∧
    ∃ filter, createWatcher sampleGlobs sampleConfig none = .ok filter ∧
      filter (reported ⟨true, ["home", "u", "web"]⟩ none samplePath) = false := by
  refine ⟨by decide, by decide, ⟨_, rfl, ?_⟩, _, rfl, ?_⟩
  · decide
  · decide

/-- Elsewhere it is passed on. -/
theorem forwarded_web : ∃ filter,
    createWatcher sampleGlobs sampleConfig (some "/home/u/web") = .ok filter ∧
      filter (reported ⟨true, ["home", "u"]⟩ (some "/home/u/web") samplePath) = true := by
  refine ⟨_, rfl, ?_⟩
  refine ((forwarded_iff sampleGlobs sampleConfig (some "/home/u/web") ⟨true, ["home", "u"]⟩
    samplePath _ rfl ⟨rfl, by decide⟩ rfl).mpr ⟨fun _ _ => ⟨by decide, nofun⟩, fun _ _ => ?_⟩).mpr
      ⟨by decide, by decide⟩
  exact .inr ⟨by decide, by decide⟩

end AgentProcs
