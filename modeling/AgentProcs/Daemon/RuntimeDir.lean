import AgentProcs.Machinery.Runs
import Mathlib.Logic.Function.Basic
import Mathlib.Data.Nat.Notation

/-!
# Daemon/RuntimeDir — the runtime directory is ours and private, or it is not used

    open ──▸ fstat: whose? ──▸ fstat: loose? ──fchmod 0700──▸ fstat again ──▸ Ok
       └─▸ refuse    └─▸ refuse                                    └─▸ refuse

The sockets lie in a directory of a fixed name in the shared `/tmp`, where any user can put
something of that name first.  `check_private_dir` looks at what it has opened and changes what it
has looked at, so it makes no difference what happens to the name in between.  Here any number of
calls run beside other users, who create files, change their own, and rebind the name as long as
what it names is not ours: `/tmp` is sticky.  Other programs of the same user are taken to leave the
directory alone.
-/

namespace AgentProcs

inductive FileKind where
  | directory
  | regular
  | symlink
  deriving DecidableEq, Repr

structure Inode where
  kind : FileKind
  uid : ℕ
  mode : ℕ
  deriving DecidableEq, Repr

/-- Group or world has access. -/
def Inode.loose (x : Inode) : Bool := x.mode &&& 0o077 != 0

/-- How far a call has come; `handle` is what it has opened. -/
inductive DirCheck where
  | idle
  | creating
  | opening
  | opened (handle : ℕ)
  | tightening (handle : ℕ)
  | tightened (handle : ℕ)
  | done (result : Except String ℕ)

structure SharedTmp where
  /-- The runtime directory's path. -/
  dir : String
  euid : ℕ
  inodes : ℕ → Option Inode
  /-- What the path names. -/
  entry : Option ℕ
  calls : ℕ → DirCheck

namespace SharedTmp

def refuse (s : SharedTmp) (why : String) : DirCheck :=
  .done (.error s!"refusing to use runtime directory {s.dir}: {why}")

/-- A call comes to its next point. -/
def goTo (s : SharedTmp) (c : ℕ) (check : DirCheck) : SharedTmp :=
  { s with calls := Function.update s.calls c check }

def setInode (s : SharedTmp) (i : ℕ) (x : Inode) : SharedTmp :=
  { s with inodes := Function.update s.inodes i (some x) }

/-- What the first `fstat` leads to. -/
def afterStat (s : SharedTmp) (i : ℕ) (x : Inode) : DirCheck :=
  if x.uid != s.euid then s.refuse s!"owned by uid {x.uid}, expected {s.euid}"
  else if x.loose then .tightening i
  else .done (.ok i)

/-- What the second `fstat` leads to. -/
def afterTightening (s : SharedTmp) (i : ℕ) (x : Inode) : DirCheck :=
  if x.loose then s.refuse "could not restrict permissions to 0700" else .done (.ok i)

end SharedTmp

inductive TmpEvent where
  | ensure (call : ℕ)
  | verify (call : ℕ)
  | create (call : ℕ)
  | open (call : ℕ)
  | stat (call : ℕ)
  | chmod (call handle : ℕ)
  | restat (call : ℕ)
  | fail (call : ℕ)
  | newInode (inode : ℕ)
  | changeMode (inode : ℕ)
  | rebind
  deriving DecidableEq, Repr

inductive TmpStep : SharedTmp → TmpEvent → SharedTmp → Prop
  -- the calls
  | ensure {s : SharedTmp} {c : ℕ} (hcall : s.calls c = .idle) :
      TmpStep s (.ensure c) (s.goTo c .creating)
  | verify {s : SharedTmp} {c : ℕ} (hcall : s.calls c = .idle) :
      TmpStep s (.verify c) (s.goTo c .opening)
  /-- Mode 0700, less what the umask takes away. -/
  | createNew {s : SharedTmp} {c i mode : ℕ} (hcall : s.calls c = .creating)
      (hmissing : s.entry = none) (hfresh : s.inodes i = none)
      (hmode : Inode.loose ⟨.directory, s.euid, mode⟩ = false) : TmpStep s (.create c)
        { (s.setInode i ⟨.directory, s.euid, mode⟩).goTo c .opening with entry := some i }
  /-- `AlreadyExists` is not an error here. -/
  | createExists {s : SharedTmp} {c i : ℕ} (hcall : s.calls c = .creating)
      (hentry : s.entry = some i) : TmpStep s (.create c) (s.goTo c .opening)
  | openDirectory {s : SharedTmp} {c i : ℕ} {x : Inode} (hcall : s.calls c = .opening)
      (hentry : s.entry = some i) (hx : s.inodes i = some x) (hkind : x.kind = .directory) :
      TmpStep s (.open c) (s.goTo c (.opened i))
  | openOther {s : SharedTmp} {c i : ℕ} {x : Inode} (hcall : s.calls c = .opening)
      (hentry : s.entry = some i) (hx : s.inodes i = some x) (hkind : x.kind ≠ .directory) :
      TmpStep s (.open c) (s.goTo c (s.refuse "not a real directory (symlink or file)"))
  | openDenied {s : SharedTmp} {c : ℕ} (hcall : s.calls c = .opening) :
      TmpStep s (.open c) (s.goTo c (s.refuse "cannot open it (permission denied)"))
  | stat {s : SharedTmp} {c i : ℕ} {x : Inode} (hcall : s.calls c = .opened i)
      (hx : s.inodes i = some x) : TmpStep s (.stat c) (s.goTo c (s.afterStat i x))
  | chmod {s : SharedTmp} {c i : ℕ} {x : Inode} (hcall : s.calls c = .tightening i)
      (hx : s.inodes i = some x) :
      TmpStep s (.chmod c i) ((s.setInode i { x with mode := 0o700 }).goTo c (.tightened i))
  /-- A file system that keeps the mode it has. -/
  | chmodIgnored {s : SharedTmp} {c i : ℕ} (hcall : s.calls c = .tightening i) :
      TmpStep s (.chmod c i) (s.goTo c (.tightened i))
  | restat {s : SharedTmp} {c i : ℕ} {x : Inode} (hcall : s.calls c = .tightened i)
      (hx : s.inodes i = some x) : TmpStep s (.restat c) (s.goTo c (s.afterTightening i x))
  /-- Any system call may fail otherwise. -/
  | fail {s : SharedTmp} {c : ℕ} {e : String} (hcall : s.calls c ≠ .idle)
      (hdone : ∀ result, s.calls c ≠ .done result) : TmpStep s (.fail c) (s.goTo c (.done (.error e)))
  -- other users
  | newInode {s : SharedTmp} {i : ℕ} {x : Inode} (hfresh : s.inodes i = none)
      (hother : x.uid ≠ s.euid) : TmpStep s (.newInode i) (s.setInode i x)
  | changeMode {s : SharedTmp} {i mode : ℕ} {x : Inode} (hx : s.inodes i = some x)
      (hother : x.uid ≠ s.euid) : TmpStep s (.changeMode i) (s.setInode i { x with mode })
  | rebind {s : SharedTmp} {entry : Option ℕ}
      (hother : ∀ i x, s.entry = some i → s.inodes i = some x → x.uid ≠ s.euid)
      (hthere : ∀ i, entry = some i → (s.inodes i).isSome = true) :
      TmpStep s .rebind { s with entry }

/-- Calls of `check_private_dir` beside other users. -/
def sharedTmp : Machine SharedTmp TmpEvent where
  init s := (∀ c, s.calls c = .idle) ∧ ∀ i, s.entry = some i → (s.inodes i).isSome = true
  step := TmpStep

namespace SharedTmp

variable {s s' : SharedTmp} {e : TmpEvent} {c i : ℕ} {ts : List (Transition SharedTmp TmpEvent)}

/-- A directory; if it is ours, the path names it. -/
def Opened (s : SharedTmp) (i : ℕ) : Prop :=
  ∃ x, s.inodes i = some x ∧ x.kind = .directory ∧ (x.uid = s.euid → s.entry = some i)

/-- A directory of ours, which the path names. -/
def Ours (s : SharedTmp) (i : ℕ) : Prop :=
  ∃ x, s.inodes i = some x ∧ x.kind = .directory ∧ x.uid = s.euid ∧ s.entry = some i

/-- A directory of ours that nobody else has access to, and the path names it. -/
def Private (s : SharedTmp) (i : ℕ) : Prop :=
  s.entry = some i ∧
    ∃ x, s.inodes i = some x ∧ x.kind = .directory ∧ x.uid = s.euid ∧ x.loose = false

/-! ## What a step can do to what has been opened -/

/-- **What stays**: what a file is and whose, our modes unless they become 0700, and the name of
what is ours. -/
structure Stays (s s' : SharedTmp) : Prop where
  euid : s'.euid = s.euid
  inodes : ∀ i x, s.inodes i = some x → ∃ x', s'.inodes i = some x' ∧ x'.kind = x.kind ∧
    x'.uid = x.uid ∧ (x.uid = s.euid → x'.mode = x.mode ∨ x'.mode = 0o700)
  entry : ∀ i x, s.inodes i = some x → x.uid = s.euid → s.entry = some i → s'.entry = some i

theorem Stays.of_inodes (heuid : s'.euid = s.euid) (hinodes : s'.inodes = s.inodes)
    (hentry : ∀ i x, s.inodes i = some x → x.uid = s.euid → s.entry = some i →
      s'.entry = some i) : Stays s s' :=
  ⟨heuid, fun _ x hx => ⟨x, hinodes ▸ hx, rfl, rfl, fun _ => .inl rfl⟩, hentry⟩

theorem stays_setInode {x : Inode} (h : ∀ y, s.inodes i = some y → x.kind = y.kind ∧
    x.uid = y.uid ∧ (y.uid = s.euid → x.mode = y.mode ∨ x.mode = 0o700)) :
    Stays s (s.setInode i x) := by
  refine ⟨rfl, fun j y hy => ?_, fun _ _ _ _ => id⟩
  by_cases hj : j = i
  · subst hj
    exact ⟨x, Function.update_self .., h y hy⟩
  · exact ⟨y, (Function.update_of_ne hj _ _).trans hy, rfl, rfl, fun _ => .inl rfl⟩

theorem stays_step (hstep : sharedTmp.step s e s') : Stays s s' := by
  have hmove (c : ℕ) (check : DirCheck) : Stays s (s.goTo c check) :=
    .of_inodes rfl rfl fun _ _ _ _ => id
  cases hstep with
  | @createNew c i mode _ hmissing hfresh =>
    have hset : Stays s (s.setInode i ⟨.directory, s.euid, mode⟩) := stays_setInode fun y hy =>
      absurd (hfresh.symm.trans hy) (by simp)
    exact ⟨rfl, hset.inodes, fun j y _ _ hj => absurd (hmissing.symm.trans hj) (by simp)⟩
  | @chmod c i x _ hx =>
    have hset := stays_setInode (s := s) (i := i) (x := { x with mode := 0o700 }) fun y hy =>
      Option.some.inj (hx.symm.trans hy) ▸ ⟨rfl, rfl, fun _ => .inr rfl⟩
    exact ⟨rfl, hset.inodes, hset.entry⟩
  | newInode hfresh => exact stays_setInode fun y hy => absurd (hfresh.symm.trans hy) (by simp)
  | changeMode hx hother =>
    exact stays_setInode fun y hy =>
      Option.some.inj (hx.symm.trans hy) ▸ ⟨rfl, rfl, fun hours => absurd hours hother⟩
  | rebind hother =>
    exact .of_inodes rfl rfl fun i x hx hours hentry => absurd hours (hother i x hentry hx)
  | _ => exact hmove _ _

theorem Opened.stays (h : s.Opened i) (hstays : Stays s s') : s'.Opened i := by
  obtain ⟨x, hx, hkind, hentry⟩ := h
  obtain ⟨x', hx', hkind', huid, -⟩ := hstays.inodes i x hx
  refine ⟨x', hx', hkind'.trans hkind, fun hours => ?_⟩
  have hown : x.uid = s.euid := huid.symm.trans (hours.trans hstays.euid)
  exact hstays.entry i x hx hown (hentry hown)

theorem Ours.stays (h : s.Ours i) (hstays : Stays s s') : s'.Ours i := by
  obtain ⟨x, hx, hkind, hours, hentry⟩ := h
  obtain ⟨x', hx', hkind', huid, -⟩ := hstays.inodes i x hx
  exact ⟨x', hx', hkind'.trans hkind, (huid.trans hours).trans hstays.euid.symm,
    hstays.entry i x hx hours hentry⟩

/-- **What is private stays private**, whatever the others do. -/
theorem Private.stays (h : s.Private i) (hstays : Stays s s') : s'.Private i := by
  obtain ⟨hentry, x, hx, hkind, hours, hmode⟩ := h
  obtain ⟨x', hx', hkind', huid, hmodes⟩ := hstays.inodes i x hx
  refine ⟨hstays.entry i x hx hours hentry, x', hx', hkind'.trans hkind,
    (huid.trans hours).trans hstays.euid.symm, ?_⟩
  rcases hmodes hours with hsame | htight
  · rw [Inode.loose, hsame]
    exact hmode
  · rw [Inode.loose, htight]
    decide

/-! ## What a call knows -/

/-- What a call that has come this far knows of its handle. -/
def Knows (s : SharedTmp) : DirCheck → Prop
  | .opened i => s.Opened i
  | .tightening i => s.Ours i
  | .tightened i => s.Ours i
  | .done (.ok i) => s.Private i
  | _ => True

theorem Knows.stays {check : DirCheck} (h : s.Knows check) (hstays : Stays s s') :
    s'.Knows check := by
  match check with
  | .opened _ => exact Opened.stays h hstays
  | .tightening _ | .tightened _ => exact Ours.stays h hstays
  | .done (.ok _) => exact Private.stays h hstays
  | .idle | .creating | .opening | .done (.error _) => trivial

theorem knows_afterStat {x : Inode} (h : s.Opened i) (hx : s.inodes i = some x) :
    s.Knows (s.afterStat i x) := by
  obtain ⟨y, hy, hkind, hentry⟩ := h
  obtain rfl := Option.some.inj (hx.symm.trans hy)
  rw [afterStat]
  split
  · trivial
  rename_i huid
  have hours : x.uid = s.euid := by simpa using huid
  split
  · exact ⟨x, hx, hkind, hours, hentry hours⟩
  · exact ⟨hentry hours, x, hx, hkind, hours, Bool.eq_false_iff.mpr ‹_›⟩

theorem knows_afterTightening {x : Inode} (h : s.Ours i) (hx : s.inodes i = some x) :
    s.Knows (s.afterTightening i x) := by
  obtain ⟨y, hy, hkind, hours, hentry⟩ := h
  obtain rfl := Option.some.inj (hx.symm.trans hy)
  rw [afterTightening]
  split
  · trivial
  · exact ⟨hentry, x, hx, hkind, hours, Bool.eq_false_iff.mpr ‹_›⟩

/-- **Every call knows what it goes by**, in every reachable state. -/
theorem knows_of_reachable (h : sharedTmp.Reachable s) (c : ℕ) : s.Knows (s.calls c) := by
  refine h.invariant (P := fun s => ∀ c, s.Knows (s.calls c)) (fun s hinit c => ?_)
    (fun s e s' _ hknows hstep c => ?_) c
  · rw [hinit.1 c]
    trivial
  have hstays := stays_step hstep
  -- one call goes on, and the others go by what has stayed
  have hgo {c' : ℕ} {check : DirCheck} (hcalls : s'.calls = Function.update s.calls c' check)
      (hnew : s'.Knows check) : s'.Knows (s'.calls c) := by
    rw [hcalls]
    by_cases hc : c = c'
    · rw [hc, Function.update_self]
      exact hnew
    · rw [Function.update_of_ne hc]
      exact (hknows c).stays hstays
  have hold {c' : ℕ} {check check' : DirCheck} (hcall : s.calls c' = check)
      (hnext : s.Knows check → s.Knows check') : s'.Knows check' :=
    (hnext (hcall ▸ hknows c')).stays hstays
  cases hstep with
  | ensure | verify | createExists | openOther | openDenied | fail => exact hgo rfl trivial
  | createNew => exact hgo rfl trivial
  | openDirectory hcall hentry hx hkind =>
    exact hgo rfl (hold hcall fun _ => ⟨_, hx, hkind, fun _ => hentry⟩)
  | stat hcall hx => exact hgo rfl (hold hcall fun hopened => knows_afterStat hopened hx)
  | @chmod c' i _ hcall | @chmodIgnored c' i hcall =>
    exact hgo rfl (hold hcall fun hours => show s.Knows (.tightened i) from hours)
  | restat hcall hx => exact hgo rfl (hold hcall fun hours => knows_afterTightening hours hx)
  | newInode | changeMode | rebind => exact (hknows c).stays hstays

/-- What is private is so at the end of every run. -/
theorem Private.run (h : s.Private i) (hrun : sharedTmp.Run s ts s') : s'.Private i :=
  hrun.preserves (P := (·.Private i)) h fun _ _ hprivate hstep => hprivate.stays (stays_step hstep)

end SharedTmp

open SharedTmp in
/-- **The runtime directory is safe to use**: in every run of any number of calls beside other users,
nothing is ever tightened but a directory of ours that the path names, and once a call has returned
`Ok`, the path names a directory of ours that nobody else has access to, from then on. -/
theorem runtimeDir_safe {s : SharedTmp} (h : sharedTmp.Reachable s) :
    (∀ c i s', sharedTmp.step s (.chmod c i) s' → s.Ours i) ∧
    ∀ c i, s.calls c = .done (.ok i) → ∀ ts s', sharedTmp.Run s ts s' → s'.Private i := by
  refine ⟨fun c i s' hstep => ?_, fun c i hdone ts s' hrun => ?_⟩
  · have hknows := knows_of_reachable h c
    cases hstep with
    | chmod hcall | chmodIgnored hcall => exact (congrArg s.Knows hcall).mp hknows
  · exact Private.run ((congrArg s.Knows hdone).mp (knows_of_reachable h c)) hrun

/-! ## A directory of an older version -/

namespace LooseDir

/-- A directory of ours that everybody may read. -/
def start : SharedTmp where
  dir := "/tmp/agent-procs-1000"
  euid := 1000
  inodes := fun i => if i = 5 then some ⟨.directory, 1000, 0o755⟩ else none
  entry := some 5
  calls := fun _ => .idle

def opened : SharedTmp := (start.goTo 0 .opening).goTo 0 (.opened 5)

def tightened : SharedTmp :=
  ((opened.goTo 0 (.tightening 5)).setInode 5 ⟨.directory, 1000, 0o700⟩).goTo 0 (.tightened 5)

def verified : SharedTmp := tightened.goTo 0 (.done (.ok 5))

theorem reachable_opened : sharedTmp.Reachable opened := by
  have hstart : sharedTmp.Reachable start :=
    .init ⟨fun _ => rfl, fun i hi => Option.some.inj hi ▸ rfl⟩
  have hopening := hstart.step (M := sharedTmp) (.verify (c := 0) rfl)
  exact hopening.step (M := sharedTmp) (.openDirectory (c := 0) rfl rfl rfl rfl)

theorem reachable_verified : sharedTmp.Reachable verified := by
  have hstat : sharedTmp.Reachable (opened.goTo 0 (.tightening 5)) :=
    reachable_opened.step (M := sharedTmp)
      (.stat (c := 0) (i := 5) (x := ⟨.directory, 1000, 0o755⟩) rfl rfl)
  have hchmod : sharedTmp.Reachable tightened :=
    hstat.step (M := sharedTmp) (.chmod (c := 0) (x := ⟨.directory, 1000, 0o755⟩) rfl rfl)
  exact hchmod.step (M := sharedTmp) (.restat (c := 0) (x := ⟨.directory, 1000, 0o700⟩) rfl rfl)

/-- It is tightened, and stays so. -/
theorem verified_private : verified.Private 5 :=
  (runtimeDir_safe reachable_verified).2 0 5 rfl _ _ .refl

end LooseDir

end AgentProcs
