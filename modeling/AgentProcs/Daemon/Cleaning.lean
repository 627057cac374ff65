import AgentProcs.Daemon.Session
import AgentProcs.Logs.Attribution

/-!
# Daemon/Cleaning — `session clean`

    a.pid   a.sock   a.pid.pid   a.pid.sock
      │                  │
      └── a ◂── trim ────┘           whose is it?

A session is found by its PID file.  Whether it is dead is read from that file; what is removed goes
by the name that is left of it, and the end of the name is taken off as often as it is there.
-/

namespace AgentProcs

variable {S : Type*}

/-- The runtime directory, and the state directories of the sessions. -/
structure Runtime (S : Type*) where
  files : Directory FileName SessionContent
  states : Directory FileName S

/-- A name that a session can have: it names its state directory. -/
abbrev SessionName := { name : FileName // InDirectory name }

def socketPath (session : FileName) : FileName := session ++ ['.', 's', 'o', 'c', 'k']

def pidPath (session : FileName) : FileName := session ++ ['.', 'p', 'i', 'd']

/-- Can the process in the PID file be signalled? -/
def isDaemonAlive (signals : ℤ → Bool) (content : Option SessionContent) : Bool :=
  match content with
  | some (.text t) => (parsePid t).elim false signals
  | _ => false

/-- The session of a directory entry, if it is a PID file. -/
def pidEntry (entry : FileName) : Option FileName :=
  if (extension entry).map Char.toLower = ['p', 'i', 'd'] then
    some (trimEndMatches ['.', 'p', 'i', 'd'] entry)
  else none

/-- `remove_dir_all` of a state directory.  A name that is none leads to all of them. -/
def removeStateDir (session : FileName) (states : Directory FileName S) : Directory FileName S :=
  if session = [] ∨ session = ['.'] ∨ session = ['.', '.'] then fun _ => none
  else states.remove session

/-- Remove the socket, the PID file and the state directory that go by this name. -/
def Runtime.removeSession (session : FileName) (rt : Runtime S) : Runtime S where
  files := (rt.files.remove (socketPath session)).remove (pidPath session)
  states := removeStateDir session rt.states

/-- What is done about one entry. -/
def cleanEntry (signals : ℤ → Bool) (rt : Runtime S) (entry : FileName) : Runtime S :=
  match pidEntry entry with
  | none => rt
  | some session =>
    if isDaemonAlive signals (rt.files entry) then rt else rt.removeSession session

/-- `clean`, of the entries that the runtime directory lists. -/
def clean (signals : ℤ → Bool) (entries : List FileName) (rt : Runtime S) : Runtime S :=
  entries.foldl (cleanEntry signals) rt

namespace Runtime

/-- The runtime directory holds what sessions put there, and lists it. -/
structure Lists (entries : List FileName) (rt : Runtime S) : Prop where
  mem_iff : ∀ f, f ∈ entries ↔ (rt.files f).isSome
  sessions : ∀ f ∈ entries, ∃ s : SessionName, f = socketPath s ∨ f = pidPath s

/-- The session's own PID file denotes a dead daemon. -/
def Dead (signals : ℤ → Bool) (rt : Runtime S) (s : SessionName) : Prop :=
  (rt.files (pidPath s)).isSome ∧ isDaemonAlive signals (rt.files (pidPath s)) = false

/-- Nothing of the session is left. -/
structure Gone (rt : Runtime S) (s : SessionName) : Prop where
  socket : rt.files (socketPath s) = none
  pid : rt.files (pidPath s) = none
  state : rt.states s = none

/-- Everything of the session is in place. -/
structure Spared (rt rt' : Runtime S) (s : SessionName) : Prop where
  socket : rt'.files (socketPath s) = rt.files (socketPath s)
  pid : rt'.files (pidPath s) = rt.files (pidPath s)
  state : rt'.states s = rt.states s

/-- **Cleaning removes the dead sessions**, all of each and no other. -/
structure Cleaned (signals : ℤ → Bool) (rt rt' : Runtime S) : Prop where
  gone : ∀ s, rt.Dead signals s → rt'.Gone s
  spared : ∀ s, ¬rt.Dead signals s → rt.Spared rt' s

end Runtime

/-! ## Whose file is it? -/

section Names

variable {s t : SessionName} {session : FileName}

theorem pidPath_injective : pidPath.Injective := fun _ _ h => List.append_cancel_right h

theorem socketPath_injective : socketPath.Injective := fun _ _ h => List.append_cancel_right h

theorem socketPath_ne_pidPath (x y : FileName) : socketPath x ≠ pidPath y := fun h => by
  have hlast := congrArg List.getLast? h
  rw [socketPath, pidPath, List.getLast?_append_cons, List.getLast?_append_cons] at hlast
  exact absurd hlast (by decide)

theorem extension_session (s : SessionName) {ext : FileName} (h : '.' ∉ ext) :
    extension (s.val ++ '.' :: ext) = ext := by
  cases hs : s.val with
  | nil => exact absurd hs s.property.nonempty
  | cons c cs => exact extension_append h c cs

theorem pidEntry_socketPath (s : SessionName) : pidEntry (socketPath s) = none := by
  rw [pidEntry, socketPath, extension_session s (by decide), if_neg (by decide)]

theorem pidEntry_pidPath (s : SessionName) :
    pidEntry (pidPath s) = some (trimEndMatches ['.', 'p', 'i', 'd'] s) := by
  rw [pidEntry, pidPath, extension_session s (by decide), if_pos (by decide),
    trimEndMatches_append (List.cons_ne_nil _ _)]

/-- A name that does not end like a PID file is found as it is. -/
theorem trimEndMatches_pid (h : ¬['.', 'p', 'i', 'd'] <:+ session) :
    trimEndMatches ['.', 'p', 'i', 'd'] session = session := by
  rw [trimEndMatches, if_neg fun hends => h hends.2]

/-- What is found does not end like a PID file. -/
theorem not_suffix_of_pidEntry {entry : FileName} (h : pidEntry entry = some session) :
    ¬['.', 'p', 'i', 'd'] <:+ session := by
  rw [pidEntry] at h
  split_ifs at h
  obtain rfl := Option.some.inj h
  exact not_suffix_trimEndMatches (List.cons_ne_nil _ _) _

end Names

/-! ## What is removed -/

section Remove

variable {rt rt' : Runtime S} {s t : SessionName} {signals : ℤ → Bool} {entries : List FileName}

theorem Runtime.files_removeSession (rt : Runtime S) (session f : FileName) :
    (rt.removeSession session).files f =
      if f = socketPath session ∨ f = pidPath session then none else rt.files f := by
  have hfiles : (rt.removeSession session).files f = Function.update
      (Function.update rt.files (socketPath session) none) (pidPath session) none f := rfl
  rw [hfiles, Function.update_apply, Function.update_apply]
  split_ifs <;> simp_all

theorem Runtime.states_removeSession (rt : Runtime S) (s t : SessionName) :
    (rt.removeSession s).states t = if t = s then none else rt.states t := by
  have hname : ¬(s.val = [] ∨ s.val = ['.'] ∨ s.val = ['.', '.']) := fun h =>
    h.elim s.property.nonempty fun h => h.elim s.property.notSelf s.property.notParent
  have hstates : (rt.removeSession s).states t = removeStateDir s.val rt.states t := rfl
  rw [hstates, removeStateDir, if_neg hname, Directory.remove, Function.update_apply]
  simp only [Subtype.ext_iff]

/-- **Removing a session** takes what is its own, -/
theorem Runtime.gone_removeSession (rt : Runtime S) (s : SessionName) :
    (rt.removeSession s).Gone s where
  socket := (rt.files_removeSession _ _).trans (if_pos (.inl rfl))
  pid := (rt.files_removeSession _ _).trans (if_pos (.inr rfl))
  state := (rt.states_removeSession s s).trans (if_pos rfl)

/-- and nothing of another. -/
theorem Runtime.spared_removeSession (rt : Runtime S) (hne : t ≠ s) :
    rt.Spared (rt.removeSession s) t where
  socket := by
    rw [files_removeSession, if_neg]
    exact fun h => h.elim (fun heq => hne (Subtype.ext (socketPath_injective heq)))
      (socketPath_ne_pidPath _ _)
  pid := by
    rw [files_removeSession, if_neg]
    exact fun h => h.elim (socketPath_ne_pidPath _ _).symm
      fun heq => hne (Subtype.ext (pidPath_injective heq))
  state := (rt.states_removeSession s t).trans (if_neg hne)

theorem Runtime.Spared.trans {rt'' : Runtime S} (h : rt.Spared rt' s) (h' : rt'.Spared rt'' s) :
    rt.Spared rt'' s :=
  ⟨h'.socket.trans h.socket, h'.pid.trans h.pid, h'.state.trans h.state⟩

theorem Runtime.Gone.of_spared (h : rt.Gone s) (h' : rt.Spared rt' s) : rt'.Gone s :=
  ⟨h'.socket.trans h.socket, h'.pid.trans h.pid, h'.state.trans h.state⟩

theorem cleanEntry_socketPath (signals : ℤ → Bool) (rt : Runtime S) (s : SessionName) :
    cleanEntry signals rt (socketPath s) = rt := by
  rw [cleanEntry, pidEntry_socketPath]

theorem cleanEntry_pidPath (signals : ℤ → Bool) (rt : Runtime S) (s : SessionName) :
    cleanEntry signals rt (pidPath s) = if isDaemonAlive signals (rt.files (pidPath s)) then rt
      else rt.removeSession (trimEndMatches ['.', 'p', 'i', 'd'] s) := by
  rw [cleanEntry, pidEntry_pidPath]

/-- Half way through, a session is untouched, or it was dead and is gone. -/
def Runtime.Partly (signals : ℤ → Bool) (rt rt' : Runtime S) (s : SessionName) : Prop :=
  rt.Spared rt' s ∨ rt.Dead signals s ∧ rt'.Gone s

/-- **One entry** is dealt with: its session is gone if it was dead. -/
theorem partly_cleanEntry (hends : ∀ s, rt.Dead signals s → ¬['.', 'p', 'i', 'd'] <:+ s.val)
    {entry : FileName} (hentry : ∃ s : SessionName, entry = socketPath s ∨ entry = pidPath s)
    (hpresent : (rt.files entry).isSome) (h : ∀ s, rt.Partly signals rt' s) :
    (∀ s, rt.Partly signals (cleanEntry signals rt' entry) s) ∧
      (∀ s, rt'.Gone s → (cleanEntry signals rt' entry).Gone s) ∧
      ∀ s, rt.Dead signals s → entry = pidPath s → (cleanEntry signals rt' entry).Gone s := by
  obtain ⟨s, rfl | rfl⟩ := hentry
  · rw [cleanEntry_socketPath]
    exact ⟨h, fun _ => id, fun t _ heq => absurd heq (socketPath_ne_pidPath _ _)⟩
  by_cases hdead : rt.Dead signals s
  · have hnotAlive : isDaemonAlive signals (rt'.files (pidPath s)) = false := by
      rcases h s with hspared | ⟨-, hgone⟩
      · rw [hspared.pid, hdead.2]
      · rw [hgone.pid]
        rfl
    have hremoved : cleanEntry signals rt' (pidPath s) = rt'.removeSession s := by
      rw [cleanEntry_pidPath, hnotAlive, trimEndMatches_pid (hends s hdead), if_neg Bool.false_ne_true]
    rw [hremoved]
    have hgone : ∀ t, rt'.Gone t → (rt'.removeSession s).Gone t := fun t ht => by
      by_cases heq : t = s
      · exact heq ▸ rt'.gone_removeSession s
      · exact ht.of_spared (rt'.spared_removeSession heq)
    refine ⟨fun t => ?_, hgone, fun t _ heq => ?_⟩
    · by_cases heq : t = s
      · exact .inr ⟨heq ▸ hdead, heq ▸ rt'.gone_removeSession s⟩
      · exact (h t).imp (·.trans (rt'.spared_removeSession heq)) (·.imp id (hgone t))
    · obtain rfl : s = t := Subtype.ext (pidPath_injective heq)
      exact rt'.gone_removeSession s
  · have halive : isDaemonAlive signals (rt'.files (pidPath s)) = true := by
      rcases h s with hspared | ⟨hdead', -⟩
      · rw [hspared.pid]
        exact Bool.not_eq_false _ |>.mp fun hfalse => hdead ⟨hpresent, hfalse⟩
      · exact absurd hdead' hdead
    rw [cleanEntry_pidPath, if_pos halive]
    refine ⟨h, fun _ => id, fun t ht heq => ?_⟩
    obtain rfl : s = t := Subtype.ext (pidPath_injective heq)
    exact absurd ht hdead

/-- The loop over the entries. -/
theorem partly_clean (hends : ∀ s, rt.Dead signals s → ¬['.', 'p', 'i', 'd'] <:+ s.val)
    (hentries : ∀ e ∈ entries, ∃ s : SessionName, e = socketPath s ∨ e = pidPath s)
    (hpresent : ∀ e ∈ entries, (rt.files e).isSome) (h : ∀ s, rt.Partly signals rt' s) :
    (∀ s, rt.Partly signals (clean signals entries rt') s) ∧
      (∀ s, rt'.Gone s → (clean signals entries rt').Gone s) ∧
      ∀ s, rt.Dead signals s → pidPath s ∈ entries → (clean signals entries rt').Gone s := by
  induction entries generalizing rt' with
  | nil => exact ⟨h, fun _ => id, fun _ _ hmem => absurd hmem List.not_mem_nil⟩
  | cons e entries ih =>
    obtain ⟨he, hentries⟩ := List.forall_mem_cons.mp hentries
    obtain ⟨hpe, hpresent⟩ := List.forall_mem_cons.mp hpresent
    obtain ⟨hpartly, hkeeps, hdone⟩ := partly_cleanEntry hends he hpe h
    obtain ⟨hpartly', hkeeps', hdone'⟩ := ih hentries hpresent hpartly
    refine ⟨hpartly', fun s hs => hkeeps' s (hkeeps s hs), fun s hs hmem => ?_⟩
    rcases List.mem_cons.mp hmem with heq | hmem
    · exact hkeeps' s (hdone s hs heq.symm)
    · exact hdone' s hs hmem

/-- **No PID file of a name that ends like one is removed.** -/
theorem files_clean_of_suffix {f : FileName} (h : ['.', 'p', 'i', 'd'] <:+ f) (entries : List FileName)
    (rt : Runtime S) : (clean signals entries rt).files (pidPath f) = rt.files (pidPath f) := by
  induction entries generalizing rt with
  | nil => rfl
  | cons e entries ih =>
    have hstep : (cleanEntry signals rt e).files (pidPath f) = rt.files (pidPath f) := by
      rw [cleanEntry]
      split
      · rfl
      · next session hsession =>
        split
        · rfl
        · have hne : pidPath f ≠ pidPath session := fun heq =>
            not_suffix_of_pidEntry hsession (pidPath_injective heq ▸ h)
          rw [Runtime.files_removeSession, if_neg]
          exact fun h => h.elim (socketPath_ne_pidPath _ _).symm hne
    exact (ih (cleanEntry signals rt e)).trans hstep

end Remove

/-- **Cleaning removes the dead sessions exactly when** no dead session's name ends like a PID file. -/
theorem cleaned_iff (signals : ℤ → Bool) (entries : List FileName) (rt : Runtime S)
    (h : rt.Lists entries) : rt.Cleaned signals (clean signals entries rt) ↔
      ∀ s, rt.Dead signals s → ¬['.', 'p', 'i', 'd'] <:+ s.val := by
  refine ⟨fun hclean s hdead hends => ?_, fun hends => ?_⟩
  · have hgone := (hclean.gone s hdead).pid
    rw [files_clean_of_suffix hends] at hgone
    exact absurd hdead.1 (by simp [hgone])
  · have hpresent : ∀ e ∈ entries, (rt.files e).isSome := fun e he => (h.mem_iff e).mp he
    obtain ⟨hpartly, -, hdone⟩ := partly_clean hends h.sessions hpresent
      fun s => Or.inl ⟨rfl, rfl, rfl⟩
    refine ⟨fun s hdead => hdone s hdead ((h.mem_iff _).mpr hdead.1), fun s hdead => ?_⟩
    exact (hpartly s).resolve_right fun hgone => hdead hgone.1

/-! ## A live session cleaned away -/

def liveSession : SessionName := ⟨['a'], by decide, by decide, by decide, by decide, by decide⟩

def killedSession : SessionName :=
  ⟨['a', '.', 'p', 'i', 'd'], by decide, by decide, by decide, by decide, by decide⟩

/-- One session lives; the daemon of the other, named after its PID file, has been killed. -/
def killedRuntime : Runtime Unit where
  files f :=
    if f = pidPath liveSession then some (.text (pidLine 1))
    else if f = socketPath liveSession then some (.socket 0)
    else if f = pidPath killedSession then some (.text (pidLine 2))
    else none
  states f := if f = liveSession ∨ f = killedSession then some () else none

/-- What the runtime directory lists. -/
def killedEntries : List FileName :=
  [pidPath liveSession, socketPath liveSession, pidPath killedSession]

theorem lists_killed : killedRuntime.Lists killedEntries where
  mem_iff f := by
    simp only [killedEntries, killedRuntime, List.mem_cons, List.not_mem_nil, or_false]
    split_ifs <;> simp_all
  sessions f hf := by
    simp only [killedEntries, List.mem_cons, List.not_mem_nil, or_false] at hf
    rcases hf with rfl | rfl | rfl
    · exact ⟨liveSession, .inr rfl⟩
    · exact ⟨liveSession, .inl rfl⟩
    · exact ⟨killedSession, .inr rfl⟩

theorem clean_killed :
    clean (· == 1) killedEntries killedRuntime = killedRuntime.removeSession liveSession := by
  have htrim : trimEndMatches ['.', 'p', 'i', 'd'] killedSession = liveSession := by
    have hname : killedSession.val = liveSession.val ++ ['.', 'p', 'i', 'd'] := rfl
    rw [hname, trimEndMatches_append (List.cons_ne_nil _ _), trimEndMatches_pid (by decide)]
  rw [clean, killedEntries, List.foldl_cons, cleanEntry_pidPath, if_pos (by decide), List.foldl_cons,
    cleanEntry_socketPath, List.foldl_cons, cleanEntry_pidPath, if_neg (by decide), htrim,
    List.foldl_nil]

/-- **The killed session's file takes the live one's socket with it.** -/
theorem not_cleaned_killed : killedRuntime.Lists killedEntries ∧
    ¬killedRuntime.Dead (· == 1) liveSession ∧
    ¬killedRuntime.Cleaned (· == 1) (clean (· == 1) killedEntries killedRuntime) := by
  have hlive : ¬killedRuntime.Dead (· == 1) liveSession := fun h => absurd h.2 (by decide)
  refine ⟨lists_killed, hlive, fun h => ?_⟩
  have hsocket := (h.spared liveSession hlive).socket
  rw [clean_killed, (killedRuntime.gone_removeSession liveSession).socket] at hsocket
  exact absurd hsocket (by decide)

/-- Where the other one is dead, it goes, and this one stays. -/
theorem cleaned_iff_killed : killedRuntime.Dead (· == 2) liveSession ∧
    killedRuntime.Cleaned (· == 2) (clean (· == 2) killedEntries killedRuntime) := by
  refine ⟨⟨by decide, by decide⟩,
    (cleaned_iff (· == 2) killedEntries killedRuntime lists_killed).mpr fun s hdead => ?_⟩
  have hmem := (lists_killed.mem_iff (pidPath s)).mpr hdead.1
  simp only [killedEntries, List.mem_cons, List.not_mem_nil, or_false] at hmem
  rcases hmem with heq | heq | heq
  · rw [pidPath_injective heq]
    decide
  · exact absurd heq.symm (socketPath_ne_pidPath _ _)
  · exact absurd (heq ▸ hdead.2) (by decide)

end AgentProcs
