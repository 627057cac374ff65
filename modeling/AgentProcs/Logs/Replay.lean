import AgentProcs.Logs.Tailing
import AgentProcs.Tui.Preload

/-!
# Logs/Replay — what the client reads of the files, while they change

    not opened ──open──▸ open ──end of file──▸ over

Let `c` say what each log is to hold.  As long as the files not opened hold it, and the open one can
still be read up to it, the client prints the last lines of `c`, whatever becomes of a file that it
is through with.
-/

namespace AgentProcs

variable {args : LogsArgs} {capacity : ℕ} {s s' : Tailing} {e : TailingEvent} {f g : Log}
  {c c' : Log → Option Content} {inode : ℕ} {files todo : List Log} {lines : List String}

/-! ## Two selections -/

/-- The client replays this log. -/
def LogsArgs.replays (args : LogsArgs) (f : Log) : Bool :=
  f.stream == args.stream && (args.showPrefix || args.target == some f.process)

/-- **The daemon follows the logs that the client replays**, exactly if a target is given, or
standard error is asked for. -/
theorem selects_eq_replays_iff : (∀ o, args.request.selects o = args.replays o.log) ↔
    args.target.isSome = true ∨ args.stderr = true := by
  obtain ⟨target, tail, stderr, all, lines⟩ := args
  constructor
  · intro h
    by_contra hno
    obtain ⟨htarget, hstderr⟩ := not_or.mp hno
    obtain rfl : target = none := Option.not_isSome_iff_eq_none.mp htarget
    obtain rfl : stderr = false := Bool.eq_false_iff.mpr hstderr
    have hstdout := h ⟨"", .stderr, ""⟩
    cases all <;> exact Bool.noConfusion hstdout
  · rintro h ⟨process, stream, line⟩
    cases target with
    | none =>
      obtain rfl : stderr = true := h.resolve_left (by simp)
      cases all <;> cases stream <;> rfl
    | some name =>
      have hname : (name == process) = (process == name) := BEq.comm
      cases all <;> cases stderr <;> cases stream <;>
        simp [FollowRequest.selects, LogsArgs.request, LogsArgs.replays, LogsArgs.stream,
          LogsArgs.showPrefix, OutputLine.log, hname, Bool.and_comm]

/-- What the client sets out to read are logs that it replays, -/
theorem Tailing.Lists.replays (h : s.Lists args files) (hf : f ∈ files) : args.replays f = true := by
  rw [Lists] at h
  rw [LogsArgs.replays]
  split_ifs at h with hall
  · obtain ⟨hstream, -⟩ := (h.2 f).mp hf
    simp [hstream, hall]
  · obtain ⟨target, htarget, rfl⟩ := List.mem_map.mp (h ▸ hf)
    simp [Option.mem_toList.mp htarget]

/-- and all of them that there are. -/
theorem Tailing.Lists.mem (h : s.Lists args files) (hf : args.replays f = true)
    (hsome : (s.disk.dir f.path).isSome = true) : f ∈ files := by
  obtain ⟨process, stream⟩ := f
  rw [Lists] at h
  obtain ⟨hstream, hshown⟩ := Bool.and_eq_true_iff.mp hf
  have hstream : stream = args.stream := beq_iff_eq.mp hstream
  split_ifs at h with hall
  · exact (h.2 _).mpr ⟨hstream, hsome⟩
  · have htarget : args.target = some process := by simpa [hall] using hshown
    rw [h, htarget, hstream]
    exact List.mem_singleton_self _

theorem Tailing.Lists.nodup (h : s.Lists args files) : files.Nodup := by
  rw [Lists] at h
  split_ifs at h
  · exact h.1
  · rw [h]
    cases args.target <;> simp

/-- **Different logs have different files.** -/
theorem Log.path_injective : Log.path.Injective := by
  rintro ⟨process, s⟩ ⟨process', t⟩ h
  obtain ⟨hprocess, hstream⟩ := logPathOf_inj h
  exact congrArg₂ Log.mk hprocess hstream

/-! ## Where the client is with a log -/

namespace Client

/-- The open file: its log, its inode, and what has been read of it. -/
def reading : Client → Option (Log × ℕ × List UInt8)
  | replaying _ reading _ => reading
  | _ => none

/-- The logs that are open or to be opened. -/
def left : Client → List Log
  | replaying todo reading _ => reading.toList.map (·.1) ++ todo
  | _ => []

/-- The log has not been opened. -/
def Unopened : Client → Log → Prop
  | starting, _ => True
  | replaying todo _ _, f => f ∈ todo
  | _, _ => False

/-- The client is through with the log, or will not read it. -/
def Over (client : Client) (f : Log) : Prop := client ≠ starting ∧ f ∉ client.left

/-- It has not subscribed, and may still. -/
def Early (client : Client) : Prop := client ≠ following ∧ client ≠ ended

/-- What it has read of the open file is text. -/
def ReadsText (args : LogsArgs) (client : Client) : Prop :=
  ∀ x ∈ client.reading, (tailLines args.tail x.2.2).isSome = true

theorem Unopened.not_over {client : Client} (h : client.Unopened f) : ¬client.Over f := by
  rintro ⟨hne, hleft⟩
  cases client with
  | starting => exact hne rfl
  | replaying => exact hleft (List.mem_append_right _ h)
  | requesting | following | ended => exact h

theorem mem_left_of_reading {client : Client} {x : Log × ℕ × List UInt8}
    (h : client.reading = some x) : x.1 ∈ client.left := by
  cases client with
  | replaying todo reading lines =>
    obtain rfl : reading = some x := h
    exact List.mem_cons_self
  | starting | requesting | following | ended => exact absurd h (by simp [reading])

/-- An open log is not to be opened. -/
theorem not_unopened_of_reading {client : Client} {x : Log × ℕ × List UInt8}
    (h : client.reading = some x) (hnodup : client.left.Nodup) : ¬client.Unopened x.1 := by
  cases client with
  | replaying todo reading lines =>
    obtain rfl : reading = some x := h
    exact (List.nodup_cons.mp hnodup).1
  | starting | requesting | following | ended => exact absurd h (by simp [reading])

end Client

/-! ## What is printed of the files -/

/-- The last lines of what a log is to hold, as they are printed. -/
def LogsArgs.tailOf (args : LogsArgs) (c : Log → Option Content) (f : Log) : List String :=
  (((c f).bind fun content => tailLines args.tail content.bytes).getD []).map
    (args.println f.procName)

/-- A log without a file adds nothing. -/
theorem flatMap_filter_tailOf (args : LogsArgs) (c : Log → Option Content) :
    ∀ logs : List Log, (logs.filter fun f => (c f).isSome).flatMap (args.tailOf c) =
      logs.flatMap (args.tailOf c)
  | [] => rfl
  | f :: logs => by
    have ih := flatMap_filter_tailOf args c logs
    cases hc : c f with
    | none => simp [hc, ih, LogsArgs.tailOf]
    | some content => simp [hc, ih]

/-- What the client has gathered. -/
def Tailing.gathered (s : Tailing) : List String :=
  match s.client with
  | .replaying _ _ lines => lines
  | _ => s.replayed.getD []

/-- **The client reads what each log is to hold.** -/
structure Replayed (args : LogsArgs) (c : Log → Option Content) (s : Tailing) : Prop where
  unopened : ∀ f, args.replays f → s.client.Unopened f → s.disk.read f.path = c f
  /-- The open file can be read up to what its log is to hold, and is no other log's file. -/
  reading : ∀ f inode buf, s.client.reading = some (f, inode, buf) →
    c f = some (s.disk.data inode) ∧ buf <+: (s.disk.data inode).bytes ∧ inode < s.disk.next ∧
      ∀ g : Log, s.disk.dir g.path = some inode → g = f
  listed : s.client.left.Nodup ∧ ∀ f ∈ s.client.left, args.replays f
  gathered : ∃ done : List Log, done.Nodup ∧
    (∀ f, f ∈ done ↔ args.replays f ∧ s.client.Over f ∧ (c f).isSome) ∧
    s.gathered = done.flatMap (args.tailOf c)
  silent : s.client.Early → s.events = []
  replayed : s.replayed.isSome ↔ s.client = .requesting ∨ ¬s.client.Early

namespace Replayed

/-- **The files change**, but not what the client has yet to read. -/
theorem of_disk (h : Replayed args c s) {disk : Disk}
    (hover : ∀ f, args.replays f → s.client.Over f → c' f = c f)
    (hunopened : ∀ f, args.replays f → s.client.Unopened f → disk.read f.path = c' f)
    (hopen : ∀ f inode buf, args.replays f → s.client.reading = some (f, inode, buf) →
      c' f = some (disk.data inode) ∧ (s.disk.data inode).bytes <+: (disk.data inode).bytes)
    (hnext : s.disk.next ≤ disk.next)
    (hdir : ∀ g inode, inode < s.disk.next → disk.dir g = some inode → s.disk.dir g = some inode) :
    Replayed args c' { s with disk } where
  unopened := hunopened
  reading f inode buf hreading := by
    obtain ⟨hc, hbuf, hlt, hname⟩ := h.reading f inode buf hreading
    have hreplays : args.replays f = true := h.listed.2 f (Client.mem_left_of_reading hreading)
    obtain ⟨hc', hmore⟩ := hopen f inode buf hreplays hreading
    exact ⟨hc', hbuf.trans hmore, hlt.trans_le hnext, fun g hg => hname g (hdir _ _ hlt hg)⟩
  listed := h.listed
  gathered := by
    obtain ⟨done, hnodup, hdone, hgathered⟩ := h.gathered
    refine ⟨done, hnodup, fun f => (hdone f).trans ?_, hgathered.trans ?_⟩
    · refine and_congr_right fun hf => and_congr_right fun hf' => ?_
      rw [hover f hf hf']
    · refine List.flatMap_congr fun f hf => ?_
      obtain ⟨hreplays, hover', -⟩ := (hdone f).mp hf
      rw [LogsArgs.tailOf, LogsArgs.tailOf, hover f hreplays hover']
  silent := h.silent
  replayed := h.replayed

/-- The client has not started. -/
theorem starting (hclient : s.client = .starting) (hreplayed : s.replayed = none)
    (hevents : s.events = []) : Replayed args (s.disk.read ∘ Log.path) s where
  unopened _ _ _ := rfl
  reading _ _ _ h := by
    rw [hclient] at h
    exact nomatch h
  listed := by
    rw [hclient]
    exact ⟨List.nodup_nil, fun _ h => absurd h List.not_mem_nil⟩
  gathered := by
    refine ⟨[], List.nodup_nil, fun f => iff_of_false List.not_mem_nil fun h => h.2.1.1 hclient, ?_⟩
    rw [Tailing.gathered, hclient, hreplayed]
    rfl
  silent _ := hevents
  replayed := by
    rw [hreplayed, hclient]
    simp [Client.Early]

/-- Nothing is printed before all is read. -/
theorem not_replayed (h : Replayed args c s) (hne : s.client ≠ .requesting)
    (hearly : s.client.Early) : s.replayed.isSome = false := by
  rw [Bool.eq_false_iff]
  exact fun hsome => (h.replayed.mp hsome).elim hne fun hlate => hlate hearly

/-- The client knows what to read. -/
theorem list (h : Replayed args c s) (hclient : s.client = .starting)
    (hlists : s.Lists args files) :
    Replayed args c { s with client := .replaying files none [] } where
  unopened f hf _ := h.unopened f hf (by rw [hclient]; trivial)
  reading _ _ _ hreading := nomatch hreading
  listed := ⟨hlists.nodup, fun f hf => hlists.replays hf⟩
  gathered := by
    refine ⟨[], List.nodup_nil, fun f => iff_of_false List.not_mem_nil ?_, rfl⟩
    rintro ⟨hf, ⟨-, hmem⟩, hsome⟩
    rw [← h.unopened f hf (by rw [hclient]; trivial), FileSystem.read, Option.isSome_map] at hsome
    exact hmem (hlists.mem hf hsome)
  silent _ := h.silent (by simp [hclient, Client.Early])
  replayed := by
    rw [h.not_replayed (by simp [hclient]) (by simp [hclient, Client.Early])]
    simp [Client.Early]

section Next

variable {reading reading' : Option (Log × ℕ × List UInt8)} {todo todo' : List Log}
  {lines lines' : List String}

/-- **The client goes on**, through with the logs in `gone`. -/
theorem move (h : Replayed args c s) (gone : List Log)
    (hclient : s.client = .replaying todo reading lines)
    (hleft : s.client.left = gone ++ (Client.replaying todo' reading' lines').left)
    (htodo : todo' ⊆ todo)
    (hreading : ∀ f inode buf, reading' = some (f, inode, buf) →
      c f = some (s.disk.data inode) ∧ buf <+: (s.disk.data inode).bytes ∧ inode < s.disk.next ∧
        ∀ g : Log, s.disk.dir g.path = some inode → g = f)
    (hlines : lines' = lines ++ gone.flatMap (args.tailOf c)) :
    Replayed args c { s with client := .replaying todo' reading' lines' } where
  unopened f hf hmem := h.unopened f hf (by rw [hclient]; exact htodo hmem)
  reading := hreading
  listed := by
    obtain ⟨hnodup, hreplays⟩ := h.listed
    rw [hleft] at hnodup hreplays
    exact ⟨hnodup.of_append_right, fun f hf => hreplays f (List.mem_append_right _ hf)⟩
  gathered := by
    obtain ⟨done, hnodup, hdone, hgathered⟩ := h.gathered
    obtain ⟨hleftNodup, hreplays⟩ := h.listed
    have hover (f : Log) : s.client.Over f ↔ f ∉ s.client.left := by
      simp [Client.Over, hclient]
    rw [hleft] at hleftNodup hreplays
    have hapart := List.disjoint_of_nodup_append hleftNodup
    have hfilter := flatMap_filter_tailOf args c gone
    refine ⟨done ++ gone.filter fun f => (c f).isSome, ?_, fun f => ?_, ?_⟩
    · refine hnodup.append (hleftNodup.of_append_left.filter _) fun f hf hf' => ?_
      refine (hover f).mp ((hdone f).mp hf).2.1 ?_
      rw [hleft]
      exact List.mem_append_left _ (List.mem_of_mem_filter hf')
    · have hover' : ({ s with client := .replaying todo' reading' lines' } : Tailing).client.Over f ↔
          f ∉ (Client.replaying todo' reading' lines').left := by simp [Client.Over]
      rw [List.mem_append, hdone, hover, hover', hleft, List.mem_append, List.mem_filter, not_or]
      constructor
      · rintro (⟨hf, ⟨-, hnot⟩, hsome⟩ | ⟨hmem, hsome⟩)
        · exact ⟨hf, hnot, hsome⟩
        · exact ⟨hreplays f (List.mem_append_left _ hmem), hapart hmem, hsome⟩
      · rintro ⟨hf, hnot, hsome⟩
        by_cases hmem : f ∈ gone
        · exact .inr ⟨hmem, hsome⟩
        · exact .inl ⟨hf, ⟨hmem, hnot⟩, hsome⟩
    · have hgathered' : lines = done.flatMap (args.tailOf c) := by
        rw [← hgathered, Tailing.gathered, hclient]
      rw [Tailing.gathered, List.flatMap_append, hfilter, ← hgathered', hlines]
  silent _ := h.silent (by simp [hclient, Client.Early])
  replayed := by
    rw [h.not_replayed (by simp [hclient]) (by simp [hclient, Client.Early])]
    simp [Client.Early]

variable {f : Log} {inode k : ℕ} {buf : List UInt8}

/-- The next file is opened, or missing. -/
theorem openFile (h : Replayed args c s) (hclient : s.client = .replaying (f :: todo) none lines) :
    Replayed args c (s.openFile f todo lines) := by
  have hleft : s.client.left = f :: todo := by rw [hclient]; rfl
  have hreplays : args.replays f = true := h.listed.2 f (hleft ▸ List.mem_cons_self)
  have hread := h.unopened f hreplays (by rw [hclient]; exact List.mem_cons_self)
  rw [Tailing.openFile]
  split
  · rename_i inode hdir
    refine h.move [] hclient hleft (List.subset_cons_self f todo) ?_ (by simp)
    rintro g i buf ⟨⟩
    refine ⟨?_, List.nil_prefix, s.disk.lt_next hdir, fun g hg => ?_⟩
    · rw [← hread, FileSystem.read, hdir]
      rfl
    · exact Log.path_injective (s.disk.single hg hdir)
  · rename_i hdir
    have hmissing : c f = none := by
      rw [← hread, FileSystem.read, hdir]
      rfl
    refine h.move [f] hclient hleft (List.subset_cons_self f todo) ?_ ?_
    · rintro _ _ _ ⟨⟩
    · simp [LogsArgs.tailOf, hmissing]

/-- Some bytes are read. -/
theorem readSome (h : Replayed args c s)
    (hclient : s.client = .replaying todo (some (f, inode, buf)) lines) (k : ℕ) :
    Replayed args c { s with
      client := .replaying todo
        (some (f, inode, buf ++ ((s.disk.data inode).bytes.drop buf.length).take k)) lines } := by
  refine h.move [] hclient (by rw [hclient]; rfl) (List.Subset.refl _) ?_ (by simp)
  rintro g i buf' ⟨⟩
  obtain ⟨hc, ⟨rest, hrest⟩, hlt, hname⟩ := h.reading f inode buf (by rw [hclient]; rfl)
  refine ⟨hc, ?_, hlt, hname⟩
  rw [← hrest, List.drop_left]
  exact (List.prefix_append_right_inj _).mpr (List.take_prefix k rest)

/-- All of a file has been read, and it is text. -/
theorem endOfFile (h : Replayed args c s)
    (hclient : s.client = .replaying todo (some (f, inode, buf)) lines)
    (hend : (s.disk.data inode).bytes.length ≤ buf.length)
    (htext : (tailLines args.tail buf).isSome = true) :
    Replayed args c (s.endOfFile args f buf todo lines) := by
  obtain ⟨hc, hbuf, -, -⟩ := h.reading f inode buf (by rw [hclient]; rfl)
  obtain rfl : buf = (s.disk.data inode).bytes := hbuf.eq_of_length_le hend
  obtain ⟨ls, hls⟩ := Option.isSome_iff_exists.mp htext
  rw [Tailing.endOfFile, hls]
  refine h.move [f] hclient (by rw [hclient]; rfl) (List.Subset.refl _) nofun ?_
  rw [List.flatMap_singleton, LogsArgs.tailOf, hc, Option.bind_some, hls]
  rfl

/-- What has been read is printed. -/
theorem print (h : Replayed args c s) (hclient : s.client = .replaying [] none lines) :
    Replayed args c (s.print lines) where
  unopened _ _ hunopened := hunopened.elim
  reading _ _ _ hreading := nomatch hreading
  listed := ⟨List.nodup_nil, fun _ h => absurd h List.not_mem_nil⟩
  gathered := by
    obtain ⟨done, hnodup, hdone, hgathered⟩ := h.gathered
    rw [Tailing.gathered, hclient] at hgathered
    refine ⟨done, hnodup, fun f => (hdone f).trans ?_, hgathered⟩
    simp [Client.Over, hclient, Client.left, Tailing.print]
  silent _ := h.silent (by simp [hclient, Client.Early])
  replayed := by simp [Tailing.print]

end Next

/-- From here on the client reads no more files. -/
theorem later (h : Replayed args c s) (hclient : s.client.left = [] ∧ s.client ≠ .starting)
    (hgathered : s'.gathered = s.gathered) (hclient' : s'.client.left = [] ∧ s'.client ≠ .starting)
    (hunopened : ∀ f, ¬s'.client.Unopened f) (hreading : s'.client.reading = none)
    (hsilent : ¬s'.client.Early) (hreplayed : s'.replayed.isSome) : Replayed args c s' where
  unopened f _ hf := absurd hf (hunopened f)
  reading _ _ _ h := by
    rw [hreading] at h
    exact nomatch h
  listed := by
    rw [hclient'.1]
    exact ⟨List.nodup_nil, fun _ h => absurd h List.not_mem_nil⟩
  gathered := by
    obtain ⟨done, hnodup, hdone, hlines⟩ := h.gathered
    refine ⟨done, hnodup, fun f => (hdone f).trans ?_, hgathered.trans hlines⟩
    simp [Client.Over, hclient, hclient']
  silent hearly := absurd hearly hsilent
  replayed := iff_of_true hreplayed (.inr hsilent)

end Replayed

/-! ## One log's file changes -/

/-- The disk has changed, but no file in use other than that of `f`. -/
structure Touches (f : Log) (disk disk' : Disk) : Prop where
  read : ∀ g ≠ f, disk'.read g.path = disk.read g.path
  data : ∀ inode < disk.next, disk.dir f.path ≠ some inode → disk'.data inode = disk.data inode
  next : disk.next ≤ disk'.next
  dir : ∀ g inode, inode < disk.next → disk'.dir g = some inode → disk.dir g = some inode

theorem touches_create (f : Log) (disk : Disk) (content : Content) :
    Touches f disk (disk.create f.path content).2 where
  read g hg := by
    rw [FileSystem.read_create, Function.update_of_ne (Log.path_injective.ne hg)]
  data _ hlt hne := FileSystem.data_create_of_ne hne hlt
  next := FileSystem.next_le_create
  dir _ _ := FileSystem.dir_of_create

theorem touches_remove (f : Log) (disk : Disk) : Touches f disk (disk.remove f.path) where
  read g hg := by
    rw [FileSystem.read_remove, Directory.remove, Function.update_of_ne (Log.path_injective.ne hg)]
  data _ _ _ := rfl
  next := Nat.le_refl _
  dir _ _ _ := FileSystem.dir_of_remove

theorem touches_modify {disk : Disk} (hopen : disk.dir f.path = some inode)
    (change : Content → Content) : Touches f disk (disk.modify inode change) where
  read g hg := by
    rw [FileSystem.read_modify hopen, Function.update_of_ne (Log.path_injective.ne hg)]
  data i _ hne := by
    have hi : i ≠ inode := fun heq => hne (heq ▸ hopen)
    exact Function.update_of_ne hi _ _
  next := Nat.le_refl _
  dir _ _ _ hdir := hdir

/-- The client is through with the log, or has an older file of it open. -/
def Tailing.Spares (args : LogsArgs) (f : Log) (s : Tailing) : Prop :=
  args.replays f → s.client.Over f ∨
    ∃ inode buf, s.client.reading = some (f, inode, buf) ∧ s.disk.dir f.path ≠ some inode

/-- Before the moment, the open file is the log's current one. -/
def Tailing.Current (s : Tailing) : Prop :=
  ∀ f inode buf, s.client.reading = some (f, inode, buf) → s.disk.dir f.path = some inode

namespace Replayed

variable {disk : Disk} {buf : List UInt8}

theorem not_unopened_of_spares (h : Replayed args c s) (hspares : s.Spares args f)
    (hf : args.replays f) : ¬s.client.Unopened f := by
  intro hunopened
  rcases hspares hf with hover | ⟨inode, buf, hreading, -⟩
  · exact hunopened.not_over hover
  · exact Client.not_unopened_of_reading hreading h.listed.1 hunopened

/-- The file that is open is not touched. -/
theorem dir_ne_of_spares (h : Replayed args c s) (hspares : s.Spares args f)
    (hreading : s.client.reading = some (g, inode, buf)) : s.disk.dir f.path ≠ some inode := by
  intro hdir
  obtain ⟨-, -, -, hname⟩ := h.reading g inode buf hreading
  obtain rfl : f = g := hname f hdir
  have hmem := Client.mem_left_of_reading hreading
  rcases hspares (h.listed.2 f hmem) with hover | ⟨inode', buf', hreading', hne⟩
  · exact hover.2 hmem
  · obtain ⟨-, hsame⟩ := Prod.mk.inj (Option.some.inj (hreading.symm.trans hreading'))
    exact hne ((Prod.mk.inj hsame).1 ▸ hdir)

/-- **After the moment**, what the client has yet to read stays as it is. -/
theorem after (h : Replayed args c s) (htouches : Touches f s.disk disk)
    (hunopened : args.replays f → ¬s.client.Unopened f)
    (hdata : ∀ g inode buf, s.client.reading = some (g, inode, buf) →
      disk.data inode = s.disk.data inode) : Replayed args c { s with disk } := by
  refine h.of_disk (fun _ _ _ => rfl) (fun g hg hg' => ?_) (fun g inode buf _ hreading => ?_)
    htouches.next htouches.dir
  · have hne : g ≠ f := by
      rintro rfl
      exact hunopened hg hg'
    exact (htouches.read g hne).trans (h.unopened g hg hg')
  · obtain ⟨hc, -⟩ := h.reading g inode buf hreading
    rw [hdata g inode buf hreading]
    exact ⟨hc, List.prefix_refl _⟩

/-- **Before the moment**, no file changes that the client is through with, and one that is open only
grows. -/
theorem before (h : Replayed args (s.disk.read ∘ Log.path) s) (htouches : Touches f s.disk disk)
    (hover : args.replays f → ¬s.client.Over f)
    (hopen : ∀ g inode buf, args.replays g → s.client.reading = some (g, inode, buf) →
      disk.dir g.path = some inode ∧ (s.disk.data inode).bytes <+: (disk.data inode).bytes) :
    Replayed args (disk.read ∘ Log.path) { s with disk } := by
  refine h.of_disk (fun g hg hg' => ?_) (fun _ _ _ => rfl) (fun g inode buf hg hreading => ?_)
    htouches.next htouches.dir
  · have hne : g ≠ f := by
      rintro rfl
      exact hover hg hg'
    exact htouches.read g hne
  · obtain ⟨hdir, hmore⟩ := hopen g inode buf hg hreading
    refine ⟨?_, hmore⟩
    rw [Function.comp_apply, FileSystem.read, hdir]
    rfl

end Replayed

end AgentProcs
