import AgentProcs.Logs.Replay

/-!
# Logs/Moment — the files before and after the moment that what is printed of them stands for

    before   an open file may grow, one that has been read stays
    after    a file yet to be read stays, one that has been read may change

A step that meets its side of the condition keeps the client reading: before the moment what is in
the files now, and after it what was in them then.
-/

namespace AgentProcs

variable {args : LogsArgs} {capacity : ℕ} {s s' t : Tailing} {e : TailingEvent} {f g : Log}

/-! ## The condition -/

/-- The line that is about to be sent. -/
def Emission.pending : Emission → List String
  | .written line => [line]
  | _ => []

@[simp] theorem Emission.pending_idle : pending .idle = [] := rfl

@[simp] theorem Emission.pending_writing (line : String) (rest : List UInt8) :
    pending (.writing line rest) = [] := rfl

@[simp] theorem Emission.pending_written (line : String) : pending (.written line) = [line] := rfl

/-- Part of a line is stored. -/
def Emission.Torn : Emission → Prop
  | .writing line rest => rest.length ≤ (utf8 line).length
  | _ => False

/-- Nothing goes wrong when files are listed and read. -/
def TailingEvent.Reads (args : LogsArgs) (s : Tailing) : TailingEvent → Prop
  | .listFails => False
  | .aborts => False
  | .readFails => False
  | .endOfFile => s.client.ReadsText args
  | _ => True

/-- **Before the moment**, no log changes that the client is through with, and none is replaced that
it has open. -/
def TailingEvent.Before (args : LogsArgs) (s : Tailing) : TailingEvent → Prop
  | .store f _ => args.replays f → ¬s.client.Over f
  | .create f => args.replays f → s.client.Unopened f
  | .away f => args.replays f → s.client.Unopened f
  | e => e.Reads args s

/-- **After the moment** `t`, what the client has yet to read stays as it is; until the subscription
only lines captured before the moment are sent, and all of them; and after it the client does not
fall behind, and the actor says nothing. -/
def TailingEvent.After (args : LogsArgs) (capacity : ℕ) (t s : Tailing) : TailingEvent → Prop
  | .store f _ => s.Spares args f
  | .create f => s.Spares args f
  | .away f => args.replays f → ¬s.client.Unopened f
  | .send f => args.replays f → s.client.Early → s.captured f = t.captured f
  | .announce o => s.client = .following → args.replays o.log = false
  | .subscribe => ∀ f, args.replays f → (s.emission f).pending ≠ [] → s.captured f ≠ t.captured f
  | .turn => s.unread.length ≤ capacity
  | e => e.Reads args s

/-- **The moment**: before the subscription, with no line half stored, and no process that shows
under another name. -/
structure Cut (args : LogsArgs) (t : Tailing) : Prop where
  early : t.client.Early
  whole : ∀ f, args.replays f → ¬(t.emission f).Torn
  named : args.showPrefix → ∀ f, args.replays f → (t.disk.dir f.path).isSome →
    ¬('.' :: f.stream.extension) <:+ f.process.toList

/-! ## The files -/

theorem Replayed.congr {c : Log → Option Content} (h : Replayed args c s)
    (hdisk : s'.disk = s.disk) (hclient : s'.client = s.client) (hreplayed : s'.replayed = s.replayed)
    (hevents : s'.events = s.events) : Replayed args c s' := by
  cases s
  cases s'
  obtain rfl := hdisk
  obtain rfl := hclient
  obtain rfl := hreplayed
  obtain rfl := hevents
  exact ⟨h.unopened, h.reading, h.listed, h.gathered, h.silent, h.replayed⟩

/-- The event leaves the files alone. -/
def TailingEvent.Spare : TailingEvent → Prop
  | .create _ => False
  | .away _ => False
  | .store _ _ => False
  | _ => True

/-- **Steps that leave the files alone**: the client reads on. -/
theorem Replayed.step {c : Log → Option Content} (h : Replayed args c s) (htail : args.tail ≠ 0)
    (hstep : TailingStep args capacity s e s') (hspare : e.Spare) (hreads : e.Reads args s) :
    Replayed args c s' := by
  cases hstep with
  | create | away | store => exact hspare.elim
  | start | fail => exact h.congr rfl rfl rfl rfl
  | send => exact Tailing.push_eq _ _ ▸ h.congr rfl rfl rfl rfl
  | announce => exact Tailing.push_eq _ _ ▸ h.congr rfl rfl rfl rfl
  | listFails | aborts | readFails => exact hreads.elim
  | noTail _ hzero => exact absurd hzero htail
  | list hclient _ hlists => exact h.list hclient hlists
  | openFile hclient => exact h.openFile hclient
  | readSome hclient => exact h.readSome hclient _
  | endOfFile hclient hend =>
    exact h.endOfFile hclient hend (hreads _ (by rw [hclient]; rfl))
  | print hclient => exact h.print hclient
  | subscribe hclient =>
    refine h.later (by simp [hclient, Client.left]) ?_ (by simp [Client.left]) (fun f => id) rfl
      (by simp [Client.Early]) (h.replayed.mpr (.inl hclient))
    simp [Tailing.gathered, hclient]
  | turn hclient =>
    refine h.later (by simp [hclient, Client.left]) ?_ (by simp [hclient, Client.left]) ?_ ?_ ?_ ?_
    · simp [Tailing.gathered, hclient]
    · simp [hclient, Client.Unopened]
    · simp [hclient, Client.reading]
    · simp [hclient, Client.Early]
    · exact h.replayed.mpr (.inr (by simp [hclient, Client.Early]))
  | ends hclient =>
    have hlate : s.client = .requesting ∨ ¬s.client.Early :=
      hclient.imp_right fun hf => by simp [hf, Client.Early]
    refine h.later ?_ ?_ (by simp [Client.left]) (fun f => id) rfl (by simp [Client.Early])
      (h.replayed.mpr hlate)
    · rcases hclient with hc | hc <;> simp [hc, Client.left]
    · rcases hclient with hc | hc <;> simp [Tailing.gathered, hc]

theorem disk_of_spare (hstep : TailingStep args capacity s e s') (hspare : e.Spare) :
    s'.disk = s.disk := by
  cases hstep with
  | create | away | store => exact hspare.elim
  | send => exact Tailing.push_eq _ _ ▸ rfl
  | announce => exact Tailing.push_eq _ _ ▸ rfl
  | openFile =>
    rw [Tailing.openFile]
    split <;> rfl
  | endOfFile =>
    rw [Tailing.endOfFile, Tailing.skip]
    split
    · rfl
    · split <;> rfl
  | readFails =>
    rw [Tailing.skip]
    split <;> rfl
  | _ => rfl

theorem reads_of_before (hspare : e.Spare) (h : e.Before args s) : e.Reads args s := by
  cases e with
  | create | away | store => exact hspare.elim
  | _ => exact h

theorem reads_of_after (hspare : e.Spare) (h : e.After args capacity t s) : e.Reads args s := by
  cases e with
  | create | away | store => exact hspare.elim
  | send | announce | subscribe | turn => trivial
  | _ => exact h

/-- The file that is open is the current one still. -/
theorem Tailing.Current.step (h : s.Current) (hstep : TailingStep args capacity s e s')
    (hspare : e.Spare) : s'.Current := by
  have hdisk := disk_of_spare hstep hspare
  have hsame (hreading : s'.client.reading = s.client.reading) : s'.Current := fun f inode buf hf =>
    hdisk ▸ h f inode buf (hreading ▸ hf)
  have hnone (hreading : s'.client.reading = none) : s'.Current := fun f inode buf hf =>
    absurd (hf.symm.trans hreading) (Option.some_ne_none _)
  cases hstep with
  | create | away | store => exact hspare.elim
  | start | fail | turn => exact hsame rfl
  | send => exact hsame (by rw [Tailing.push_eq]; rfl)
  | announce => exact hsame (by rw [Tailing.push_eq])
  | list | listFails | noTail | aborts | print | subscribe | ends => exact hnone rfl
  | readFails =>
    refine hnone ?_
    rw [Tailing.skip]
    split <;> rfl
  | endOfFile =>
    refine hnone ?_
    rw [Tailing.endOfFile, Tailing.skip]
    split
    · rfl
    · split <;> rfl
  | @readSome f inode _ buf _ _ hclient =>
    rintro g i buf' ⟨⟩
    exact h f inode buf (by rw [hclient]; rfl)
  | @openFile f todo lines hclient =>
    intro g i buf hreading
    rw [hdisk]
    rw [Tailing.openFile] at hreading
    split at hreading
    · rename_i inode hdir
      obtain ⟨⟩ := hreading
      exact hdir
    · cases hreading

/-- The client reads the files as they are. -/
structure ReadsCurrent (args : LogsArgs) (s : Tailing) : Prop where
  replayed : Replayed args (s.disk.read ∘ Log.path) s
  current : s.Current

theorem Replayed.dir_ne {c : Log → Option Content} {inode : ℕ} {buf : List UInt8}
    (h : Replayed args c s) (hreading : s.client.reading = some (g, inode, buf)) (hne : f ≠ g) :
    s.disk.dir f.path ≠ some inode := fun hdir =>
  hne ((h.reading g inode buf hreading).2.2.2 f hdir)

/-- The log that is open is not one that has not been opened. -/
theorem Replayed.ne_of_unopened {c : Log → Option Content} {inode : ℕ} {buf : List UInt8}
    (h : Replayed args c s) (hg : args.replays g) (hf : args.replays f → s.client.Unopened f)
    (hreading : s.client.reading = some (g, inode, buf)) : g ≠ f := by
  rintro rfl
  exact Client.not_unopened_of_reading hreading h.listed.1 (hf hg)

theorem prefix_appendBytes (more : List UInt8) (content : Content) :
    content.bytes <+: (content.appendBytes more).bytes := by
  cases content with
  | text bytes => exact List.prefix_append _ _
  | index => exact List.prefix_refl _

/-- **A step before the moment.** -/
theorem ReadsCurrent.step (h : ReadsCurrent args s) (htail : args.tail ≠ 0)
    (hstep : TailingStep args capacity s e s') (hbefore : e.Before args s) : ReadsCurrent args s' := by
  by_cases hspare : e.Spare
  · refine ⟨?_, h.current.step hstep hspare⟩
    rw [disk_of_spare hstep hspare]
    exact h.replayed.step htail hstep hspare (reads_of_before hspare hbefore)
  cases hstep with
  | @create f =>
    have hopen : ∀ g inode buf, args.replays g → s.client.reading = some (g, inode, buf) →
        (s.disk.create f.path (.text [])).2.dir g.path = some inode := by
      intro g inode buf hg hreading
      have hne := h.replayed.ne_of_unopened hg hbefore hreading
      rw [FileSystem.dir_create, Function.update_of_ne (Log.path_injective.ne hne)]
      exact h.current g inode buf hreading
    refine ⟨h.replayed.before (touches_create f _ _) (fun hf => (hbefore hf).not_over) ?_, ?_⟩
    · intro g inode buf hg hreading
      have hne := h.replayed.ne_of_unopened hg hbefore hreading
      refine ⟨hopen g inode buf hg hreading, ?_⟩
      rw [(touches_create f s.disk _).data inode (h.replayed.reading g inode buf hreading).2.2.1
        (h.replayed.dir_ne hreading hne.symm)]
    · intro g inode buf hreading
      exact hopen g inode buf (h.replayed.listed.2 g (Client.mem_left_of_reading hreading)) hreading
  | @away f =>
    have hopen : ∀ g inode buf, args.replays g → s.client.reading = some (g, inode, buf) →
        (s.disk.remove f.path).dir g.path = some inode := by
      intro g inode buf hg hreading
      have hne := h.replayed.ne_of_unopened hg hbefore hreading
      rw [FileSystem.dir_remove, Directory.remove, Function.update_of_ne (Log.path_injective.ne hne)]
      exact h.current g inode buf hreading
    refine ⟨h.replayed.before (touches_remove f _) (fun hf => (hbefore hf).not_over) ?_, ?_⟩
    · exact fun g inode buf hg hreading => ⟨hopen g inode buf hg hreading, List.prefix_refl _⟩
    · intro g inode buf hreading
      exact hopen g inode buf (h.replayed.listed.2 g (Client.mem_left_of_reading hreading)) hreading
  | @store f line rest inode k _ hdir =>
    have hmore : ReadsCurrent args { s with
        disk := s.disk.modify inode (Content.appendBytes (rest.take k)) } := by
      refine ⟨h.replayed.before (touches_modify hdir _) hbefore fun g i buf _ hreading => ?_,
        h.current⟩
      refine ⟨h.current g i buf hreading, ?_⟩
      by_cases hi : i = inode
      · subst hi
        simpa [FileSystem.modify] using prefix_appendBytes _ _
      · simp [FileSystem.modify, Function.update_of_ne hi]
    rw [Tailing.store]
    split
    · exact ⟨hmore.replayed.congr rfl rfl rfl rfl, hmore.current⟩
    · exact ⟨hmore.replayed.congr rfl rfl rfl rfl, hmore.current⟩
  | _ => exact absurd trivial hspare

/-- **A step after the moment.** -/
theorem Replayed.step_after {c : Log → Option Content} (h : Replayed args c s)
    (htail : args.tail ≠ 0) (hstep : TailingStep args capacity s e s')
    (hafter : e.After args capacity t s) : Replayed args c s' := by
  by_cases hspare : e.Spare
  · exact h.step htail hstep hspare (reads_of_after hspare hafter)
  cases hstep with
  | @create f =>
    refine h.after (touches_create f _ _) (fun hf => h.not_unopened_of_spares hafter hf) ?_
    intro g inode buf hreading
    exact (touches_create f s.disk _).data inode (h.reading g inode buf hreading).2.2.1
      (h.dir_ne_of_spares hafter hreading)
  | @away f => exact h.after (touches_remove f _) hafter fun _ _ _ _ => rfl
  | @store f line rest inode k _ hdir =>
    have hkept : Replayed args c { s with
        disk := s.disk.modify inode (Content.appendBytes (rest.take k)) } := by
      refine h.after (touches_modify hdir _) (fun hf => h.not_unopened_of_spares hafter hf) ?_
      intro g i buf hreading
      exact (touches_modify hdir _).data i (h.reading g i buf hreading).2.2.1
        (h.dir_ne_of_spares hafter hreading)
    rw [Tailing.store]
    split
    · exact hkept.congr rfl rfl rfl rfl
    · exact hkept.congr rfl rfl rfl rfl
  | _ => exact absurd trivial hspare

end AgentProcs
