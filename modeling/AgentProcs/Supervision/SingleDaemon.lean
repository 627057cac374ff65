import AgentProcs.Daemon.Session
import Mathlib.Data.Finset.Lattice.Fold

/-!
# Supervision/SingleDaemon — when a session has one daemon, and when it gets two

    client 0   unlink · spawn      ⋯ daemon 0 serves
    client 1                unlink ⋯                    the socket of daemon 0 is gone

A client that removes the socket takes it for stale.  It is, as long as no daemon process of the
session is alive and no other client is about to spawn one.  Where that holds at every such removal
there is one daemon at a time and its socket is its own; and where it fails once, the run can go on
to two daemons.
-/

namespace AgentProcs

/-- **One reachable daemon**: no two live ones, and one that serves is reached over the path. -/
structure SingleDaemon (s : Session) : Prop where
  unique : ∀ d e, (s.daemons d).Live → (s.daemons e).Live → d = e
  reached : ∀ d, s.daemons d = .serving → s.Answers d

/-- The step takes no file from a live daemon it does not belong to. -/
def Harmless (s : Session) : SessionEvent → Prop
  | .unlink _ => ∀ d, (s.daemons d).Live → s.fs.read .socket ≠ some (.socket d)
  | .unlinkSocket d => ∀ e, e ≠ d → (s.daemons e).Live → s.fs.read .socket ≠ some (.socket e)
  | .unlinkPid d => ∀ e, e ≠ d → (s.daemons e).Live → s.filedPid ≠ some (s.pid e : ℤ)
  | _ => True

/-- A client removes the socket only while no daemon process is alive, and no other client is between
its removal and its spawn. -/
def Exclusive (s : Session) : SessionEvent → Prop
  | .unlink _ => (∀ d, ¬(s.daemons d).Live) ∧ ∀ c, s.clients c ≠ .unlinked
  | _ => True

/-! ## One at a time -/

/-- The invariant: one client about to spawn, or one live daemon and its own files. -/
structure Alone (s : Session) : Prop where
  live : ∀ d e, (s.daemons d).Live → (s.daemons e).Live → d = e
  calm : ∀ d, (s.daemons d).Live → ∀ c, s.clients c ≠ .unlinked
  unlinked : ∀ b c, s.clients b = .unlinked → s.clients c = .unlinked → b = c
  bound : ∀ d, s.daemons d = .serving → s.fs.read .socket = some (.socket d)
  handle : ∀ d file, s.daemons d = .created file →
    s.fs.dir .socket ≠ some file ∧ file < s.fs.next

section Step

variable {s t : Session} {c d : ℕ} {ph : ClientPhase} {dph : DaemonPhase}

theorem live_of_phase (h : s.daemons d = dph) (hlive : dph.Live) : (s.daemons d).Live := h ▸ hlive

theorem passed_ne_unlinked (d polls : ℕ) (stage : PollStage) :
    ClientPhase.passed d polls stage ≠ .unlinked := by
  cases stage <;> nofun

theorem missed_ne_unlinked (d polls : ℕ) (stage : PollStage) :
    ClientPhase.missed d polls stage ≠ .unlinked := by
  cases stage with
  | child => nofun
  | _ =>
    simp only [ClientPhase.missed]
    split_ifs <;> nofun

namespace Alone

theorem new (fs : FileSystem SessionFile SessionContent) : Alone (.new fs) where
  live _ _ hd := absurd rfl hd.1
  calm _ _ _ := nofun
  unlinked _ _ := nofun
  bound _ := nofun
  handle _ _ := nofun

/-- A client moves on, and is not about to spawn. -/
theorem setClient (h : Alone s) (hph : ph ≠ .unlinked) : Alone (s.setClient c ph) := by
  have hold : ∀ b, (s.setClient c ph).clients b = .unlinked → s.clients b = .unlinked := by
    intro b hb
    rw [Session.clients_setClient] at hb
    split_ifs at hb
    · exact absurd hb hph
    · exact hb
  exact ⟨h.live, fun d hd b hb => h.calm d hd b (hold b hb),
    fun b b' hb hb' => h.unlinked b b' (hold b hb) (hold b' hb'), h.bound, h.handle⟩

/-- **The live daemon moves on**, and owns what it holds then. -/
theorem moveDaemon (h : Alone s) (hlive : (s.daemons d).Live)
    (fs : FileSystem SessionFile SessionContent)
    (hserving : dph = .serving → fs.read .socket = some (.socket d))
    (hcreated : ∀ file, dph = .created file → fs.dir .socket ≠ some file ∧ file < fs.next) :
    Alone ({ s with fs := fs }.setDaemon d dph) := by
  -- the other daemons are not alive, and stay so
  have hcases : ∀ e ph, (({ s with fs := fs } : Session).setDaemon d dph).daemons e = ph →
      ph.Live → e = d ∧ dph = ph := by
    intro e ph he hph
    rw [Session.daemons_setDaemon] at he
    split_ifs at he with heq
    · exact ⟨heq, he⟩
    · exact absurd (h.live e d (he ▸ hph) hlive) heq
  refine ⟨fun e e' he he' => ?_, fun _ _ => h.calm d hlive, h.unlinked, fun e he => ?_,
    fun e file he => ?_⟩
  · rw [(hcases e _ rfl he).1, (hcases e' _ rfl he').1]
  · obtain ⟨rfl, hph⟩ := hcases e _ he ⟨nofun, nofun⟩
    exact hserving hph
  · obtain ⟨rfl, hph⟩ := hcases e _ he ⟨nofun, nofun⟩
    exact hcreated file hph

/-- The same with the files as they are. -/
theorem setDaemon (h : Alone s) (hlive : (s.daemons d).Live) (hserving : dph ≠ .serving)
    (hcreated : ∀ file, dph ≠ .created file) : Alone (s.setDaemon d dph) :=
  h.moveDaemon hlive s.fs (fun hd => absurd hd hserving) fun file hd => absurd hd (hcreated file)

/-- A client removes the socket, alone. -/
theorem unlink (hlive : ∀ d, ¬(s.daemons d).Live) (hcalm : ∀ b, s.clients b ≠ .unlinked) :
    Alone ({ s with fs := s.fs.remove .socket }.setClient c .unlinked) := by
  have hself : ∀ b, (({ s with fs := s.fs.remove .socket } : Session).setClient c
      .unlinked).clients b = .unlinked → b = c := by
    intro b hb
    rw [Session.clients_setClient] at hb
    split_ifs at hb with heq
    · exact heq
    · exact absurd hb (hcalm b)
  exact ⟨fun d _ hd => absurd hd (hlive d), fun d hd => absurd hd (hlive d),
    fun b b' hb hb' => (hself b hb).trans (hself b' hb').symm,
    fun d hd => absurd (live_of_phase hd ⟨nofun, nofun⟩) (hlive d),
    fun d _ hd => absurd (live_of_phase hd ⟨nofun, nofun⟩) (hlive d)⟩

/-- The client about to spawn does. -/
theorem spawn (h : Alone s) (hphase : s.clients c = .unlinked) {pid : ℕ} (hph : ph ≠ .unlinked) :
    Alone ((s.spawn pid).setClient c ph) := by
  have hcases : ∀ d dph, ((s.spawn pid).setClient c ph).daemons d = dph → dph.Live →
      d = s.spawned ∧ dph = .starting := by
    intro d dph hd hlive
    rw [Session.setClient, Session.daemons_spawn] at hd
    split_ifs at hd with heq
    · exact ⟨heq, hd.symm⟩
    · exact absurd hphase (h.calm d (hd ▸ hlive) c)
  have hcalm : ∀ b, ((s.spawn pid).setClient c ph).clients b ≠ .unlinked := by
    intro b hb
    rw [Session.clients_setClient] at hb
    split_ifs at hb with heq
    · exact hph hb
    · exact heq (h.unlinked b c hb hphase)
  refine ⟨fun d e hd he => ?_, fun _ _ => hcalm, fun b _ hb => absurd hb (hcalm b), fun d hd => ?_,
    fun d file hd => ?_⟩
  · rw [(hcases d _ rfl hd).1, (hcases e _ rfl he).1]
  · exact nomatch (hcases d _ hd ⟨nofun, nofun⟩).2
  · exact nomatch (hcases d _ hd ⟨nofun, nofun⟩).2

/-- **Every step the condition allows keeps it so.** -/
theorem step (h : Alone s) {e : SessionEvent} (hstep : SessionStep s e t) (hg : Exclusive s e) :
    Alone t := by
  cases hstep with
  | alive => exact h.setClient nofun
  | dead => exact h.setClient nofun
  | unlink => exact unlink hg.1 hg.2
  | spawn hphase => exact h.spawn hphase nofun
  | giveUp => exact h.setClient nofun
  | pollPasses => exact h.setClient (passed_ne_unlinked _ _ _)
  | pollMisses => exact h.setClient (missed_ne_unlinked _ _ _)
  | connected => exact h.setClient nofun
  | refused => exact h.setClient nofun
  | refuse hphase => exact h.setDaemon (live_of_phase hphase ⟨nofun, nofun⟩) nofun nofun
  | createPid hphase =>
    refine h.moveDaemon (live_of_phase hphase ⟨nofun, nofun⟩) _ nofun fun file hfile => ?_
    obtain rfl := DaemonPhase.created.inj hfile
    have hdir : s.createPidFile.2.dir .pid = some s.createPidFile.1 := by
      rw [Session.createPidFile, FileSystem.dir_create, Function.update_self]
    exact ⟨fun hsocket => absurd (s.createPidFile.2.single hsocket hdir) nofun,
      s.createPidFile.2.lt_next hdir⟩
  | writePid hphase => exact h.moveDaemon (live_of_phase hphase ⟨nofun, nofun⟩) _ nofun nofun
  | @skipPid d hphase =>
    have hlive : (s.daemons d).Live := by
      obtain hphase | ⟨file, hphase⟩ := hphase <;> exact live_of_phase hphase ⟨nofun, nofun⟩
    exact h.setDaemon hlive nofun nofun
  | bind hphase =>
    exact h.moveDaemon (live_of_phase hphase ⟨nofun, nofun⟩) _
      (fun _ => FileSystem.read_link_self) nofun
  | bindFails hphase => exact h.setDaemon (live_of_phase hphase ⟨nofun, nofun⟩) nofun nofun
  | shutdown hphase => exact h.setDaemon (live_of_phase hphase ⟨nofun, nofun⟩) nofun nofun
  | unlinkSocket hphase => exact h.moveDaemon (live_of_phase hphase ⟨nofun, nofun⟩) _ nofun nofun
  | unlinkPid hphase => exact h.moveDaemon (live_of_phase hphase ⟨nofun, nofun⟩) _ nofun nofun
  | exit hphase => exact h.setDaemon (live_of_phase hphase ⟨nofun, nofun⟩) nofun nofun
  | crash hlive => exact h.setDaemon hlive nofun nofun

/-- **Every run the condition allows.** -/
theorem of_reachable (h : (session.guarded Exclusive).Reachable s) : Alone s := by
  refine h.invariant ?_ fun s e t _ hs hstep => hs.step hstep.1 hstep.2
  rintro s ⟨fs, -, rfl⟩
  exact new fs

theorem singleDaemon (h : Alone s) : SingleDaemon s where
  unique := h.live
  reached d hd := ⟨h.bound d hd, hd⟩

/-- The files a step takes are nobody else's. -/
theorem harmless (h : Alone s) {e : SessionEvent} (hstep : SessionStep s e t)
    (hg : Exclusive s e) : Harmless s e := by
  cases hstep with
  | unlink => exact fun d hd => absurd hd (hg.1 d)
  | unlinkSocket hphase =>
    exact fun e hne he => absurd (h.live e _ he (live_of_phase hphase ⟨nofun, nofun⟩)) hne
  | unlinkPid hphase =>
    exact fun e hne he => absurd (h.live e _ he (live_of_phase hphase ⟨nofun, nofun⟩)) hne
  | _ => trivial

end Alone

end Step

/-! ## The way to two daemons -/

section Two

variable {s t : Session} {b c d e : ℕ} {dph : DaemonPhase}

/-- Only what has been spawned has a phase. -/
def Numbered (s : Session) : Prop := ∀ d, s.spawned ≤ d → s.daemons d = .unborn

theorem Numbered.move (h : Numbered s) (fs : FileSystem SessionFile SessionContent)
    (hborn : s.daemons e ≠ .unborn) : Numbered ({ s with fs := fs }.setDaemon e dph) := by
  intro d hd
  rw [Session.daemons_setDaemon]
  split_ifs with heq
  · exact absurd (h d hd) (heq ▸ hborn)
  · exact h d hd

theorem Numbered.step (h : Numbered s) {e : SessionEvent} (hstep : SessionStep s e t) :
    Numbered t := by
  cases hstep with
  | spawn =>
    intro d hd
    have hlt : s.spawned < d := hd
    rw [Session.setClient, Session.daemons_spawn, if_neg hlt.ne']
    exact h d hlt.le
  | skipPid hphase =>
    obtain hphase | ⟨file, hphase⟩ := hphase <;> exact h.move s.fs (hphase ▸ nofun)
  | refuse hphase => exact h.move s.fs (hphase ▸ nofun)
  | createPid hphase => exact h.move _ (hphase ▸ nofun)
  | writePid hphase => exact h.move _ (hphase ▸ nofun)
  | bind hphase => exact h.move _ (hphase ▸ nofun)
  | bindFails hphase => exact h.move s.fs (hphase ▸ nofun)
  | shutdown hphase => exact h.move s.fs (hphase ▸ nofun)
  | unlinkSocket hphase => exact h.move _ (hphase ▸ nofun)
  | unlinkPid hphase => exact h.move _ (hphase ▸ nofun)
  | exit hphase => exact h.move s.fs (hphase ▸ nofun)
  | crash hlive => exact h.move s.fs hlive.1
  | _ => exact h

theorem numbered_of_reachable (h : session.Reachable s) : Numbered s := by
  refine h.invariant ?_ fun s e t _ hs hstep => hs.step hstep
  rintro s ⟨fs, -, rfl⟩ d -
  rfl

theorem Numbered.lt_of_live (h : Numbered s) (hlive : (s.daemons d).Live) : d < s.spawned := by
  by_contra hle
  exact hlive.1 (h d (Nat.not_lt.mp hle))

/-- A client about to spawn can. -/
theorem exists_spawn (h : Numbered s) (hphase : s.clients c = .unlinked) :
    ∃ pid, session.step s (.spawn c pid) ((s.spawn pid).setClient c (.waiting s.spawned 0 .child)) :=
  by
  refine ⟨(Finset.range s.spawned).sup s.pid + 1,
    SessionStep.spawn hphase (Nat.succ_pos _) fun d hd => ?_⟩
  have hle : s.pid d ≤ (Finset.range s.spawned).sup s.pid :=
    Finset.le_sup (Finset.mem_range.mpr (h.lt_of_live hd))
  exact (Nat.lt_succ_of_le hle).ne

/-- **A client about to spawn beside a live daemon** makes two. -/
theorem two_of_unlinked_live (h : Numbered s) (hphase : s.clients c = .unlinked)
    (hlive : (s.daemons d).Live) : ∃ ts u, session.Run s ts u ∧ ¬SingleDaemon u := by
  obtain ⟨pid, hstep⟩ := exists_spawn h hphase
  refine ⟨_, _, Machine.Run.refl.snoc hstep, fun hsingle => ?_⟩
  have hne : d ≠ s.spawned := (h.lt_of_live hlive).ne
  refine hne (hsingle.unique d s.spawned ?_ ?_)
  · rw [Session.setClient, Session.daemons_spawn, if_neg hne]
    exact hlive
  · rw [Session.setClient, Session.daemons_spawn, if_pos rfl]
    exact ⟨nofun, nofun⟩

/-- **Two clients about to spawn** make two. -/
theorem two_of_unlinked (h : Numbered s) (hb : s.clients b = .unlinked)
    (hc : s.clients c = .unlinked) (hne : c ≠ b) :
    ∃ ts u, session.Run s ts u ∧ ¬SingleDaemon u := by
  obtain ⟨pid, hstep⟩ := exists_spawn h hb
  have hlive : (((s.spawn pid).setClient b (.waiting s.spawned 0 .child)).daemons
      s.spawned).Live := by
    rw [Session.setClient, Session.daemons_spawn, if_pos rfl]
    exact ⟨nofun, nofun⟩
  have hclient : ((s.spawn pid).setClient b (.waiting s.spawned 0 .child)).clients c = .unlinked := by
    rw [Session.clients_setClient, if_neg hne]
    exact hc
  obtain ⟨ts, u, hrun, htwo⟩ := two_of_unlinked_live (h.step hstep) hclient hlive
  exact ⟨_, u, (Machine.Run.refl.snoc hstep).append hrun, htwo⟩

/-- **A removal that is not exclusive** is on the way to two daemons. -/
theorem two_of_not_exclusive (h : session.Reachable s) {e : SessionEvent}
    (hstep : session.step s e t) (hnot : ¬Exclusive s e) :
    ∃ ts u, session.Run t ts u ∧ ¬SingleDaemon u := by
  have hnumbered := numbered_of_reachable (h.step hstep)
  cases hstep with
  | @unlink c hphase =>
    have hself : ({ s with fs := s.fs.remove .socket }.setClient c .unlinked : Session).clients c =
        .unlinked := Function.update_self ..
    by_cases hlive : ∃ d, (s.daemons d).Live
    · obtain ⟨d, hd⟩ := hlive
      exact two_of_unlinked_live hnumbered hself hd
    · have hother : ∃ b, s.clients b = .unlinked := by
        by_contra hnone
        exact hnot ⟨fun d hd => hlive ⟨d, hd⟩, fun b hb => hnone ⟨b, hb⟩⟩
      obtain ⟨b, hb⟩ := hother
      have hne : b ≠ c := by
        rintro rfl
        exact nomatch hb.symm.trans hphase
      have hkept : ({ s with fs := s.fs.remove .socket }.setClient c .unlinked : Session).clients b =
          .unlinked := (Function.update_of_ne hne ..).trans hb
      exact two_of_unlinked hnumbered hself hkept hne
  | _ => exact absurd trivial hnot

end Two

/-! ## One daemon or two -/

/-- **One reachable daemon per session**, in every state of every run whose removals are exclusive,
and no file taken from a live daemon on the way; after any other removal the run can go on to two
daemons. -/
theorem singleDaemon_of_exclusive (s : Session) :
    ((session.guarded Exclusive).Reachable s → SingleDaemon s ∧
      ∀ e t, session.step s e t → Exclusive s e → Harmless s e) ∧
    ∀ e t, session.Reachable s → session.step s e t → ¬Exclusive s e →
      ∃ ts u, session.Run t ts u ∧ ¬SingleDaemon u :=
  ⟨fun h => ⟨(Alone.of_reachable h).singleDaemon,
    fun _ _ hstep hg => (Alone.of_reachable h).harmless hstep hg⟩,
    fun _ _ h hstep hnot => two_of_not_exclusive h hstep hnot⟩

/-! ## Two clients at once -/

section Served

variable {s : Session} {b c : ℕ}

/-- **A daemon spawned where nothing is in its way** serves. -/
theorem exists_served (h : Numbered s) (hphase : s.clients c = .unlinked)
    (hfree : s.fs.dir .socket = none) : ∃ ts t, (session.guarded Exclusive).Run s ts t ∧
      t.Answers s.spawned ∧ (∀ d, d ≠ s.spawned → t.daemons d = s.daemons d) ∧
      ∀ b, b ≠ c → t.clients b = s.clients b := by
  obtain ⟨pid, hspawn⟩ := exists_spawn h hphase
  set s₁ := (s.spawn pid).setClient c (.waiting s.spawned 0 .child) with hs₁
  have hspawned : (session.guarded Exclusive).step s (.spawn c pid) s₁ := ⟨hspawn, trivial⟩
  set s₂ := ({ s₁ with fs := s₁.createPidFile.2 } : Session).setDaemon s.spawned
    (.created s₁.createPidFile.1) with hs₂
  have hcreated : (session.guarded Exclusive).step s₁ (.createPid s.spawned) s₂ :=
    ⟨.createPid (Function.update_self ..), trivial⟩
  set fs₃ := s₂.fs.modify s₁.createPidFile.1 (SessionContent.overwrite (pidLine (s₂.pid s.spawned)))
  set s₃ := ({ s₂ with fs := fs₃ } : Session).setDaemon s.spawned .binding with hs₃
  have hwritten : (session.guarded Exclusive).step s₂ (.writePid s.spawned) s₃ :=
    ⟨.writePid (Function.update_self ..), trivial⟩
  have hdir : s₃.fs.dir .socket = none := by
    change (s₁.createPidFile.2).dir .socket = none
    rw [Session.createPidFile, FileSystem.dir_create, Function.update_of_ne (by decide)]
    exact hfree
  set fs₄ := s₃.fs.link SessionFile.socket (SessionContent.socket s.spawned) with hfs₄
  set s₄ := ({ s₃ with fs := fs₄ } : Session).setDaemon s.spawned .serving with hs₄
  have hbound : (session.guarded Exclusive).step s₃ (.bind s.spawned) s₄ :=
    ⟨.bind (Function.update_self ..) hdir, trivial⟩
  refine ⟨_, s₄, (((Machine.Run.refl.snoc hspawned).snoc hcreated).snoc hwritten).snoc hbound,
    ⟨FileSystem.read_link_self, Function.update_self ..⟩, fun d hd => ?_,
    fun b hb => Function.update_of_ne hb ..⟩
  have hkept : s₁.daemons d = s.daemons d := Function.update_of_ne hd ..
  simp only [hs₄, hs₃, hs₂, Session.daemons_setDaemon, if_neg hd, hkept]

theorem not_daemonAlive {foreign : ℤ → Prop} (h : s.fs.read .pid = none) :
    ¬s.DaemonAlive foreign := by
  rintro ⟨n, hn, -⟩
  rw [Session.filedPid, h] at hn
  cases hn

/-- Two clients find no daemon; the first spawns one, and it serves. -/
theorem exists_overtaken : ∃ s, (session.guarded Exclusive).Reachable s ∧ s.Answers 0 ∧
    s.clients 1 = .spawning := by
  set s₀ := Session.new (.empty .other)
  have hinit : (session.guarded Exclusive).Reachable s₀ :=
    .init ⟨.empty .other, fun _ _ => nofun, rfl⟩
  have hfirst : (session.guarded Exclusive).step s₀ (.check 0 fun _ => False)
      (s₀.setClient 0 .spawning) := ⟨.dead rfl (not_daemonAlive rfl), trivial⟩
  have hsecond : (session.guarded Exclusive).step (s₀.setClient 0 .spawning)
      (.check 1 fun _ => False) ((s₀.setClient 0 .spawning).setClient 1 .spawning) :=
    ⟨.dead rfl (not_daemonAlive rfl), trivial⟩
  have hclients : ∀ c, ((s₀.setClient 0 .spawning).setClient 1 .spawning).clients c ≠ .unlinked := by
    intro c
    rw [Session.clients_setClient, Session.clients_setClient]
    split_ifs <;> nofun
  set s₂ := (s₀.setClient 0 .spawning).setClient 1 .spawning
  have hthird : (session.guarded Exclusive).step s₂ (.unlink 0)
      ({ s₂ with fs := s₂.fs.remove .socket }.setClient 0 .unlinked) :=
    ⟨.unlink rfl, fun d hd => hd.1 rfl, hclients⟩
  have hunlink := ((hinit.step hfirst).step hsecond).step hthird
  obtain ⟨ts, t, hrun, hanswers, -, hkept⟩ := exists_served
    (numbered_of_reachable hunlink.of_guarded) (Function.update_self ..)
    (FileSystem.dir_remove_self _ _)
  exact ⟨t, hunlink.run hrun, hanswers, hkept 1 (by decide)⟩

end Served

/-- One client is served by the daemon it has spawned. -/
theorem singleDaemon_of_exclusive_served : ∃ s, (session.guarded Exclusive).Reachable s ∧
    s.Answers 0 ∧ SingleDaemon s := by
  obtain ⟨s, hs, hanswers, -⟩ := exists_overtaken
  exact ⟨s, hs, hanswers, ((singleDaemon_of_exclusive s).1 hs).1⟩

/-- **Two clients that start at once** leave a daemon that serves and cannot be reached, beside the
one that can. -/
theorem not_singleDaemon : ∃ s d e, session.Reachable s ∧ d ≠ e ∧ s.daemons d = .serving ∧
    ¬s.Answers d ∧ s.Answers e ∧ ¬SingleDaemon s := by
  obtain ⟨s, hs, hserving, hspawning⟩ := exists_overtaken
  have hunlink := hs.of_guarded.step (SessionStep.unlink hspawning)
  have hnumbered := numbered_of_reachable hunlink
  obtain ⟨ts, t, hrun, hanswers, hkept, -⟩ := exists_served hnumbered (Function.update_self ..)
    (FileSystem.dir_remove_self _ _)
  have hlive : (s.daemons 0).Live := live_of_phase hserving.2 ⟨nofun, nofun⟩
  have hne : 0 ≠ s.spawned := ((numbered_of_reachable hs.of_guarded).lt_of_live hlive).ne
  have hfirst : t.daemons 0 = .serving := (hkept 0 hne).trans hserving.2
  refine ⟨t, 0, s.spawned, hunlink.run hrun.of_guarded.1, hne, hfirst, fun hzero => ?_, hanswers,
    fun hsingle => ?_⟩
  · have hsame := hzero.1.symm.trans hanswers.1
    exact hne (SessionContent.socket.inj (Option.some.inj hsame))
  · exact hne (hsingle.unique 0 s.spawned (live_of_phase hfirst ⟨nofun, nofun⟩)
      (live_of_phase hanswers.2 ⟨nofun, nofun⟩))

end AgentProcs
