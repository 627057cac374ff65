import AgentProcs.Daemon.Service
import AgentProcs.Supervision.Shutdown
import AgentProcs.Supervision.StopAll

/-!
# Supervision/LateRun — the window between a shutdown's stop-all and the end of the server loop

    Shutdown ──▸ all stopped ──▸ answered ──▸ notified ──▸ loop ended
                      └──────────── Run accepted? ────────────┘

Once its stop-all is answered, a shutdown leaves an empty table behind: no record can be restarted,
no timer finds its record, no teardown is under way.  Only a `Run` can start anything again, and
nothing keeps one out.
-/

namespace AgentProcs

/-! ## What a Run needs -/

/-- A `Run` gets its incarnation: the name is allowed and free, the port is resolved, and the spawn
works. -/
structure ProcessManager.Spawns (os : Os) (name : Option String) (port : Option ℕ)
    (pm : ProcessManager) : Prop where
  stays : traverses (name.getD pm.nextId.1) = false
  label : pm.portAllocator.isProxyEnabled = true → isValidDnsLabel (name.getD pm.nextId.1) = true
  resolved : ∃ r, pm.nextId.2.resolvePort os port = .ok r
  free : pm.processes.lookup (name.getD pm.nextId.1) = none
  works : ∃ pid, os.spawn = .ok pid

/-- A `Run` that does not get its incarnation leaves the records alone. -/
theorem ProcessManager.spawnProcess_of_not_spawns {os : Os} (command : String)
    {name : Option String} (cwd : Option String) (env : Option (List (String × String)))
    {port : Option ℕ} {pm : ProcessManager} (h : ¬ pm.Spawns os name port) :
    (pm.spawnProcess os command name cwd env port).1.processes = pm.processes ∧
      (pm.spawnProcess os command name cwd env port).1.spawned = pm.spawned ∧
      ∃ code message, (pm.spawnProcess os command name cwd env port).2 = .error code message := by
  rw [spawnProcess]
  dsimp only
  split
  · exact ⟨rfl, rfl, _, _, rfl⟩
  rename_i hstays
  split
  · exact ⟨rfl, rfl, _, _, rfl⟩
  rename_i hlabel
  split
  · exact ⟨rfl, rfl, _, _, rfl⟩
  rename_i resolved pm₂ hok
  obtain ⟨hprocs, -, hspawned, -⟩ := Actor.resolvePort_same hok
  split
  · exact ⟨hprocs, hspawned, _, _, rfl⟩
  rename_i hfree
  split
  · exact ⟨hprocs, hspawned, _, _, rfl⟩
  rename_i pid hworks
  refine absurd ⟨Bool.eq_false_of_not_eq_true hstays, fun hproxy => ?_, ⟨_, hok⟩, ?_, ⟨pid, hworks⟩⟩ h
  · simpa [show (pm.nextId.2).portAllocator = pm.portAllocator from rfl, hproxy] using hlabel
  · rw [hprocs] at hfree
    exact Option.not_isSome_iff_eq_none.mp hfree

/-! ## Nothing is left, and nothing comes back -/

/-- No record, and every incarnation ever spawned torn down. -/
structure Deserted (w : World) : Prop where
  empty : ∀ n, w.record n = none
  gone : ∀ k < w.actor.pm.spawned, ∃ i ∈ w.tornDown, i.serial = k

/-- A command that gets an incarnation for a new record. -/
def PmCommand.SpawnsAfresh (os : Os) (a : Actor) : PmCommand → Prop
  | .spawn _ name _ _ port _ _ _ => a.stopAll = none ∧ a.pm.Spawns os name port
  | _ => False

/-- An event that does. -/
def Event.SpawnsAfresh (w : World) : Event → Prop
  | .client os cmd => cmd.SpawnsAfresh os w.actor
  | _ => False

variable {w w' : World}

/-- A `Run` that gets no incarnation is refused. -/
theorem Actor.handleSpawn_refused {os : Os} (command : String) {name : Option String}
    (cwd : Option String) (env : Option (List (String × String))) {port : Option ℕ}
    (restart : Option RestartPolicy) (watch : Option WatchConfig) (reply : Reply) {a : Actor}
    (h : ¬ (a.stopAll = none ∧ a.pm.Spawns os name port)) :
    a.handleSpawn os command name cwd env port restart watch reply =
      a.respond reply stopAllInProgress ∨
    ∃ pm code message, a.pm.spawnProcess os command name cwd env port = (pm, .error code message) ∧
      a.handleSpawn os command name cwd env port restart watch reply =
        (publishProxyState { a with pm }).respond reply (.error code message) := by
  rcases handleSpawn_cases os command name cwd env port restart watch reply a with ⟨-, hspawn⟩ |
    ⟨hidle, hrefused | ⟨pm, p, id, pid, port', url, url', heq, -, -, -⟩⟩
  · exact .inl hspawn
  · exact .inr hrefused
  · obtain ⟨-, -, code, message, hresp⟩ :=
      ProcessManager.spawnProcess_of_not_spawns command cwd env fun hspawns => h ⟨hidle, hspawns⟩
    rw [heq] at hresp
    exact nomatch hresp

/-- A `Run` that gets no incarnation leaves the records, and their number, as they are. -/
theorem Actor.handleSpawn_of_not_launches {os : Os} {command : String} {name cwd : Option String}
    {env : Option (List (String × String))} {port : Option ℕ} {restart : Option RestartPolicy}
    {watch : Option WatchConfig} {reply : Reply} {a : Actor}
    (h : ¬ (PmCommand.spawn command name cwd env port restart watch reply).SpawnsAfresh os a) :
    (a.handleSpawn os command name cwd env port restart watch reply).pm.processes =
        a.pm.processes ∧
      (a.handleSpawn os command name cwd env port restart watch reply).pm.spawned =
        a.pm.spawned := by
  rcases handleSpawn_refused command cwd env restart watch reply h with hspawn |
    ⟨pm, code, message, herror, hspawn⟩
  · exact hspawn ▸ ⟨rfl, rfl⟩
  · obtain ⟨-, hprocs, -, hspawned, -⟩ := spawnProcess_of_error herror
    have hpm : ((publishProxyState { a with pm }).respond reply (.error code message)).pm = pm :=
      pm_publishProxyState _
    rw [hspawn, hpm]
    exact ⟨hprocs, hspawned⟩

/-- **Moves on an empty table** add a record only by creating one. -/
theorem Moves.empty {E : Incarnation → Option (Option ℤ)} {R : String → RespawnReason → Prop}
    {L : String → Launch → Prop} {d d' : Desk} (h : Moves (Move.Within E R L) d d')
    (hL : ∀ n, ¬ L n .fresh) (hd : ∀ n, d.holdings.processes.lookup n = none) :
    (∀ n, d'.holdings.processes.lookup n = none) ∧ d'.holdings.spawned = d.holdings.spawned := by
  refine h.invariant (P := fun d' => (∀ n, d'.holdings.processes.lookup n = none) ∧
    d'.holdings.spawned = d.holdings.spawned) ⟨hd, rfl⟩ ?_
  intro d₁ m d₂ ⟨hnone, hspawned⟩ hmove hm
  refine ⟨fun n => ?_, ?_⟩
  · by_contra hsome
    obtain ⟨q, hq⟩ := Option.ne_none_iff_exists'.mp hsome
    rcases hmove.record hq with ⟨p, hp, -⟩ | ⟨rfl, -⟩
    · exact absurd ((hnone n).symm.trans hp) (by simp)
    · exact hL _ hm
  · cases hmove with
    | relaunch _ hp => exact absurd ((hnone _).symm.trans hp) (by simp)
    | create => exact absurd hm (hL _)
    | _ => exact hspawned

/-- **Nothing comes back**: a step that is not a `Run` with an incarnation leaves it deserted. -/
theorem Deserted.step (h : Deserted w) {e : Event} (hs : Sound w.books w.actor.holdings)
    (hstep : Step w e w') (hquiet : ¬ e.SpawnsAfresh w) : Deserted w' := by
  have hgrows : w.tornDown ⊆ w'.tornDown := by
    cases hstep with
    | teardownDone => exact List.subset_append_right _ _
    | _ => exact fun _ => id
  suffices hsame : (∀ n, w'.record n = none) ∧ w'.actor.pm.spawned = w.actor.pm.spawned from
    ⟨hsame.1, fun k hk => (h.gone k (hsame.2 ▸ hk)).imp fun i hi => ⟨hgrows hi.1, hi.2⟩⟩
  by_cases hspawn : ∃ os command name cwd env port restart watch reply,
      e = .client os (.spawn command name cwd env port restart watch reply)
  · obtain ⟨os, command, name, cwd, env, port, restart, watch, reply, rfl⟩ := hspawn
    cases hstep
    obtain ⟨hprocs, hspawned⟩ := Actor.handleSpawn_of_not_launches hquiet
    refine ⟨fun n => ?_, hspawned⟩
    change (Actor.handleSpawn _ _ _ _ _ _ _ _ _ _).pm.processes.lookup n = _
    rw [hprocs]
    exact h.empty n
  · refine (step_moves hs hstep).empty (fun n hn => ?_) h.empty
    unfold Event.launches at hn
    split at hn
    · exact hspawn ⟨_, _, _, _, _, _, _, _, _, rfl⟩
    · exact absurd hn.1 (by simp)
    · exact hn

/-- A step that says "all processes stopped" leaves it deserted. -/
theorem Deserted.of_finished (hs : Sound w'.books w'.actor.holdings)
    (h : Finished w.actor w'.actor) : Deserted w' := by
  refine ⟨fun n => ?_, gone_of_empty hs h.empty⟩
  rw [World.record, h.empty]
  exact Table.lookup_empty n

/-! ## Whom the loops hear from -/

/-- Before the first `Shutdown` is handled, no loop has been notified and none has ended. -/
def Server.Unasked (s : Server) : Prop :=
  0 < s.shutdowns ∨ ¬ s.shutdown.Pending ∧ ∀ l, s.loop l ≠ some .ended

namespace Server

variable {s s' : Server}

theorem loop_setLoop (l m : Loop) (st : LoopState) (s : Server) :
    (s.setLoop l st).loop m = if m = l then some st else s.loop m := by
  cases l <;> cases m <;> rfl

theorem loop_congr {t : Server} (hserver : t.server = s.server) (hproxy : t.proxy = s.proxy)
    (m : Loop) : t.loop m = s.loop m := by
  cases m
  · exact congrArg some hserver
  · exact hproxy

theorem alive_congr {t : Server} (hserver : t.server = s.server) (hproxy : t.proxy = s.proxy)
    (h : ∀ m, s.loop m ≠ some .ended) (m : Loop) : t.loop m ≠ some .ended :=
  fun hended => h m ((loop_congr hserver hproxy m).symm.trans hended)

/-- Sending a loop elsewhere than to its end ends none. -/
theorem loop_setLoop_ne_ended {l : Loop} {st : LoopState} (hst : st ≠ .ended)
    (h : ∀ m, s.loop m ≠ some .ended) (m : Loop) : (s.setLoop l st).loop m ≠ some .ended := by
  rw [loop_setLoop]
  split
  · exact fun he => hst (Option.some.inj he)
  · exact h m

@[simp] theorem shutdown_setLoop {l : Loop} {st : LoopState} :
    (s.setLoop l st).shutdown = s.shutdown := by
  cases l <;> rfl

/-- Serving a connection concerns neither the notification nor the loops. -/
theorem serve_same (l : Loop) (s : Server) :
    (s.serve l).shutdown = s.shutdown ∧ ∀ m, (s.serve l).loop m = s.loop m := by
  cases l
  · rw [serve]
    split
    · exact ⟨rfl, fun _ => rfl⟩
    · exact ⟨rfl, loop_congr rfl rfl⟩
  · exact ⟨rfl, fun _ => rfl⟩

namespace Unasked

theorem new : Server.new.Unasked := by
  refine .inr ⟨?_, fun l => ?_⟩
  · rintro (h | h) <;> exact absurd h (by decide)
  · cases l <;> decide

/-- **Nobody notifies but a connection that handles a `Shutdown`.** -/
theorem step {e : ServerEvent} (h : s.Unasked) (hstep : ServerStep s e s')
    (hother : e ≠ .request .shutdown) : s'.Unasked := by
  rcases h with h | ⟨hquiet, halive⟩
  · exact .inl ((shutdowns_of_step hstep hother).symm ▸ h)
  have hturn (l : Loop) : ¬ (s.turn l).shutdown.Pending ∧ ∀ m, (s.turn l).loop m ≠ some .ended := by
    constructor
    · rw [turn, shutdown_setLoop]
      exact fun hpending => hquiet (Notify.pending_leave.mp hpending)
    · exact loop_setLoop_ne_ended (by decide) (alive_congr (s := s) rfl rfl halive)
  refine .inr ?_
  cases hstep with
  | poll =>
    rw [poll, if_neg fun hpermit => hquiet (.inl hpermit)]
    refine ⟨?_, loop_setLoop_ne_ended (by decide) (alive_congr (s := s) rfl rfl halive)⟩
    rw [shutdown_setLoop]
    exact fun hpending => hquiet (Notify.pending_join.mp hpending)
  | wake _ hwoken => exact absurd (.inr (List.ne_nil_of_mem hwoken)) hquiet
  | @accept l =>
    obtain ⟨hsame, hloops⟩ := (s.turn l).serve_same l
    exact ⟨hsame ▸ (hturn l).1, fun m => hloops m ▸ (hturn l).2 m⟩
  | acceptError => exact hturn _
  | @request r =>
    cases r with
    | shutdown => exact absurd rfl hother
    | enableProxy bound listens =>
      rw [handleRequest.eq_def]
      cases bound with
      | error => exact ⟨hquiet, halive⟩
      | ok =>
        dsimp only
        split
        · exact ⟨hquiet, halive⟩
        · refine ⟨hquiet, fun m => ?_⟩
          cases m with
          | server => exact halive .server
          | proxy =>
            cases listens with
            | true => exact fun he => absurd he (by simp [loop])
            | false => exact halive .proxy
    | other => exact ⟨hquiet, halive⟩
  | disconnect => exact ⟨hquiet, alive_congr (s := s) rfl rfl halive⟩

end Unasked

end Server

/-! ## The daemon with its loops -/

/-- The stop-all of some `Shutdown` has been answered. -/
def Service.Stopped (s : Service) : Prop :=
  0 < s.server.shutdowns ∨
    ∃ r ∈ s.shuttingDown, (r, .response allStopped) ∈ s.world.actor.answers

/-- No `Run` that gets its incarnation once the stop-all of a `Shutdown` has been answered. -/
def NoLateRun (s : Service) : ServiceEvent → Prop
  | .world e => s.Stopped → ¬ e.SpawnsAfresh s.world
  | _ => True

/-- What is kept while no `Run` comes late. -/
structure Closing (s : Service) : Prop where
  reachable : daemon.Reachable s.world
  asked : s.server.Unasked
  deserted : s.Stopped → Deserted s.world

namespace Closing

variable {s s' : Service}

/-- The actor's world moves, and the connections that wait are those before and maybe one more. -/
theorem move {e : Event} {w : World} {rs : List Reply} (h : Closing s) (hstep : Step s.world e w)
    (hquiet : s.Stopped → ¬ e.SpawnsAfresh s.world)
    (hwaiting : ∀ r ∈ rs, (r, .response allStopped) ∈ s.world.actor.answers →
      r ∈ s.shuttingDown) : Closing { s with world := w, shuttingDown := rs } where
  reachable := h.reachable.step hstep
  asked := h.asked
  deserted hstopped := by
    have hs := sound_of_reachable h.reachable
    by_cases hbefore : s.Stopped
    · exact (h.deserted hbefore).step hs hstep (hquiet hbefore)
    · refine Deserted.of_finished (w := s.world) (sound_of_reachable (h.reachable.step hstep)) ?_
      refine (step_cases hstep).resolve_left fun hsilent => hbefore ?_
      refine hstopped.imp id fun ⟨r, hr, hanswered⟩ => ?_
      have hold := hsilent r hanswered
      exact ⟨r, hwaiting r hr hold, hold⟩

theorem step {e : ServiceEvent} (h : Closing s) (hstep : ServiceStep s e s')
    (hquiet : NoLateRun s e) : Closing s' := by
  cases hstep with
  | world hstep => exact h.move hstep hquiet fun _ hr _ => hr
  | loops hstep hother =>
    refine ⟨h.reachable, h.asked.step hstep hother, fun hstopped => h.deserted ?_⟩
    exact hstopped.imp_left fun hpos => shutdowns_of_step hstep hother ▸ hpos
  | @shutdown os hos =>
    have hstep : Step s.world (.client os (.stopAll s.world.requests)) _ := .client hos rfl
    refine h.move hstep (fun _ => id) fun r hr hanswered => ?_
    rcases List.mem_cons.mp hr with rfl | hr
    · -- the channel is new, so nothing was answered on it
      have hchannel := (sound_of_reachable h.reachable).replies s.world.requests
      rw [if_neg (show ¬ s.world.requests < s.world.books.requests from Nat.lt_irrefl _)] at hchannel
      have hpos : 0 < s.world.actor.holdings.answers.countP (·.1 == s.world.requests) :=
        List.countP_pos_iff.mpr ⟨_, hanswered, beq_self_eq_true _⟩
      omega
    · exact hr
  | notify hmem hanswered =>
    exact ⟨h.reachable, .inl (Nat.succ_pos _), fun _ => h.deserted (.inr ⟨_, hmem, hanswered⟩)⟩

end Closing

theorem closing_of_reachable {s : Service} (h : (service.guarded NoLateRun).Reachable s) :
    Closing s := by
  refine h.invariant (P := Closing) ?_ fun s e s' _ hs hstep => hs.step hstep.1 hstep.2
  rintro s ⟨session, rfl⟩
  refine ⟨World.reachable_new session, .new, ?_⟩
  rintro (h | ⟨r, hr, -⟩)
  · exact absurd h (Nat.lt_irrefl 0)
  · exact absurd hr List.not_mem_nil

/-- **A shutdown leaves nothing behind if no `Run` comes late**: in every run in which no `Run` gets
an incarnation after the stop-all of a `Shutdown` has been answered, once the server loop has ended
every incarnation ever spawned is gone. -/
theorem nothing_left_of_noLateRun {s : Service} (h : (service.guarded NoLateRun).Reachable s)
    (hended : s.server.server = .ended) :
    ∀ k < s.world.actor.pm.spawned, ∃ i ∈ s.world.tornDown, i.serial = k := by
  have hclosing := closing_of_reachable h
  refine (hclosing.deserted (.inl (hclosing.asked.resolve_right fun hnone => ?_))).gone
  exact hnone.2 .server (congrArg some hended)

/-! ## One orderly shutdown -/

namespace Orderly

def connected : Server := ((Server.new.turn .server).serve .server).poll .server

/-- One process runs. -/
def running : Service :=
  ⟨(World.new "s").receive (.quiet 7) (.spawn "srv" (some "web") none none none none none 0),
    connected, []⟩

/-- A connection shuts the daemon down, and the process is torn down. -/
def stopping : Service :=
  { running with world := running.world.receive (.quiet 7) (.stopAll 1), shuttingDown := [1] }

def torn : Service :=
  { stopping with world := stopping.world.finish ⟨"web", 1, some ⟨0, 7⟩, none⟩ (some 0) }

/-- The report answers the stop-all. -/
def answered : Service :=
  { torn with world := torn.world.deliver (.quiet 7) (.stopFinished "web" 1 (some 0)) }

def notified : Service :=
  { answered with server := answered.server.handleRequest .shutdown, shuttingDown := [] }

def ended : Service := { notified with server := notified.server.wake .server }

theorem reachable_running : (service.guarded NoLateRun).Reachable running := by
  have hstart : (service.guarded NoLateRun).Reachable ⟨.new "s", .new, []⟩ := .init ⟨"s", rfl⟩
  have haccepted := hstart.step (M := service.guarded NoLateRun)
    ⟨.loops (.accept (l := .server) rfl (by decide)) (by simp) fun h => h.elim, trivial⟩
  have hwaiting := haccepted.step (M := service.guarded NoLateRun)
    ⟨.loops (.poll (l := .server) rfl) (by simp) fun h => h.elim, trivial⟩
  refine hwaiting.step (M := service.guarded NoLateRun) ⟨.world (.client rfl rfl), ?_⟩
  rintro (h | ⟨r, hr, -⟩)
  · exact absurd h (by decide)
  · exact absurd hr List.not_mem_nil

theorem reachable_ended : (service.guarded NoLateRun).Reachable ended := by
  have hfree : running.hasFree := show 0 < 1 by decide
  have hstopping : (service.guarded NoLateRun).Reachable stopping :=
    reachable_running.step ⟨.shutdown rfl hfree, trivial⟩
  have htorn : (service.guarded NoLateRun).Reachable torn :=
    hstopping.step ⟨.world (.teardownDone (List.mem_singleton_self _) trivial), fun _ => id⟩
  have hanswered : (service.guarded NoLateRun).Reachable answered :=
    htorn.step ⟨.world (.deliver rfl (by decide)), fun _ => id⟩
  have hnotified : (service.guarded NoLateRun).Reachable notified :=
    hanswered.step ⟨.notify (r := 1) (by decide) (by decide), trivial⟩
  exact hnotified.step
    ⟨.loops (.wake (l := .server) (by decide) (by decide)) (by simp) fun h => h.elim, trivial⟩

end Orderly

/-- A process is stopped by the shutdown, and gone when the loop ends. -/
theorem nothing_left_of_noLateRun_orderly :
    Orderly.ended.world.actor.pm.spawned = 1 ∧
      ∃ i ∈ Orderly.ended.world.tornDown, i.serial = 0 :=
  ⟨by decide, nothing_left_of_noLateRun Orderly.reachable_ended (by decide) 0 (by decide)⟩

/-! ## The window -/

namespace Window

/-- Two connections, and the server loop waits. -/
def connected : Server :=
  ((((Server.new.turn .server).serve .server).turn .server).serve .server).poll .server

/-- One of them shuts the daemon down; there is nothing to stop, so it is answered at once. -/
def answered : Service :=
  ⟨(World.new "s").receive (.quiet 7) (.stopAll 0), connected, [0]⟩

def run : PmCommand := .spawn "srv" (some "web") none none none none none 1

/-- The other's `Run` is accepted. -/
def late : Service := { answered with world := answered.world.receive (.quiet 8) run }

/-- The first one notifies. -/
def notified : Service :=
  { late with server := late.server.handleRequest .shutdown, shuttingDown := [] }

/-- The server loop ends. -/
def ended : Service := { notified with server := notified.server.wake .server }

theorem reachable_connected : service.Reachable ⟨.new "s", connected, []⟩ := by
  have hstart : service.Reachable ⟨.new "s", .new, []⟩ := .init ⟨"s", rfl⟩
  have haccept {s : Service} (h : service.Reachable s) (hserver : s.server.server ≠ .ended) :
      service.Reachable { s with server := (s.server.turn .server).serve .server } :=
    h.step (M := service) (ServiceStep.loops (.accept (l := .server) rfl hserver) (by simp)
      fun hconnects => hconnects.elim)
  exact (haccept (haccept hstart (by decide)) (by decide)).step (M := service)
    (ServiceStep.loops (.poll (l := .server) rfl) (by simp) fun hconnects => hconnects.elim)

theorem reachable_ended : service.Reachable ended := by
  have hfree : Service.hasFree ⟨.new "s", connected, []⟩ := show 0 < 2 by decide
  have hanswered : service.Reachable answered :=
    reachable_connected.step (M := service) (ServiceStep.shutdown rfl hfree)
  have hlate : service.Reachable late :=
    hanswered.step (M := service) (ServiceStep.world (.client rfl rfl))
  have hnotified : service.Reachable notified :=
    hlate.step (M := service) (ServiceStep.notify (r := 0) (by decide) (by decide))
  exact hnotified.step (M := service) (ServiceStep.loops
    (.wake (l := .server) (by decide) (by decide)) (by simp) fun hconnects => hconnects.elim)

end Window

/-- What a shutdown promises. -/
def ShutdownLeavesNothing : Prop :=
  ∀ s, service.Reachable s → s.server.server = .ended →
    ∀ k < s.world.actor.pm.spawned, ∃ i ∈ s.world.tornDown, i.serial = k

/-- **A `Run` in the window is left behind**: it is answered `RunOk`, and its process is running when
the server loop ends. -/
theorem not_shutdownLeavesNothing :
    ¬ ShutdownLeavesNothing ∧ (Window.ended.world.record "web").map (·.life) = some (.running ⟨0, 8⟩) ∧
      (1, .response (.runOk "web" "p1" 8 none none)) ∈ Window.ended.world.actor.answers := by
  refine ⟨fun h => ?_, by decide, by decide⟩
  obtain ⟨i, hi, -⟩ := h _ Window.reachable_ended (by decide) 0 (by decide)
  rw [show Window.ended.world.tornDown = [] by decide] at hi
  exact absurd hi List.not_mem_nil

end AgentProcs
