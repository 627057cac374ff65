import AgentProcs.Supervision.Advertised
import AgentProcs.Supervision.Lineage

/-!
# Supervision/OneUrl — the URL of a launch, and the URL of the status after it

    Run ──▸ RunOk, url of the proxy    ──Status──▸ the same
    Restart ──report──▸ RunOk, url of the port ──Status──▸ the proxy's, if it is on

Both answers name one record, and that record has one port.  The URL is rewritten for the proxy in
what a `Run` and a `Status` say, and left as it is in what a restart says.
-/

namespace AgentProcs

variable {w w' : World} {n id : String} {e : Event} {port : Option ℕ} {url : Option String}

/-! ## Two kinds of URL -/

/-- **The URL of a port is no URL of the proxy**: it has no letter `l`. -/
theorem processUrl_none_ne (name name' : String) (port port' pp : ℕ) :
    processUrl name port none ≠ processUrl name' port' (some pp) := by
  intro h
  have hproxy : 'l' ∈ (processUrl name' port' (some pp)).toList := by
    have hdef : processUrl name' port' (some pp) =
        "http://" ++ name' ++ ".localhost:" ++ toString pp := rfl
    simp [hdef, String.toList_append]
  rw [← h, show processUrl name port none = "http://127.0.0.1:" ++ toString port from rfl,
    String.toList_append, List.mem_append] at hproxy
  rcases hproxy with hprefix | hport
  · exact absurd hprefix (by decide)
  · exact absurd (isDigit_of_mem_toString hport) (by decide)

theorem map_processUrl_eq_iff (name : String) (port proxyPort : Option ℕ) :
    port.map (processUrl name · proxyPort) = port.map (processUrl name · none) ↔
      proxyPort = none ∨ port = none := by
  cases port with
  | none => simp
  | some port =>
    cases proxyPort with
    | none => simp
    | some pp => simpa using (processUrl_none_ne name name port port pp).symm

/-! ## What a launch says, and what a status says -/

/-- Somebody is told in this step that the process runs. -/
def Announces (w w' : World) (n id : String) (port : Option ℕ) (url : Option String) : Prop :=
  ∃ reply pid, (reply, .response (.runOk n id pid port url)) ∈ w'.actor.answers ∧
    (reply, .response (.runOk n id pid port url)) ∉ w.actor.answers

/-- A status request that comes next lists the process with this id, port and URL. -/
def AgreesWithStatus (w : World) (n id : String) (port : Option ℕ) (url : Option String) : Prop :=
  ∀ os reply, ∃ resp info, (w.receive os (.status reply)).actor.answers =
      (reply, .response resp) :: w.actor.answers ∧ resp.infoOf n = some info ∧
    info.id = id ∧ info.port = port ∧ info.url = url

/-- A status lists a record with its id and its port, and one URL. -/
theorem agreesWithStatus_iff {r : ManagedProcess} (hr : w.record n = some r) :
    AgreesWithStatus w n id port url ↔
      r.id = id ∧ r.port = port ∧ r.port.map (processUrl n · w.actor.proxyPort) = url := by
  obtain rfl := Table.key_eq hr
  have hlisted (os : Os) : ((r.observeExit os).listed os w.actor.proxyPort).id = r.id ∧
      ((r.observeExit os).listed os w.actor.proxyPort).port = r.port ∧
      ((r.observeExit os).listed os w.actor.proxyPort).url =
        r.port.map (processUrl r.name · w.actor.proxyPort) := by
    refine ⟨ManagedProcess.observeExit_id os r, ManagedProcess.observeExit_port os r, ?_⟩
    rw [ManagedProcess.listed, ManagedProcess.observeExit_port, ManagedProcess.observeExit_name]
  constructor
  · intro h
    obtain ⟨resp, info, hanswers, hinfo, hid, hport, hurl⟩ := h (.quiet 0) 0
    obtain ⟨resp', hanswers', hinfo'⟩ := status_answer (.quiet 0) 0 hr
    have hresp := (List.cons.inj (hanswers.symm.trans hanswers')).1
    obtain rfl := Answer.response.inj (Prod.mk.inj hresp).2
    obtain rfl := Option.some.inj (hinfo.symm.trans hinfo')
    obtain ⟨hid', hport', hurl'⟩ := hlisted (.quiet 0)
    exact ⟨hid'.symm.trans hid, hport'.symm.trans hport, hurl'.symm.trans hurl⟩
  · rintro ⟨rfl, rfl, rfl⟩ os reply
    obtain ⟨resp, hanswers, hinfo⟩ := status_answer os reply hr
    exact ⟨resp, _, hanswers, hinfo, hlisted os⟩

/-! ## When they agree -/

/-- The event brings no URL of a port while the proxy is on. -/
def KeepsUrl (w : World) : Event → Prop
  | .deliver _ (.stopFinished name _ _) =>
    w.actor.proxyPort = none ∨ ∀ p, w.record name = some p → p.port = none
  | _ => True

/-- Whoever is told something new is told something of this kind. -/
theorem Announces.told {ok : Answer → Prop} (h : Announces w w' n id port url)
    (htells : Tells ok w.actor w'.actor) : ∃ pid, ok (.response (.runOk n id pid port url)) := by
  obtain ⟨reply, pid, hnow, hbefore⟩ := h
  exact ⟨pid, (htells.answers _ hnow).resolve_left hbefore⟩

theorem not_announces (h : ∀ x ∈ w'.actor.answers, x ∈ w.actor.answers ∨ x.2.NoLaunch) :
    ¬ Announces w w' n id port url := by
  rintro ⟨reply, pid, hnow, hbefore⟩
  rcases h _ hnow with hold | hno
  · exact hbefore hold
  · exact hno _ _ _ _ _ rfl

/-- **One URL per process**: what a launch says of its URL and its port is what a status says next,
exactly if it answers a `Run`, the proxy is off, or the record has no port. -/
theorem agreesWithStatus_iff_keepsUrl (h : daemon.Reachable w) (hstep : Step w e w')
    (hnew : Announces w w' n id port url) :
    AgreesWithStatus w' n id port url ↔ KeepsUrl w e := by
  cases comes_step (sound_of_reachable h) hstep with
  | changed _ _ hquiet _ => exact absurd hnew (not_announces hquiet)
  | declined _ _ htells => exact absurd hnew (not_announces htells.answers)
  | refused _ _ _ _ htells => exact absurd hnew (not_announces htells.answers)
  | @run _ _ _ _ _ _ _ _ _ r hrun =>
    obtain ⟨pid, htells⟩ := hrun.told
    obtain ⟨_, hanswer⟩ := hnew.told htells
    obtain ⟨rfl, rfl, -, rfl, rfl⟩ := Response.runOk.inj (Answer.response.inj hanswer)
    have hr : w'.record r.name = some r := (hrun.sets r.name).trans (if_pos rfl)
    refine iff_of_true ((agreesWithStatus_iff hr).mpr ⟨rfl, rfl, ?_⟩) trivial
    rw [htells.proxyPort]
  | @respawn _ _ p r hrespawn =>
    obtain ⟨pid, htells⟩ := hrespawn.told
    obtain ⟨_, hno | hanswer⟩ := hnew.told htells
    · exact absurd rfl (hno _ _ _ _ _)
    obtain ⟨rfl, rfl, -, rfl, rfl⟩ := Response.runOk.inj (Answer.response.inj hanswer)
    have hr : w'.record r.name = some r := (hrespawn.sets r.name).trans (if_pos rfl)
    have hp : w.record r.name = some p := hrespawn.name ▸ hrespawn.record
    rw [agreesWithStatus_iff hr, htells.proxyPort, KeepsUrl, ← hrespawn.name, hp, hrespawn.port]
    have hurl := map_processUrl_eq_iff r.name p.port w.actor.proxyPort
    simp [hurl]

namespace RestartedWeb

def run : PmCommand := .spawn "srv" (some "web") none none (some 3000) none none 0

def spawned : World := (World.new "s").receive (.quiet 7) run

/-- The restart of `web`, asked for in some state, up to its report. -/
def halted (w : World) : World :=
  (w.receive (.quiet 8) (.restart "web" w.requests)).finish ⟨"web", 1, some ⟨0, 7⟩, none⟩ (some 0)

def report : PmCommand := .stopFinished "web" 1 (some 0)

def enabled : World := spawned.receive (.quiet 8) (.enableProxy 9090 1)

theorem reachable_spawned : daemon.Reachable spawned :=
  World.reachable_receive (World.reachable_new "s") rfl rfl

theorem reachable_halted : daemon.Reachable (halted spawned) :=
  World.reachable_finish (World.reachable_receive reachable_spawned rfl rfl)
    (List.mem_singleton_self _) trivial

theorem reachable_halted_enabled : daemon.Reachable (halted enabled) :=
  World.reachable_finish (World.reachable_receive (World.reachable_receive reachable_spawned rfl rfl)
    rfl rfl) (List.mem_singleton_self _) trivial

theorem step_report {w : World} (hos : w.exits = fun _ => none) (hmem : report ∈ w.actor.inFlight) :
    Step w (.deliver (.quiet 8) report) (w.deliver (.quiet 8) report) := .deliver hos.symm hmem

end RestartedWeb

/-- Without the proxy, a restart says what a status says. -/
theorem agreesWithStatus_iff_keepsUrl_restarted :
    AgreesWithStatus ((RestartedWeb.halted RestartedWeb.spawned).deliver (.quiet 8)
        RestartedWeb.report) "web" "p2" (some 3000) (some "http://127.0.0.1:3000") ↔
      KeepsUrl (RestartedWeb.halted RestartedWeb.spawned)
        (.deliver (.quiet 8) RestartedWeb.report) := by
  refine agreesWithStatus_iff_keepsUrl RestartedWeb.reachable_halted
    (RestartedWeb.step_report rfl (List.mem_singleton_self _)) ⟨1, 8, ?_, ?_⟩
  · decide
  · decide

/-- What a launch promises about its URL. -/
def OneUrl : Prop :=
  ∀ w e w' n id port url, daemon.Reachable w → Step w e w' → Announces w w' n id port url →
    AgreesWithStatus w' n id port url

/-- **A restart behind the proxy is answered with the URL of the port**, and the status after it
gives the URL of the proxy. -/
theorem not_oneUrl : ¬ OneUrl := by
  intro h
  have hagrees := h _ _ _ "web" "p2" (some 3000) (some "http://127.0.0.1:3000")
    RestartedWeb.reachable_halted_enabled
    (RestartedWeb.step_report rfl (List.mem_singleton_self _))
    ⟨2, 8, by decide, by decide⟩
  have hrecord : (((RestartedWeb.halted RestartedWeb.enabled).deliver (.quiet 8)
      RestartedWeb.report).record "web").map (·.port) = some (some 3000) := by decide
  obtain ⟨r, hr, hport⟩ := Option.map_eq_some_iff.mp hrecord
  obtain ⟨-, -, hurl⟩ := (agreesWithStatus_iff hr).mp hagrees
  rw [hport] at hurl
  exact absurd hurl (by decide)

end AgentProcs
