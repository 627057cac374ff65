import AgentProcs.Daemon.Proxying
import AgentProcs.Supervision.Lineage

/-!
# Supervision/EnableTwice — enabling a proxy that is on

    EnableProxy ──bind works──▸ asked ──▸ Ok, naming the port the proxy has; nothing else changes
                ──bind fails──▸ Error

The actor would answer every further request with the port it has.  A request only gets there if it
can bind a port first, and the port the proxy listens on is the one that it cannot bind.
-/

namespace AgentProcs

variable {s t u : Proxying} {ev : ProxyingEvent} {e k port : ℕ} {bind : ℕ → Except String Unit}
  {proxyPort existing : Option ℕ}

/-- The answer is Ok, and ends with the address of the proxy on port `e`. -/
def Response.NamesProxy (e : ℕ) (resp : Response) : Prop :=
  ∃ words, resp = .ok (words ++ "http://localhost:" ++ toString e)

/-- The step is one of the connection that has request `k`, or of the actor on its behalf. -/
def ProxyingEvent.IsOf (k : ℕ) : ProxyingEvent → Prop
  | .receive j _ _ => j = k
  | .ask j _ => j = k
  | .finish j => j = k
  | _ => False

/-- The listener stays, and so does the actor, apart from whom it has answered. -/
structure LeftAlone (s t : Proxying) : Prop where
  listener : t.listener = s.listener
  actor : ∃ answers, t.world.actor =
    { s.world.actor with answers := answers ++ s.world.actor.answers }

/-- **Request `k` does nothing**, whatever else happens, and is answered with port `e`. -/
structure NoOp (e k : ℕ) (s : Proxying) : Prop where
  leftAlone : ∀ ts t, proxying.Run s ts t → ∀ τ ∈ ts, τ.ev.IsOf k → LeftAlone τ.src τ.dst
  answer : ∀ ts t resp, proxying.Run s ts t → t.requests k = some (.answered resp) →
    resp.NamesProxy e
  /-- The answer takes no more than steps of the request itself. -/
  answered : ∀ ts t, proxying.Run s ts t → ∃ us u resp, proxying.Run t us u ∧
    (∀ τ ∈ us, τ.ev.IsOf k) ∧ u.requests k = some (.answered resp)

/-- The port that is asked for can be bound, or any of the range if none is. -/
def Bindable (bind : ℕ → Except String Unit) : Option ℕ → Prop
  | some port => (bind port).isOk = true
  | none => ∃ port ∈ proxyPorts, (bind port).isOk = true

theorem bindProxyPort_ok_iff :
    (∃ port, bindProxyPort bind proxyPort = .ok port) ↔ Bindable bind proxyPort := by
  cases proxyPort with
  | some port =>
    rw [bindProxyPort, Bindable]
    cases bind port with
    | ok => exact iff_of_true ⟨port, rfl⟩ rfl
    | error =>
      refine iff_of_false ?_ Bool.noConfusion
      rintro ⟨_, ⟨⟩⟩
  | none =>
    rw [bindProxyPort, Bindable]
    cases hfind : proxyPorts.find? fun port => (bind port).isOk with
    | some port =>
      have hok : (bind port).isOk = true := by simpa using List.find?_some hfind
      exact iff_of_true ⟨port, rfl⟩ ⟨port, List.mem_of_find?_eq_some hfind, hok⟩
    | none =>
      refine iff_of_false ?_ ?_
      · rintro ⟨_, ⟨⟩⟩
      · rintro ⟨port, hmem, hok⟩
        exact List.find?_eq_none.mp hfind port hmem hok

/-! ## The daemon among its connections -/

namespace Proxying

@[simp] theorem setRequest_self (k : ℕ) (st : Enabling) (s : Proxying) :
    (s.setRequest k st).requests k = some st := Function.update_self k _ _

theorem setRequest_ne {j : ℕ} (h : j ≠ k) (st : Enabling) (s : Proxying) :
    (s.setRequest j st).requests k = s.requests k := Function.update_of_ne h.symm _ _

@[simp] theorem setRequest_world (k : ℕ) (st : Enabling) (s : Proxying) :
    (s.setRequest k st).world = s.world := rfl

@[simp] theorem setRequest_listener (k : ℕ) (st : Enabling) (s : Proxying) :
    (s.setRequest k st).listener = s.listener := rfl

theorem receive_ok (h : bindProxyPort bind proxyPort = .ok port) (s : Proxying) :
    s.receive k bind proxyPort = s.setRequest k (.bound port) := by
  rw [receive, h]

theorem receive_error {message : String} (h : bindProxyPort bind proxyPort = .error message)
    (s : Proxying) : s.receive k bind proxyPort =
      s.setRequest k (.answered (.error .general message)) := by
  rw [receive, h]

theorem receive_world (s : Proxying) : (s.receive k bind proxyPort).world = s.world := by
  rw [receive]
  split <;> rfl

theorem receive_listener (s : Proxying) : (s.receive k bind proxyPort).listener = s.listener := by
  rw [receive]
  split <;> rfl

theorem finish_world (s : Proxying) : (s.finish k port existing).world = s.world := by
  cases existing <;> rfl

end Proxying

/-- The daemon moves as it does by itself. -/
theorem daemon_of_proxying (h : proxying.Reachable s) : daemon.Reachable s.world := by
  refine h.invariant (P := fun s => daemon.Reachable s.world) ?_ fun s e t _ hs hstep => ?_
  · rintro s ⟨session, rfl⟩
    exact World.reachable_new session
  · cases hstep with
    | daemon h => exact hs.step (M := daemon) h
    | receive => exact (Proxying.receive_world s).symm ▸ hs
    | ask _ hos => exact World.reachable_receive hs hos rfl
    | finish => exact (Proxying.finish_world s).symm ▸ hs
    | listenerEnds => exact hs

/-- Nobody has been answered on a channel that is still to come. -/
theorem World.not_answered {w : World} (h : daemon.Reachable w) (ans : Answer) :
    (w.requests, ans) ∉ w.actor.answers := by
  intro hmem
  have hnone := World.length_channels (sound_of_reachable h) w.requests
  rw [if_neg (Nat.lt_irrefl _)] at hnone
  have hsome : 0 < (w.answersTo w.requests).length :=
    List.length_pos_of_mem (List.mem_filter.mpr ⟨hmem, beq_self_eq_true _⟩)
  omega

/-- **The actor's reply** when the proxy is on. -/
theorem Actor.handleEnableProxy_on {a : Actor} (hon : a.proxyPort = some e) (port : ℕ)
    (reply : Reply) : a.handleEnableProxy port reply = a.answer reply (.proxy (some e)) := by
  rw [handleEnableProxy, hon]

/-! ## A request that has bound its port -/

/-- What a request has been told while the proxy was on. -/
def Enabling.Knows (e : ℕ) : Enabling → Prop
  | .bound _ => True
  | .asked _ existing => existing = some e
  | .answered resp => resp.NamesProxy e

/-- Request `k` has bound its port, with the proxy on. -/
structure OnTheWay (e k : ℕ) (s : Proxying) : Prop where
  on : s.world.actor.proxyPort = some e
  knows : ∃ st, s.requests k = some st ∧ st.Knows e

theorem namesProxy_already (e : ℕ) :
    Response.NamesProxy e (.ok s!"Proxy already listening on http://localhost:{e}") := by
  have hwords : "Proxy already listening on " ++ "http://localhost:" =
      "Proxy already listening on http://localhost:" := by decide
  refine ⟨"Proxy already listening on ", congrArg Response.ok ?_⟩
  rw [hwords]
  rfl

/-- **One step**: the request stays on its way, and its own steps touch nothing. -/
theorem OnTheWay.step (hs : proxying.Reachable s) (h : OnTheWay e k s)
    (hstep : ProxyingStep s ev t) : OnTheWay e k t ∧ (ev.IsOf k → LeftAlone s t) := by
  obtain ⟨st, hst, hknows⟩ := h.knows
  cases hstep with
  | daemon hmove hother =>
    have hport := proxyPort_step (sound_of_reachable (daemon_of_proxying hs)) hmove hother
    exact ⟨⟨hport.trans h.on, st, hst, hknows⟩, False.elim⟩
  | @receive j bind proxyPort hnew hheld =>
    have hne : j ≠ k := by
      rintro rfl
      exact Option.some_ne_none st (hst.symm.trans hnew)
    refine ⟨⟨(Proxying.receive_world s).symm ▸ h.on, st, ?_, hknows⟩, fun hj => absurd hj hne⟩
    rw [Proxying.receive]
    split <;> exact (Proxying.setRequest_ne hne _ s).trans hst
  | @ask j port existing os hbound hos hreply =>
    have hactor : (s.world.receive os (.enableProxy port s.world.requests)).actor =
        s.world.actor.answer s.world.requests (.proxy (some e)) :=
      Actor.handleEnableProxy_on h.on port s.world.requests
    have hexisting : existing = some e := by
      rw [hactor] at hreply
      rcases List.mem_cons.mp hreply with heq | hmem
      · exact Answer.proxy.inj (Prod.mk.inj heq).2
      · exact absurd hmem (World.not_answered (daemon_of_proxying hs) _)
    refine ⟨⟨?_, ?_⟩, fun _ => ⟨rfl, [(s.world.requests, .proxy (some e))], hactor⟩⟩
    · exact (congrArg Actor.proxyPort hactor).trans h.on
    · by_cases hj : j = k
      · subst hj
        exact ⟨_, Proxying.setRequest_self _ _ _, hexisting⟩
      · exact ⟨st, (Proxying.setRequest_ne hj _ _).trans hst, hknows⟩
  | @finish j port existing hasked =>
    by_cases hj : j = k
    · subst hj
      obtain rfl := Option.some.inj (hst.symm.trans hasked)
      obtain rfl : existing = some e := hknows
      exact ⟨⟨h.on, _, Proxying.setRequest_self _ _ _, namesProxy_already e⟩,
        fun _ => ⟨rfl, [], rfl⟩⟩
    · refine ⟨⟨(Proxying.finish_world s).symm ▸ h.on, st, ?_, hknows⟩, fun hk => absurd hk hj⟩
      cases existing <;> exact (Proxying.setRequest_ne hj _ _).trans hst
  | listenerEnds => exact ⟨⟨h.on, st, hst, hknows⟩, False.elim⟩

/-- A whole run. -/
theorem OnTheWay.run {ts : List (Transition Proxying ProxyingEvent)} (hs : proxying.Reachable s)
    (h : OnTheWay e k s) (hrun : proxying.Run s ts t) :
    OnTheWay e k t ∧ ∀ τ ∈ ts, τ.ev.IsOf k → LeftAlone τ.src τ.dst := by
  refine hrun.invariant (P := fun ts t => OnTheWay e k t ∧
    ∀ τ ∈ ts, τ.ev.IsOf k → LeftAlone τ.src τ.dst) hs ⟨h, by simp⟩ ?_
  intro ts t ev u ht ih hmove
  obtain ⟨hu, hleft⟩ := ih.1.step ht hmove
  refine ⟨hu, List.forall_mem_append.mpr ⟨ih.2, ?_⟩⟩
  exact List.forall_mem_singleton.mpr hleft

/-- The connection has its reply, and answers. -/
theorem exists_finish (h : s.requests k = some (.asked port existing)) :
    ∃ us t resp, proxying.Run s us t ∧ (∀ τ ∈ us, τ.ev.IsOf k) ∧
      t.requests k = some (.answered resp) := by
  have hrun : proxying.Run s [⟨s, .finish k, s.finish k port existing⟩] _ := .snoc .refl (.finish h)
  cases existing with
  | some existing => exact ⟨_, _, _, hrun, by simp [ProxyingEvent.IsOf], Proxying.setRequest_self ..⟩
  | none => exact ⟨_, _, _, hrun, by simp [ProxyingEvent.IsOf], Proxying.setRequest_self ..⟩

/-- **Nobody else is needed for the answer.** -/
theorem OnTheWay.exists_answer (h : OnTheWay e k s) :
    ∃ us t resp, proxying.Run s us t ∧ (∀ τ ∈ us, τ.ev.IsOf k) ∧
      t.requests k = some (.answered resp) := by
  obtain ⟨st, hst, -⟩ := h.knows
  cases st with
  | answered resp => exact ⟨[], s, resp, .refl, by simp, hst⟩
  | asked => exact exists_finish hst
  | bound port =>
    let os : Os := { Os.quiet 0 with exits := s.world.exits }
    have hreply : (s.world.requests, .proxy (some e)) ∈
        (s.world.receive os (.enableProxy port s.world.requests)).actor.answers := by
      have hactor : (s.world.receive os (.enableProxy port s.world.requests)).actor = _ :=
        Actor.handleEnableProxy_on h.on port s.world.requests
      rw [hactor]
      exact List.mem_cons_self
    have hask : proxying.Run s [⟨s, .ask k os, s.ask k port (some e) os⟩] _ :=
      .snoc .refl (.ask hst rfl hreply)
    obtain ⟨us, t, resp, hrun, hof, hresp⟩ :=
      exists_finish (s := s.ask k port (some e) os) (Proxying.setRequest_self ..)
    refine ⟨_, t, resp, hask.append hrun, ?_, hresp⟩
    exact List.forall_mem_append.mpr ⟨by simp [ProxyingEvent.IsOf], hof⟩

/-! ## When it is a no-op -/

/-- **Enabling a proxy that is on does nothing and names its port**, exactly if a port can be
bound. -/
theorem noOp_iff_bindable (h : proxying.Reachable s) (hon : s.world.actor.proxyPort = some e)
    (hstep : ProxyingStep s (.receive k bind proxyPort) t) :
    LeftAlone s t ∧ NoOp e k t ↔ Bindable bind proxyPort := by
  have ht : proxying.Reachable t := h.step (M := proxying) hstep
  obtain rfl : t = s.receive k bind proxyPort := by
    cases hstep
    rfl
  rw [← bindProxyPort_ok_iff]
  constructor
  · rintro ⟨-, hnoop⟩
    cases hbind : bindProxyPort bind proxyPort with
    | ok port => exact ⟨port, rfl⟩
    | error message =>
      rw [Proxying.receive_error hbind] at hnoop
      obtain ⟨words, hok⟩ := hnoop.answer [] _ _ .refl (Proxying.setRequest_self ..)
      exact Response.noConfusion hok
  · rintro ⟨port, hbind⟩
    have hway : OnTheWay e k (s.receive k bind proxyPort) := by
      rw [Proxying.receive_ok hbind]
      exact ⟨hon, _, Proxying.setRequest_self .., trivial⟩
    refine ⟨⟨Proxying.receive_listener s, [], congrArg World.actor (Proxying.receive_world s)⟩,
      ⟨fun ts t hrun => (hway.run ht hrun).2, fun ts t resp hrun hresp => ?_,
        fun ts t hrun => (hway.run ht hrun).1.exists_answer⟩⟩
    obtain ⟨st, hst, hknows⟩ := (hway.run ht hrun).1.knows
    obtain rfl := Option.some.inj (hst.symm.trans hresp)
    exact hknows

namespace TurnedOn

/-- A machine on which only port 9090 is taken. -/
def busy (port : ℕ) : Except String Unit :=
  if port = 9090 then .error "Address already in use" else .ok ()

/-- The first request is on its way, with a port. -/
def bound : Proxying := (Proxying.new "s").receive 0 (fun _ => .ok ()) none

/-- The proxy is on, and listens on port 9090. -/
def enabled : Proxying := (bound.ask 0 9090 none (.quiet 7)).finish 0 9090 none

theorem requests_bound : bound.requests 0 = some (.bound 9090) := by rfl

theorem reachable_enabled : proxying.Reachable enabled := by
  have hnew : proxying.Reachable (Proxying.new "s") := .init ⟨"s", rfl⟩
  have hbound : proxying.Reachable bound := by
    refine hnew.step (M := proxying) (.receive rfl fun port _ hheld => ?_)
    obtain hlistener | ⟨k, hk⟩ := hheld
    · exact absurd hlistener (Option.some_ne_none port).symm
    · exact absurd hk (Option.some_ne_none port).symm
  have hasked : proxying.Reachable (bound.ask 0 9090 none (.quiet 7)) :=
    hbound.step (M := proxying) (.ask requests_bound rfl (by decide))
  exact hasked.step (M := proxying) (.finish (Proxying.setRequest_self ..))

/-- The second request comes when the first is done. -/
theorem step_enabled (proxyPort : Option ℕ) :
    ProxyingStep enabled (.receive 1 busy proxyPort) (enabled.receive 1 busy proxyPort) := by
  refine .receive rfl fun port _ hheld => ?_
  obtain hlistener | ⟨k, hk⟩ := hheld
  · obtain rfl : 9090 = port := Option.some.inj hlistener
    rfl
  · by_cases h : k = 0
    · subst h
      exact absurd hk (Option.some_ne_none port).symm
    · have hnone : enabled.requests k = none :=
        (Proxying.setRequest_ne (Ne.symm h) _ _).trans ((Proxying.setRequest_ne (Ne.symm h) _ _).trans
          (Proxying.setRequest_ne (Ne.symm h) _ _))
      rw [hnone] at hk
      exact absurd hk (Option.some_ne_none port).symm

end TurnedOn

/-- A second request that names no port takes the next one, and drops it. -/
theorem noOp_iff_bindable_enabled :
    LeftAlone TurnedOn.enabled (TurnedOn.enabled.receive 1 TurnedOn.busy none) ∧
        NoOp 9090 1 (TurnedOn.enabled.receive 1 TurnedOn.busy none) ↔
      Bindable TurnedOn.busy none :=
  noOp_iff_bindable TurnedOn.reachable_enabled rfl (TurnedOn.step_enabled none)

/-- What the design promises of every further request. -/
def EnablesOnce : Prop :=
  ∀ s e k bind proxyPort t, proxying.Reachable s → s.world.actor.proxyPort = some e →
    s.listener = some e → ProxyingStep s (.receive k bind proxyPort) t → LeftAlone s t ∧ NoOp e k t

/-- **Asking again for the port the proxy has fails.** -/
theorem not_enablesOnce : ¬ EnablesOnce := by
  intro h
  have hstep := TurnedOn.step_enabled (some 9090)
  obtain ⟨-, hnoop⟩ := h _ 9090 1 _ _ _ TurnedOn.reachable_enabled rfl rfl hstep
  obtain ⟨words, hok⟩ := hnoop.answer [] _ _ .refl (Proxying.setRequest_self ..)
  exact Response.noConfusion hok

end AgentProcs
