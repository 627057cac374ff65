import AgentProcs.Daemon.Server

/-!
# Supervision/Shutdown — one notification for two loops

    queue  [server]          Shutdown ──▸ server woken, ends
    queue  [proxy, server]   Shutdown ──▸ proxy woken, ends; the server waits on

With one loop, a notification stays pending until that loop has consumed it.  With two, whichever has
waited longest consumes it; and since accepting the connection that carries the `Shutdown` sends the
server loop to the end of the queue, that is the proxy loop, unless a proxied connection came later.
-/

namespace AgentProcs

/-- A `Shutdown` has been handled, its notification has been consumed, and the loop still waits. -/
structure LeftBehind (l : Loop) (s : Server) : Prop where
  handled : 0 < s.shutdowns
  consumed : ¬ s.shutdown.Pending
  waits : s.loop l = some .waiting

/-- What clients may ask for: may they start the proxy loop, and may they shut the daemon down? -/
structure Traffic where
  proxy : Bool
  shutdown : Bool
  deriving DecidableEq, Repr

/-- The event is traffic of this kind; an `EnableProxy` that starts nothing always is. -/
def Traffic.Allows (t : Traffic) (s : Server) : ServerEvent → Prop
  | .request .shutdown => t.shutdown = true
  | .request (.enableProxy (.ok _) true) => s.proxyPort = none → t.proxy = true
  | _ => True

/-! ## One loop -/

namespace Server

variable {s : Server} {l : Loop} {st : LoopState}

@[simp] theorem shutdowns_setLoop : (s.setLoop l st).shutdowns = s.shutdowns := by cases l <;> rfl

@[simp] theorem shutdowns_serve : (s.serve l).shutdowns = s.shutdowns := by
  cases l
  · rw [serve]
    split <;> rfl
  · rfl

end Server

/-- Without a proxy loop, a handled `Shutdown` is pending until the server loop has ended. -/
structure Heard (s : Server) : Prop where
  alone : s.proxy = none
  heard : 0 < s.shutdowns → s.shutdown.Pending ∨ s.server = .ended

namespace Heard

variable {s s' : Server}

/-- The only loop is the server's. -/
theorem eq_server (h : Heard s) {l : Loop} {st : LoopState} (hl : s.loop l = some st) :
    l = .server ∧ s.server = st := by
  cases l with
  | server => exact ⟨rfl, Option.some.inj hl⟩
  | proxy => exact absurd (h.alone.symm.trans hl) (by simp)

/-- A loop that has not ended hears what is handled. -/
theorem pending (h : Heard s) (hhandled : 0 < s.shutdowns) (halive : s.server ≠ .ended) :
    s.shutdown.Pending := (h.heard hhandled).resolve_right halive

/-- **The next turn** loses nothing. -/
theorem turn (h : Heard s) (halive : s.server ≠ .ended) : Heard (s.turn .server) where
  alone := h.alone
  heard hhandled := .inl (Notify.pending_leave.mpr (h.pending hhandled halive))

theorem serve (h : Heard s) : Heard (s.serve .server) := by
  rw [Server.serve]
  split
  · exact h
  · exact ⟨h.alone, h.heard⟩

theorem step {t : Traffic} (ht : t.proxy = false) {e : ServerEvent} (h : Heard s)
    (hstep : ServerStep s e s') (hallows : t.Allows s e) : Heard s' := by
  cases hstep with
  | poll hturning =>
    obtain ⟨rfl, hserver⟩ := h.eq_server hturning
    rw [Server.poll]
    split
    · exact ⟨h.alone, fun _ => .inr rfl⟩
    · refine ⟨h.alone, fun hhandled => .inl (Notify.pending_join.mpr (h.pending hhandled ?_))⟩
      simp [hserver]
  | wake hwaiting =>
    obtain ⟨rfl, -⟩ := h.eq_server hwaiting
    exact ⟨h.alone, fun _ => .inr rfl⟩
  | accept hloop halive =>
    obtain ⟨rfl, rfl⟩ := h.eq_server hloop
    exact (h.turn halive).serve
  | acceptError hloop halive =>
    obtain ⟨rfl, rfl⟩ := h.eq_server hloop
    exact h.turn halive
  | @request r =>
    cases r with
    | shutdown => exact ⟨h.alone, fun _ => .inl (Notify.pending_notifyOne _)⟩
    | enableProxy bound listens =>
      rw [Server.handleRequest.eq_def]
      cases bound with
      | error => exact h
      | ok port =>
        dsimp only
        cases hport : s.proxyPort with
        | some => exact h
        | none =>
          cases listens with
          | true => exact absurd (ht.symm.trans (hallows hport)) (by simp)
          | false => exact ⟨h.alone, h.heard⟩
    | other => exact h
  | disconnect => exact ⟨h.alone, h.heard⟩

end Heard

/-- **Without a proxy** no handled `Shutdown` is missed. -/
theorem heard_of_reachable {t : Traffic} (ht : t.proxy = false) {s : Server}
    (h : (acceptLoops.guarded t.Allows).Reachable s) : Heard s := by
  refine h.invariant (P := Heard) ?_ fun s e s' _ hs hstep => hs.step ht hstep.1 hstep.2
  rintro s rfl
  exact ⟨rfl, fun h => absurd h (Nat.lt_irrefl 0)⟩

/-- Only handling a `Shutdown` counts as one. -/
theorem shutdowns_of_step {s s' : Server} {e : ServerEvent} (h : ServerStep s e s')
    (hother : e ≠ .request .shutdown) : s'.shutdowns = s.shutdowns := by
  cases h with
  | poll =>
    rw [Server.poll]
    split
    · exact Server.shutdowns_setLoop
    · exact Server.shutdowns_setLoop
  | wake | acceptError => exact Server.shutdowns_setLoop
  | accept => exact Server.shutdowns_serve.trans Server.shutdowns_setLoop
  | @request r =>
    cases r with
    | shutdown => exact absurd rfl hother
    | enableProxy bound listens =>
      rw [Server.handleRequest.eq_def]
      cases bound with
      | error => rfl
      | ok =>
        dsimp only
        split <;> rfl
    | other => rfl
  | disconnect => rfl

/-- Without a `Shutdown` none is handled. -/
theorem shutdowns_of_reachable {t : Traffic} (ht : t.shutdown = false) {s : Server}
    (h : (acceptLoops.guarded t.Allows).Reachable s) : s.shutdowns = 0 := by
  refine h.invariant (P := fun s => s.shutdowns = 0) ?_ fun s e s' _ hs hstep => ?_
  · rintro s rfl
    rfl
  · refine (shutdowns_of_step hstep.1 ?_).trans hs
    rintro rfl
    exact absurd (ht.symm.trans hstep.2) (by simp)

/-! ## Two loops -/

namespace TwoLoops

/-- A connection enables the proxy, and both loops wait. -/
def enabled : Server :=
  ((((Server.new.turn .server).serve .server).poll .server).handleRequest
    (.enableProxy (.ok 9090) true)).poll .proxy

/-- Another connection is accepted: the server loop waits again, behind the proxy's. -/
def requeued : Server := ((enabled.turn .server).serve .server).poll .server

/-- It shuts the daemon down, and the proxy loop consumes the notification. -/
def proxyEnded : Server := (requeued.handleRequest .shutdown).wake .proxy

theorem reachable_proxyEnded {t : Traffic} (hproxy : t.proxy = true)
    (hshutdown : t.shutdown = true) : (acceptLoops.guarded t.Allows).Reachable proxyEnded := by
  have hstart : (acceptLoops.guarded t.Allows).Reachable .new := .init rfl
  have hserver := (hstart.step ⟨.accept (l := .server) rfl (by decide), trivial⟩).step
    ⟨.poll (l := .server) rfl, trivial⟩
  have henabled : (acceptLoops.guarded t.Allows).Reachable enabled :=
    (hserver.step ⟨.request (r := .enableProxy (.ok 9090) true) (by decide), fun _ => hproxy⟩).step
      ⟨.poll (l := .proxy) rfl, trivial⟩
  have hrequeued : (acceptLoops.guarded t.Allows).Reachable requeued :=
    (henabled.step ⟨.accept (l := .server) rfl (by decide), trivial⟩).step
      ⟨.poll (l := .server) rfl, trivial⟩
  exact (hrequeued.step ⟨.request (r := .shutdown) (by decide), hshutdown⟩).step
    ⟨.wake (l := .proxy) rfl (by decide), trivial⟩

/-- The server loop waits for a notification that is gone. -/
theorem leftBehind_server : LeftBehind .server proxyEnded where
  handled := by decide
  consumed := by rintro (h | h) <;> exact absurd h (by decide)
  waits := rfl

end TwoLoops

/-- **A `Shutdown` reaches every loop exactly if there is one loop**: no loop is ever left behind,
if and only if the traffic does not both enable the proxy and shut the daemon down. -/
theorem shutdown_reaches_iff (t : Traffic) :
    (∀ s, (acceptLoops.guarded t.Allows).Reachable s → ∀ l, ¬ LeftBehind l s) ↔
      ¬ (t.proxy = true ∧ t.shutdown = true) := by
  constructor
  · rintro h ⟨hproxy, hshutdown⟩
    exact h _ (TwoLoops.reachable_proxyEnded hproxy hshutdown) _ TwoLoops.leftBehind_server
  · intro hone s hs l hleft
    by_cases hproxy : t.proxy = true
    · have hnone := shutdowns_of_reachable
        (Bool.eq_false_iff.mpr fun hshutdown => hone ⟨hproxy, hshutdown⟩) hs
      exact absurd hleft.handled (by rw [hnone]; exact Nat.lt_irrefl 0)
    · have hheard := heard_of_reachable (Bool.eq_false_iff.mpr hproxy) hs
      obtain ⟨rfl, hwaits⟩ := hheard.eq_server hleft.waits
      refine hleft.consumed (hheard.pending hleft.handled ?_)
      simp [hwaits]

/-- What a handled `Shutdown` promises. -/
def ShutdownReaches : Prop := ∀ s, acceptLoops.Reachable s → ∀ l, ¬ LeftBehind l s

/-- **A daemon with a proxy may miss its shutdown.** -/
theorem not_shutdownReaches : ¬ ShutdownReaches := fun h =>
  h _ (TwoLoops.reachable_proxyEnded (t := ⟨true, true⟩) rfl rfl).of_guarded _
    TwoLoops.leftBehind_server

end AgentProcs
