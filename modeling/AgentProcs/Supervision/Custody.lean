import AgentProcs.Machinery.Runs
import AgentProcs.Supervision.Holdings

/-!
# Supervision/Custody — the moves incarnations, reports and replies can make

               observe              start                 park / fail
    running ──────────▸ exited ──────────▸ stopping ──────────────▸ exited
       └──────────────────start────────────────▸  └──relaunch──▸ running

The abstract machine behind the actor.  A state is what the ledgers speak of, holdings and books;
a label is one move on it.  A handler is a chain of moves, so what no move can break, no handler
can: `Sound.move` is the one place where the ledgers are balanced.
-/

namespace AgentProcs

/-- The restart count of a record whose teardown begins: an automatic restart is charged when it
starts, and a watch restart clears the charges. -/
def AfterStop.charge : AfterStop → ℕ → ℕ
  | .respawn .auto, n => n + 1
  | .respawn .watch, _ => 0
  | _, n => n

/-- The restart count of a record that gets a fresh incarnation. -/
def RespawnReason.settle : RespawnReason → ℕ → ℕ
  | .manual, _ => 0
  | _, n => n

/-- The exit of the leader, where a life knows it. -/
def Life.leaderExit : Life → Option (Option ℤ)
  | .running _ => none
  | .exited code _ _ _ => some code
  | .stopping leaderExit _ _ => leaderExit

/-- The record under a new life. -/
def ManagedProcess.withLife (life : Life) (p : ManagedProcess) : ManagedProcess := { p with life }

theorem ManagedProcess.withLife_name (life : Life) (p : ManagedProcess) :
    (p.withLife life).name = p.name := rfl

/-- The record, its incarnation handed to a teardown. -/
def ManagedProcess.handOver (andThen : AfterStop) (waiter : Option Waiter) (p : ManagedProcess) :
    ManagedProcess :=
  { p with
    watchHandle := none
    restartCount := andThen.charge p.restartCount
    life := .stopping p.life.leaderExit andThen waiter.toList }

/-- The teardown that takes the record's incarnation. -/
def ManagedProcess.teardown (p : ManagedProcess) : Teardown :=
  ⟨p.name, p.generation, p.life.inc, p.life.leaderExit⟩

/-- The report a command is. -/
def PmCommand.report : PmCommand → Option (String × ℕ)
  | .stopFinished n g _ => some (n, g)
  | _ => none

inductive Move where
  | observe (os : Os)
  | edit (name : String)
  | arm (name : String)
  | exhaust (name : String)
  | start (name : String) (andThen : AfterStop) (waiter : Option Waiter)
  | join (name : String) (andThen : AfterStop) (waiter : Option Waiter)
  | park (name : String)
  | relaunch (name : String) (reason : RespawnReason)
  | fail (name : String) (reason : RespawnReason)
  | create (name : String)
  | watch (handle : WatchHandle)
  | answer (reply : Reply) (ans : Answer)
  | joinBatch (reply : Reply)
  | openBatch (batch : StopAllBatch)
  | strike (name : String)
  | clear
  | receive
  | deliver (cmd : PmCommand)
  | teardownDone (t : Teardown)
  | fileChanged (handle : WatchHandle)

/-- What the ledgers speak of. -/
structure Desk where
  books : Books
  holdings : Holdings

inductive Custody : Desk → Move → Desk → Prop
  | observe {b : Books} {H : Holdings} {os : Os} :
      Custody ⟨b, H⟩ (.observe os) ⟨b, { H with
        processes := H.processes.map (·.observeExit os) (ManagedProcess.observeExit_name os) }⟩
  | edit {b : Books} {H : Holdings} {n : String} {p : ManagedProcess}
      {f : ManagedProcess → ManagedProcess} (hf : ∀ p, (f p).name = p.name)
      (hp : H.processes.lookup n = some p) (hlife : (f p).life = p.life)
      (hgen : (f p).generation = p.generation) (hcount : (f p).restartCount = p.restartCount)
      (hok : RecordOk (f p)) :
      Custody ⟨b, H⟩ (.edit n) ⟨b, { H with processes := H.processes.update n f hf }⟩
  | arm {b : Books} {H : Holdings} {n : String} {p : ManagedProcess} {code : Option ℤ}
      {inc : Option Incarnation} {policy : RestartPolicy}
      (hp : H.processes.lookup n = some p) (hbatch : H.stopAll = none)
      (hlife : p.life = .exited code .natural inc false) (hpolicy : p.restartPolicy = some policy)
      (hdue : policy.mode.shouldRestart code = true)
      (hleft : ∀ max, policy.maxRestarts = some max → p.restartCount < max) :
      Custody ⟨b, H⟩ (.arm n) ⟨b, { H with
        processes := H.processes.update n (ManagedProcess.withLife (.exited code .natural inc true)) fun _ => rfl
        inFlight := .autoRestart n p.generation :: H.inFlight }⟩
  | exhaust {b : Books} {H : Holdings} {n : String} {p : ManagedProcess} {code : Option ℤ}
      {inc : Option Incarnation}
      (hp : H.processes.lookup n = some p) (hbatch : H.stopAll = none)
      (hlife : p.life = .exited code .natural inc false) :
      Custody ⟨b, H⟩ (.exhaust n) ⟨b, { H with
        processes := H.processes.update n (ManagedProcess.withLife (.exited code .exhausted inc false))
          fun _ => rfl }⟩
  | start {b : Books} {H : Holdings} {n : String} {p : ManagedProcess} {andThen : AfterStop}
      {waiter : Option Waiter}
      (hp : H.processes.lookup n = some p) (hbatch : H.stopAll = none)
      (hlife : p.life.isStopping = false)
      (hauto : andThen = .respawn .auto → ∃ code inc, p.life = .exited code .natural inc true) :
      Custody ⟨{ b with hand := waiter.toList.map Waiter.reply ++ b.hand }, H⟩
        (.start n andThen waiter) ⟨b, { H with
        processes := H.processes.update n (ManagedProcess.handOver andThen waiter) fun _ => rfl
        teardowns := p.teardown :: H.teardowns }⟩
  | join {b : Books} {H : Holdings} {n : String} {p : ManagedProcess}
      {leaderExit : Option (Option ℤ)} {was andThen : AfterStop} {ws : List Waiter}
      {waiter : Option Waiter}
      (hp : H.processes.lookup n = some p) (hlife : p.life = .stopping leaderExit was ws)
      (hbatch : H.stopAll.isSome = true → andThen = .park) :
      Custody ⟨{ b with hand := waiter.toList.map Waiter.reply ++ b.hand }, H⟩
        (.join n andThen waiter) ⟨b, { H with
        processes := H.processes.update n
          (ManagedProcess.withLife (.stopping leaderExit andThen (ws ++ waiter.toList))) fun _ => rfl }⟩
  | park {b : Books} {H : Holdings} {n : String} {p : ManagedProcess}
      {leaderExit : Option (Option ℤ)} {ws : List Waiter} {code : Option ℤ}
      (hp : H.processes.lookup n = some p) (hlife : p.life = .stopping leaderExit .park ws) :
      Custody ⟨{ b with due := (n, p.generation) :: b.due }, H⟩ (.park n)
        ⟨{ b with hand := ws.map Waiter.reply ++ b.hand, leaving := n :: b.leaving }, { H with
        processes := H.processes.update n (ManagedProcess.withLife (.exited code .manual none false))
          fun _ => rfl }⟩
  | relaunch {b : Books} {H : Holdings} {n : String} {p : ManagedProcess}
      {leaderExit : Option (Option ℤ)} {ws : List Waiter} {reason : RespawnReason} {pgid : ℕ}
      {f : ManagedProcess → ManagedProcess} (hf : ∀ p, (f p).name = p.name)
      (hp : H.processes.lookup n = some p) (hbatch : H.stopAll = none)
      (hlife : p.life = .stopping leaderExit (.respawn reason) ws)
      (hrun : (f p).life = .running ⟨H.spawned, pgid⟩)
      (hgen : (f p).generation = H.nextGeneration + 1)
      (hpolicy : (f p).restartPolicy = p.restartPolicy)
      (hcount : (f p).restartCount = reason.settle p.restartCount) :
      Custody ⟨{ b with due := (n, p.generation) :: b.due }, H⟩ (.relaunch n reason)
        ⟨{ b with hand := ws.map Waiter.reply ++ b.hand, leaving := n :: b.leaving }, { H with
        processes := H.processes.update n f hf
        nextGeneration := H.nextGeneration + 1
        spawned := H.spawned + 1 }⟩
  | fail {b : Books} {H : Holdings} {n : String} {p : ManagedProcess}
      {leaderExit : Option (Option ℤ)} {ws : List Waiter} {reason : RespawnReason}
      {code : Option ℤ} {f : ManagedProcess → ManagedProcess} (hf : ∀ p, (f p).name = p.name)
      (hp : H.processes.lookup n = some p) (hbatch : H.stopAll = none)
      (hlife : p.life = .stopping leaderExit (.respawn reason) ws)
      (hfail : (f p).life = .exited code .spawnFailed none false)
      (hgen : (f p).generation = p.generation)
      (hpolicy : (f p).restartPolicy = p.restartPolicy)
      (hcount : (f p).restartCount = reason.settle p.restartCount) :
      Custody ⟨{ b with due := (n, p.generation) :: b.due }, H⟩ (.fail n reason)
        ⟨{ b with hand := ws.map Waiter.reply ++ b.hand, leaving := n :: b.leaving }, { H with
        processes := H.processes.update n f hf
        nextGeneration := H.nextGeneration + 1 }⟩
  | create {b : Books} {H : Holdings} {p : ManagedProcess} {pgid : ℕ}
      (hfresh : H.processes.lookup p.name = none) (hbatch : H.stopAll = none)
      (hrun : p.life = .running ⟨H.spawned, pgid⟩) (hgen : p.generation = H.nextGeneration + 1)
      (hcount : p.restartCount = 0) :
      Custody ⟨b, H⟩ (.create p.name) ⟨b, { H with
        processes := H.processes.insert p
        nextGeneration := H.nextGeneration + 1
        spawned := H.spawned + 1 }⟩
  | watch {b : Books} {H : Holdings} {p : ManagedProcess} {handle : WatchHandle}
      (hp : H.processes.lookup handle.name = some p) (hgen : p.generation = handle.generation) :
      Custody ⟨b, H⟩ (.watch handle) ⟨b, { H with watchers := handle :: H.watchers }⟩
  | answer {b : Books} {H : Holdings} {reply : Reply} {ans : Answer} :
      Custody ⟨{ b with hand := reply :: b.hand }, H⟩ (.answer reply ans)
        ⟨b, { H with answers := (reply, ans) :: H.answers }⟩
  | joinBatch {b : Books} {H : Holdings} {B : StopAllBatch} {reply : Reply}
      (hbatch : H.stopAll = some B) :
      Custody ⟨{ b with hand := reply :: b.hand }, H⟩ (.joinBatch reply)
        ⟨b, { H with stopAll := some { B with replies := B.replies ++ [reply] } }⟩
  | openBatch {b : Books} {H : Holdings} {S : Finset String} {replies : List Reply}
      (hbatch : H.stopAll = none) (hne : S.Nonempty)
      (hS : ∀ n, n ∈ S ↔ ∃ p, H.processes.lookup n = some p ∧ p.life.isStopping = true)
      (hsettled : ∀ n p, H.processes.lookup n = some p → p.life.Settled)
      (hleaving : b.leaving = []) :
      Custody ⟨{ b with hand := replies ++ b.hand }, H⟩ (.openBatch ⟨S, replies⟩)
        ⟨b, { H with stopAll := some ⟨S, replies⟩ }⟩
  | strike {b : Books} {H : Holdings} {n : String}
      (hleaving : b.leaving = [n])
      (hrest : ∀ B, H.stopAll = some B → (B.remaining.erase n).Nonempty)
      (hgone : H.stopAll.isSome = true → ∀ p, H.processes.lookup n = some p →
        p.life.isStopping = false) :
      Custody ⟨b, H⟩ (.strike n) ⟨{ b with leaving := [] }, { H with
        stopAll := H.stopAll.map fun B => { B with remaining := B.remaining.erase n } }⟩
  | clear {b : Books} {H : Holdings}
      (hidle : ∀ n p, H.processes.lookup n = some p →
        p.life.inc = none ∧ p.life.isStopping = false) :
      Custody ⟨b, H⟩ .clear ⟨{ b with hand := H.batchReplies ++ b.hand, leaving := [] }, { H with
        stopAll := none
        processes := .empty
        dropped := H.processes.values.filterMap (·.life.inc) ++ H.dropped }⟩
  | receive {b : Books} {H : Holdings} :
      Custody ⟨b, H⟩ .receive
        ⟨{ b with hand := b.requests :: b.hand, requests := b.requests + 1 }, H⟩
  | deliver {b : Books} {H : Holdings} {cmd : PmCommand} (hmem : cmd ∈ H.inFlight) :
      Custody ⟨b, H⟩ (.deliver cmd) ⟨{ b with due := cmd.report.toList ++ b.due },
        { H with inFlight := H.inFlight.erase cmd }⟩
  | teardownDone {b : Books} {H : Holdings} {t : Teardown} {code : Option ℤ}
      (hmem : t ∈ H.teardowns) :
      Custody ⟨b, H⟩ (.teardownDone t) ⟨{ b with gone := t.inc.toList ++ b.gone }, { H with
        teardowns := H.teardowns.erase t
        inFlight := .stopFinished t.name t.generation code :: H.inFlight }⟩
  | fileChanged {b : Books} {H : Holdings} {handle : WatchHandle}
      (hmem : handle ∈ H.watchers) :
      Custody ⟨b, H⟩ (.fileChanged handle) ⟨b, { H with
        inFlight := .watchRestart handle.name handle.generation :: H.inFlight }⟩

/-- The abstract machine. -/
def custodian : Machine Desk Move where
  init d := d = ⟨⟨[], [], [], [], 0⟩, (Actor.new "").holdings⟩
  step := Custody

/-! ## Weights of a changed record -/

namespace ManagedProcess

theorem holds_congr {p q : ManagedProcess} (h : q.life.inc = p.life.inc) (k : ℕ) :
    q.holds k = p.holds k := by
  rw [holds, holds, h]

theorem stops_congr {p q : ManagedProcess} (hlife : q.life.isStopping = p.life.isStopping)
    (hname : q.name = p.name) (hgen : q.generation = p.generation) (n : String) (g : ℕ) :
    q.stops n g = p.stops n g := by
  rw [stops, stops, hlife, hname, hgen]

theorem owes_congr {p q : ManagedProcess} (h : q.life.waiters = p.life.waiters) (r : Reply) :
    q.owes r = p.owes r := by
  rw [owes, owes, h]

theorem holds_of_stopping {p : ManagedProcess} (h : p.life.isStopping = true) (k : ℕ) :
    p.holds k = 0 := by
  rw [holds, Life.inc_of_stopping h]
  rfl

theorem stops_of_not_stopping {p : ManagedProcess} (h : p.life.isStopping = false) (n : String)
    (g : ℕ) : p.stops n g = 0 := by
  rw [stops, h]
  rfl

theorem owes_of_not_stopping {p : ManagedProcess} (h : p.life.isStopping = false) (r : Reply) :
    p.owes r = 0 := by
  rw [owes, Life.waiters_of_not_stopping h]
  rfl

/-- A record holds what its teardown would own. -/
theorem holds_eq (p : ManagedProcess) (k : ℕ) : p.holds k = if p.teardown.owns k then 1 else 0 := rfl

/-- A stopping record is so for whom its teardown would report. -/
theorem stops_eq {p : ManagedProcess} (h : p.life.isStopping = true) (n : String) (g : ℕ) :
    p.stops n g = if p.teardown.reportsFor n g then 1 else 0 := by
  rw [stops, h]
  rfl

theorem stops_pos {p : ManagedProcess} {n : String} {g : ℕ} (h : 0 < p.stops n g) :
    p.life.isStopping = true ∧ p.name = n ∧ p.generation = g := by
  by_contra hno
  rw [stops, if_neg (by simpa [and_assoc] using hno)] at h
  exact absurd h (by simp)

theorem holds_running {p : ManagedProcess} {serial pgid : ℕ} (h : p.life = .running ⟨serial, pgid⟩)
    (k : ℕ) : p.holds k = if serial = k then 1 else 0 := by
  simp [holds, h, Incarnation.isSerial]

/-- A report that is due is one for the stopping record it names. -/
theorem count_due {p : ManagedProcess} {n : String} (hname : p.name = n)
    (h : p.life.isStopping = true) (due : List (String × ℕ)) (m : String) (g : ℕ) :
    ((n, p.generation) :: due).count (m, g) = due.count (m, g) + p.stops m g := by
  rw [List.count_cons]
  simp [stops, h, hname]

theorem owes_stopping {p : ManagedProcess} {leaderExit : Option (Option ℤ)} {andThen : AfterStop}
    {ws : List Waiter} (h : p.life = .stopping leaderExit andThen ws) (r : Reply) :
    p.owes r = (ws.map Waiter.reply).count r := by
  rw [owes, h]
  rfl

/-- Looking at a record changes a running life into a natural exit, or nothing. -/
theorem observeExit_cases (os : Os) (p : ManagedProcess) :
    p.observeExit os = p ∨ ∃ inc code, p.life = .running inc ∧ os.peekExit inc = some code ∧
      p.observeExit os = { p with life := .exited code .natural (some inc) false } := by
  rw [observeExit]
  cases hseen : p.exitSeen os with
  | none => exact .inl rfl
  | some code =>
    rw [exitSeen] at hseen
    split at hseen
    · refine .inr ⟨_, code, ‹_›, hseen, ?_⟩
      simp [*]
    · exact absurd hseen (by simp)

/-- Looking at a record leaves its incarnation where it is. -/
theorem observeExit_inc (os : Os) (p : ManagedProcess) :
    (p.observeExit os).life.inc = p.life.inc := by
  rcases p.observeExit_cases os with h | ⟨inc, code, hrun, -, h⟩
  · rw [h]
  · rw [h, hrun]
    rfl

theorem observeExit_isStopping (os : Os) (p : ManagedProcess) :
    (p.observeExit os).life.isStopping = p.life.isStopping := by
  rcases p.observeExit_cases os with h | ⟨inc, code, hrun, -, h⟩
  · rw [h]
  · rw [h, hrun]
    rfl

theorem observeExit_waiters (os : Os) (p : ManagedProcess) :
    (p.observeExit os).life.waiters = p.life.waiters := by
  rcases p.observeExit_cases os with h | ⟨inc, code, hrun, -, h⟩
  · rw [h]
  · rw [h, hrun]
    rfl

@[simp] theorem observeExit_generation (os : Os) (p : ManagedProcess) :
    (p.observeExit os).generation = p.generation := by
  rcases p.observeExit_cases os with h | ⟨inc, code, hrun, -, h⟩ <;> rw [h]

@[simp] theorem observeExit_restartCount (os : Os) (p : ManagedProcess) :
    (p.observeExit os).restartCount = p.restartCount := by
  rcases p.observeExit_cases os with h | ⟨inc, code, hrun, -, h⟩ <;> rw [h]

theorem observeExit_of_not_running (os : Os) {p : ManagedProcess}
    (h : ∀ inc, p.life ≠ .running inc) : p.observeExit os = p := by
  rcases p.observeExit_cases os with hsame | ⟨inc, code, hrun, -, -⟩
  · exact hsame
  · exact absurd hrun (h inc)

end ManagedProcess

/-! ## What a move does to one record -/

/-- What a move makes of the record called `n`. -/
inductive Turn (n : String) : Move → ManagedProcess → ManagedProcess → Prop
  | same {m : Move} {p : ManagedProcess} : Turn n m p p
  | observe {os : Os} {p : ManagedProcess} : Turn n (.observe os) p (p.observeExit os)
  | edit {p q : ManagedProcess} (hlife : q.life = p.life) (hcount : q.restartCount = p.restartCount) :
      Turn n (.edit n) p q
  | arm {p : ManagedProcess} {code : Option ℤ} {inc : Option Incarnation}
      (hlife : p.life = .exited code .natural inc false) :
      Turn n (.arm n) p (p.withLife (.exited code .natural inc true))
  | exhaust {p : ManagedProcess} {code : Option ℤ} {inc : Option Incarnation}
      (hlife : p.life = .exited code .natural inc false) :
      Turn n (.exhaust n) p (p.withLife (.exited code .exhausted inc false))
  | start {p : ManagedProcess} {andThen : AfterStop} {waiter : Option Waiter}
      (hlife : p.life.isStopping = false) :
      Turn n (.start n andThen waiter) p (p.handOver andThen waiter)
  | join {p : ManagedProcess} {leaderExit : Option (Option ℤ)} {was andThen : AfterStop}
      {ws : List Waiter} {waiter : Option Waiter} (hlife : p.life = .stopping leaderExit was ws) :
      Turn n (.join n andThen waiter) p
        (p.withLife (.stopping leaderExit andThen (ws ++ waiter.toList)))
  | park {p : ManagedProcess} {leaderExit : Option (Option ℤ)} {ws : List Waiter}
      {code : Option ℤ} (hlife : p.life = .stopping leaderExit .park ws) :
      Turn n (.park n) p (p.withLife (.exited code .manual none false))
  | relaunch {p q : ManagedProcess} {leaderExit : Option (Option ℤ)} {ws : List Waiter}
      {reason : RespawnReason} {inc : Incarnation}
      (hlife : p.life = .stopping leaderExit (.respawn reason) ws) (hrun : q.life = .running inc)
      (hcount : q.restartCount = reason.settle p.restartCount) : Turn n (.relaunch n reason) p q
  | fail {p q : ManagedProcess} {leaderExit : Option (Option ℤ)} {ws : List Waiter}
      {reason : RespawnReason} {code : Option ℤ}
      (hlife : p.life = .stopping leaderExit (.respawn reason) ws)
      (hfail : q.life = .exited code .spawnFailed none false)
      (hcount : q.restartCount = reason.settle p.restartCount) : Turn n (.fail n reason) p q

/-- **A record after a move** is what the move made of the one there was, or it is new. -/
theorem Custody.record {d d' : Desk} {m : Move} (hm : Custody d m d') {n : String}
    {q : ManagedProcess} (hq : d'.holdings.processes.lookup n = some q) :
    (∃ p, d.holdings.processes.lookup n = some p ∧ Turn n m p q) ∨
      (m = .create n ∧ d.holdings.processes.lookup n = none ∧ q.restartCount = 0 ∧
        ∃ inc, q.life = .running inc) := by
  -- one record is changed and the others are left alone
  have hchange {H : Holdings} {k : String} {p : ManagedProcess} (f : ManagedProcess → ManagedProcess)
      (hf : ∀ q, (f q).name = q.name) (hp : H.processes.lookup k = some p)
      (h : (H.processes.update k f hf).lookup n = some q) (hturn : k = n → Turn n m p (f p)) :
      ∃ p, H.processes.lookup n = some p ∧ Turn n m p q := by
    rcases Table.lookup_update_cases f hf hp h with ⟨rfl, rfl⟩ | ⟨-, hold⟩
    · exact ⟨p, hp, hturn rfl⟩
    · exact ⟨q, hold, .same⟩
  cases hm with
  | observe =>
    rw [Table.lookup_map] at hq
    obtain ⟨p, hp, rfl⟩ := Option.map_eq_some_iff.mp hq
    exact .inl ⟨p, hp, .observe⟩
  | edit hf hp hlife _ hcount =>
    exact .inl (hchange _ hf hp hq fun hk => hk ▸ .edit hlife hcount)
  | arm hp _ hlife =>
    exact .inl (hchange (ManagedProcess.withLife _) (ManagedProcess.withLife_name _) hp hq
      fun hk => hk ▸ .arm hlife)
  | exhaust hp _ hlife =>
    exact .inl (hchange (ManagedProcess.withLife _) (ManagedProcess.withLife_name _) hp hq
      fun hk => hk ▸ .exhaust hlife)
  | start hp _ hlife =>
    exact .inl (hchange (ManagedProcess.handOver _ _) (fun _ => rfl) hp hq
      fun hk => hk ▸ .start hlife)
  | join hp hlife =>
    exact .inl (hchange (ManagedProcess.withLife _) (ManagedProcess.withLife_name _) hp hq
      fun hk => hk ▸ .join hlife)
  | park hp hlife =>
    exact .inl (hchange (ManagedProcess.withLife _) (ManagedProcess.withLife_name _) hp hq
      fun hk => hk ▸ .park hlife)
  | relaunch hf hp _ hlife hrun _ _ hcount =>
    exact .inl (hchange _ hf hp hq fun hk => hk ▸ .relaunch hlife hrun hcount)
  | fail hf hp _ hlife hfail _ _ hcount =>
    exact .inl (hchange _ hf hp hq fun hk => hk ▸ .fail hlife hfail hcount)
  | @create _ _ p _ hfresh _ hrun _ hcount =>
    rw [Table.lookup_insert] at hq
    split at hq
    · subst n
      obtain rfl := Option.some.inj hq
      exact .inr ⟨rfl, hfresh, hcount, _, hrun⟩
    · exact .inl ⟨q, hq, .same⟩
  | clear => exact absurd hq (by simp)
  | _ => exact .inl ⟨q, hq, .same⟩

/-! ## Stamps under a change of one record -/

theorem Fresher.of_update {H K : Holdings} {n : String} {p : ManagedProcess}
    (f : ManagedProcess → ManagedProcess) (hf : ∀ p, (f p).name = p.name)
    (hp : H.processes.lookup n = some p) (hK : K.processes = H.processes.update n f hf)
    (hnext : H.nextGeneration ≤ K.nextGeneration)
    (hgen : (f p).generation = p.generation ∨
      H.nextGeneration < (f p).generation ∧ (f p).generation ≤ K.nextGeneration) :
    Fresher H K := by
  refine ⟨hnext, n, fun m q hq => ?_⟩
  rw [hK] at hq
  rcases Table.lookup_update_cases f hf hp hq with ⟨rfl, rfl⟩ | ⟨-, hold⟩
  · rcases hgen with hsame | hfresh
    · exact .inl ⟨p, hp, hsame.symm⟩
    · exact .inr ⟨rfl, hfresh⟩
  · exact .inl ⟨q, hold, rfl⟩

/-! ## The bookkeeping of one changed record -/

/-- **One record changes**: what it loses must turn up elsewhere in the same ledger. -/
theorem Sound.change {b b' : Books} {H K : Holdings} (h : Sound b H) {n : String}
    {p : ManagedProcess} (f : ManagedProcess → ManagedProcess) (hf : ∀ p, (f p).name = p.name)
    (hp : H.processes.lookup n = some p) (hK : K.processes = H.processes.update n f hf)
    (hstamps : Stamps K)
    (hcustody : ∀ k, (f p).holds k + K.teardowns.countP (·.owns k) + b'.gone.countP (·.isSerial k) +
      (if k < H.spawned then 1 else 0) = p.holds k + H.teardowns.countP (·.owns k) +
      b.gone.countP (·.isSerial k) + if k < K.spawned then 1 else 0)
    (hreports : ∀ m g, K.teardowns.countP (·.reportsFor m g) +
      K.inFlight.countP (·.reportsFor m g) + b'.due.count (m, g) + p.stops m g =
      H.teardowns.countP (·.reportsFor m g) + H.inFlight.countP (·.reportsFor m g) +
      b.due.count (m, g) + (f p).stops m g)
    (hreplies : ∀ r, K.answers.countP (·.1 == r) + (f p).owes r + K.batchReplies.count r +
      b'.hand.count r + (if r < b.requests then 1 else 0) = H.answers.countP (·.1 == r) + p.owes r +
      H.batchReplies.count r + b.hand.count r + if r < b'.requests then 1 else 0)
    (hok : RecordOk (f p))
    (hbatch : ∀ B, K.stopAll = some B → B.remaining.Nonempty ∧
      (∀ m, m ∈ B.remaining ↔ m ∈ b'.leaving ∨
        ∃ q, K.processes.lookup m = some q ∧ q.life.isStopping = true) ∧
      ∀ m q, K.processes.lookup m = some q → q.life.Settled)
    (hdropped : K.dropped = H.dropped) (hcalm : K.panicked = H.panicked) : Sound b' K where
  stamps := hstamps
  custody k := by
    have htally := Table.tally_update (·.holds k) hp f hf
    have hold := h.custody k
    have hnew := hcustody k
    rw [hK]
    omega
  reports m g := by
    have htally := Table.tally_update (·.stops m g) hp f hf
    have hold := h.reports m g
    have hnew := hreports m g
    rw [hK]
    omega
  replies r := by
    have htally := Table.tally_update (·.owes r) hp f hf
    have hold := h.replies r
    have hnew := hreplies r
    rw [hK]
    omega
  records m q hq := by
    rw [hK] at hq
    rcases Table.lookup_update_cases f hf hp hq with ⟨-, rfl⟩ | ⟨-, hold⟩
    · exact hok
    · exact h.records m q hold
  batch := hbatch
  dropped := hdropped.trans h.dropped
  calm := hcalm.trans h.calm

/-- What a running batch asks, after one record has changed. -/
theorem Sound.batch_change {b : Books} {H : Holdings} (h : Sound b H) {n : String}
    {p : ManagedProcess} (f : ManagedProcess → ManagedProcess) (hf : ∀ p, (f p).name = p.name)
    (hp : H.processes.lookup n = some p) {leaving : List String} {B : StopAllBatch}
    (hB : H.stopAll = some B) (hsettled : (f p).life.Settled)
    (hmem : n ∈ B.remaining ↔ n ∈ leaving ∨ (f p).life.isStopping = true)
    (hrest : ∀ m, m ≠ n → (m ∈ leaving ↔ m ∈ b.leaving)) : B.remaining.Nonempty ∧
      (∀ m, m ∈ B.remaining ↔ m ∈ leaving ∨
        ∃ q, (H.processes.update n f hf).lookup m = some q ∧ q.life.isStopping = true) ∧
      ∀ m q, (H.processes.update n f hf).lookup m = some q → q.life.Settled := by
  obtain ⟨hne, hold, hall⟩ := h.batch B hB
  refine ⟨hne, fun m => ?_, fun m q hq => ?_⟩
  · by_cases hm : m = n
    · subst m
      simp [hmem, hp]
    · rw [hold, hrest m hm, Table.lookup_update_ne hm]
  · rcases Table.lookup_update_cases f hf hp hq with ⟨-, rfl⟩ | ⟨-, hq⟩
    · exact hsettled
    · exact hall m q hq

/-- Nothing is asked of a batch that is not there. -/
theorem batch_none {o : Option StopAllBatch} (h : o = none) {P : StopAllBatch → Prop} :
    ∀ B, o = some B → P B :=
  fun _ hB => absurd (h.symm.trans hB) (by simp)

end AgentProcs
