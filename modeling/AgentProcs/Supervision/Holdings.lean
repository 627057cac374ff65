import AgentProcs.Daemon.Actor

/-!
# Supervision/Holdings — who owns what, and the ledgers that keep account of it

    incarnations :  held by a record  +  owned by a teardown  +  gone          = 1 each, once spawned
    reports      :  running teardowns +  StopFinished in flight + in hand      = stopping records
    replies      :  answered + parked on a record + in the batch + in hand     = 1 each, once received

`Holdings` is the part of the actor these speak of.  `Sound` says that the ledgers balance, given
what is outside the actor (`Books`): what a handler still has in its local variables, and which
incarnations are gone.  Each way a handler changes the holdings keeps them sound; a handler is a
chain of these changes.
-/

namespace AgentProcs

/-- What the actor owns: its records, tasks, batch, and the messages it waits for. -/
structure Holdings where
  processes : Table ManagedProcess.name
  nextGeneration : ℕ
  spawned : ℕ
  dropped : List Incarnation
  stopAll : Option StopAllBatch
  teardowns : List Teardown
  inFlight : List PmCommand
  watchers : List WatchHandle
  answers : List (Reply × Answer)
  panicked : Bool

/-- Forget what the ledgers do not speak of. -/
def Actor.holdings (a : Actor) : Holdings where
  processes := a.pm.processes
  nextGeneration := a.pm.nextGeneration
  spawned := a.pm.spawned
  dropped := a.pm.dropped
  stopAll := a.stopAll
  teardowns := a.teardowns
  inFlight := a.inFlight
  watchers := a.watchers
  answers := a.answers
  panicked := a.panicked

/-! ## Weights -/

/-- The incarnation is the `k`-th spawned. -/
def Incarnation.isSerial (k : ℕ) (i : Incarnation) : Bool := i.serial == k

/-- One if the record holds the `k`-th incarnation. -/
def ManagedProcess.holds (k : ℕ) (p : ManagedProcess) : ℕ :=
  if p.life.inc.any (·.isSerial k) then 1 else 0

/-- The teardown owns the `k`-th incarnation. -/
def Teardown.owns (k : ℕ) (t : Teardown) : Bool := t.inc.any (·.isSerial k)

/-- One if the record is stopping under this name and generation. -/
def ManagedProcess.stops (n : String) (g : ℕ) (p : ManagedProcess) : ℕ :=
  if p.life.isStopping && p.name == n && p.generation == g then 1 else 0

/-- The teardown reports for this name and generation. -/
def Teardown.reportsFor (n : String) (g : ℕ) (t : Teardown) : Bool :=
  t.name == n && t.generation == g

/-- The command is a teardown's report for this name and generation. -/
def PmCommand.reportsFor (n : String) (g : ℕ) : PmCommand → Bool
  | .stopFinished m h _ => m == n && h == g
  | _ => false

/-- How often the record owes an answer on a channel. -/
def ManagedProcess.owes (r : Reply) (p : ManagedProcess) : ℕ :=
  (p.life.waiters.map Waiter.reply).count r

/-- The name and generation an internal command carries. -/
def PmCommand.stamp : PmCommand → Option (String × ℕ)
  | .autoRestart n g => some (n, g)
  | .watchRestart n g => some (n, g)
  | .stopFinished n g _ => some (n, g)
  | _ => none

/-- The channels of the clients a running batch will answer. -/
def Holdings.batchReplies (H : Holdings) : List Reply :=
  match H.stopAll with
  | some b => b.replies
  | none => []

/-! ## Generations -/

/-- A generation that was issued, and only to the record called `n`. -/
def Holdings.IssuedTo (H : Holdings) (n : String) (g : ℕ) : Prop :=
  g ≤ H.nextGeneration ∧ ∀ m p, H.processes.lookup m = some p → p.generation = g → m = n

/-- **Generations name records**: no two records share one, and whatever carries one was issued for
the record of that name. -/
structure Stamps (H : Holdings) : Prop where
  le : ∀ n p, H.processes.lookup n = some p → p.generation ≤ H.nextGeneration
  inj : ∀ m n p q, H.processes.lookup m = some p → H.processes.lookup n = some q →
    p.generation = q.generation → m = n
  teardowns : ∀ t ∈ H.teardowns, H.IssuedTo t.name t.generation
  inFlight : ∀ c ∈ H.inFlight, ∃ n g, c.stamp = some (n, g) ∧ H.IssuedTo n g
  watchers : ∀ h ∈ H.watchers, H.IssuedTo h.name h.generation

/-- Every record of `K` has a generation it had in `H`, or is the one record of `K` with a fresh
one. -/
def Fresher (H K : Holdings) : Prop :=
  H.nextGeneration ≤ K.nextGeneration ∧ ∃ n₀, ∀ n q, K.processes.lookup n = some q →
    (∃ p, H.processes.lookup n = some p ∧ p.generation = q.generation) ∨
      (n = n₀ ∧ H.nextGeneration < q.generation ∧ q.generation ≤ K.nextGeneration)

theorem Fresher.of_same {H K : Holdings} (hg : H.nextGeneration ≤ K.nextGeneration)
    (h : ∀ n q, K.processes.lookup n = some q →
      ∃ p, H.processes.lookup n = some p ∧ p.generation = q.generation) : Fresher H K :=
  ⟨hg, "", fun n q hq => .inl (h n q hq)⟩

/-- What was issued stays issued to the same record. -/
theorem Fresher.issuedTo {H K : Holdings} (h : Fresher H K) {n : String} {g : ℕ}
    (hi : H.IssuedTo n g) : K.IssuedTo n g := by
  obtain ⟨hle, n₀, hrec⟩ := h
  refine ⟨hi.1.trans hle, fun m q hq hqg => ?_⟩
  rcases hrec m q hq with ⟨p, hp, hpq⟩ | ⟨-, hlt, -⟩
  · exact hi.2 m p hp (hpq.trans hqg)
  · exact absurd hi.1 (by omega)

/-- **Stamps survive** a change that issues at most one fresh generation, when whatever is new in
flight carries the stamp of a current record. -/
theorem Stamps.of_fresher {H K : Holdings} (h : Stamps H) (hf : Fresher H K)
    (ht : ∀ t ∈ K.teardowns, t ∈ H.teardowns ∨
      ∃ p, K.processes.lookup t.name = some p ∧ p.generation = t.generation)
    (hc : ∀ c ∈ K.inFlight, c ∈ H.inFlight ∨
      ∃ n p, K.processes.lookup n = some p ∧ c.stamp = some (n, p.generation))
    (hw : ∀ w ∈ K.watchers, w ∈ H.watchers ∨
      ∃ p, K.processes.lookup w.name = some p ∧ p.generation = w.generation) : Stamps K := by
  have hle : ∀ n q, K.processes.lookup n = some q → q.generation ≤ K.nextGeneration := by
    intro n q hq
    obtain ⟨hg, n₀, hrec⟩ := hf
    rcases hrec n q hq with ⟨p, hp, hpq⟩ | ⟨-, -, hle⟩
    · exact hpq ▸ (h.le n p hp).trans hg
    · exact hle
  have hinj : ∀ m n p q, K.processes.lookup m = some p → K.processes.lookup n = some q →
      p.generation = q.generation → m = n := by
    intro m n p q hp hq hpq
    obtain ⟨hg, n₀, hrec⟩ := hf
    rcases hrec m p hp with ⟨p', hp', hpp⟩ | ⟨rfl, hlt, -⟩ <;>
      rcases hrec n q hq with ⟨q', hq', hqq⟩ | ⟨rfl, hlt', -⟩
    · exact h.inj m n p' q' hp' hq' (by omega)
    · have := h.le m p' hp'
      omega
    · have := h.le n q' hq'
      omega
    · rfl
  have hcur : ∀ n p, K.processes.lookup n = some p → K.IssuedTo n p.generation :=
    fun n p hp => ⟨hle n p hp, fun m q hq heq => hinj m n q p hq hp heq⟩
  refine ⟨hle, hinj, fun t htk => ?_, fun c hck => ?_, fun w hwk => ?_⟩
  · rcases ht t htk with hold | ⟨p, hp, hpg⟩
    · exact hf.issuedTo (h.teardowns t hold)
    · exact hpg ▸ hcur t.name p hp
  · rcases hc c hck with hold | ⟨n, p, hp, hs⟩
    · obtain ⟨n, g, hs, hissued⟩ := h.inFlight c hold
      exact ⟨n, g, hs, hf.issuedTo hissued⟩
    · exact ⟨n, p.generation, hs, hcur n p hp⟩
  · rcases hw w hwk with hold | ⟨p, hp, hpg⟩
    · exact hf.issuedTo (h.watchers w hold)
    · exact hpg ▸ hcur w.name p hp

/-! ## Records -/

/-- What is true of a record whatever happens to the others. -/
structure RecordOk (p : ManagedProcess) : Prop where
  /-- An exited record keeps its leader unreaped exactly when nothing has stopped it. -/
  zombie : ∀ code why inc timer, p.life = .exited code why inc timer →
    (inc.isSome ↔ why = .natural ∨ why = .exhausted)
  /-- A timer is only set for a natural exit the policy restarts, within its budget. -/
  timer : ∀ code why inc, p.life = .exited code why inc true →
    why = .natural ∧ ∃ policy, p.restartPolicy = some policy ∧
      policy.mode.shouldRestart code = true ∧
      ∀ max, policy.maxRestarts = some max → p.restartCount < max
  /-- The budget is never overspent. -/
  budget : ∀ policy max, p.restartPolicy = some policy → policy.maxRestarts = some max →
    p.restartCount ≤ max

/-- A record that is not exited only answers for its budget. -/
theorem RecordOk.of_not_exited {p : ManagedProcess}
    (h : ∀ code why inc timer, p.life ≠ .exited code why inc timer)
    (hb : ∀ policy max, p.restartPolicy = some policy → policy.maxRestarts = some max →
      p.restartCount ≤ max) : RecordOk p where
  zombie code why inc timer he := absurd he (h code why inc timer)
  timer code why inc he := absurd he (h code why inc true)
  budget := hb

/-- A record no stop-all has to wait for, or one whose teardown ends in a park. -/
def Life.Settled (l : Life) : Prop :=
  (∃ leaderExit waiters, l = .stopping leaderExit .park waiters) ∨
    ∃ code why timer, l = .exited code why none timer

/-! ## The books -/

/-- What the ledgers need to know from outside the holdings. -/
structure Books where
  /-- Reply channels in a handler's hands. -/
  hand : List Reply
  /-- A report taken off the queue and not yet acted on. -/
  due : List (String × ℕ)
  /-- A name about to be struck off the batch. -/
  leaving : List String
  /-- Incarnations whose teardown has ended. -/
  gone : List Incarnation
  /-- Requests received so far; they name their channels. -/
  requests : ℕ

structure Sound (b : Books) (H : Holdings) : Prop where
  stamps : Stamps H
  custody : ∀ k, H.processes.tally (·.holds k) + H.teardowns.countP (·.owns k) +
    b.gone.countP (·.isSerial k) = if k < H.spawned then 1 else 0
  reports : ∀ n g, H.teardowns.countP (·.reportsFor n g) + H.inFlight.countP (·.reportsFor n g) +
    b.due.count (n, g) = H.processes.tally (·.stops n g)
  replies : ∀ r, H.answers.countP (·.1 == r) + H.processes.tally (·.owes r) +
    H.batchReplies.count r + b.hand.count r = if r < b.requests then 1 else 0
  records : ∀ n p, H.processes.lookup n = some p → RecordOk p
  batch : ∀ B, H.stopAll = some B → B.remaining.Nonempty ∧
    (∀ n, n ∈ B.remaining ↔ n ∈ b.leaving ∨
      ∃ p, H.processes.lookup n = some p ∧ p.life.isStopping = true) ∧
    ∀ n p, H.processes.lookup n = some p → p.life.Settled
  dropped : H.dropped = []
  calm : H.panicked = false

end AgentProcs
