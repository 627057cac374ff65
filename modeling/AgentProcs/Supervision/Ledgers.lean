import AgentProcs.Supervision.Custody

/-!
# Supervision/Ledgers — every move keeps the ledgers balanced

One lemma a move, and `Sound.move` assembles them.  A move that touches one record goes through
`Sound.change`, which leaves the three equations of that record; the others leave the records alone.
-/

namespace AgentProcs

variable {b : Books} {H : Holdings} {n : String} {p : ManagedProcess}

/-! ## Moves on one record -/

theorem Sound.edit (h : Sound b H) {f : ManagedProcess → ManagedProcess}
    {hf : ∀ p, (f p).name = p.name} (hp : H.processes.lookup n = some p)
    (hlife : (f p).life = p.life) (hgen : (f p).generation = p.generation) (hok : RecordOk (f p)) :
    Sound b { H with processes := H.processes.update n f hf } := by
  have hfresh : Fresher H { H with processes := H.processes.update n f hf } :=
    .of_update f hf hp rfl le_rfl (.inl hgen)
  refine h.change f hf hp rfl ?_ (fun k => ?_) (fun m g => ?_) (fun r => ?_) hok ?_ rfl rfl
  · exact h.stamps.of_fresher hfresh (fun t ht => .inl ht) (fun c hc => .inl hc) fun w hw => .inl hw
  · rw [ManagedProcess.holds_congr (congrArg Life.inc hlife)]
  · rw [ManagedProcess.stops_congr (congrArg Life.isStopping hlife) (hf p) hgen]
  · rw [ManagedProcess.owes_congr (congrArg Life.waiters hlife)]
    rfl
  · intro B hB
    obtain ⟨-, hmem, hsettled⟩ := h.batch B hB
    refine h.batch_change f hf hp hB (hlife ▸ hsettled n p hp) ?_ fun m _ => Iff.rfl
    rw [hmem, hlife]
    simp [hp]

/-- The records of a move that only changes a life have the stamps they had. -/
theorem Sound.stamps_withLife (h : Sound b H) {K : Holdings} {life : Life}
    (hp : H.processes.lookup n = some p)
    (hK : K.processes = H.processes.update n (ManagedProcess.withLife life) fun _ => rfl)
    (hnext : K.nextGeneration = H.nextGeneration) (ht : K.teardowns = H.teardowns)
    (hc : ∀ c ∈ K.inFlight, c ∈ H.inFlight ∨ c.stamp = some (n, p.generation))
    (hw : K.watchers = H.watchers) : Stamps K := by
  refine h.stamps.of_fresher (.of_update (ManagedProcess.withLife life) (fun _ => rfl) hp hK hnext.ge (.inl rfl))
    (fun t hmem => .inl (ht ▸ hmem)) (fun c hmem => ?_) fun w hmem => .inl (hw ▸ hmem)
  rcases hc c hmem with hold | hnew
  · exact .inl hold
  · exact .inr ⟨n, p.withLife life, hK ▸ Table.lookup_update_of (ManagedProcess.withLife life)
      (fun _ => rfl) hp, hnew⟩

theorem Sound.arm (h : Sound b H) {code : Option ℤ} {inc : Option Incarnation}
    {policy : RestartPolicy} (hp : H.processes.lookup n = some p) (hbatch : H.stopAll = none)
    (hlife : p.life = .exited code .natural inc false) (hpolicy : p.restartPolicy = some policy)
    (hdue : policy.mode.shouldRestart code = true)
    (hleft : ∀ max, policy.maxRestarts = some max → p.restartCount < max) :
    Sound b { H with
      processes := H.processes.update n (ManagedProcess.withLife (.exited code .natural inc true)) fun _ => rfl
      inFlight := .autoRestart n p.generation :: H.inFlight } := by
  have hstop : p.life.isStopping = false := by rw [hlife]; rfl
  refine h.change (ManagedProcess.withLife (.exited code .natural inc true)) (fun _ => rfl) hp rfl ?_
    (fun k => ?_) (fun m g => ?_) (fun r => ?_) ?_ (batch_none hbatch) rfl rfl
  · refine h.stamps_withLife hp rfl rfl rfl (fun c hc => ?_) rfl
    rcases List.mem_cons.mp hc with rfl | hold
    · exact .inr rfl
    · exact .inl hold
  · rw [ManagedProcess.holds_congr (p := p) (by rw [hlife]; rfl)]
  · rw [ManagedProcess.stops_of_not_stopping hstop, ManagedProcess.stops_of_not_stopping rfl,
      List.countP_cons_of_neg (by simp [PmCommand.reportsFor])]
  · rw [ManagedProcess.owes_of_not_stopping hstop, ManagedProcess.owes_of_not_stopping rfl]
    rfl
  · have hold := h.records n p hp
    refine ⟨fun c w i t he => ?_, fun c w i he => ?_, hold.budget⟩
    · obtain ⟨rfl, rfl, rfl, rfl⟩ := Life.exited.inj he
      exact hold.zombie _ _ _ _ hlife
    · obtain ⟨rfl, rfl, rfl, -⟩ := Life.exited.inj he
      exact ⟨rfl, policy, hpolicy, hdue, hleft⟩

theorem Sound.exhaust (h : Sound b H) {code : Option ℤ} {inc : Option Incarnation}
    (hp : H.processes.lookup n = some p) (hbatch : H.stopAll = none)
    (hlife : p.life = .exited code .natural inc false) :
    Sound b { H with
      processes := H.processes.update n (ManagedProcess.withLife (.exited code .exhausted inc false))
        fun _ => rfl } := by
  have hstop : p.life.isStopping = false := by rw [hlife]; rfl
  refine h.change (ManagedProcess.withLife (.exited code .exhausted inc false)) (fun _ => rfl) hp rfl
    (h.stamps_withLife hp rfl rfl rfl (fun c hc => .inl hc) rfl) (fun k => ?_) (fun m g => ?_)
    (fun r => ?_) ?_ (batch_none hbatch) rfl rfl
  · rw [ManagedProcess.holds_congr (p := p) (by rw [hlife]; rfl)]
  · rw [ManagedProcess.stops_of_not_stopping hstop, ManagedProcess.stops_of_not_stopping rfl]
  · rw [ManagedProcess.owes_of_not_stopping hstop, ManagedProcess.owes_of_not_stopping rfl]
    rfl
  · have hold := h.records n p hp
    refine ⟨fun c w i t he => ?_, fun c w i he => ?_, hold.budget⟩
    · obtain ⟨rfl, rfl, rfl, rfl⟩ := Life.exited.inj he
      have hz := (hold.zombie _ _ _ _ hlife).mpr (.inl rfl)
      exact ⟨fun _ => .inr rfl, fun _ => hz⟩
    · exact absurd (Life.exited.inj he).2.2.2 (by simp)

theorem Sound.start {andThen : AfterStop} {waiter : Option Waiter}
    (h : Sound { b with hand := waiter.toList.map Waiter.reply ++ b.hand } H)
    (hp : H.processes.lookup n = some p) (hbatch : H.stopAll = none)
    (hlife : p.life.isStopping = false)
    (hauto : andThen = .respawn .auto → ∃ code inc, p.life = .exited code .natural inc true) :
    Sound b { H with
      processes := H.processes.update n (ManagedProcess.handOver andThen waiter) fun _ => rfl
      teardowns := p.teardown :: H.teardowns } := by
  have hname : p.name = n := Table.key_eq hp
  refine h.change (ManagedProcess.handOver andThen waiter) (fun _ => rfl) hp rfl ?_ (fun k => ?_)
    (fun m g => ?_) (fun r => ?_) ?_ (batch_none hbatch) rfl rfl
  · refine h.stamps.of_fresher (.of_update (ManagedProcess.handOver andThen waiter) (fun _ => rfl) hp rfl
      le_rfl (.inl rfl)) (fun t ht => ?_) (fun c hc => .inl hc)
      fun w hw => .inl hw
    rcases List.mem_cons.mp ht with rfl | hold
    · refine .inr ⟨p.handOver andThen waiter, ?_, rfl⟩
      rw [show p.teardown.name = n from hname]
      exact Table.lookup_update_of (ManagedProcess.handOver andThen waiter) (fun _ => rfl) hp
    · exact .inl hold
  · rw [ManagedProcess.holds_of_stopping rfl, ManagedProcess.holds_eq, List.countP_cons]
    dsimp only
    omega
  · rw [ManagedProcess.stops_of_not_stopping hlife, ManagedProcess.stops_eq rfl, List.countP_cons]
    change _ = _ + _ + if p.teardown.reportsFor m g then 1 else 0
    dsimp only
    omega
  · rw [ManagedProcess.owes_of_not_stopping hlife, ManagedProcess.owes]
    simp only [ManagedProcess.handOver, Life.waiters_stopping, List.count_append]
    change _ + _ + H.batchReplies.count r + _ + _ = _
    omega
  · have hold := h.records n p hp
    refine .of_not_exited (fun _ _ _ _ he => Life.noConfusion he) fun policy max hpol hmax => ?_
    have hle := hold.budget policy max hpol hmax
    change andThen.charge p.restartCount ≤ max
    cases andThen with
    | park => exact hle
    | respawn reason =>
      cases reason with
      | manual => exact hle
      | watch => exact Nat.zero_le max
      | auto =>
        obtain ⟨code, inc, hl⟩ := hauto rfl
        obtain ⟨-, policy', hpol', -, hlt⟩ := hold.timer _ _ _ hl
        obtain rfl := Option.some.inj (hpol'.symm.trans hpol)
        exact hlt max hmax

theorem RecordOk.congr (h : RecordOk p) {q : ManagedProcess} (hlife : q.life = p.life)
    (hpolicy : q.restartPolicy = p.restartPolicy) (hcount : q.restartCount = p.restartCount) :
    RecordOk q where
  zombie code why inc timer he := h.zombie code why inc timer (hlife ▸ he)
  timer code why inc he := by
    rw [hpolicy, hcount]
    exact h.timer code why inc (hlife ▸ he)
  budget := by
    rw [hpolicy, hcount]
    exact h.budget

/-- Settling the charges keeps within the budget. -/
theorem RecordOk.budget_settle (h : RecordOk p) {q : ManagedProcess} (reason : RespawnReason)
    (hpolicy : q.restartPolicy = p.restartPolicy)
    (hcount : q.restartCount = reason.settle p.restartCount) (policy : RestartPolicy) (max : ℕ)
    (hpol : q.restartPolicy = some policy) (hmax : policy.maxRestarts = some max) :
    q.restartCount ≤ max := by
  have hle := h.budget policy max (hpolicy.symm.trans hpol) hmax
  rw [hcount]
  match reason with
  | .manual => exact Nat.zero_le max
  | .auto => exact hle
  | .watch => exact hle

theorem Sound.join {leaderExit : Option (Option ℤ)} {was andThen : AfterStop} {ws : List Waiter}
    {waiter : Option Waiter} (h : Sound { b with hand := waiter.toList.map Waiter.reply ++ b.hand } H)
    (hp : H.processes.lookup n = some p) (hlife : p.life = .stopping leaderExit was ws)
    (hbatch : H.stopAll.isSome = true → andThen = .park) :
    Sound b { H with
      processes := H.processes.update n
        (ManagedProcess.withLife (.stopping leaderExit andThen (ws ++ waiter.toList)))
        fun _ => rfl } := by
  have hstop : p.life.isStopping = true := by rw [hlife]; rfl
  refine h.change (ManagedProcess.withLife (.stopping leaderExit andThen (ws ++ waiter.toList)))
    (fun _ => rfl) hp rfl (h.stamps_withLife hp rfl rfl rfl (fun c hc => .inl hc) rfl) (fun k => ?_)
    (fun m g => ?_) (fun r => ?_) ?_ (fun B hB => ?_) rfl rfl
  · rw [ManagedProcess.holds_of_stopping hstop, ManagedProcess.holds_of_stopping rfl]
  · rw [ManagedProcess.stops_eq hstop, ManagedProcess.stops_eq rfl]
    rfl
  · rw [ManagedProcess.owes_stopping hlife, ManagedProcess.owes_stopping rfl, List.map_append]
    simp only [List.count_append]
    change _ + _ + H.batchReplies.count r + _ + _ = _
    omega
  · exact .of_not_exited (fun _ _ _ _ he => Life.noConfusion he) (h.records n p hp).budget
  · obtain ⟨-, hmem, -⟩ := h.batch B hB
    obtain rfl := hbatch (Option.isSome_iff_exists.mpr ⟨B, hB⟩)
    refine h.batch_change (ManagedProcess.withLife (.stopping leaderExit .park (ws ++ waiter.toList)))
      (fun _ => rfl) hp hB (.inl ⟨_, _, rfl⟩) ?_ fun m _ => Iff.rfl
    exact (hmem n).trans (or_congr_right ⟨fun _ => rfl, fun _ => ⟨p, hp, hstop⟩⟩)

theorem Sound.park {leaderExit : Option (Option ℤ)} {ws : List Waiter} {code : Option ℤ}
    (h : Sound { b with due := (n, p.generation) :: b.due } H) (hp : H.processes.lookup n = some p)
    (hlife : p.life = .stopping leaderExit .park ws) :
    Sound { b with hand := ws.map Waiter.reply ++ b.hand, leaving := n :: b.leaving } { H with
      processes := H.processes.update n (ManagedProcess.withLife (.exited code .manual none false))
        fun _ => rfl } := by
  have hstop : p.life.isStopping = true := by rw [hlife]; rfl
  refine h.change (ManagedProcess.withLife (.exited code .manual none false)) (fun _ => rfl) hp rfl
    (h.stamps_withLife hp rfl rfl rfl (fun c hc => .inl hc) rfl) (fun k => ?_) (fun m g => ?_)
    (fun r => ?_) ?_ (fun B hB => ?_) rfl rfl
  · rw [ManagedProcess.holds_of_stopping hstop]
    rfl
  · rw [ManagedProcess.count_due (Table.key_eq hp) hstop,
      @ManagedProcess.stops_of_not_stopping (p.withLife (.exited code .manual none false)) rfl]
    dsimp only
    omega
  · rw [ManagedProcess.owes_stopping hlife, ManagedProcess.owes_of_not_stopping rfl]
    simp only [List.count_append]
    change _ + _ + H.batchReplies.count r + _ + _ = _
    omega
  · refine ⟨fun c w i t he => ?_, fun c w i he => ?_, (h.records n p hp).budget⟩
    · obtain ⟨-, rfl, rfl, -⟩ := Life.exited.inj he
      simp
    · exact absurd (Life.exited.inj he).2.2.2 (by simp)
  · obtain ⟨-, hmem, -⟩ := h.batch B hB
    refine h.batch_change (ManagedProcess.withLife (.exited code .manual none false))
      (fun _ => rfl) hp hB (.inr ⟨_, _, _, rfl⟩) ?_ fun m hm => ?_
    · exact ⟨fun _ => .inl List.mem_cons_self, fun _ => (hmem n).mpr (.inr ⟨p, hp, hstop⟩)⟩
    · exact List.mem_cons.trans (or_iff_right hm)

theorem Sound.relaunch {leaderExit : Option (Option ℤ)} {ws : List Waiter} {reason : RespawnReason}
    {pgid : ℕ} (h : Sound { b with due := (n, p.generation) :: b.due } H)
    {f : ManagedProcess → ManagedProcess} {hf : ∀ p, (f p).name = p.name}
    (hp : H.processes.lookup n = some p) (hbatch : H.stopAll = none)
    (hlife : p.life = .stopping leaderExit (.respawn reason) ws)
    (hrun : (f p).life = .running ⟨H.spawned, pgid⟩)
    (hgen : (f p).generation = H.nextGeneration + 1)
    (hpolicy : (f p).restartPolicy = p.restartPolicy)
    (hcount : (f p).restartCount = reason.settle p.restartCount) :
    Sound { b with hand := ws.map Waiter.reply ++ b.hand, leaving := n :: b.leaving } { H with
      processes := H.processes.update n f hf
      nextGeneration := H.nextGeneration + 1
      spawned := H.spawned + 1 } := by
  have hstop : p.life.isStopping = true := by rw [hlife]; rfl
  have hrunning : (f p).life.isStopping = false := by rw [hrun]; rfl
  refine h.change f hf hp rfl ?_ (fun k => ?_) (fun m g => ?_) (fun r => ?_) ?_
    (batch_none hbatch) rfl rfl
  · refine h.stamps.of_fresher (.of_update f hf hp rfl (Nat.le_succ _) (.inr ?_))
      (fun t ht => .inl ht) (fun c hc => .inl hc) fun w hw => .inl hw
    exact ⟨by omega, hgen.le⟩
  · rw [ManagedProcess.holds_of_stopping hstop, ManagedProcess.holds_running hrun]
    dsimp only
    split_ifs <;> omega
  · rw [ManagedProcess.count_due (Table.key_eq hp) hstop,
      ManagedProcess.stops_of_not_stopping hrunning]
    dsimp only
    omega
  · rw [ManagedProcess.owes_stopping hlife, ManagedProcess.owes_of_not_stopping hrunning]
    simp only [List.count_append]
    change _ + _ + H.batchReplies.count r + _ + _ = _
    omega
  · exact .of_not_exited (fun _ _ _ _ he => Life.noConfusion (hrun.symm.trans he))
      ((h.records n p hp).budget_settle reason hpolicy hcount)

theorem Sound.fail {leaderExit : Option (Option ℤ)} {ws : List Waiter} {reason : RespawnReason}
    {code : Option ℤ} (h : Sound { b with due := (n, p.generation) :: b.due } H)
    {f : ManagedProcess → ManagedProcess} {hf : ∀ p, (f p).name = p.name}
    (hp : H.processes.lookup n = some p) (hbatch : H.stopAll = none)
    (hlife : p.life = .stopping leaderExit (.respawn reason) ws)
    (hfail : (f p).life = .exited code .spawnFailed none false)
    (hgen : (f p).generation = p.generation)
    (hpolicy : (f p).restartPolicy = p.restartPolicy)
    (hcount : (f p).restartCount = reason.settle p.restartCount) :
    Sound { b with hand := ws.map Waiter.reply ++ b.hand, leaving := n :: b.leaving } { H with
      processes := H.processes.update n f hf
      nextGeneration := H.nextGeneration + 1 } := by
  have hstop : p.life.isStopping = true := by rw [hlife]; rfl
  have hexited : (f p).life.isStopping = false := by rw [hfail]; rfl
  refine h.change f hf hp rfl ?_ (fun k => ?_) (fun m g => ?_) (fun r => ?_) ?_
    (batch_none hbatch) rfl rfl
  · exact h.stamps.of_fresher (.of_update f hf hp rfl (Nat.le_succ _) (.inl hgen))
      (fun t ht => .inl ht) (fun c hc => .inl hc) fun w hw => .inl hw
  · rw [ManagedProcess.holds_of_stopping hstop, ManagedProcess.holds, hfail]
    rfl
  · rw [ManagedProcess.count_due (Table.key_eq hp) hstop,
      ManagedProcess.stops_of_not_stopping hexited]
    dsimp only
    omega
  · rw [ManagedProcess.owes_stopping hlife, ManagedProcess.owes_of_not_stopping hexited]
    simp only [List.count_append]
    change _ + _ + H.batchReplies.count r + _ + _ = _
    omega
  · refine ⟨fun c w i t he => ?_, fun c w i he => ?_,
      (h.records n p hp).budget_settle reason hpolicy hcount⟩
    · obtain ⟨-, rfl, rfl, -⟩ := Life.exited.inj (hfail.symm.trans he)
      simp
    · exact absurd (Life.exited.inj (hfail.symm.trans he)).2.2.2 (by simp)

/-! ## Moves on all records -/

/-- Looking at a record keeps what is true of it. -/
theorem RecordOk.observeExit (os : Os) (h : RecordOk p) : RecordOk (p.observeExit os) := by
  rcases p.observeExit_cases os with heq | ⟨inc, code, hrun, -, heq⟩
  · rwa [heq]
  · rw [heq]
    refine ⟨fun c w i t he => ?_, fun c w i he => ?_, h.budget⟩
    · obtain ⟨-, rfl, rfl, -⟩ := Life.exited.inj he
      simp
    · exact absurd (Life.exited.inj he).2.2.2 (by simp)

/-- A settled life is not running. -/
theorem Life.Settled.not_running {l : Life} (h : l.Settled) (inc : Incarnation) :
    l ≠ .running inc := by
  rcases h with ⟨_, _, rfl⟩ | ⟨_, _, _, rfl⟩ <;> exact fun he => Life.noConfusion he

/-- A life that still holds its incarnation is not settled. -/
theorem Life.not_settled_zombie {code : Option ℤ} {why : ExitWhy} {inc : Incarnation}
    {timer : Bool} : ¬ (Life.exited code why (some inc) timer).Settled := by
  rintro (⟨_, _, he⟩ | ⟨_, _, _, he⟩)
  · exact Life.noConfusion he
  · exact absurd (Life.exited.inj he).2.2.1 (by simp)

/-- A life that will be respawned is not settled. -/
theorem Life.not_settled_respawn {leaderExit : Option (Option ℤ)} {reason : RespawnReason}
    {ws : List Waiter} : ¬ (Life.stopping leaderExit (.respawn reason) ws).Settled := by
  rintro (⟨_, _, he⟩ | ⟨_, _, _, he⟩)
  · exact AfterStop.noConfusion (Life.stopping.inj he).2.1
  · exact Life.noConfusion he

/-- **A report that is due finds its record** stopping, under the generation it was issued for. -/
theorem Sound.due (h : Sound b H) {g : ℕ} (hdue : (n, g) ∈ b.due) :
    ∃ p, H.processes.lookup n = some p ∧ p.generation = g ∧ p.life.isStopping = true := by
  have hcount := List.count_pos_iff.mpr hdue
  have hreports := h.reports n g
  obtain ⟨k, p, hp, hw⟩ := Table.exists_of_tally_pos
    (show 0 < H.processes.tally (·.stops n g) by omega)
  obtain ⟨hstop, rfl, rfl⟩ := ManagedProcess.stops_pos hw
  rw [← Table.key_eq hp] at hp
  exact ⟨p, hp, rfl, hstop⟩

/-- **A record that is not settled belongs to no batch.** -/
theorem Sound.no_batch (h : Sound b H) (hp : H.processes.lookup n = some p)
    (hlife : ¬ p.life.Settled) : H.stopAll = none := by
  cases hB : H.stopAll with
  | none => rfl
  | some B => exact absurd ((h.batch B hB).2.2 n p hp) hlife

theorem Sound.observe (h : Sound b H) (os : Os) : Sound b { H with
    processes := H.processes.map (·.observeExit os) (ManagedProcess.observeExit_name os) } where
  stamps := by
    refine h.stamps.of_fresher (.of_same le_rfl fun m q hq => ?_) (fun t ht => .inl ht)
      (fun c hc => .inl hc) fun w hw => .inl hw
    rw [Table.lookup_map] at hq
    obtain ⟨p, hp, rfl⟩ := Option.map_eq_some_iff.mp hq
    exact ⟨p, hp, (p.observeExit_generation os).symm⟩
  custody k := by
    rw [Table.tally_map]
    simp only [ManagedProcess.holds_congr (ManagedProcess.observeExit_inc os _)]
    exact h.custody k
  reports m g := by
    rw [Table.tally_map]
    simp only [ManagedProcess.stops_congr (ManagedProcess.observeExit_isStopping os _)
      (ManagedProcess.observeExit_name os _) (ManagedProcess.observeExit_generation os _)]
    exact h.reports m g
  replies r := by
    rw [Table.tally_map]
    simp only [ManagedProcess.owes_congr (ManagedProcess.observeExit_waiters os _)]
    exact h.replies r
  records m q hq := by
    rw [Table.lookup_map] at hq
    obtain ⟨p, hp, rfl⟩ := Option.map_eq_some_iff.mp hq
    exact (h.records m p hp).observeExit os
  batch B hB := by
    obtain ⟨hne, hmem, hsettled⟩ := h.batch B hB
    refine ⟨hne, fun m => (hmem m).trans (or_congr_right ?_), fun m q hq => ?_⟩
    · simp [ManagedProcess.observeExit_isStopping]
    · rw [Table.lookup_map] at hq
      obtain ⟨p, hp, rfl⟩ := Option.map_eq_some_iff.mp hq
      rw [ManagedProcess.observeExit_of_not_running os (hsettled m p hp).not_running]
      exact hsettled m p hp
  dropped := h.dropped
  calm := h.calm

theorem Sound.create (h : Sound b H) {pgid : ℕ} (hfresh : H.processes.lookup p.name = none)
    (hbatch : H.stopAll = none) (hrun : p.life = .running ⟨H.spawned, pgid⟩)
    (hgen : p.generation = H.nextGeneration + 1) (hcount : p.restartCount = 0) :
    Sound b { H with
      processes := H.processes.insert p
      nextGeneration := H.nextGeneration + 1
      spawned := H.spawned + 1 } := by
  have hrunning : p.life.isStopping = false := by rw [hrun]; rfl
  refine ⟨?_, fun k => ?_, fun m g => ?_, fun r => ?_, fun m q hq => ?_, batch_none hbatch,
    h.dropped, h.calm⟩
  · refine h.stamps.of_fresher ⟨Nat.le_succ _, p.name, fun m q hq => ?_⟩ (fun t ht => .inl ht)
      (fun c hc => .inl hc) fun w hw => .inl hw
    rw [Table.lookup_insert] at hq
    split at hq
    · obtain rfl := Option.some.inj hq
      exact .inr ⟨‹_›, by omega, hgen.le⟩
    · exact .inl ⟨q, hq, rfl⟩
  · have hold := h.custody k
    rw [Table.tally_insert _ hfresh, ManagedProcess.holds_running hrun]
    dsimp only
    split_ifs at hold ⊢ <;> omega
  · have hold := h.reports m g
    rw [Table.tally_insert _ hfresh, ManagedProcess.stops_of_not_stopping hrunning]
    dsimp only
    omega
  · have hold := h.replies r
    rw [Table.tally_insert _ hfresh, ManagedProcess.owes_of_not_stopping hrunning]
    change _ + _ + H.batchReplies.count r + _ = _
    dsimp only
    omega
  · rw [Table.lookup_insert] at hq
    split at hq
    · obtain rfl := Option.some.inj hq
      exact .of_not_exited (fun _ _ _ _ he => Life.noConfusion (hrun.symm.trans he))
        fun _ _ _ _ => hcount ▸ Nat.zero_le _
    · exact h.records m q hq

theorem Sound.clear (h : Sound b H) (hidle : ∀ n p, H.processes.lookup n = some p →
      p.life.inc = none ∧ p.life.isStopping = false) :
    Sound { b with hand := H.batchReplies ++ b.hand, leaving := [] } { H with
      stopAll := none
      processes := .empty
      dropped := H.processes.values.filterMap (·.life.inc) ++ H.dropped } where
  stamps := by
    refine h.stamps.of_fresher (.of_same le_rfl fun m q hq => ?_) (fun t ht => .inl ht)
      (fun c hc => .inl hc) fun w hw => .inl hw
    rw [Table.lookup_empty] at hq
    exact absurd hq (by simp)
  custody k := by
    have hold := h.custody k
    rw [Table.tally_eq_zero fun n p hp => by
      rw [ManagedProcess.holds, (hidle n p hp).1]
      rfl] at hold
    exact hold
  reports m g := by
    have hold := h.reports m g
    rwa [Table.tally_eq_zero fun n p hp =>
      ManagedProcess.stops_of_not_stopping (hidle n p hp).2 m g] at hold
  replies r := by
    have hold := h.replies r
    rw [Table.tally_eq_zero fun n p hp =>
      ManagedProcess.owes_of_not_stopping (hidle n p hp).2 r] at hold
    simp only [Table.tally_empty, Holdings.batchReplies, List.count_nil, List.count_append]
    change _ + 0 + 0 + (H.batchReplies.count r + _) = _
    omega
  records m q hq := absurd hq (by simp)
  batch := batch_none rfl
  dropped := by
    have hnone : H.processes.values.filterMap (·.life.inc) = [] :=
      List.filterMap_eq_nil_iff.mpr fun p hp => (hidle p.name p (Table.mem_values.mp hp)).1
    rw [hnone, h.dropped]
    rfl
  calm := h.calm

/-! ## Moves on the batch -/

theorem Sound.joinBatch {B : StopAllBatch} {reply : Reply}
    (h : Sound { b with hand := reply :: b.hand } H) (hbatch : H.stopAll = some B) :
    Sound b { H with stopAll := some { B with replies := B.replies ++ [reply] } } where
  stamps := h.stamps.of_fresher (.of_same le_rfl fun _ q hq => ⟨q, hq, rfl⟩) (fun t ht => .inl ht)
    (fun c hc => .inl hc) fun w hw => .inl hw
  custody := h.custody
  reports := h.reports
  replies r := by
    have hold := h.replies r
    simp only [Holdings.batchReplies, hbatch, List.count_cons, List.count_append,
      List.count_nil] at hold ⊢
    omega
  records := h.records
  batch B' hB' := by
    obtain rfl := Option.some.inj hB'
    exact h.batch B hbatch
  dropped := h.dropped
  calm := h.calm

theorem Sound.openBatch {S : Finset String} {replies : List Reply}
    (h : Sound { b with hand := replies ++ b.hand } H) (hbatch : H.stopAll = none)
    (hne : S.Nonempty)
    (hS : ∀ n, n ∈ S ↔ ∃ p, H.processes.lookup n = some p ∧ p.life.isStopping = true)
    (hsettled : ∀ n p, H.processes.lookup n = some p → p.life.Settled) (hleaving : b.leaving = []) :
    Sound b { H with stopAll := some ⟨S, replies⟩ } where
  stamps := h.stamps.of_fresher (.of_same le_rfl fun _ q hq => ⟨q, hq, rfl⟩) (fun t ht => .inl ht)
    (fun c hc => .inl hc) fun w hw => .inl hw
  custody := h.custody
  reports := h.reports
  replies r := by
    have hold := h.replies r
    simp only [Holdings.batchReplies, hbatch, List.count_append, List.count_nil] at hold ⊢
    omega
  records := h.records
  batch B hB := by
    obtain rfl := Option.some.inj hB
    refine ⟨hne, fun n => (hS n).trans ?_, hsettled⟩
    rw [hleaving]
    simp
  dropped := h.dropped
  calm := h.calm

theorem Sound.strike (h : Sound b H) (hleaving : b.leaving = [n])
    (hrest : ∀ B, H.stopAll = some B → (B.remaining.erase n).Nonempty)
    (hgone : H.stopAll.isSome = true → ∀ p, H.processes.lookup n = some p →
      p.life.isStopping = false) :
    Sound { b with leaving := [] } { H with
      stopAll := H.stopAll.map fun B => { B with remaining := B.remaining.erase n } } where
  stamps := h.stamps.of_fresher (.of_same le_rfl fun _ q hq => ⟨q, hq, rfl⟩) (fun t ht => .inl ht)
    (fun c hc => .inl hc) fun w hw => .inl hw
  custody := h.custody
  reports := h.reports
  replies r := by
    have hsame : ∀ o : Option StopAllBatch, Holdings.batchReplies { H with
        stopAll := o.map fun B => { B with remaining := B.remaining.erase n } } =
        Holdings.batchReplies { H with stopAll := o } := fun o => by cases o <;> rfl
    rw [hsame]
    exact h.replies r
  records := h.records
  batch B hB := by
    obtain ⟨B₀, hB₀, rfl⟩ := Option.map_eq_some_iff.mp hB
    obtain ⟨-, hmem, hsettled⟩ := h.batch B₀ hB₀
    refine ⟨hrest B₀ hB₀, fun m => ?_, hsettled⟩
    have hgone := hgone (Option.isSome_iff_exists.mpr ⟨B₀, hB₀⟩)
    rw [Finset.mem_erase, hmem, hleaving]
    constructor
    · rintro ⟨hne, hin | hstop⟩
      · exact absurd (List.mem_singleton.mp hin) hne
      · exact .inr hstop
    · rintro (hin | ⟨p, hp, hstop⟩)
      · exact absurd hin List.not_mem_nil
      · refine ⟨fun hmn => ?_, .inr ⟨p, hp, hstop⟩⟩
        subst hmn
        rw [hgone p hp] at hstop
        exact absurd hstop (by simp)
  dropped := h.dropped
  calm := h.calm

/-! ## Moves on the messages -/

theorem Sound.watch (h : Sound b H) {handle : WatchHandle}
    (hp : H.processes.lookup handle.name = some p) (hgen : p.generation = handle.generation) :
    Sound b { H with watchers := handle :: H.watchers } where
  stamps := by
    refine h.stamps.of_fresher (.of_same le_rfl fun _ q hq => ⟨q, hq, rfl⟩) (fun t ht => .inl ht)
      (fun c hc => .inl hc) fun w hw => ?_
    rcases List.mem_cons.mp hw with rfl | hold
    · exact .inr ⟨p, hp, hgen⟩
    · exact .inl hold
  custody := h.custody
  reports := h.reports
  replies := h.replies
  records := h.records
  batch := h.batch
  dropped := h.dropped
  calm := h.calm

theorem Sound.answer {reply : Reply} {ans : Answer}
    (h : Sound { b with hand := reply :: b.hand } H) :
    Sound b { H with answers := (reply, ans) :: H.answers } where
  stamps := h.stamps.of_fresher (.of_same le_rfl fun _ q hq => ⟨q, hq, rfl⟩) (fun t ht => .inl ht)
    (fun c hc => .inl hc) fun w hw => .inl hw
  custody := h.custody
  reports := h.reports
  replies r := by
    have hold := h.replies r
    rw [List.count_cons] at hold
    rw [List.countP_cons]
    change _ + _ + H.batchReplies.count r + _ = _
    dsimp only at hold ⊢
    omega
  records := h.records
  batch := h.batch
  dropped := h.dropped
  calm := h.calm

theorem Sound.receive (h : Sound b H) :
    Sound { b with hand := b.requests :: b.hand, requests := b.requests + 1 } H where
  stamps := h.stamps
  custody := h.custody
  reports := h.reports
  replies (r : ℕ) := by
    have hold := h.replies r
    have hnew : (if b.requests = r then 1 else 0) + (if r < b.requests then 1 else 0) =
        if r < b.requests + 1 then 1 else 0 := by
      split_ifs <;> omega
    rw [List.count_cons]
    simp only [beq_iff_eq]
    omega
  records := h.records
  batch := h.batch
  dropped := h.dropped
  calm := h.calm

/-- A command is a report for whom it is stamped. -/
theorem PmCommand.count_report (cmd : PmCommand) (due : List (String × ℕ)) (m : String) (g : ℕ) :
    (cmd.report.toList ++ due).count (m, g) =
      (if cmd.reportsFor m g then 1 else 0) + due.count (m, g) := by
  rw [List.count_append]
  cases cmd with
  | stopFinished n k code => simp [report, reportsFor, List.count_cons]
  | _ => simp [report, reportsFor]

theorem Sound.deliver (h : Sound b H) {cmd : PmCommand} (hmem : cmd ∈ H.inFlight) :
    Sound { b with due := cmd.report.toList ++ b.due } { H with
      inFlight := H.inFlight.erase cmd } where
  stamps := h.stamps.of_fresher (.of_same le_rfl fun _ q hq => ⟨q, hq, rfl⟩) (fun t ht => .inl ht)
    (fun c hc => .inl (List.mem_of_mem_erase hc)) fun w hw => .inl hw
  custody := h.custody
  reports m g := by
    have hold := h.reports m g
    have herase := ((List.perm_cons_erase hmem).countP_eq (·.reportsFor m g)).trans
      List.countP_cons
    rw [PmCommand.count_report]
    dsimp only
    omega
  replies := h.replies
  records := h.records
  batch := h.batch
  dropped := h.dropped
  calm := h.calm

/-- What a teardown leaves behind is what it owned. -/
theorem Teardown.countP_inc (t : Teardown) (k : ℕ) :
    t.inc.toList.countP (·.isSerial k) = if t.owns k then 1 else 0 := by
  rw [owns]
  cases t.inc <;> simp [List.countP_cons]

theorem Sound.teardownDone (h : Sound b H) {t : Teardown} {code : Option ℤ}
    (hmem : t ∈ H.teardowns) :
    Sound { b with gone := t.inc.toList ++ b.gone } { H with
      teardowns := H.teardowns.erase t
      inFlight := .stopFinished t.name t.generation code :: H.inFlight } where
  stamps := by
    refine ⟨h.stamps.le, h.stamps.inj, fun u hu => h.stamps.teardowns u (List.mem_of_mem_erase hu),
      fun c hc => ?_, h.stamps.watchers⟩
    rcases List.mem_cons.mp hc with rfl | hold
    · exact ⟨t.name, t.generation, rfl, h.stamps.teardowns t hmem⟩
    · exact h.stamps.inFlight c hold
  custody k := by
    have hold := h.custody k
    have herase := ((List.perm_cons_erase hmem).countP_eq (·.owns k)).trans List.countP_cons
    rw [List.countP_append, t.countP_inc]
    dsimp only
    omega
  reports m g := by
    have hold := h.reports m g
    have herase := ((List.perm_cons_erase hmem).countP_eq (·.reportsFor m g)).trans
      List.countP_cons
    rw [List.countP_cons]
    change _ + (_ + if t.reportsFor m g then 1 else 0) + _ = _
    dsimp only
    omega
  replies := h.replies
  records := h.records
  batch := h.batch
  dropped := h.dropped
  calm := h.calm

theorem Sound.fileChanged (h : Sound b H) {handle : WatchHandle} (hmem : handle ∈ H.watchers) :
    Sound b { H with
      inFlight := .watchRestart handle.name handle.generation :: H.inFlight } where
  stamps := by
    refine ⟨h.stamps.le, h.stamps.inj, h.stamps.teardowns, fun c hc => ?_, h.stamps.watchers⟩
    rcases List.mem_cons.mp hc with rfl | hold
    · exact ⟨handle.name, handle.generation, rfl, h.stamps.watchers handle hmem⟩
    · exact h.stamps.inFlight c hold
  custody := h.custody
  reports m g := by
    rw [List.countP_cons_of_neg (by simp [PmCommand.reportsFor])]
    exact h.reports m g
  replies := h.replies
  records := h.records
  batch := h.batch
  dropped := h.dropped
  calm := h.calm

/-! ## Every move -/

/-- **No move unbalances the ledgers.** -/
theorem Sound.move {d d' : Desk} {m : Move} (hm : Custody d m d')
    (h : Sound d.books d.holdings) : Sound d'.books d'.holdings := by
  cases hm with
  | observe => exact h.observe _
  | edit _ hp hlife hgen _ hok => exact h.edit hp hlife hgen hok
  | arm hp hbatch hlife hpolicy hdue hleft => exact h.arm hp hbatch hlife hpolicy hdue hleft
  | exhaust hp hbatch hlife => exact h.exhaust hp hbatch hlife
  | start hp hbatch hlife hauto => exact Sound.start h hp hbatch hlife hauto
  | join hp hlife hbatch => exact Sound.join h hp hlife hbatch
  | park hp hlife => exact Sound.park h hp hlife
  | relaunch _ hp hbatch hlife hrun hgen hpolicy hcount =>
    exact Sound.relaunch h hp hbatch hlife hrun hgen hpolicy hcount
  | fail _ hp hbatch hlife hfail hgen hpolicy hcount =>
    exact Sound.fail h hp hbatch hlife hfail hgen hpolicy hcount
  | create hfresh hbatch hrun hgen hcount => exact h.create hfresh hbatch hrun hgen hcount
  | watch hp hgen => exact h.watch hp hgen
  | answer => exact Sound.answer h
  | joinBatch hbatch => exact Sound.joinBatch h hbatch
  | openBatch hbatch hne hS hsettled hleaving =>
    exact Sound.openBatch h hbatch hne hS hsettled hleaving
  | strike hleaving hrest hgone => exact h.strike hleaving hrest hgone
  | clear hidle => exact h.clear hidle
  | receive => exact h.receive
  | deliver hmem => exact h.deliver hmem
  | teardownDone hmem => exact h.teardownDone hmem
  | fileChanged hmem => exact h.fileChanged hmem

end AgentProcs
