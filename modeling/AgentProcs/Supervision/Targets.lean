import AgentProcs.Daemon.PortSearch
import AgentProcs.Supervision.Lineage

/-!
# Supervision/Targets — names and ids share one lookup

    Run --name p7 ──▸ record p7, id p1        counter ⋯ ──▸ p7, an id too

An id is counted out, and no id is counted out twice.  But a name can be chosen that looks like an id:
of a record that is there, or of one still to come.  Then a target means two records, and an unnamed
`Run`, which is called by its id, finds its name taken.
-/

namespace AgentProcs

variable {w w' : World} {e : Event} {m n : String} {p q r : ManagedProcess}

/-! ## What a target means -/

/-- **Targets are unambiguous.** -/
structure Unambiguous (w : World) : Prop where
  byName : ∀ n r, w.record n = some r → w.actor.pm.find r.name = some r
  byId : ∀ n r, w.record n = some r → w.actor.pm.find r.id = some r
  names : ∀ m n p q, w.record m = some p → w.record n = some q → p.name = q.name → p = q
  ids : ∀ m n p q, w.record m = some p → w.record n = some q → p.id = q.id → p = q

/-- No record is called by the id of another. -/
def Apart (w : World) : Prop :=
  ∀ m p, w.record m = some p → (w.record p.id).isSome = true → p.id = m

theorem unambiguous_iff_apart (h : daemon.Reachable w) : Unambiguous w ↔ Apart w := by
  have hids := ids_of_reachable h
  constructor
  · intro hw m p hp hsome
    obtain ⟨q, hq⟩ := Option.isSome_iff_exists.mp hsome
    have hfind := hw.byId m p hp
    obtain rfl := Option.some.inj ((ProcessManager.find_of_lookup hq).symm.trans hfind)
    exact (Table.key_eq hq).symm.trans (Table.key_eq hp)
  · intro hapart
    have hfound {n : String} {r : ManagedProcess} (hr : w.record n = some r) :
        w.actor.pm.find r.name = some r :=
      ProcessManager.find_of_lookup ((Table.key_eq hr).symm ▸ hr)
    refine ⟨fun n r => hfound, fun n r hr => ?_, fun m n p q hp hq hname => ?_,
      fun m n p q hp hq hid => ?_⟩
    · cases hrid : w.record r.id with
      | none => exact find_of_id hids hr hrid
      | some q =>
        have hid := hapart n r hr (Option.isSome_of_eq_some hrid)
        rw [hid, ← Table.key_eq hr]
        exact hfound hr
    · have hmn : m = n := (Table.key_eq hp).symm.trans (hname.trans (Table.key_eq hq))
      exact Option.some.inj (hp.symm.trans (hmn ▸ hq))
    · exact Option.some.inj (hp.symm.trans (hids.inj m n p q hp hq hid ▸ hq))

/-! ## A Run refused for its name -/

def alreadyExists (name : String) : Response := .error .general s!"process already exists: {name}"

/-- The event is an unnamed `Run` that is refused because its name is taken, whatever a spawn would
have come to. -/
def RefusedForName (w : World) : Event → Prop
  | .client os (.spawn command none cwd env port restart watch reply) => ∀ spawn,
    (w.receive { os with spawn } (.spawn command none cwd env port restart watch reply)).actor.answers =
      (reply, .response (alreadyExists w.nextId)) :: w.actor.answers
  | _ => False

/-- A `Run` gets as far as its name: no stop-all runs, the name is allowed, and a port is found. -/
structure World.ReachesName (os : Os) (name : Option String) (port : Option ℕ) (w : World) :
    Prop where
  idle : w.actor.stopAll = none
  stays : traverses (name.getD w.nextId) = false
  label : w.actor.pm.portAllocator.isProxyEnabled = true →
    isValidDnsLabel (name.getD w.nextId) = true
  resolved : ∃ r, w.actor.pm.nextId.2.resolvePort os port = .ok r

/-! The other refusals begin with another letter. -/

theorem head_append {s t : String} {c : Char} (h : s.toList.head? = some c) :
    (s ++ t).toList.head? = some c := by
  rw [String.toList_append, List.head?_append, h]
  rfl

theorem ne_alreadyExists {code : ErrorCode} {message : String} {c : Char} (name : String)
    (h : message.toList.head? = some c) (hc : c ≠ 'p') :
    Response.error code message ≠ alreadyExists name := by
  intro heq
  have htext : message = "process already exists: " ++ name := (Response.error.inj heq).2
  have hhead := head_append (t := name) (by decide : "process already exists: ".toList.head? = some 'p')
  rw [← htext, h] at hhead
  exact hc (Option.some.inj hhead)

theorem head_noFreeAutoPort (start : ℕ) :
    (PortAllocator.noFreeAutoPort start).toList.head? = some 'n' := by
  unfold PortAllocator.noFreeAutoPort
  refine head_append (head_append (head_append (head_append (head_append (head_append ?_)))))
  decide

theorem error_of_autoAssignPort {bind : ℕ → Bool} {assigned : List ℕ} {a : PortAllocator}
    {message : String} (h : a.autoAssignPort bind assigned = .error message) :
    message = PortAllocator.noFreeAutoPort a.nextAutoPort := by
  rw [PortAllocator.autoAssignPort_eq] at h
  split at h
  · exact absurd h (by simp)
  · exact (Except.error.inj h).symm

theorem head_of_resolvePort_error {os : Os} {port : Option ℕ} {pm : ProcessManager}
    {message : String} (h : pm.resolvePort os port = .error message) :
    message.toList.head? = some 'n' := by
  rw [ProcessManager.resolvePort.eq_def] at h
  split at h
  · exact absurd h (by simp)
  split at h
  · dsimp only at h
    split at h
    · exact absurd h (by simp)
    · rename_i hassign
      rw [← Except.error.inj h, error_of_autoAssignPort hassign]
      exact head_noFreeAutoPort _
  · exact absurd h (by simp)

/-- The search for a port does not look at the spawn. -/
theorem resolvePort_spawn (os : Os) (spawn : Except String ℕ) (port : Option ℕ)
    (pm : ProcessManager) : pm.resolvePort { os with spawn } port = pm.resolvePort os port := by
  rw [ProcessManager.resolvePort.eq_def, ProcessManager.resolvePort.eq_def]

/-- **A `Run` is refused for its name** exactly if it gets as far as that, and a record has it. -/
theorem spawnProcess_eq_alreadyExists_iff (os : Os) (command : String) (name cwd : Option String)
    (env : Option (List (String × String))) (port : Option ℕ) (pm : ProcessManager)
    (hworks : (pm.processes.lookup (name.getD pm.nextId.1)).isSome = true ∨
      ∃ pid, os.spawn = .ok pid) :
    (pm.spawnProcess os command name cwd env port).2 = alreadyExists (name.getD pm.nextId.1) ↔
      traverses (name.getD pm.nextId.1) = false ∧
      (pm.portAllocator.isProxyEnabled = true → isValidDnsLabel (name.getD pm.nextId.1) = true) ∧
      (∃ r, pm.nextId.2.resolvePort os port = .ok r) ∧
      (pm.processes.lookup (name.getD pm.nextId.1)).isSome = true := by
  rw [ProcessManager.spawnProcess]
  dsimp only
  split
  · rename_i htraverses
    refine iff_of_false (ne_alreadyExists _ (head_append ?_) (by decide : 'i' ≠ 'p')) fun h => ?_
    · decide
    · exact absurd (htraverses.symm.trans h.1) (by simp)
  split
  · rename_i hlabel
    obtain ⟨hproxy, hlabel⟩ := (Bool.and_eq_true ..).mp hlabel
    refine iff_of_false (ne_alreadyExists _ (head_append ?_) (by decide : 'i' ≠ 'p')) fun h => ?_
    · exact head_append (head_append (by decide))
    · exact absurd (h.2.1 hproxy) (by simpa using hlabel)
  split
  · rename_i message hports
    refine iff_of_false (ne_alreadyExists _ (head_of_resolvePort_error hports) (by decide)) fun h => ?_
    obtain ⟨r, hr⟩ := h.2.2.1
    exact absurd (hports.symm.trans hr) (by simp)
  rename_i hstays hlabel _ resolved pm₁ hok
  obtain ⟨hprocs, -⟩ := Actor.resolvePort_same hok
  split
  · rename_i hsome
    refine iff_of_true rfl ⟨Bool.eq_false_of_not_eq_true hstays, fun hproxy => ?_, ⟨_, hok⟩,
      hprocs ▸ hsome⟩
    by_contra hno
    exact hlabel ((Bool.and_eq_true ..).mpr ⟨hproxy, by simpa using hno⟩)
  · rename_i hfree
    have htaken : ¬ (pm.processes.lookup (name.getD pm.nextId.1)).isSome = true :=
      fun hsome => hfree (hprocs ▸ hsome)
    obtain ⟨pid, hpid⟩ := hworks.resolve_left htaken
    rw [hpid]
    exact iff_of_false (fun h => Response.noConfusion h) fun h => htaken h.2.2.2

/-- A channel is not answered before its request is received. -/
theorem not_answered_yet (hs : Sound w.books w.actor.holdings) (ans : Answer) :
    (w.requests, ans) ∉ w.actor.answers := by
  intro hmem
  have hanswered : (w.requests, ans) ∈ w.answersTo w.requests :=
    List.mem_filter.mpr ⟨hmem, beq_self_eq_true w.requests⟩
  have hlength := World.length_channels hs w.requests
  rw [if_neg (Nat.lt_irrefl _)] at hlength
  have hpos := List.length_pos_of_mem hanswered
  omega

/-- The answer to a `Run` that is refused. -/
theorem answers_of_error {os : Os} {command : String} {name cwd : Option String}
    {env : Option (List (String × String))} {port : Option ℕ} {code : ErrorCode} {message : String}
    (restart : Option RestartPolicy) (watch : Option WatchConfig) (reply : Reply)
    (hidle : w.actor.stopAll = none)
    (hresp : (w.actor.pm.spawnProcess os command name cwd env port).2 = .error code message) :
    (w.receive os (.spawn command name cwd env port restart watch reply)).actor.answers =
      (reply, .response (.error code message)) :: w.actor.answers := by
  change (w.actor.handleSpawn os command name cwd env port restart watch reply).answers = _
  rw [Actor.handleSpawn, if_neg (by simp [hidle])]
  rcases hspawn : w.actor.pm.spawnProcess os command name cwd env port with ⟨pm, resp⟩
  rw [hspawn] at hresp
  obtain rfl : resp = _ := hresp
  exact congrArg (List.cons _) (Actor.answers_publishProxyState _)

/-- What it takes for an unnamed `Run` to be refused for its name. -/
theorem refusedForName_iff {os : Os} {command : String} {cwd : Option String}
    {env : Option (List (String × String))} {port : Option ℕ} {restart : Option RestartPolicy}
    {watch : Option WatchConfig} (hs : Sound w.books w.actor.holdings) :
    RefusedForName w (.client os (.spawn command none cwd env port restart watch w.requests)) ↔
      w.ReachesName os none port ∧ (w.record w.nextId).isSome = true := by
  constructor
  · intro h
    have hworks : ∃ pid, ({ os with spawn := .ok 0 } : Os).spawn = .ok pid := ⟨0, rfl⟩
    have hrefused : (w.receive { os with spawn := .ok 0 } (.spawn command none cwd env port restart
        watch w.requests)).actor.answers =
          (w.requests, .response (alreadyExists w.nextId)) :: w.actor.answers := h (.ok 0)
    have hidle : w.actor.stopAll = none := by
      by_contra hbatch
      have hprogress : (w.receive { os with spawn := .ok 0 } (.spawn command none cwd env port restart
          watch w.requests)).actor.answers =
            (w.requests, .response stopAllInProgress) :: w.actor.answers := by
        change (w.actor.handleSpawn _ command none cwd env port restart watch w.requests).answers = _
        rw [Actor.handleSpawn, if_pos (Option.isSome_iff_ne_none.mpr hbatch)]
        rfl
      have hanswer := (List.cons.inj (hrefused.symm.trans hprogress)).1
      exact ne_alreadyExists (c := 's') _ (by decide) (by decide)
        (Answer.response.inj (Prod.mk.inj hanswer).2).symm
    have htold : (w.requests, .response (alreadyExists w.nextId)) ∈
        (w.receive { os with spawn := .ok 0 } (.spawn command none cwd env port restart watch
          w.requests)).actor.answers := hrefused ▸ List.mem_cons_self
    by_cases hspawns : w.actor.pm.Spawns { os with spawn := .ok 0 } none port
    · obtain ⟨r, _, pid, -, -, -, -, -, htells⟩ := @Actor.handleSpawn_of_launches w.actor
        { os with spawn := .ok 0 } command none cwd env port restart watch w.requests hidle hspawns
      rcases htells.answers _ htold with hold | hrun
      · exact absurd hold (not_answered_yet hs _)
      · exact Response.noConfusion (Answer.response.inj hrun)
    · obtain ⟨-, -, code, message, hresp⟩ :=
        ProcessManager.spawnProcess_of_not_spawns command cwd env hspawns
      have hother := answers_of_error restart watch w.requests hidle hresp
      have hanswer := (List.cons.inj (hrefused.symm.trans hother)).1
      have hsame : alreadyExists w.nextId = .error code message :=
        Answer.response.inj (Prod.mk.inj hanswer).2
      rw [← hsame] at hresp
      obtain ⟨hstays, hlabel, hresolved, hsome⟩ :=
        (spawnProcess_eq_alreadyExists_iff _ command none cwd env port w.actor.pm (.inr hworks)).mp hresp
      rw [resolvePort_spawn] at hresolved
      exact ⟨⟨hidle, hstays, hlabel, hresolved⟩, hsome⟩
  · rintro ⟨hreach, hsome⟩ spawn
    have hresolved := hreach.resolved
    rw [← resolvePort_spawn os spawn] at hresolved
    have hresp : (w.actor.pm.spawnProcess { os with spawn } command none cwd env port).2 =
        alreadyExists w.nextId :=
      (spawnProcess_eq_alreadyExists_iff _ command none cwd env port w.actor.pm (.inl hsome)).mpr
        ⟨hreach.stays, hreach.label, hresolved, hsome⟩
    exact answers_of_error restart watch w.requests hreach.idle hresp

/-! ## One step -/

/-- The event lets no name and no id coincide: a `Run` that is carried out chooses no name that is an
id, and no id is counted out that is a name, nor is the name of an unnamed `Run`. -/
def KeepsApart (w : World) : Event → Prop
  | .client os (.spawn _ (some name) _ _ port _ _ _) =>
    w.actor.stopAll = none → w.actor.pm.Spawns os (some name) port →
      w.record w.nextId = none ∧ ∀ n p, w.record n = some p → p.id ≠ name
  | .client os (.spawn _ none _ _ port _ _ _) =>
    w.ReachesName os none port → w.record w.nextId = none
  | .deliver os (.stopFinished name _ _) =>
    ∀ p, w.record name = some p → p.AwaitsRespawn → (∃ pid, os.spawn = .ok pid) →
      w.nextId = name ∨ w.record w.nextId = none
  | _ => True

/-- Where no id is counted out, names and ids stay apart. -/
theorem KeepsApart.of_not_launches (h : ¬ e.Launches w) : KeepsApart w e := by
  unfold KeepsApart
  split
  · exact absurd trivial h
  · exact absurd trivial h
  · exact fun p hp hawaits => absurd ⟨p, hp, hawaits⟩ h
  · trivial

theorem not_refusedForName_of_not_launches (h : ¬ e.Launches w) : ¬ RefusedForName w e := by
  unfold RefusedForName
  split
  · exact absurd trivial h
  · exact id

/-- One record set: its id must not be another's name, nor its name another's id. -/
theorem apart_iff_of_sets (h : Apart w) (hsets : w.Sets w' r) : Apart w' ↔
    ((w.record r.id).isSome = true → r.id = r.name) ∧
      ∀ m p, w.record m = some p → m ≠ r.name → p.id ≠ r.name := by
  have hr : w'.record r.name = some r := (hsets r.name).trans (if_pos rfl)
  have hsome {n : String} (hn : (w.record n).isSome = true) : (w'.record n).isSome = true := by
    rw [hsets]
    split
    · rfl
    · exact hn
  constructor
  · intro hapart
    refine ⟨fun hid => hapart r.name r hr (hsome hid), fun m p hp hm hid => hm ?_⟩
    have hp' : w'.record m = some p := (hsets m).trans ((if_neg hm).trans hp)
    exact (hapart m p hp' (hid ▸ Option.isSome_of_eq_some hr)).symm.trans hid
  · rintro ⟨hid, hothers⟩ m p hp hpid
    rw [hsets] at hp hpid
    split at hp
    · obtain rfl := Option.some.inj hp
      subst m
      by_cases hname : r.id = r.name
      · exact hname
      · rw [if_neg hname] at hpid
        exact hid hpid
    · rw [if_neg (hothers m p hp ‹_›)] at hpid
      exact h m p hp hpid

/-- The record set is one that was there: no other has its name for an id. -/
theorem apart_iff_of_sets_old (h : Apart w) (hsets : w.Sets w' r) (hp : w.record r.name = some p) :
    Apart w' ↔ ((w.record r.id).isSome = true → r.id = r.name) := by
  rw [apart_iff_of_sets h hsets, and_iff_left]
  intro m q hq hm hid
  exact hm ((h m q hq (hid ▸ Option.isSome_of_eq_some hp)).symm.trans hid)

/-- **One step keeps names and ids apart**, and refuses no unnamed `Run` for its name, exactly if it
lets none coincide. -/
theorem apart_step_iff (hw : daemon.Reachable w) (hstep : Step w e w') (h : Apart w) :
    (Apart w' ∧ ¬ RefusedForName w e) ↔ KeepsApart w e := by
  have hs := sound_of_reachable hw
  cases comes_step hs hstep with
  | changed hno hchanges =>
    refine iff_of_true ⟨fun m q hq hsome => ?_, not_refusedForName_of_not_launches hno⟩
      (.of_not_launches hno)
    obtain ⟨p, hp, hpq⟩ := hchanges.records m q hq
    obtain ⟨q', hq'⟩ := Option.isSome_iff_exists.mp hsome
    obtain ⟨p', hp', -⟩ := hchanges.records _ _ hq'
    have hid := hpq.goesOn.id
    rw [hid] at hp' ⊢
    exact h m p hp (Option.isSome_of_eq_some hp')
  | @declined os command name cwd env port restart watch reply hno hsame =>
    have hrecord (n : String) : w'.record n = w.record n :=
      congrArg (Table.lookup n) hsame
    have hapart : Apart w' := fun m p hp hsome => by
      rw [hrecord] at hp hsome
      exact h m p hp hsome
    rw [and_iff_right hapart]
    cases name with
    | some name => exact iff_of_true id fun hidle hspawns => absurd ⟨hidle, hspawns⟩ hno
    | none =>
      obtain rfl : reply = w.requests := by
        cases hstep with
        | client _ hreply => exact Option.some.inj hreply
      rw [refusedForName_iff hs, not_and, Option.not_isSome_iff_eq_none]
      exact Iff.rfl
  | @run os command name cwd env port restart watch reply r hrun =>
    have hid : r.id = w.nextId := hrun.id
    have hfresh : ∀ m p, w.record m = some p → p.id ≠ w.nextId := by
      intro m p hp heq
      obtain ⟨k, hk, hcounted⟩ := (ids_of_reachable hw).counted m p hp
      exact absurd (idText_injective (hcounted.symm.trans heq)) (by omega)
    have hold : ∀ m p, w.record m = some p → m ≠ r.name := by
      rintro m p hp rfl
      exact absurd (hp.symm.trans hrun.free) (by simp)
    rw [apart_iff_of_sets h hrun.sets, hid]
    cases name with
    | some name =>
      obtain rfl : r.name = name := hrun.name
      have hunnamed : ¬ RefusedForName w (.client os (.spawn command (some r.name) cwd env port
        restart watch reply)) := id
      rw [and_iff_left hunnamed, KeepsApart]
      constructor
      · rintro ⟨hnext, hids⟩ - -
        refine ⟨?_, fun m p hp => hids m p hp (hold m p hp)⟩
        by_contra hsome
        have hname := hnext (Option.isSome_iff_ne_none.mpr hsome)
        exact hsome (hname ▸ hrun.free)
      · intro hkeeps
        obtain ⟨hnext, hids⟩ := hkeeps hrun.launches.1 hrun.launches.2
        exact ⟨fun hsome => absurd hnext (Option.isSome_iff_ne_none.mp hsome),
          fun m p hp _ => hids m p hp⟩
    | none =>
      obtain rfl : reply = w.requests := by
        cases hstep with
        | client _ hreply => exact Option.some.inj hreply
      have hname : r.name = w.nextId := hrun.name
      have hnext : w.record w.nextId = none := hname ▸ hrun.free
      refine iff_of_true ⟨⟨fun _ => hname.symm, fun m p hp _ => hname ▸ hfresh m p hp⟩, ?_⟩
        fun _ => hnext
      rw [refusedForName_iff hs, hnext]
      exact fun hrefused => absurd hrefused.2 (by simp)
  | @respawn os code p r hrespawn =>
    have hid : r.id = w.nextId := hrespawn.id
    rw [apart_iff_of_sets_old h hrespawn.sets (hrespawn.name ▸ hrespawn.record), hid, hrespawn.name,
      and_iff_left (id : ¬ RefusedForName w _)]
    constructor
    · intro hnext q hq _ _
      by_cases hsome : (w.record w.nextId).isSome = true
      · exact .inl (hnext hsome)
      · exact .inr (Option.not_isSome_iff_eq_none.mp hsome)
    · intro hkeeps hsome
      refine (hkeeps p hrespawn.record hrespawn.awaits hrespawn.works).resolve_right ?_
      exact Option.isSome_iff_ne_none.mp hsome
  | @refused os code p count code' message hp hawaits hfails hsets =>
    rw [apart_iff_of_sets_old h hsets hp, and_iff_left (id : ¬ RefusedForName w _)]
    refine iff_of_true (h p.name p hp) fun q hq _ hworks => ?_
    obtain ⟨pid, hpid⟩ := hworks
    exact absurd (hfails.symm.trans hpid) (by simp)

/-! ## Every run -/

/-- The next id can be counted out: the counter has 32 bits. -/
def Counts (w : World) (_ : Event) : Prop := w.actor.pm.idCounter + 1 < 2 ^ 32

/-- **Targets are unambiguous along a run, and no unnamed `Run` is refused for its name**, exactly if
every step lets no name and no id coincide. -/
theorem unambiguous_iff_keepsApart {w₀ u : World} {ts : List (Transition World Event)}
    (h₀ : daemon.init w₀) (hrun : (daemon.guarded Counts).Run w₀ ts u) :
    (∀ τ ∈ ts, Unambiguous τ.dst ∧ ¬ RefusedForName τ.src τ.ev) ↔
      ∀ τ ∈ ts, KeepsApart τ.src τ.ev := by
  have hinit : Unambiguous w₀ := by
    refine (unambiguous_iff_apart (.init h₀)).mpr ?_
    obtain ⟨session, rfl⟩ := h₀
    intro m p hp
    exact absurd hp (by simp [World.record, World.new, Actor.new, ProcessManager.new])
  refine hrun.of_guarded.1.forall_iff (P := Unambiguous) (Q := fun τ => ¬ RefusedForName τ.src τ.ev)
    (G := fun τ => KeepsApart τ.src τ.ev) (.init h₀) hinit fun t e v ht h hstep => ?_
  rw [unambiguous_iff_apart (ht.step hstep)]
  exact apart_step_iff ht hstep ((unambiguous_iff_apart ht).mp h)

namespace NamedLikeId

def unnamed (reply : Reply) : PmCommand := .spawn "srv" none none none none none none reply

def named (name : String) : World :=
  (World.new "s").receive (.quiet 7) (.spawn "srv" (some name) none none none none none 0)

theorem step_named (name : String) : Step (.new "s") (.client (.quiet 7)
    (.spawn "srv" (some name) none none none none none 0)) (named name) := .client rfl rfl

theorem step_unnamed (name : String) : Step (named name) (.client (.quiet 8) (unnamed 1))
    ((named name).receive (.quiet 8) (unnamed 1)) := by
  refine .client rfl ?_
  rfl

end NamedLikeId

/-- A named process and an unnamed one. -/
theorem unambiguous_iff_keepsApart_web :
    Unambiguous ((NamedLikeId.named "web").receive (.quiet 8) (NamedLikeId.unnamed 1)) := by
  have hfirst : (daemon.guarded Counts).step (.new "s") _ (NamedLikeId.named "web") :=
    ⟨NamedLikeId.step_named "web", show 1 + 1 < 2 ^ 32 by decide⟩
  have hsecond : (daemon.guarded Counts).step (NamedLikeId.named "web") _
      ((NamedLikeId.named "web").receive (.quiet 8) (NamedLikeId.unnamed 1)) :=
    ⟨NamedLikeId.step_unnamed "web", show 2 + 1 < 2 ^ 32 by decide⟩
  have hrun : (daemon.guarded Counts).Run (.new "s") _
      ((NamedLikeId.named "web").receive (.quiet 8) (NamedLikeId.unnamed 1)) :=
    (Machine.Run.refl.snoc hfirst).snoc hsecond
  refine ((unambiguous_iff_keepsApart ⟨"s", rfl⟩ hrun).mpr (fun τ hτ => ?_) _
    (List.mem_append_right _ (List.mem_singleton_self _))).1
  simp only [List.nil_append, List.cons_append, List.mem_cons, List.not_mem_nil, or_false] at hτ
  rcases hτ with rfl | rfl
  · refine fun _ _ => ⟨rfl, fun n p hp => absurd hp ?_⟩
    simp [World.record, World.new, Actor.new, ProcessManager.new]
  · exact fun _ => by decide

/-- What a target promises. -/
def TargetsUnambiguous : Prop :=
  ∀ w₀ u ts, daemon.init w₀ → daemon.Run w₀ ts u →
    ∀ τ ∈ ts, Unambiguous τ.dst ∧ ¬ RefusedForName τ.src τ.ev

/-- **A name that looks like the next id** makes the next unnamed `Run` fail. -/
theorem not_targetsUnambiguous : ¬ TargetsUnambiguous := by
  intro h
  have hrun : daemon.Run (.new "s") _
      ((NamedLikeId.named "p2").receive (.quiet 8) (NamedLikeId.unnamed 1)) :=
    (Machine.Run.refl.snoc (NamedLikeId.step_named "p2")).snoc (NamedLikeId.step_unnamed "p2")
  have hreachable : daemon.Reachable (NamedLikeId.named "p2") :=
    (World.reachable_new "s").step (NamedLikeId.step_named "p2")
  refine (h _ _ _ ⟨"s", rfl⟩ hrun _ (List.mem_append_right _ (List.mem_singleton_self _))).2 ?_
  refine (refusedForName_iff (sound_of_reachable hreachable)).mpr ⟨⟨rfl, ?_, nofun, ?_⟩, ?_⟩
  · decide
  · exact ⟨_, rfl⟩
  · decide

end AgentProcs
