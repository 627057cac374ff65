import AgentProcs.Machinery.Ranks
import AgentProcs.Tui.Steps
import Mathlib.Data.String.Basic

/-!
# Tui/Selection — whom the keys act on after the list was refreshed

    api  web          api  db  web
    0    1            0    1   2           the user selected web, and `x` stops db
         ▲    ──▸          ▲

The interface remembers a place of the list, not a name.  A refresh brings the place back into the
list if it lies behind its end, and looks for nobody: whoever stands there now is selected.  In lists
sorted by name the selected process is still selected if as many sort before it as stand before the
place.
-/

namespace AgentProcs

/-! ## Sorted lists -/

/-- A list as the daemon sends it. -/
def SortedByName (processes : List ProcessInfo) : Prop := processes.Pairwise (·.name ≤ ·.name)

instance (processes : List ProcessInfo) : Decidable (SortedByName processes) :=
  inferInstanceAs (Decidable (List.Pairwise ..))

theorem sortedByName_buildProcessInfos (os : Os) (pm : ProcessManager) :
    SortedByName (pm.buildProcessInfos os) := by
  have hsorted := @List.pairwise_mergeSort _ (fun a b : ProcessInfo => decide (a.name ≤ b.name))
    (by simpa using fun _ _ _ => le_trans)
    (by simpa using fun a b : ProcessInfo => le_total a.name b.name)
    (pm.processes.values.map (·.info os))
  simpa only [SortedByName, ProcessManager.buildProcessInfos, decide_eq_true_eq] using hsorted

/-- **The daemon sends distinct names**: those of its table. -/
theorem distinct_buildProcessInfos (os : Os) (pm : ProcessManager) :
    (pm.buildProcessInfos os).Pairwise (·.name < ·.name) := by
  have hnames : ((pm.processes.values.map (·.info os)).map (·.name)).Nodup := by
    rw [List.map_map]
    exact pm.processes.map_key_values ▸ pm.processes.nodup_keys
  have hdistinct : ((pm.buildProcessInfos os).map (·.name)).Nodup :=
    ((List.mergeSort_perm _ _).map _).nodup_iff.mpr hnames
  exact List.Pairwise.imp₂ (fun _ _ => lt_of_le_of_ne) (sortedByName_buildProcessInfos os pm)
    (List.pairwise_map.mp hdistinct)

/-- **A process stands at this place** of a sorted list, going by names alone: the place does not lie
before it, where the names are smaller, nor behind it. -/
def StandsAt (name : String) (place : ℕ) (processes : List ProcessInfo) : Prop :=
  rank name (processes.map (·.name)) ≤ place ∧ place < upperRank name (processes.map (·.name))

instance (name : String) (place : ℕ) (processes : List ProcessInfo) :
    Decidable (StandsAt name place processes) := inferInstanceAs (Decidable (_ ∧ _))

theorem SortedByName.standsAt_iff {processes : List ProcessInfo} (h : SortedByName processes)
    {name : String} {place : ℕ} :
    StandsAt name place processes ↔ processes[place]?.map (·.name) = some name := by
  rw [← List.getElem?_map, getElem?_eq_some_iff_rank (List.pairwise_map.mpr h)]
  rfl

namespace App

/-! ## What a refresh selects -/

section Refresh

variable {app : App} {processes : List ProcessInfo} {x : String}

/-- The place that stays selected: the same, or the last if there are fewer. -/
def keptPlace (processes : List ProcessInfo) (app : App) : ℕ :=
  min app.selected (processes.length - 1)

theorem processes_updateProcesses (processes : List ProcessInfo) (app : App) :
    (app.updateProcesses processes).processes = processes := by
  rw [updateProcesses]
  split_ifs <;> rfl

theorem selected_updateProcesses (app : App) (hne : processes ≠ []) :
    (app.updateProcesses processes).selected = app.keptPlace processes := by
  rw [updateProcesses, keptPlace]
  split_ifs with hbehind
  · exact (Nat.min_eq_right ((Nat.sub_le ..).trans hbehind.1)).symm
  · have hwithin : app.selected < processes.length := Nat.lt_of_not_le fun hle => hbehind ⟨hle, hne⟩
    exact (Nat.min_eq_left (Nat.le_sub_one_of_lt hwithin)).symm

theorem keptPlace_lt (app : App) (hne : processes ≠ []) : app.keptPlace processes < processes.length :=
  (Nat.min_le_right ..).trans_lt (Nat.sub_lt (List.length_pos_iff.mpr hne) Nat.one_pos)

/-- **Whoever stands at the place is selected.** -/
theorem selectedName_updateProcesses (app : App) (hne : processes ≠ []) :
    (app.updateProcesses processes).selectedName =
      processes[app.keptPlace processes]?.map (·.name) := by
  rw [selectedName, processes_updateProcesses, selected_updateProcesses app hne]

/-- **With distinct names**, the selected process stays selected if as many sort before it as did, or
if fewer do and it is the last now. -/
theorem standsAt_keptPlace_iff (hdistinct : app.processes.Pairwise (·.name < ·.name))
    (hdistinct' : processes.Pairwise (·.name < ·.name)) (hselected : app.selectedName = some x)
    (hmem : x ∈ processes.map (·.name)) :
    StandsAt x (app.keptPlace processes) processes ↔
      rank x (processes.map (·.name)) =
        min (rank x (app.processes.map (·.name))) (processes.length - 1) := by
  have hsorted : SortedByName processes := hdistinct'.imp le_of_lt
  have hplace : app.selected = rank x (app.processes.map (·.name)) := by
    rw [selectedName, ← List.getElem?_map] at hselected
    exact (getElem?_eq_some_iff_eq_rank (List.pairwise_map.mpr hdistinct)
      (List.mem_of_getElem? hselected)).mp hselected
  rw [hsorted.standsAt_iff, ← List.getElem?_map,
    getElem?_eq_some_iff_eq_rank (List.pairwise_map.mpr hdistinct') hmem, keptPlace, hplace, eq_comm]

end Refresh

/-! ## The keys -/

section Keys

variable {app : App} {disk : Disk} {names : List String} {clocks : String → Clock} {key : KeyEvent}

/-- **A key for the selected process**: outside the prompt it asks for it by name. -/
theorem handle_stop (hmode : app.inputMode = .normal) (hkey : AgentProcs.handleKey key = .stop) :
    (app.handle disk names clocks (.key key)).2 = app.selectedName.map .stop := by
  rw [handle, handleKey, hmode]
  simp only [hkey, handleAction]

theorem handle_restart (hmode : app.inputMode = .normal)
    (hkey : AgentProcs.handleKey key = .restart) :
    (app.handle disk names clocks (.key key)).2 = app.selectedName.map .restart := by
  rw [handle, handleKey, hmode]
  simp only [hkey, handleAction]

end Keys

/-! ## The place is one of the list -/

/-- The selected place is one of the list, unless that is empty. -/
def Placed (app : App) : Prop := app.processes ≠ [] → app.selected < app.processes.length

theorem placed_updateProcesses (processes : List ProcessInfo) (app : App) :
    (app.updateProcesses processes).Placed := by
  intro hne
  rw [processes_updateProcesses] at hne ⊢
  rw [selected_updateProcesses app hne]
  exact app.keptPlace_lt hne

end App

theorem Viewed.placed {app app' : App} (h : Viewed app app') (hplaced : app.Placed) : app'.Placed := by
  intro hne
  rw [h.processes] at hne ⊢
  exact h.place (hplaced hne)

section Reachable

variable {t t' : Tui} {e : TuiEvent}

theorem placed_step (h : t.app.Placed) (hstep : TuiStep t e t') : t'.app.Placed := by
  cases hstep with
  | @handle event names clocks hrunning hnames =>
    refine (App.viewed_handle t.app t.disk names clocks event).placed ?_
    cases event with
    | statusUpdate processes => exact App.placed_updateProcesses processes _
    | _ => exact h
  | draw hrunning hdrawn =>
    have hlooked := App.looked_draw hdrawn
    intro hne
    rw [hlooked.rest] at hne ⊢
    exact h hne
  | write => exact h

/-- **In every run** the selected place is one of the list. -/
theorem placed_of_reachable (h : tui.Reachable t) : t.app.Placed := by
  refine h.invariant (fun s hinit => ?_) fun _ _ _ _ hplaced hstep => placed_step hplaced hstep
  obtain ⟨diskReaders, buffers, happ⟩ := exists_of_init hinit
  intro hne
  rw [happ] at hne
  exact absurd rfl hne

end Reachable

/-! ## After a refresh -/

section Refreshed

/-- **A refresh keeps the place**: whoever stands there is selected, and the keys ask for it.  That
is the process that was selected if and only if it stands there in the new list; with distinct names,
if as many sort before it as did, or fewer and it is the last now. -/
theorem keeps_selected_iff {app app' : App} {x : String} {processes : List ProcessInfo} {disk : Disk}
    {names : List String} {clocks : String → Clock} (hselected : app.selectedName = some x)
    (hsorted : SortedByName processes) (hmem : x ∈ processes.map (·.name))
    (hrefresh : (app.handle disk names clocks (.statusUpdate processes)).1 = app') :
    app'.selectedName = processes[app.keptPlace processes]?.map (·.name) ∧
      (app'.selectedName = some x ↔ StandsAt x (app.keptPlace processes) processes) ∧
      (∀ disk names clocks key, app'.inputMode = .normal → handleKey key = .stop →
        (app'.handle disk names clocks (.key key)).2 =
            processes[app.keptPlace processes]?.map (fun p => .stop p.name) ∧
          ((app'.handle disk names clocks (.key key)).2 = some (.stop x) ↔
            StandsAt x (app.keptPlace processes) processes)) ∧
      (∀ disk names clocks key, app'.inputMode = .normal → handleKey key = .restart →
        (app'.handle disk names clocks (.key key)).2 =
            processes[app.keptPlace processes]?.map (fun p => .restart p.name) ∧
          ((app'.handle disk names clocks (.key key)).2 = some (.restart x) ↔
            StandsAt x (app.keptPlace processes) processes)) ∧
      (app.processes.Pairwise (·.name < ·.name) → processes.Pairwise (·.name < ·.name) →
        (StandsAt x (app.keptPlace processes) processes ↔ rank x (processes.map (·.name)) =
          min (rank x (app.processes.map (·.name))) (processes.length - 1))) ∧
      (∀ delivered, (app.handle disk names clocks (.statusUpdate delivered)).1.Placed) ∧
      ∀ t, tui.Reachable t → t.app.Placed := by
  have hne : processes ≠ [] := by
    rintro rfl
    cases hmem
  have hname : app'.selectedName = processes[app.keptPlace processes]?.map (·.name) := by
    rw [← hrefresh]
    exact App.selectedName_updateProcesses (app.addReaders processes) hne
  have hkept : app'.selectedName = some x ↔ StandsAt x (app.keptPlace processes) processes := by
    rw [hname, hsorted.standsAt_iff]
  refine ⟨hname, hkept, fun disk names clocks key hmode hkey => ?_,
    fun disk names clocks key hmode hkey => ?_,
    fun hdistinct hdistinct' => App.standsAt_keptPlace_iff hdistinct hdistinct' hselected hmem,
    fun delivered => App.placed_updateProcesses delivered _, fun t => placed_of_reachable⟩
  · rw [App.handle_stop hmode hkey, ← hkept]
    refine ⟨?_, (Option.map_injective fun _ _ => Request.stop.inj).eq_iff (b := some x)⟩
    rw [hname, Option.map_map]
    rfl
  · rw [App.handle_restart hmode hkey, ← hkept]
    refine ⟨?_, (Option.map_injective fun _ _ => Request.restart.inj).eq_iff (b := some x)⟩
    rw [hname, Option.map_map]
    rfl

/-- These processes, all running. -/
def runningAs (names : List String) : List ProcessInfo :=
  names.map fun name =>
    ⟨name, "p1", 1, .running, none, none, "true", none, none, none, none, none, none⟩

/-- `api` and `web` are reported, and the user goes down to `web`. -/
def selectedWeb : Tui :=
  (emptySession.turn [] (.statusUpdate (runningAs ["api", "web"]))).turn ["api", "web"]
    (.key ⟨.char 'j', false⟩)

theorem reachable_selectedWeb : tui.Reachable selectedWeb := by
  have hreported := reachable_turn (g := fun _ _ => True) (.statusUpdate (runningAs ["api", "web"]))
    reachable_emptySession rfl enumerates_nil trivial
  have hreaders : Enumerates ["api", "web"]
      (emptySession.turn [] (.statusUpdate (runningAs ["api", "web"]))).app.diskReaders := by
    refine ⟨by decide, fun name => ?_⟩
    have heq : (emptySession.turn [] (.statusUpdate (runningAs ["api", "web"]))).app.diskReaders =
        (App.addReaders (runningAs ["api", "web"]) App.new).diskReaders := rfl
    rw [heq, App.addReaders_diskReaders]
    simp [runningAs, App.new]
  exact (reachable_turn (.key ⟨.char 'j', false⟩) hreported rfl hreaders trivial).of_guarded

/-- A process that sorts behind leaves `web` selected. -/
theorem keeps_selected_iff_worker : (selectedWeb.app.handle selectedWeb.disk ["api", "web"]
    (fun _ _ => 0) (.statusUpdate (runningAs ["api", "web", "worker"]))).1.selectedName =
      some "web" := by
  have hselected : selectedWeb.app.selectedName = some "web" := by decide +kernel
  exact (keeps_selected_iff hselected (by decide +kernel) (by decide +kernel) rfl).2.1.mpr
    (by decide +kernel)

/-- `db` starts while `web` is selected. -/
def startedDb : Tui :=
  selectedWeb.turn ["api", "web"] (.statusUpdate (runningAs ["api", "db", "web"]))

/-- **The wrong process**: `web` was selected and is still there, and the keys ask for `db`. -/
theorem not_keeps_selected : tui.Reachable selectedWeb ∧
    selectedWeb.app.selectedName = some "web" ∧ SortedByName (runningAs ["api", "db", "web"]) ∧
    "web" ∈ (runningAs ["api", "db", "web"]).map (·.name) ∧
    startedDb.app.selectedName = some "db" ∧
    (startedDb.app.handle startedDb.disk ["api", "db", "web"] (fun _ _ => 0)
      (.key ⟨.char 'x', false⟩)).2 = some (.stop "db") ∧
    (startedDb.app.handle startedDb.disk ["api", "db", "web"] (fun _ _ => 0)
      (.key ⟨.char 'r', false⟩)).2 = some (.restart "db") :=
  ⟨reachable_selectedWeb, by decide +kernel, by decide +kernel, by decide +kernel, by decide +kernel,
    by decide +kernel, by decide +kernel⟩

end Refreshed

end AgentProcs
