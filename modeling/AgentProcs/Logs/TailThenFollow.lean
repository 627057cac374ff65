import AgentProcs.Logs.Moment

/-!
# Logs/TailThenFollow — the end of the files, then the live output, and what falls in between

    captured   a  b │ c       d       e  f             │ the moment
    printed    a  b                   e  f             c and d were sent before the subscription

What the client prints are the last lines of each file and then what is captured after it, for some
moment that every file it reads stands for.  A line that is captured after the moment has to be sent
after the subscription, and one captured before it has to be sent before.
-/

namespace AgentProcs

variable {args : LogsArgs} {capacity : ℕ} {s s' t u : Tailing} {e : TailingEvent} {f g : Log}
  {os live : List OutputLine} {line : String}

/-! ## What is to be printed -/

/-- The lines of one log. -/
def linesOf (f : Log) (os : List OutputLine) : List String := (os.filter (·.log = f)).map (·.line)

namespace Tailing

/-- The lines captured since a moment. -/
def since (t u : Tailing) (f : Log) : List String := (u.captured f).drop (t.captured f).length

/-- The last lines of a log, as they are to be printed. -/
def lastLines (args : LogsArgs) (t : Tailing) (f : Log) : List String :=
  ((tailFile f.path args.tail t.disk).getD []).map (args.println f.process)

end Tailing

/-- **The live lines**: each line captured since the moment once, up to the limit. -/
structure FollowsOn (args : LogsArgs) (t u : Tailing) (live : List OutputLine) : Prop where
  replays : ∀ o ∈ live, args.replays o.log
  once : ∀ f, args.replays f → linesOf f live <+: t.since u f
  limit : ∀ n ∈ args.lines, live.length ≤ n
  /-- What is missing is in the channel, or about to be. -/
  complete : u.client = .following → (∀ n ∈ args.lines, live.length < n) → ∀ f, args.replays f →
    t.since u f = linesOf f live ++ linesOf f u.unread ++ (u.emission f).pending

/-- **Tail, then follow**: what is printed are the last lines of each file as of the moment `t`, and
then the live lines. -/
structure TailThenFollow (args : LogsArgs) (t u : Tailing) : Prop where
  /-- The daemon follows the streams that the client replays. -/
  sameStreams : ∀ o, args.request.selects o = args.replays o.log
  /-- At the moment no line is half in its file. -/
  whole : ∀ f, args.replays f → ¬(t.emission f).Torn
  silent : u.replayed = none → u.printed args = [] ∧ u.client ≠ .ended
  printed : u.replayed.isSome → ∃ (files : List Log) (live : List OutputLine), files.Nodup ∧
    (∀ f, f ∈ files ↔ args.replays f ∧ (t.disk.dir f.path).isSome) ∧
    u.printed args = files.flatMap (t.lastLines args) ++
      live.map (fun o => args.println o.process o.line) ∧
    FollowsOn args t u live

/-! ## The lines since the moment -/

theorem linesOf_append (f : Log) (os live : List OutputLine) :
    linesOf f (os ++ live) = linesOf f os ++ linesOf f live := by
  rw [linesOf, List.filter_append, List.map_append]
  rfl

theorem linesOf_self (f : Log) (line : String) :
    linesOf f [⟨f.process, f.stream, line⟩] = [line] := by
  simp [linesOf, OutputLine.log]

theorem linesOf_of_ne {o : OutputLine} (h : o.log ≠ f) : linesOf f [o] = [] := by
  simp [linesOf, h]

/-- **Where the lines of a log are** that have been captured since the moment `t`, the lines `os`
received: one at most before the subscription, and waiting to be sent. -/
structure Owes (t s : Tailing) (os : List OutputLine) (f : Log) : Prop where
  early : s.client.Early → s.captured f = t.captured f ∨
    ∃ line, s.captured f = t.captured f ++ [line] ∧ s.emission f = .written line
  following : s.client = .following → s.captured f = t.captured f ++
    (linesOf f os ++ linesOf f s.unread ++ (s.emission f).pending)
  ended : s.client = .ended → ∃ rest, s.captured f = t.captured f ++ (linesOf f os ++ rest)

namespace Owes

theorem congr (h : Owes t s os f) (hclient : s'.client = s.client)
    (hcaptured : s'.captured f = s.captured f) (hemission : s'.emission f = s.emission f)
    (hunread : linesOf f s'.unread = linesOf f s.unread) : Owes t s' os f where
  early hearly := by
    rw [hcaptured, hemission]
    exact h.early (hclient ▸ hearly)
  following hfollowing := by
    rw [hcaptured, hemission, hunread]
    exact h.following (hclient ▸ hfollowing)
  ended hended := by
    rw [hcaptured]
    exact h.ended (hclient ▸ hended)

/-- The client reads on. -/
theorem of_early (h : Owes t s os f) (hearly : s.client.Early) (hearly' : s'.client.Early)
    (hcaptured : s'.captured f = s.captured f) (hemission : s'.emission f = s.emission f) :
    Owes t s' os f where
  early _ := by
    rw [hcaptured, hemission]
    exact h.early hearly
  following hfollowing := absurd hfollowing hearly'.1
  ended hended := absurd hended hearly'.2

/-- A line is begun, or stored up to some point. -/
theorem setEmission (h : Owes t s os f) {x : Emission} (hx : x.pending = [])
    (hbefore : (s.emission g).pending = []) : Owes t (s.setEmission g x) os f := by
  by_cases hfg : f = g
  · subst hfg
    refine ⟨fun hearly => .inl ?_, fun hfollowing => ?_, h.ended⟩
    · rcases h.early hearly with hsame | ⟨line, -, hwritten⟩
      · exact hsame
      · rw [hwritten] at hbefore
        exact absurd hbefore (List.cons_ne_nil _ _)
    · rw [Tailing.emission_setEmission, hx, ← hbefore]
      exact h.following hfollowing
  · exact h.congr rfl rfl (Tailing.emission_setEmission_of_ne hfg x) rfl

/-- A line is stored. -/
theorem capture (h : Owes t s os f) (hbefore : (s.emission g).pending = []) :
    Owes t (s.capture g line) os f := by
  by_cases hfg : f = g
  · subst hfg
    have hcaptured := Tailing.captured_capture f line s
    refine ⟨fun hearly => .inr ⟨line, ?_, Tailing.emission_capture f line s⟩,
      fun hfollowing => ?_, fun hended => ?_⟩
    · rcases h.early hearly with hsame | ⟨line, -, hwritten⟩
      · rw [hcaptured, hsame]
      · rw [hwritten] at hbefore
        exact absurd hbefore (List.cons_ne_nil _ _)
    · have hlines := h.following hfollowing
      rw [hbefore, List.append_nil] at hlines
      rw [hcaptured, Tailing.emission_capture, hlines, Emission.pending_written, List.append_assoc,
        List.append_assoc, List.append_assoc]
      rfl
    · obtain ⟨rest, hrest⟩ := h.ended hended
      exact ⟨rest ++ [line], by rw [hcaptured, hrest]; simp⟩
  · exact h.congr rfl (Tailing.captured_capture_of_ne hfg) (Tailing.emission_capture_of_ne hfg) rfl

/-- A line is sent: before the subscription, one captured before the moment. -/
theorem send (h : Owes t s os f) (hwritten : s.emission g = .written line)
    (hguard : f = g → s.client.Early → s.captured f = t.captured f) :
    Owes t ((s.setEmission g .idle).push ⟨g.process, g.stream, line⟩) os f := by
  rw [Tailing.push_eq]
  by_cases hfg : f = g
  · subst hfg
    refine ⟨fun hearly => .inl (hguard rfl hearly), fun hfollowing => ?_, h.ended⟩
    have hlines := h.following hfollowing
    dsimp only
    rw [hwritten, List.append_assoc] at hlines
    rw [Tailing.emission_setEmission, if_pos hfollowing, linesOf_append, linesOf_self,
      Emission.pending_idle, List.append_nil]
    exact hlines
  · refine h.congr rfl rfl (Tailing.emission_setEmission_of_ne hfg .idle) ?_
    dsimp only
    split
    · have hother : (⟨g.process, g.stream, line⟩ : OutputLine).log ≠ f := fun heq => hfg heq.symm
      rw [linesOf_append, linesOf_of_ne hother, List.append_nil]
      rfl
    · rfl

/-- The subscription: what is captured but not sent comes on the channel. -/
theorem subscribe (h : Owes t s [] f) (hearly : s.client.Early) (hclient : s'.client = .following)
    (hcaptured : s'.captured f = s.captured f) (hemission : s'.emission f = s.emission f)
    (hunread : s'.unread = [])
    (hguard : (s.emission f).pending ≠ [] → s.captured f ≠ t.captured f) : Owes t s' [] f where
  early hearly' := absurd hclient hearly'.1
  following _ := by
    rw [hcaptured, hemission, hunread]
    rcases h.early hearly with hsame | ⟨line, hline, hwritten⟩
    · have hidle : (s.emission f).pending = [] := by
        by_contra hpending
        exact hguard hpending hsame
      rw [hidle, hsame]
      simp [linesOf]
    · rw [hwritten]
      exact hline
  ended hended := by
    rw [hclient] at hended
    cases hended

/-- The client receives the oldest line on the channel. -/
theorem receive {o : OutputLine} (h : Owes t s os f) (hfollowing : s.client = .following)
    (hclient : s'.client = s.client) (hcaptured : s'.captured f = s.captured f)
    (hemission : s'.emission f = s.emission f) (hunread : s.unread = o :: s'.unread) :
    Owes t s' (os ++ [o]) f where
  early hearly := absurd (hclient.trans hfollowing) hearly.1
  following _ := by
    have hlines := h.following hfollowing
    rw [hunread, ← List.singleton_append, linesOf_append] at hlines
    rw [hcaptured, hemission, linesOf_append, List.append_assoc (linesOf f os)]
    exact hlines
  ended hended := by
    rw [hclient, hfollowing] at hended
    cases hended

/-- The client stops. -/
theorem ends (h : Owes t s os f) (hclient : s'.client = .ended)
    (hcaptured : s'.captured f = s.captured f)
    (hbefore : s.client.Early ∧ os = [] ∨ s.client = .following) : Owes t s' os f where
  early hearly := absurd hclient hearly.2
  following hfollowing := by
    rw [hclient] at hfollowing
    cases hfollowing
  ended _ := by
    rw [hcaptured]
    rcases hbefore with ⟨hearly, rfl⟩ | hfollowing
    · rcases h.early hearly with hsame | ⟨line, hline, -⟩
      · exact ⟨[], by simpa [linesOf] using hsame⟩
      · exact ⟨[line], hline⟩
    · refine ⟨linesOf f s.unread ++ (s.emission f).pending, ?_⟩
      rw [← List.append_assoc (linesOf f os)]
      exact h.following hfollowing

end Owes

/-- The lines received, each log's with those that are on their way. -/
def LinesKept (args : LogsArgs) (t s : Tailing) : Prop :=
  ∃ os : List OutputLine, s.events = os.map .recv ∧ ∀ f, args.replays f → Owes t s os f

theorem LinesKept.refl (hearly : t.client.Early) (hevents : t.events = []) : LinesKept args t t :=
  ⟨[], hevents, fun _ _ =>
    ⟨fun _ => .inl rfl, fun h => absurd h hearly.1, fun h => absurd h hearly.2⟩⟩

/-- The client reads on. -/
theorem LinesKept.of_early (h : LinesKept args t s) (hearly : s.client.Early)
    (hearly' : s'.client.Early) (hevents : s'.events = s.events)
    (hcaptured : s'.captured = s.captured) (hemission : s'.emission = s.emission) :
    LinesKept args t s' := by
  obtain ⟨os, hos, howes⟩ := h
  exact ⟨os, hevents.trans hos, fun f hf =>
    (howes f hf).of_early hearly hearly' (congrFun hcaptured f) (congrFun hemission f)⟩

/-- **A step after the moment.** -/
theorem LinesKept.step {c : Log → Option Content} (h : LinesKept args t s)
    (hreplayed : Replayed args c s) (hstep : TailingStep args capacity s e s')
    (hafter : e.After args capacity t s) : LinesKept args t s' := by
  obtain ⟨os, hevents, howes⟩ := id h
  cases hstep with
  | create | away => exact ⟨os, hevents, fun f hf => (howes f hf).congr rfl rfl rfl rfl⟩
  | @start g _ hidle =>
    have hbefore : (s.emission g).pending = [] := by rw [hidle, Emission.pending_idle]
    exact ⟨os, hevents, fun f hf => (howes f hf).setEmission rfl hbefore⟩
  | @store g line rest inode k hwriting =>
    have hbefore : (s.emission g).pending = [] := by rw [hwriting, Emission.pending_writing]
    refine ⟨os, ?_, fun f hf => ?_⟩
    · rw [Tailing.store]
      split <;> exact hevents
    · have hdisk (disk : Disk) : Owes t { s with disk } os f := (howes f hf).congr rfl rfl rfl rfl
      rw [Tailing.store]
      split
      · exact (hdisk _).capture hbefore
      · exact (hdisk _).setEmission rfl hbefore
  | @fail g line rest hwriting =>
    have hbefore : (s.emission g).pending = [] := by rw [hwriting, Emission.pending_writing]
    exact ⟨os, hevents, fun f hf => (howes f hf).capture hbefore⟩
  | @send g line hwritten =>
    refine ⟨os, by rw [Tailing.push_eq]; exact hevents, fun f hf => (howes f hf).send hwritten ?_⟩
    rintro rfl
    exact hafter hf
  | @announce o =>
    refine ⟨os, by rw [Tailing.push_eq]; exact hevents, fun f hf => ?_⟩
    rw [Tailing.push_eq]
    refine (howes f hf).congr rfl rfl rfl ?_
    dsimp only
    split
    · rename_i hfollowing
      have hother : o.log ≠ f := by
        rintro rfl
        exact absurd hf (by simp [hafter hfollowing])
      rw [linesOf_append, linesOf_of_ne hother, List.append_nil]
    · rfl
  | listFails | aborts | readFails => exact hafter.elim
  | list hclient | noTail hclient | readSome hclient | print hclient =>
    refine h.of_early ?_ ?_ rfl rfl rfl
    · simp [hclient, Client.Early]
    · simp [Tailing.print, Client.Early]
  | openFile hclient =>
    have hearly : s.client.Early := by simp [hclient, Client.Early]
    rw [Tailing.openFile]
    split <;> exact h.of_early hearly (by simp [Client.Early]) rfl rfl rfl
  | endOfFile hclient =>
    have hearly : s.client.Early := by simp [hclient, Client.Early]
    have htext := hafter _ (by rw [hclient]; rfl)
    obtain ⟨ls, hls⟩ := Option.isSome_iff_exists.mp htext
    rw [Tailing.endOfFile, hls]
    exact h.of_early hearly (by simp [Client.Early]) rfl rfl rfl
  | subscribe hclient =>
    have hearly : s.client.Early := by simp [hclient, Client.Early]
    have hnone : os = [] := List.map_eq_nil_iff.mp (hevents.symm.trans (hreplayed.silent hearly))
    subst hnone
    exact ⟨[], hevents, fun f hf => (howes f hf).subscribe hearly rfl rfl rfl rfl (hafter f hf)⟩
  | @turn r unread hclient hrecv =>
    obtain ⟨o, hunread, rfl⟩ := Broadcast.eq_cons_of_recv hafter hrecv
    exact ⟨os ++ [o], by rw [hevents, List.map_append]; rfl,
      fun f hf => (howes f hf).receive hclient rfl rfl rfl hunread⟩
  | ends hclient =>
    refine ⟨os, hevents, fun f hf => (howes f hf).ends rfl rfl ?_⟩
    rcases hclient with hrequesting | hfollowing
    · have hearly : s.client.Early := by simp [hrequesting, Client.Early]
      exact .inl ⟨hearly, List.map_eq_nil_iff.mp (hevents.symm.trans (hreplayed.silent hearly))⟩
    · exact .inr hfollowing

/-! ## What is printed -/

theorem received_map_recv : ∀ os : List OutputLine, FollowEvent.received (os.map .recv) = os
  | [] => rfl
  | o :: os => congrArg (o :: ·) (received_map_recv os)

/-- What is printed of the live output are the lines wanted. -/
theorem printed_eq (hlimit : args.lines ≠ some 0) (s : Tailing) : s.printed args =
    s.replayed.getD [] ++
      (args.request.wanted s.events).map fun o => args.println o.process o.line := by
  have hwanted : allowed args.request 0 (args.request.selected s.events) =
      args.request.wanted s.events := allowed_eq_wanted fun hzero => absurd hzero hlimit
  rw [Tailing.printed, ← streamLoopUntil_none, streamLoopUntil_eq (by simp), uninterrupted,
    Option.elim_none, hwanted, List.filterMap_map]
  exact congrArg _ (congrFun List.filterMap_eq_map _)

theorem since_eq {lines : List String} (h : u.captured f = t.captured f ++ lines) :
    t.since u f = lines := by
  rw [Tailing.since, h, List.drop_left]

/-- **The lines wanted are the live lines.** -/
theorem LinesKept.followsOn (h : LinesKept args t u)
    (hsame : ∀ o, args.request.selects o = args.replays o.log)
    (hsilent : u.client.Early → u.events = []) :
    FollowsOn args t u (args.request.wanted u.events) := by
  obtain ⟨os, hevents, howes⟩ := h
  have hselected : args.request.selected u.events = os.filter fun o => args.replays o.log := by
    rw [FollowRequest.selected, hevents, received_map_recv]
    exact List.filter_congr fun o _ => hsame o
  have hwanted : args.request.wanted u.events <+: os.filter fun o => args.replays o.log := by
    rw [FollowRequest.wanted, hselected]
    cases args.request.maxLines with
    | none => exact List.prefix_refl _
    | some n => exact List.take_prefix n _
  have hlines (f : Log) (hf : args.replays f) :
      linesOf f (os.filter fun o => args.replays o.log) = linesOf f os := by
    rw [linesOf, List.filter_filter]
    refine congrArg (List.map _) (List.filter_congr fun o _ => ?_)
    by_cases ho : o.log = f
    · simp [ho, hf]
    · simp [ho]
  have honce (f : Log) (hf : args.replays f) :
      linesOf f (args.request.wanted u.events) <+: linesOf f os :=
    hlines f hf ▸ (hwanted.filter _).map _
  refine ⟨fun o ho => ?_, fun f hf => (honce f hf).trans ?_, fun n hn => ?_, ?_⟩
  · exact of_decide_eq_true (by simpa using (List.mem_filter.mp (hwanted.subset ho)).2)
  · cases hclient : u.client with
    | following =>
      rw [since_eq ((howes f hf).following hclient), List.append_assoc]
      exact List.prefix_append _ _
    | ended =>
      obtain ⟨rest, hrest⟩ := (howes f hf).ended hclient
      rw [since_eq hrest]
      exact List.prefix_append _ _
    | _ =>
      have hnone : os = [] := List.map_eq_nil_iff.mp
        (hevents.symm.trans (hsilent (by simp [hclient, Client.Early])))
      rw [hnone]
      exact List.nil_prefix
  · have hmax : args.request.maxLines = some n := hn
    rw [FollowRequest.wanted, hmax]
    exact List.length_take_le n _
  · intro hclient hroom f hf
    have hall : args.request.wanted u.events = os.filter fun o => args.replays o.log := by
      rw [FollowRequest.wanted, hselected]
      cases hmax : args.request.maxLines with
      | none => rfl
      | some n =>
        have hlt := hroom n hmax
        rw [FollowRequest.wanted, hselected, hmax, Option.elim_some, List.length_take] at hlt
        exact List.take_of_length_le (by omega)
    rw [since_eq ((howes f hf).following hclient), hall, hlines f hf]

/-- A name that does not end like a file is the name of its files. -/
theorem procName_eq (h : ¬('.' :: f.stream.extension) <:+ f.process.toList) :
    f.procName = f.process := by
  have hpath : f.path = f.process.toList ++ '.' :: f.stream.extension := rfl
  have htrim : trimEndMatches ('.' :: f.stream.extension) f.path = f.process.toList := by
    rw [hpath, trimEndMatches_append (List.cons_ne_nil _ _), trimEndMatches,
      if_neg fun hno => h hno.2]
  rw [Log.procName, htrim, String.ofList_toList]

/-- What the client reads of a file is its last lines. -/
theorem tailOf_eq_lastLines (htail : args.tail ≠ 0)
    (hname : args.showPrefix → f.procName = f.process) :
    args.tailOf (t.disk.read ∘ Log.path) f = t.lastLines args f := by
  have hprint : args.println f.procName = args.println f.process := by
    funext line
    rw [LogsArgs.println, LogsArgs.println]
    split_ifs with hall
    · rw [hname hall]
    · rfl
  rw [LogsArgs.tailOf, Tailing.lastLines, tailFile, if_neg htail, hprint]
  rfl

/-- **No gap and no line twice**: a run whose steps before a moment and after it meet the condition
prints the end of each file as of the moment, and then what is captured after it. -/
theorem tailThenFollow_of_moment {s₀ : Tailing} {us vs : List (Transition Tailing TailingEvent)}
    (htail : args.tail ≠ 0) (hlimit : args.lines ≠ some 0)
    (hstreams : args.target.isSome = true ∨ args.stderr = true)
    (hinit : (tailing args capacity).init s₀)
    (hus : (tailing args capacity).Run s₀ us t) (hvs : (tailing args capacity).Run t vs u)
    (hbefore : ∀ τ ∈ us, τ.ev.Before args τ.src) (hcut : Cut args t)
    (hafter : ∀ τ ∈ vs, τ.ev.After args capacity t τ.src) : TailThenFollow args t u := by
  obtain ⟨hstarting, hreplayed₀, -, hevents₀⟩ := hinit
  have hreads : ReadsCurrent args t := by
    refine hus.preserves ⟨.starting hstarting hreplayed₀ hevents₀, fun f inode buf hreading => ?_⟩
      fun τ hτ hsrc hmove => hsrc.step htail hmove (hbefore τ hτ)
    rw [hstarting] at hreading
    exact nomatch hreading
  have hafter : Replayed args (t.disk.read ∘ Log.path) u ∧ LinesKept args t u := by
    refine hvs.preserves (P := fun s => Replayed args (t.disk.read ∘ Log.path) s ∧
      LinesKept args t s) ⟨hreads.replayed, .refl hcut.early (hreads.replayed.silent hcut.early)⟩ ?_
    intro τ hτ hsrc hmove
    exact ⟨hsrc.1.step_after htail hmove (hafter τ hτ), hsrc.2.step hsrc.1 hmove (hafter τ hτ)⟩
  obtain ⟨hreplayed, hkept⟩ := hafter
  have hsame := selects_eq_replays_iff.mpr hstreams
  refine ⟨hsame, hcut.whole, fun hnone => ?_, fun hsome => ?_⟩
  · have hearly : u.client.Early := by
      by_contra hlate
      have hsome := hreplayed.replayed.mpr (.inr hlate)
      rw [hnone] at hsome
      exact Bool.noConfusion hsome
    refine ⟨?_, hearly.2⟩
    rw [Tailing.printed, hnone, hreplayed.silent hearly]
    rfl
  · have hlate := hreplayed.replayed.mp hsome
    have hdone : u.client ≠ .starting ∧ u.client.left = [] ∧ u.gathered = u.replayed.getD [] := by
      cases hclient : u.client with
      | starting | replaying => exact absurd hlate (by simp [hclient, Client.Early])
      | _ => simp [Client.left, Tailing.gathered, hclient]
    obtain ⟨files, hnodup, hfiles, hgathered⟩ := hreplayed.gathered
    have hfiles' (f : Log) : f ∈ files ↔ args.replays f ∧ (t.disk.dir f.path).isSome := by
      rw [hfiles, Function.comp_apply, FileSystem.read, Option.isSome_map]
      simp [Client.Over, hdone]
    refine ⟨files, args.request.wanted u.events, hnodup, hfiles', ?_,
      hkept.followsOn hsame hreplayed.silent⟩
    rw [printed_eq hlimit, ← hdone.2.2, hgathered]
    refine congrArg (· ++ _) (List.flatMap_congr fun f hf => ?_)
    obtain ⟨hf', hexists⟩ := (hfiles' f).mp hf
    exact tailOf_eq_lastLines htail fun hall => procName_eq (hcut.named hall f hf' hexists)

/-! ## A line between the replay and the subscription -/

namespace Overlooked

/-- `logs web --follow --tail 1` -/
def webArgs : LogsArgs := ⟨some "web", 1, false, false, none⟩

def web : Log := ⟨"web", .stdout⟩

/-- There is no log yet. -/
def idle : Tailing where
  disk := .empty (.text [])
  emission := fun _ => .idle
  captured := fun _ => []
  client := .starting
  replayed := none
  unread := []
  events := []

def listing (s : Tailing) : Tailing := { s with client := .replaying [web] none [] }

def missed : Tailing := (listing idle).openFile web [] []

/-- All there is has been printed. -/
def printed : Tailing := missed.print []

section Line

variable (line : String) (s : Tailing)

def created : Tailing := { s with disk := (s.disk.create web.path (.text [])).2 }

def begun : Tailing := s.setEmission web (.writing line (utf8 line ++ [NEWLINE]))

def stored : Tailing :=
  (begun line s).store web 0 line (utf8 line ++ [NEWLINE]) (utf8 line ++ [NEWLINE]).length

def sent : Tailing := ((stored line s).setEmission web .idle).push ⟨"web", .stdout, line⟩

/-- A line is stored and sent. -/
def oneLine : List (Transition Tailing TailingEvent) :=
  [⟨s, .start web line, begun line s⟩,
    ⟨begun line s, .store web (utf8 line ++ [NEWLINE]).length, stored line s⟩,
    ⟨stored line s, .send web, sent line s⟩]

/-- It is received. -/
def received : Tailing :=
  { s with unread := [], events := s.events ++ [.recv ⟨"web", .stdout, line⟩] }

end Line

/-- The client subscribes. -/
def subscribed (s : Tailing) : Tailing := { s with client := .following, unread := [] }

section Line

variable {line : String} {s : Tailing}

theorem stored_eq (line : String) (s : Tailing) : stored line s = ({ begun line s with
    disk := s.disk.modify 0 (Content.appendBytes (utf8 line ++ [NEWLINE])) } : Tailing).capture
      web line := by
  rw [stored, Tailing.store, if_pos le_rfl, List.take_length]
  rfl

theorem client_sent (line : String) (s : Tailing) : (sent line s).client = s.client := by
  rw [sent, stored_eq, Tailing.push_eq]
  rfl

theorem unread_sent (h : s.client = .following) :
    (sent line s).unread = s.unread ++ [⟨"web", .stdout, line⟩] := by
  have hclient : ((stored line s).setEmission web .idle).client = .following := by
    rw [stored_eq]
    exact h
  rw [sent, Tailing.push_eq, if_pos hclient, stored_eq]
  rfl

theorem captured_sent (line : String) (s : Tailing) :
    (sent line s).captured web = s.captured web ++ [line] := by
  rw [sent, stored_eq, Tailing.push_eq]
  exact Tailing.captured_capture web line _

theorem emission_sent (line : String) (s : Tailing) : (sent line s).emission web = .idle := by
  rw [sent, Tailing.push_eq]
  exact Tailing.emission_setEmission web .idle (stored line s)

theorem emission_sent_of_ne {f : Log} (h : f ≠ web) :
    (sent line s).emission f = s.emission f := by
  rw [sent, stored_eq, Tailing.push_eq]
  exact (Tailing.emission_setEmission_of_ne h _).trans
    ((Tailing.emission_capture_of_ne h).trans (Tailing.emission_setEmission_of_ne h _))

theorem disk_sent (line : String) (s : Tailing) : (sent line s).disk =
    s.disk.modify 0 (Content.appendBytes (utf8 line ++ [NEWLINE])) := by
  rw [sent, stored_eq, Tailing.push_eq]
  rfl

theorem printed_sent (line : String) (s : Tailing) :
    (sent line s).printed webArgs = s.printed webArgs := by
  rw [sent, stored_eq, Tailing.push_eq]
  rfl

theorem dir_created : (created idle).disk.dir web.path = some 0 := by decide

theorem run_line (hidle : s.emission web = .idle) (hdir : s.disk.dir web.path = some 0) :
    (tailing webArgs 1024).Run s (oneLine line s) (sent line s) := by
  have hstart : TailingStep webArgs 1024 s (.start web line) (begun line s) := .start hidle
  have hwriting : (begun line s).emission web = .writing line (utf8 line ++ [NEWLINE]) := by
    rw [begun, Tailing.emission_setEmission]
  have hstore : TailingStep webArgs 1024 (begun line s)
      (.store web (utf8 line ++ [NEWLINE]).length) (stored line s) :=
    .store hwriting hdir (by simp)
  have hwritten : (stored line s).emission web = .written line := by
    rw [stored_eq, Tailing.emission_capture]
  have hsend : TailingStep webArgs 1024 (stored line s) (.send web) (sent line s) := .send hwritten
  exact ((Machine.Run.refl.snoc hstart).snoc hstore).snoc hsend

end Line

/-- The transitions up to where all has been printed. -/
def replay : List (Transition Tailing TailingEvent) :=
  [⟨idle, .list [web], listing idle⟩, ⟨listing idle, .openFile, missed⟩, ⟨missed, .print, printed⟩]

theorem init_idle : (tailing webArgs 1024).init idle := ⟨rfl, rfl, rfl, rfl⟩

theorem step_list {s : Tailing} (h : s.client = .starting) :
    TailingStep webArgs 1024 s (.list [web]) (listing s) := .list h (by decide) rfl

theorem run_replay : (tailing webArgs 1024).Run idle replay printed := by
  have hlist : TailingStep webArgs 1024 idle (.list [web]) (listing idle) := step_list rfl
  have hopen : TailingStep webArgs 1024 (listing idle) .openFile missed := .openFile rfl
  have hprint : TailingStep webArgs 1024 missed .print printed := .print rfl
  exact ((Machine.Run.refl.snoc hlist).snoc hopen).snoc hprint

/-- The log is created, and a line stored and sent. -/
def output : List (Transition Tailing TailingEvent) :=
  ⟨printed, .create web, created printed⟩ :: oneLine "b" (created printed)

theorem run_output : (tailing webArgs 1024).Run printed output (sent "b" (created printed)) := by
  have hcreate : TailingStep webArgs 1024 printed (.create web) (created printed) := .create
  exact (Machine.Run.refl.snoc hcreate).append (run_line rfl dir_created)

/-- In each state either the line has not been captured, or it is the last of the file. -/
theorem uncaptured_or_stored {t : Tailing} {ts us : List (Transition Tailing TailingEvent)}
    (hrun : (tailing webArgs 1024).Run idle ts t)
    (hts : replay ++ output ++ [⟨sent "b" (created printed), .subscribe,
      subscribed (sent "b" (created printed))⟩] = ts ++ us) :
    t.captured web = [] ∨
      (t.disk.dir web.path).isSome = true ∧ t.lastLines webArgs web = ["b"] := by
  have hstored : ∀ s : Tailing, s.disk = (stored "b" (created printed)).disk →
      (s.disk.dir web.path).isSome = true ∧ s.lastLines webArgs web = ["b"] := by
    intro s hs
    rw [Tailing.lastLines, hs, stored_eq]
    exact ⟨by decide +kernel, by decide +kernel⟩
  have hsent : (sent "b" (created printed)).disk = (stored "b" (created printed)).disk := by
    rw [disk_sent, stored_eq]
    rfl
  rcases hrun.eq_or_exists_dst with rfl | ⟨τ, hτ, rfl⟩
  · exact .inl rfl
  have hmem := hts ▸ List.mem_append_left us hτ
  simp only [replay, output, oneLine, List.mem_append, List.mem_cons, List.not_mem_nil,
    or_false] at hmem
  rcases hmem with ((rfl | rfl | rfl) | rfl | rfl | rfl | rfl) | rfl
  · exact .inl rfl
  · exact .inl rfl
  · exact .inl rfl
  · exact .inl rfl
  · exact .inl rfl
  · exact .inr (hstored _ rfl)
  · exact .inr (hstored _ hsent)
  · exact .inr (hstored _ hsent)

theorem step_subscribe {s : Tailing} (h : s.client = .requesting) :
    TailingStep webArgs 1024 s .subscribe (subscribed s) := .subscribe h

end Overlooked

/-! ## Two lines before it, and one after the subscription -/

namespace Contiguous

open Overlooked

def written : Tailing := sent "b" (sent "a" (created idle))

/-- What is in the log. -/
def bytes : List UInt8 := utf8 "a" ++ [NEWLINE] ++ (utf8 "b" ++ [NEWLINE])

def opened : Tailing := { written with client := .replaying [] (some (web, 0, [])) [] }

def read : Tailing := { written with client := .replaying [] (some (web, 0, bytes)) [] }

def closed : Tailing := { written with client := .replaying [] none ["b"] }

/-- The last line has been printed. -/
def printed : Tailing := closed.print ["b"]

def output : List (Transition Tailing TailingEvent) :=
  [⟨idle, .create web, created idle⟩] ++ oneLine "a" (created idle) ++
    oneLine "b" (sent "a" (created idle))

def replay : List (Transition Tailing TailingEvent) :=
  [⟨written, .list [web], listing written⟩, ⟨listing written, .openFile, opened⟩,
    ⟨opened, .readSome 4, read⟩, ⟨read, .endOfFile, closed⟩, ⟨closed, .print, printed⟩]

/-- The third line has been printed too. -/
def followed : Tailing := received "c" (sent "c" (subscribed printed))

def after : List (Transition Tailing TailingEvent) :=
  [⟨printed, .subscribe, subscribed printed⟩] ++ oneLine "c" (subscribed printed) ++
    [⟨sent "c" (subscribed printed), .turn, followed⟩]

theorem dir_written : written.disk.dir web.path = some 0 := by
  rw [written, disk_sent, disk_sent]
  exact dir_created

theorem data_written : (written.disk.data 0).bytes = bytes := by
  rw [written, disk_sent, disk_sent]
  decide +kernel

theorem client_written : written.client = .starting := by
  rw [written, client_sent, client_sent]
  rfl

theorem run_output : (tailing webArgs 1024).Run idle output written := by
  have hcreate : TailingStep webArgs 1024 idle (.create web) (created idle) := .create
  have hdir : (sent "a" (created idle)).disk.dir web.path = some 0 := by
    rw [disk_sent]
    exact dir_created
  exact ((Machine.Run.refl.snoc hcreate).append (run_line rfl dir_created)).append
    (run_line (emission_sent "a" _) hdir)

theorem run_replay : (tailing webArgs 1024).Run written replay printed := by
  have hopen : TailingStep webArgs 1024 (listing written) .openFile opened := by
    have hopened : (listing written).openFile web [] [] = opened := by
      have hdir : (listing written).disk.dir web.path = some 0 := dir_written
      rw [Tailing.openFile, hdir]
      rfl
    exact hopened ▸ .openFile rfl
  have hread : TailingStep webArgs 1024 opened (.readSome 4) read := by
    have hall :
        [] ++ ((opened.disk.data 0).bytes.drop ([] : List UInt8).length).take 4 = bytes := by
      rw [show opened.disk = written.disk from rfl, data_written]
      decide +kernel
    have hstep : TailingStep webArgs 1024 opened (.readSome 4) _ := .readSome rfl
    rw [hall] at hstep
    exact hstep
  have hend : TailingStep webArgs 1024 read .endOfFile closed := by
    have hclosed : read.endOfFile webArgs web bytes [] [] = closed := by
      have htail : tailLines webArgs.tail bytes = some ["b"] := by decide +kernel
      rw [Tailing.endOfFile, htail]
      rfl
    have hlength : (read.disk.data 0).bytes.length ≤ bytes.length :=
      (congrArg List.length data_written).le
    exact hclosed ▸ .endOfFile rfl hlength
  have hprint : TailingStep webArgs 1024 closed .print printed := .print rfl
  have hlist := step_list client_written
  exact ((((Machine.Run.refl.snoc hlist).snoc hopen).snoc hread).snoc hend).snoc hprint

theorem unread_after : (sent "c" (subscribed printed)).unread = [⟨"web", .stdout, "c"⟩] :=
  unread_sent rfl

theorem run_after : (tailing webArgs 1024).Run printed after followed := by
  have hturn : TailingStep webArgs 1024 (sent "c" (subscribed printed)) .turn followed := by
    refine .turn (r := .message ⟨"web", .stdout, "c"⟩) (client_sent _ _) ?_
    rw [unread_after]
    decide
  have hidle : (subscribed printed).emission web = .idle :=
    emission_sent "b" (sent "a" (created idle))
  have hsubscribe : TailingStep webArgs 1024 printed .subscribe (subscribed printed) :=
    step_subscribe rfl
  exact ((Machine.Run.refl.snoc hsubscribe).append (run_line hidle dir_written)).snoc hturn

/-- The client is through with no log while there is output. -/
theorem before_output {τ : Transition Tailing TailingEvent} {line : String} {s : Tailing}
    (hclient : s.client = .starting) (hτ : τ ∈ oneLine line s) : τ.ev.Before webArgs τ.src := by
  simp only [oneLine, List.mem_cons, List.not_mem_nil, or_false] at hτ
  rcases hτ with rfl | rfl | rfl
  · trivial
  · change webArgs.replays web = true → ¬s.client.Over web
    exact fun _ hover => hover.1 hclient
  · trivial

theorem before_replay {τ : Transition Tailing TailingEvent} (hτ : τ ∈ replay) :
    τ.ev.Before webArgs τ.src := by
  simp only [replay, List.mem_cons, List.not_mem_nil, or_false] at hτ
  rcases hτ with rfl | rfl | rfl | rfl | rfl
  · trivial
  · trivial
  · trivial
  · intro x hx
    obtain rfl := Option.some.inj hx
    decide +kernel
  · trivial

theorem idle_written (f : Log) : written.emission f = .idle := by
  by_cases hf : f = web
  · rw [hf]
    exact emission_sent "b" _
  · rw [written, emission_sent_of_ne hf, emission_sent_of_ne hf]
    rfl

theorem printed_followed : followed.printed webArgs = ["b", "c"] := by
  have hreplayed : followed.replayed = some ["b"] := by
    change (sent "c" (subscribed printed)).replayed = _
    rw [sent, stored_eq, Tailing.push_eq]
    rfl
  have hevents : followed.events = [.recv ⟨"web", .stdout, "c"⟩] := by
    change (sent "c" (subscribed printed)).events ++ _ = _
    rw [sent, stored_eq, Tailing.push_eq]
    rfl
  rw [Tailing.printed, hreplayed, hevents]
  decide

end Contiguous

/-- The last line of the file is printed, and then the line captured after the subscription. -/
theorem tailThenFollow_of_moment_web :
    TailThenFollow Overlooked.webArgs Contiguous.printed Contiguous.followed ∧
      Contiguous.followed.printed Overlooked.webArgs = ["b", "c"] := by
  have hbefore : ∀ τ ∈ Contiguous.output ++ Contiguous.replay,
      τ.ev.Before Overlooked.webArgs τ.src := by
    intro τ hτ
    simp only [Contiguous.output, List.mem_append, List.mem_singleton] at hτ
    rcases hτ with ((rfl | hline) | hline) | hreplay
    · exact fun _ => trivial
    · exact Contiguous.before_output rfl hline
    · exact Contiguous.before_output (Overlooked.client_sent _ _) hline
    · exact Contiguous.before_replay hreplay
  have hafter : ∀ τ ∈ Contiguous.after,
      τ.ev.After Overlooked.webArgs 1024 Contiguous.printed τ.src := by
    intro τ hτ
    simp only [Contiguous.after, Overlooked.oneLine, List.mem_append, List.mem_cons,
      List.not_mem_nil, or_false] at hτ
    rcases hτ with (rfl | rfl | rfl | rfl) | rfl
    · intro f _ hpending
      rw [show Contiguous.printed.emission f = .idle from Contiguous.idle_written f] at hpending
      exact absurd rfl hpending
    · trivial
    · exact fun _ => .inl ⟨nofun, List.not_mem_nil⟩
    · intro _ hearly
      rw [Overlooked.stored_eq] at hearly
      exact absurd rfl hearly.1
    · change (Overlooked.sent "c" (Overlooked.subscribed Contiguous.printed)).unread.length ≤ 1024
      rw [Contiguous.unread_after]
      decide
  have hcut : Cut Overlooked.webArgs Contiguous.printed :=
    ⟨⟨nofun, nofun⟩, fun f _ htorn => by
      rw [show Contiguous.printed.emission f = .idle from Contiguous.idle_written f] at htorn
      exact htorn, nofun⟩
  refine ⟨tailThenFollow_of_moment (by decide) (by decide) (.inl rfl) Overlooked.init_idle
    (Contiguous.run_output.append Contiguous.run_replay) Contiguous.run_after hbefore hcut hafter,
    Contiguous.printed_followed⟩

/-- What `logs --follow --tail n` promises: some moment of the run is the one that what is printed
stands for. -/
def NoGap : Prop :=
  ∀ args capacity s₀ ts u, args.tail ≠ 0 → (tailing args capacity).init s₀ →
    (tailing args capacity).Run s₀ ts u → ∃ us t vs, ts = us ++ vs ∧
      (tailing args capacity).Run s₀ us t ∧ (tailing args capacity).Run t vs u ∧
      TailThenFollow args t u

/-- **A line sent between the replay and the subscription is not printed**, whichever moment is
meant. -/
theorem not_noGap : ¬NoGap := by
  intro h
  let u := Overlooked.subscribed (Overlooked.sent "b" (Overlooked.created Overlooked.printed))
  have hrequesting :
      (Overlooked.sent "b" (Overlooked.created Overlooked.printed)).client = .requesting :=
    Overlooked.client_sent _ _
  have hrun : (tailing Overlooked.webArgs 1024).Run Overlooked.idle _ u :=
    (Overlooked.run_replay.append Overlooked.run_output).snoc
      (Overlooked.step_subscribe hrequesting)
  obtain ⟨us, t, vs, hts, hus, -, hfollow⟩ := h _ _ _ _ _ (by decide) Overlooked.init_idle hrun
  have hreplayed : u.replayed.isSome = true := by
    have hsame :
        u.replayed = (Overlooked.sent "b" (Overlooked.created Overlooked.printed)).replayed := rfl
    rw [hsame, Overlooked.sent, Overlooked.stored_eq, Tailing.push_eq]
    rfl
  obtain ⟨files, live, -, hfiles, hprinted, hlive⟩ := hfollow.printed hreplayed
  have hnothing : u.printed Overlooked.webArgs = [] := Overlooked.printed_sent "b" _
  rw [hnothing] at hprinted
  obtain ⟨hfilesNil, hliveNil⟩ := List.append_eq_nil_iff.mp hprinted.symm
  obtain rfl : live = [] := List.map_eq_nil_iff.mp hliveNil
  have hcaptured : u.captured Overlooked.web = ["b"] :=
    Overlooked.captured_sent "b" (Overlooked.created Overlooked.printed)
  rcases Overlooked.uncaptured_or_stored hus hts with hnone | ⟨hsome, hlast⟩
  · have hsince := hlive.complete rfl (by simp [Overlooked.webArgs]) Overlooked.web (by decide)
    have hemission : u.emission Overlooked.web = .idle :=
      Overlooked.emission_sent "b" (Overlooked.created Overlooked.printed)
    rw [Tailing.since, hcaptured, hnone, hemission] at hsince
    exact List.cons_ne_nil _ _ hsince
  · have hmem := (hfiles Overlooked.web).mpr ⟨by decide, hsome⟩
    have hnil := List.flatMap_eq_nil_iff.mp hfilesNil Overlooked.web hmem
    rw [hlast] at hnil
    exact List.cons_ne_nil _ _ hnil

end AgentProcs
