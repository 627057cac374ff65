import AgentProcs.Protocol.Framing
import AgentProcs.Protocol.Wire

/-!
# Protocol/Compatibility — messages of another version

    {"type": "Rewind", …}                         read as `unknown`
    {"type": "Logs", "tail": 5, … }               no `lines`: none
    {"type": "Error", "code": 7, …}               a code of later: `general`
    {"state": "paused", …}                        a state of later: `unknown`

What is written is read back, and what another version leaves out or says in its own words does not
make a message unreadable.  A code has to be an `i32` to be read at all.
-/

namespace AgentProcs

open Format

/-! ## Records -/

namespace WatchConfig

/-- What a record is read as. -/
structure Holds (fields : Fields) (w : WatchConfig) : Prop where
  paths : fields.required "paths" string.list = some w.paths
  ignore : fields.defaulted "ignore" string.list.option none = some w.ignore

theorem ofFields_eq_some_iff {fields : Fields} {w : WatchConfig} :
    ofFields fields = some w ↔ w.Holds fields := by
  refine ⟨fun h => ?_, fun h => bind_of_eq_some h.paths (bind_of_eq_some h.ignore rfl)⟩
  obtain ⟨paths, hpaths, h⟩ := Option.bind_eq_some_iff.mp h
  obtain ⟨ignore, hignore, h⟩ := Option.bind_eq_some_iff.mp h
  obtain rfl := Option.some_inj.mp h
  exact ⟨hpaths, hignore⟩

/-- The fields marked with a default. -/
def DEFAULTED : List String := ["ignore"]

/-- A configuration without one of them. -/
def clear (key : String) (w : WatchConfig) : WatchConfig :=
  ⟨w.paths, if "ignore" = key then none else w.ignore⟩

theorem read_without {value : Json} {w : WatchConfig} {key : String} (hkey : key ∈ DEFAULTED)
    (h : format.read value = some w) : format.read (value.without key) = some (w.clear key) := by
  refine read_record_without (fun fields hfields => ?_) h
  have hholds := ofFields_eq_some_iff.mp hfields
  refine ofFields_eq_some_iff.mpr ⟨Fields.required_without ?_ hholds.paths,
    Fields.defaulted_without hholds.ignore⟩
  rintro rfl
  simp [DEFAULTED] at hkey

end WatchConfig

theorem ProcessState.ofName_eq_unknown {state : String}
    (h : ∀ s : ProcessState, s.name = state → s = .unknown) : ofName state = .unknown := by
  unfold ofName
  split
  · cases h .running rfl
  · cases h .exited rfl
  · cases h .failed rfl
  · rfl

namespace ProcessInfo

/-- What a record is read as. -/
structure Holds (fields : Fields) (i : ProcessInfo) : Prop where
  name : fields.required "name" string = some i.name
  id : fields.required "id" string = some i.id
  pid : fields.required "pid" u32 = some i.pid
  state : fields.required "state" ProcessState.format = some i.state
  exitCode : fields.optional "exit_code" i32 = some i.exitCode
  uptimeSecs : fields.optional "uptime_secs" u64 = some i.uptimeSecs
  command : fields.required "command" string = some i.command
  port : fields.defaulted "port" u16.option none = some i.port
  url : fields.defaulted "url" string.option none = some i.url
  restartCount : fields.defaulted "restart_count" u32.option none = some i.restartCount
  maxRestarts : fields.defaulted "max_restarts" u32.option none = some i.maxRestarts
  restartPolicy : fields.defaulted "restart_policy" string.option none = some i.restartPolicy
  watched : fields.defaulted "watched" Format.bool.option none = some i.watched

theorem ofFields_eq_some_iff {fields : Fields} {i : ProcessInfo} :
    ofFields fields = some i ↔ i.Holds fields := by
  refine ⟨fun h => ?_, fun h => ?_⟩
  · obtain ⟨name, hname, h⟩ := Option.bind_eq_some_iff.mp h
    obtain ⟨id, hid, h⟩ := Option.bind_eq_some_iff.mp h
    obtain ⟨pid, hpid, h⟩ := Option.bind_eq_some_iff.mp h
    obtain ⟨state, hstate, h⟩ := Option.bind_eq_some_iff.mp h
    obtain ⟨exitCode, hexitCode, h⟩ := Option.bind_eq_some_iff.mp h
    obtain ⟨uptimeSecs, huptimeSecs, h⟩ := Option.bind_eq_some_iff.mp h
    obtain ⟨command, hcommand, h⟩ := Option.bind_eq_some_iff.mp h
    obtain ⟨port, hport, h⟩ := Option.bind_eq_some_iff.mp h
    obtain ⟨url, hurl, h⟩ := Option.bind_eq_some_iff.mp h
    obtain ⟨restartCount, hrestartCount, h⟩ := Option.bind_eq_some_iff.mp h
    obtain ⟨maxRestarts, hmaxRestarts, h⟩ := Option.bind_eq_some_iff.mp h
    obtain ⟨restartPolicy, hrestartPolicy, h⟩ := Option.bind_eq_some_iff.mp h
    obtain ⟨watched, hwatched, h⟩ := Option.bind_eq_some_iff.mp h
    obtain rfl := Option.some_inj.mp h
    exact ⟨hname, hid, hpid, hstate, hexitCode, huptimeSecs, hcommand, hport, hurl, hrestartCount,
      hmaxRestarts, hrestartPolicy, hwatched⟩
  · exact bind_of_eq_some h.name <| bind_of_eq_some h.id <| bind_of_eq_some h.pid <|
      bind_of_eq_some h.state <| bind_of_eq_some h.exitCode <| bind_of_eq_some h.uptimeSecs <|
      bind_of_eq_some h.command <| bind_of_eq_some h.port <| bind_of_eq_some h.url <|
      bind_of_eq_some h.restartCount <| bind_of_eq_some h.maxRestarts <|
      bind_of_eq_some h.restartPolicy <| bind_of_eq_some h.watched rfl

/-- The fields marked with a default. -/
def DEFAULTED : List String :=
  ["port", "url", "restart_count", "max_restarts", "restart_policy", "watched"]

/-- A description without one of them. -/
def clear (key : String) (i : ProcessInfo) : ProcessInfo :=
  { i with
    port := if "port" = key then none else i.port
    url := if "url" = key then none else i.url
    restartCount := if "restart_count" = key then none else i.restartCount
    maxRestarts := if "max_restarts" = key then none else i.maxRestarts
    restartPolicy := if "restart_policy" = key then none else i.restartPolicy
    watched := if "watched" = key then none else i.watched }

theorem read_without {value : Json} {i : ProcessInfo} {key : String} (hkey : key ∈ DEFAULTED)
    (h : format.read value = some i) : format.read (value.without key) = some (i.clear key) := by
  have hne : ∀ k, k ∉ DEFAULTED → k ≠ key := fun k hk heq => hk (heq ▸ hkey)
  refine read_record_without (fun fields hfields => ?_) h
  have hholds := ofFields_eq_some_iff.mp hfields
  exact ofFields_eq_some_iff.mpr {
    name := Fields.required_without (hne _ (by simp [DEFAULTED])) hholds.name
    id := Fields.required_without (hne _ (by simp [DEFAULTED])) hholds.id
    pid := Fields.required_without (hne _ (by simp [DEFAULTED])) hholds.pid
    state := Fields.required_without (hne _ (by simp [DEFAULTED])) hholds.state
    exitCode := Fields.optional_without (hne _ (by simp [DEFAULTED])) hholds.exitCode
    uptimeSecs := Fields.optional_without (hne _ (by simp [DEFAULTED])) hholds.uptimeSecs
    command := Fields.required_without (hne _ (by simp [DEFAULTED])) hholds.command
    port := Fields.defaulted_without hholds.port
    url := Fields.defaulted_without hholds.url
    restartCount := Fields.defaulted_without hholds.restartCount
    maxRestarts := Fields.defaulted_without hholds.maxRestarts
    restartPolicy := Fields.defaulted_without hholds.restartPolicy
    watched := Fields.defaulted_without hholds.watched }

/-- **A state of another version** is unknown. -/
theorem read_modify_state {value : Json} {i : ProcessInfo} {state : String}
    (hstate : ∀ s : ProcessState, s.name = state → s = .unknown)
    (h : format.read value = some i) :
    format.read (value.modify "state" fun _ => .str state) = some { i with state := .unknown } := by
  refine read_record_modify (fun fields hfields => ?_) h
  have hholds := ofFields_eq_some_iff.mp hfields
  have hread : ProcessState.format.read (.str state) = some .unknown :=
    congrArg some (ProcessState.ofName_eq_unknown hstate)
  exact ofFields_eq_some_iff.mpr {
    name := (Fields.member_modify_of_ne (by simp) _).trans hholds.name
    id := (Fields.member_modify_of_ne (by simp) _).trans hholds.id
    pid := (Fields.member_modify_of_ne (by simp) _).trans hholds.pid
    state := Fields.member_modify_self (fun _ _ => hread) nofun hholds.state
    exitCode := (Fields.member_modify_of_ne (by simp) _).trans hholds.exitCode
    uptimeSecs := (Fields.member_modify_of_ne (by simp) _).trans hholds.uptimeSecs
    command := (Fields.member_modify_of_ne (by simp) _).trans hholds.command
    port := (Fields.member_modify_of_ne (by simp) _).trans hholds.port
    url := (Fields.member_modify_of_ne (by simp) _).trans hholds.url
    restartCount := (Fields.member_modify_of_ne (by simp) _).trans hholds.restartCount
    maxRestarts := (Fields.member_modify_of_ne (by simp) _).trans hholds.maxRestarts
    restartPolicy := (Fields.member_modify_of_ne (by simp) _).trans hholds.restartPolicy
    watched := (Fields.member_modify_of_ne (by simp) _).trans hholds.watched }

end ProcessInfo

/-! ## Requests -/

namespace Request

/-- What the fields of a variant are read as. -/
def Holds (fields : Fields) : Request → Prop
  | .run command name cwd env port policy watch =>
    fields.required "command" string = some command ∧
    fields.optional "name" string = some name ∧
    fields.optional "cwd" string = some cwd ∧
    fields.defaulted "env" string.dict.option none = some env ∧
    fields.defaulted "port" u16.option none = some port ∧
    fields.defaulted "restart" RestartPolicy.format.option none = some policy ∧
    fields.defaulted "watch" WatchConfig.format.option none = some watch
  | .stop target => fields.required "target" string = some target
  | .restart target => fields.required "target" string = some target
  | .logs target tail follow stderr all timeoutSecs lines =>
    fields.optional "target" string = some target ∧
    fields.required "tail" u64 = some tail ∧
    fields.required "follow" Format.bool = some follow ∧
    fields.required "stderr" Format.bool = some stderr ∧
    fields.required "all" Format.bool = some all ∧
    fields.optional "timeout_secs" u64 = some timeoutSecs ∧
    fields.defaulted "lines" u64.option none = some lines
  | .wait target untilPattern regex exit timeoutSecs =>
    fields.required "target" string = some target ∧
    fields.optional "until" string = some untilPattern ∧
    fields.required "regex" Format.bool = some regex ∧
    fields.required "exit" Format.bool = some exit ∧
    fields.optional "timeout_secs" u64 = some timeoutSecs
  | .enableProxy proxyPort =>
    fields.defaulted "proxy_port" u16.option none = some proxyPort
  | .hello version => fields.required "version" u32 = some version
  | .stopAll | .status | .shutdown | .unknown => True

/-- A tag that no variant has. -/
def UnknownTag (tag : String) : Prop := ∀ r : Request, r.name = tag → r = .unknown

/-- The variant a tag stands for. -/
def Named (tag : String) (r : Request) : Prop := r.name = tag ∨ r = .unknown ∧ UnknownTag tag

theorem ofFields_of_unknownTag {tag : String} (h : UnknownTag tag) (fields : Fields) :
    ofFields tag fields = some .unknown := by
  unfold ofFields
  split
  · cases h (.run "" none none none none none none) rfl
  · cases h (.stop "") rfl
  · cases h .stopAll rfl
  · cases h (.restart "") rfl
  · cases h .status rfl
  · cases h (.logs none 0 false false false none none) rfl
  · cases h (.wait "" none false false none) rfl
  · cases h .shutdown rfl
  · cases h (.enableProxy none) rfl
  · cases h (.hello 0) rfl
  · rfl

/-- **A variant is read** where its fields are. -/
theorem ofFields_name {fields : Fields} {r : Request} (h : r.Holds fields) :
    ofFields r.name fields = some r := by
  cases r with
  | run =>
    obtain ⟨hcommand, hname, hcwd, henv, hport, hpolicy, hwatch⟩ := h
    exact bind_of_eq_some hcommand <| bind_of_eq_some hname <| bind_of_eq_some hcwd <|
      bind_of_eq_some henv <| bind_of_eq_some hport <| bind_of_eq_some hpolicy <|
      bind_of_eq_some hwatch rfl
  | stop | restart | enableProxy | hello => exact bind_of_eq_some h rfl
  | logs =>
    obtain ⟨htarget, htail, hfollow, hstderr, hall, htimeout, hlines⟩ := h
    exact bind_of_eq_some htarget <| bind_of_eq_some htail <| bind_of_eq_some hfollow <|
      bind_of_eq_some hstderr <| bind_of_eq_some hall <| bind_of_eq_some htimeout <|
      bind_of_eq_some hlines rfl
  | wait =>
    obtain ⟨htarget, huntil, hregex, hexit, htimeout⟩ := h
    exact bind_of_eq_some htarget <| bind_of_eq_some huntil <| bind_of_eq_some hregex <|
      bind_of_eq_some hexit <| bind_of_eq_some htimeout rfl
  | stopAll | status | shutdown | unknown => rfl

/-- **What is read** is the variant of the tag, and its fields. -/
theorem of_ofFields {tag : String} {fields : Fields} {r : Request}
    (h : ofFields tag fields = some r) : r.Named tag ∧ r.Holds fields := by
  unfold ofFields at h
  split at h
  · obtain ⟨command, hcommand, h⟩ := Option.bind_eq_some_iff.mp h
    obtain ⟨name, hname, h⟩ := Option.bind_eq_some_iff.mp h
    obtain ⟨cwd, hcwd, h⟩ := Option.bind_eq_some_iff.mp h
    obtain ⟨env, henv, h⟩ := Option.bind_eq_some_iff.mp h
    obtain ⟨port, hport, h⟩ := Option.bind_eq_some_iff.mp h
    obtain ⟨policy, hpolicy, h⟩ := Option.bind_eq_some_iff.mp h
    obtain ⟨watch, hwatch, h⟩ := Option.bind_eq_some_iff.mp h
    obtain rfl := Option.some_inj.mp h
    exact ⟨.inl rfl, hcommand, hname, hcwd, henv, hport, hpolicy, hwatch⟩
  · obtain ⟨target, htarget, h⟩ := Option.bind_eq_some_iff.mp h
    obtain rfl := Option.some_inj.mp h
    exact ⟨.inl rfl, htarget⟩
  · obtain rfl := Option.some_inj.mp h
    exact ⟨.inl rfl, trivial⟩
  · obtain ⟨target, htarget, h⟩ := Option.bind_eq_some_iff.mp h
    obtain rfl := Option.some_inj.mp h
    exact ⟨.inl rfl, htarget⟩
  · obtain rfl := Option.some_inj.mp h
    exact ⟨.inl rfl, trivial⟩
  · obtain ⟨target, htarget, h⟩ := Option.bind_eq_some_iff.mp h
    obtain ⟨tail, htail, h⟩ := Option.bind_eq_some_iff.mp h
    obtain ⟨follow, hfollow, h⟩ := Option.bind_eq_some_iff.mp h
    obtain ⟨stderr, hstderr, h⟩ := Option.bind_eq_some_iff.mp h
    obtain ⟨all, hall, h⟩ := Option.bind_eq_some_iff.mp h
    obtain ⟨timeoutSecs, htimeout, h⟩ := Option.bind_eq_some_iff.mp h
    obtain ⟨lines, hlines, h⟩ := Option.bind_eq_some_iff.mp h
    obtain rfl := Option.some_inj.mp h
    exact ⟨.inl rfl, htarget, htail, hfollow, hstderr, hall, htimeout, hlines⟩
  · obtain ⟨target, htarget, h⟩ := Option.bind_eq_some_iff.mp h
    obtain ⟨untilPattern, huntil, h⟩ := Option.bind_eq_some_iff.mp h
    obtain ⟨regex, hregex, h⟩ := Option.bind_eq_some_iff.mp h
    obtain ⟨exit, hexit, h⟩ := Option.bind_eq_some_iff.mp h
    obtain ⟨timeoutSecs, htimeout, h⟩ := Option.bind_eq_some_iff.mp h
    obtain rfl := Option.some_inj.mp h
    exact ⟨.inl rfl, htarget, huntil, hregex, hexit, htimeout⟩
  · obtain rfl := Option.some_inj.mp h
    exact ⟨.inl rfl, trivial⟩
  · obtain ⟨proxyPort, hport, h⟩ := Option.bind_eq_some_iff.mp h
    obtain rfl := Option.some_inj.mp h
    exact ⟨.inl rfl, hport⟩
  · obtain ⟨version, hversion, h⟩ := Option.bind_eq_some_iff.mp h
    obtain rfl := Option.some_inj.mp h
    exact ⟨.inl rfl, hversion⟩
  next hrun hstop hstopAll hrestart hstatus hlogs hwait hshutdown henableProxy hhello =>
    obtain rfl := Option.some_inj.mp h
    refine ⟨.inr ⟨rfl, fun r hr => ?_⟩, trivial⟩
    cases r with
    | run => exact absurd hr.symm hrun
    | stop => exact absurd hr.symm hstop
    | stopAll => exact absurd hr.symm hstopAll
    | restart => exact absurd hr.symm hrestart
    | status => exact absurd hr.symm hstatus
    | logs => exact absurd hr.symm hlogs
    | wait => exact absurd hr.symm hwait
    | shutdown => exact absurd hr.symm hshutdown
    | enableProxy => exact absurd hr.symm henableProxy
    | hello => exact absurd hr.symm hhello
    | unknown => rfl

theorem ofFields_eq_some_iff {tag : String} {fields : Fields} {r : Request} :
    ofFields tag fields = some r ↔ r.Named tag ∧ r.Holds fields := by
  refine ⟨of_ofFields, ?_⟩
  rintro ⟨rfl | ⟨rfl, htag⟩, h⟩
  · exact ofFields_name h
  · exact ofFields_of_unknownTag htag fields

/-- A change that leaves each variant what it is. -/
theorem Named.change {tag : String} {r r' : Request} (h : r.Named tag) (hname : r'.name = r.name) :
    r'.Named tag := by
  obtain rfl | ⟨rfl, htag⟩ := h
  · exact .inl hname
  · refine .inr ⟨?_, htag⟩
    cases r' with
    | unknown => rfl
    | _ => simp [name] at hname

theorem ofFields_change {tag : String} {fields fields' : Fields} {r r' : Request}
    (h : ofFields tag fields = some r) (hname : r'.name = r.name)
    (hholds : r.Holds fields → r'.Holds fields') : ofFields tag fields' = some r' := by
  obtain ⟨hnamed, hbefore⟩ := ofFields_eq_some_iff.mp h
  exact ofFields_eq_some_iff.mpr ⟨hnamed.change hname, hholds hbefore⟩

/-- The fields marked with a default. -/
def DEFAULTED : List String := ["env", "port", "restart", "watch", "lines", "proxy_port"]

/-- A request without one of them. -/
def clear (key : String) : Request → Request
  | .run command name cwd env port policy watch => .run command name cwd
    (if "env" = key then none else env) (if "port" = key then none else port)
    (if "restart" = key then none else policy) (if "watch" = key then none else watch)
  | .logs target tail follow stderr all timeoutSecs lines =>
    .logs target tail follow stderr all timeoutSecs (if "lines" = key then none else lines)
  | .enableProxy proxyPort => .enableProxy (if "proxy_port" = key then none else proxyPort)
  | r => r

theorem holds_clear {fields : Fields} {r : Request} {key : String} (hkey : key ∈ DEFAULTED)
    (h : r.Holds fields) : (r.clear key).Holds (fields.without key) := by
  have hne : ∀ k, k ∉ DEFAULTED → k ≠ key := fun k hk heq => hk (heq ▸ hkey)
  cases r with
  | run =>
    obtain ⟨hcommand, hname, hcwd, henv, hport, hpolicy, hwatch⟩ := h
    exact ⟨Fields.required_without (hne _ (by simp [DEFAULTED])) hcommand,
      Fields.optional_without (hne _ (by simp [DEFAULTED])) hname,
      Fields.optional_without (hne _ (by simp [DEFAULTED])) hcwd,
      Fields.defaulted_without henv, Fields.defaulted_without hport,
      Fields.defaulted_without hpolicy, Fields.defaulted_without hwatch⟩
  | logs =>
    obtain ⟨htarget, htail, hfollow, hstderr, hall, htimeout, hlines⟩ := h
    exact ⟨Fields.optional_without (hne _ (by simp [DEFAULTED])) htarget,
      Fields.required_without (hne _ (by simp [DEFAULTED])) htail,
      Fields.required_without (hne _ (by simp [DEFAULTED])) hfollow,
      Fields.required_without (hne _ (by simp [DEFAULTED])) hstderr,
      Fields.required_without (hne _ (by simp [DEFAULTED])) hall,
      Fields.optional_without (hne _ (by simp [DEFAULTED])) htimeout,
      Fields.defaulted_without hlines⟩
  | wait =>
    obtain ⟨htarget, huntil, hregex, hexit, htimeout⟩ := h
    exact ⟨Fields.required_without (hne _ (by simp [DEFAULTED])) htarget,
      Fields.optional_without (hne _ (by simp [DEFAULTED])) huntil,
      Fields.required_without (hne _ (by simp [DEFAULTED])) hregex,
      Fields.required_without (hne _ (by simp [DEFAULTED])) hexit,
      Fields.optional_without (hne _ (by simp [DEFAULTED])) htimeout⟩
  | enableProxy => exact Fields.defaulted_without h
  | stop | restart | hello => exact Fields.required_without (hne _ (by simp [DEFAULTED])) h
  | stopAll | status | shutdown | unknown => trivial

/-- **A request without a field that has a default** is read as the request without it. -/
theorem read_without {message : Json} {r : Request} {key : String} (hkey : key ∈ DEFAULTED)
    (h : format.read message = some r) : format.read (message.without key) = some (r.clear key) := by
  have htype : key ≠ "type" := by
    rintro rfl
    simp [DEFAULTED] at hkey
  refine read_tagged_without htype (fun tag fields hfields => ?_) h
  exact ofFields_change hfields (by cases r <;> rfl) (holds_clear hkey)

/-- A request with another watch configuration. -/
def modifyWatch (g : WatchConfig → WatchConfig) : Request → Request
  | .run command name cwd env port policy watch =>
    .run command name cwd env port policy (watch.map g)
  | r => r

theorem holds_modifyWatch {fields : Fields} {r : Request} {g : Json → Json}
    {g' : WatchConfig → WatchConfig} (hg : ∀ value watch,
      WatchConfig.format.option.read value = some watch →
        WatchConfig.format.option.read (g value) = some (watch.map g'))
    (h : r.Holds fields) : (r.modifyWatch g').Holds (fields.modify "watch" g) := by
  cases r with
  | run =>
    obtain ⟨hcommand, hname, hcwd, henv, hport, hpolicy, hwatch⟩ := h
    refine ⟨(Fields.member_modify_of_ne (by simp) g).trans hcommand,
      (Fields.member_modify_of_ne (by simp) g).trans hname,
      (Fields.member_modify_of_ne (by simp) g).trans hcwd,
      (Fields.member_modify_of_ne (by simp) g).trans henv,
      (Fields.member_modify_of_ne (by simp) g).trans hport,
      (Fields.member_modify_of_ne (by simp) g).trans hpolicy,
      Fields.member_modify_self (fun value hvalue => hg value _ hvalue) (fun hnone => ?_) hwatch⟩
    obtain rfl := Option.some_inj.mp hnone
    rfl
  | logs =>
    obtain ⟨htarget, htail, hfollow, hstderr, hall, htimeout, hlines⟩ := h
    exact ⟨(Fields.member_modify_of_ne (by simp) g).trans htarget,
      (Fields.member_modify_of_ne (by simp) g).trans htail,
      (Fields.member_modify_of_ne (by simp) g).trans hfollow,
      (Fields.member_modify_of_ne (by simp) g).trans hstderr,
      (Fields.member_modify_of_ne (by simp) g).trans hall,
      (Fields.member_modify_of_ne (by simp) g).trans htimeout,
      (Fields.member_modify_of_ne (by simp) g).trans hlines⟩
  | wait =>
    obtain ⟨htarget, huntil, hregex, hexit, htimeout⟩ := h
    exact ⟨(Fields.member_modify_of_ne (by simp) g).trans htarget,
      (Fields.member_modify_of_ne (by simp) g).trans huntil,
      (Fields.member_modify_of_ne (by simp) g).trans hregex,
      (Fields.member_modify_of_ne (by simp) g).trans hexit,
      (Fields.member_modify_of_ne (by simp) g).trans htimeout⟩
  | enableProxy | stop | restart | hello => exact (Fields.member_modify_of_ne (by simp) g).trans h
  | stopAll | status | shutdown | unknown => trivial

/-- **A watch configuration without a field that has a default**, in a request. -/
theorem read_watch_without {message : Json} {r : Request} {key : String}
    (hkey : key ∈ WatchConfig.DEFAULTED) (h : format.read message = some r) :
    format.read (message.modify "watch" (·.without key)) =
      some (r.modifyWatch (·.clear key)) := by
  refine read_tagged_modify (by simp) (fun tag fields hfields => ?_) h
  refine ofFields_change hfields (by cases r <;> rfl)
    (holds_modifyWatch fun value watch hwatch => ?_)
  exact read_option_map Json.without_eq_null_iff
    (fun value watch hwatch => WatchConfig.read_without hkey hwatch) hwatch

end Request

/-! ## Responses -/

namespace Response

/-- What the fields of a variant are read as. -/
def Holds (fields : Fields) : Response → Prop
  | .ok message => fields.required "message" string = some message
  | .runOk name id pid port url =>
    fields.required "name" string = some name ∧
    fields.required "id" string = some id ∧
    fields.required "pid" u32 = some pid ∧
    fields.defaulted "port" u16.option none = some port ∧
    fields.defaulted "url" string.option none = some url
  | .status processes => fields.required "processes" ProcessInfo.format.list = some processes
  | .logLine process stream line =>
    fields.required "process" string = some process ∧
    fields.required "stream" Stream.format = some stream ∧
    fields.required "line" string = some line
  | .waitMatch line => fields.required "line" string = some line
  | .waitExited exitCode => fields.optional "exit_code" i32 = some exitCode
  | .error code message =>
    fields.required "code" ErrorCode.format = some code ∧
    fields.required "message" string = some message
  | .hello version => fields.required "version" u32 = some version
  | .logEnd | .waitTimeout | .unknown => True

/-- A tag that no variant has. -/
def UnknownTag (tag : String) : Prop := ∀ r : Response, r.name = tag → r = .unknown

/-- The variant a tag stands for. -/
def Named (tag : String) (r : Response) : Prop := r.name = tag ∨ r = .unknown ∧ UnknownTag tag

theorem ofFields_of_unknownTag {tag : String} (h : UnknownTag tag) (fields : Fields) :
    ofFields tag fields = some .unknown := by
  unfold ofFields
  split
  · cases h (.ok "") rfl
  · cases h (.runOk "" "" 0 none none) rfl
  · cases h (.status []) rfl
  · cases h (.logLine "" .stdout "") rfl
  · cases h .logEnd rfl
  · cases h (.waitMatch "") rfl
  · cases h (.waitExited none) rfl
  · cases h .waitTimeout rfl
  · cases h (.error .general "") rfl
  · cases h (.hello 0) rfl
  · rfl

/-- **A variant is read** where its fields are. -/
theorem ofFields_name {fields : Fields} {r : Response} (h : r.Holds fields) :
    ofFields r.name fields = some r := by
  cases r with
  | runOk =>
    obtain ⟨hname, hid, hpid, hport, hurl⟩ := h
    exact bind_of_eq_some hname <| bind_of_eq_some hid <| bind_of_eq_some hpid <|
      bind_of_eq_some hport <| bind_of_eq_some hurl rfl
  | logLine =>
    obtain ⟨hprocess, hstream, hline⟩ := h
    exact bind_of_eq_some hprocess <| bind_of_eq_some hstream <| bind_of_eq_some hline rfl
  | error => exact bind_of_eq_some h.1 <| bind_of_eq_some h.2 rfl
  | ok | status | waitMatch | waitExited | hello => exact bind_of_eq_some h rfl
  | logEnd | waitTimeout | unknown => rfl

/-- **What is read** is the variant of the tag, and its fields. -/
theorem of_ofFields {tag : String} {fields : Fields} {r : Response}
    (h : ofFields tag fields = some r) : r.Named tag ∧ r.Holds fields := by
  unfold ofFields at h
  split at h
  · obtain ⟨message, hmessage, h⟩ := Option.bind_eq_some_iff.mp h
    obtain rfl := Option.some_inj.mp h
    exact ⟨.inl rfl, hmessage⟩
  · obtain ⟨name, hname, h⟩ := Option.bind_eq_some_iff.mp h
    obtain ⟨id, hid, h⟩ := Option.bind_eq_some_iff.mp h
    obtain ⟨pid, hpid, h⟩ := Option.bind_eq_some_iff.mp h
    obtain ⟨port, hport, h⟩ := Option.bind_eq_some_iff.mp h
    obtain ⟨url, hurl, h⟩ := Option.bind_eq_some_iff.mp h
    obtain rfl := Option.some_inj.mp h
    exact ⟨.inl rfl, hname, hid, hpid, hport, hurl⟩
  · obtain ⟨processes, hprocesses, h⟩ := Option.bind_eq_some_iff.mp h
    obtain rfl := Option.some_inj.mp h
    exact ⟨.inl rfl, hprocesses⟩
  · obtain ⟨process, hprocess, h⟩ := Option.bind_eq_some_iff.mp h
    obtain ⟨stream, hstream, h⟩ := Option.bind_eq_some_iff.mp h
    obtain ⟨line, hline, h⟩ := Option.bind_eq_some_iff.mp h
    obtain rfl := Option.some_inj.mp h
    exact ⟨.inl rfl, hprocess, hstream, hline⟩
  · obtain rfl := Option.some_inj.mp h
    exact ⟨.inl rfl, trivial⟩
  · obtain ⟨line, hline, h⟩ := Option.bind_eq_some_iff.mp h
    obtain rfl := Option.some_inj.mp h
    exact ⟨.inl rfl, hline⟩
  · obtain ⟨exitCode, hexitCode, h⟩ := Option.bind_eq_some_iff.mp h
    obtain rfl := Option.some_inj.mp h
    exact ⟨.inl rfl, hexitCode⟩
  · obtain rfl := Option.some_inj.mp h
    exact ⟨.inl rfl, trivial⟩
  · obtain ⟨code, hcode, h⟩ := Option.bind_eq_some_iff.mp h
    obtain ⟨message, hmessage, h⟩ := Option.bind_eq_some_iff.mp h
    obtain rfl := Option.some_inj.mp h
    exact ⟨.inl rfl, hcode, hmessage⟩
  · obtain ⟨version, hversion, h⟩ := Option.bind_eq_some_iff.mp h
    obtain rfl := Option.some_inj.mp h
    exact ⟨.inl rfl, hversion⟩
  next hok hrunOk hstatus hlogLine hlogEnd hwaitMatch hwaitExited hwaitTimeout herror hhello =>
    obtain rfl := Option.some_inj.mp h
    refine ⟨.inr ⟨rfl, fun r hr => ?_⟩, trivial⟩
    cases r with
    | ok => exact absurd hr.symm hok
    | runOk => exact absurd hr.symm hrunOk
    | status => exact absurd hr.symm hstatus
    | logLine => exact absurd hr.symm hlogLine
    | logEnd => exact absurd hr.symm hlogEnd
    | waitMatch => exact absurd hr.symm hwaitMatch
    | waitExited => exact absurd hr.symm hwaitExited
    | waitTimeout => exact absurd hr.symm hwaitTimeout
    | error => exact absurd hr.symm herror
    | hello => exact absurd hr.symm hhello
    | unknown => rfl

theorem ofFields_eq_some_iff {tag : String} {fields : Fields} {r : Response} :
    ofFields tag fields = some r ↔ r.Named tag ∧ r.Holds fields := by
  refine ⟨of_ofFields, ?_⟩
  rintro ⟨rfl | ⟨rfl, htag⟩, h⟩
  · exact ofFields_name h
  · exact ofFields_of_unknownTag htag fields

/-- A change that leaves each variant what it is. -/
theorem Named.change {tag : String} {r r' : Response} (h : r.Named tag) (hname : r'.name = r.name) :
    r'.Named tag := by
  obtain rfl | ⟨rfl, htag⟩ := h
  · exact .inl hname
  · refine .inr ⟨?_, htag⟩
    cases r' with
    | unknown => rfl
    | _ => simp [name] at hname

theorem ofFields_change {tag : String} {fields fields' : Fields} {r r' : Response}
    (h : ofFields tag fields = some r) (hname : r'.name = r.name)
    (hholds : r.Holds fields → r'.Holds fields') : ofFields tag fields' = some r' := by
  obtain ⟨hnamed, hbefore⟩ := ofFields_eq_some_iff.mp h
  exact ofFields_eq_some_iff.mpr ⟨hnamed.change hname, hholds hbefore⟩

/-- The keys of a variant are all that is read. -/
theorem Holds.congr {fields fields' : Fields} {r : Response} (h : r.Holds fields)
    (hkeys : ∀ field ∈ r.fields, fields'.valuesOf field.1 = fields.valuesOf field.1) :
    r.Holds fields' := by
  cases r with
  | runOk =>
    obtain ⟨hname, hid, hpid, hport, hurl⟩ := h
    simp only [Response.fields, List.forall_mem_cons] at hkeys
    obtain ⟨kname, kid, kpid, kport, kurl, -⟩ := hkeys
    exact ⟨(Fields.member_congr kname).trans hname, (Fields.member_congr kid).trans hid,
      (Fields.member_congr kpid).trans hpid, (Fields.member_congr kport).trans hport,
      (Fields.member_congr kurl).trans hurl⟩
  | logLine =>
    obtain ⟨hprocess, hstream, hline⟩ := h
    simp only [Response.fields, List.forall_mem_cons] at hkeys
    obtain ⟨kprocess, kstream, kline, -⟩ := hkeys
    exact ⟨(Fields.member_congr kprocess).trans hprocess, (Fields.member_congr kstream).trans hstream,
      (Fields.member_congr kline).trans hline⟩
  | error =>
    simp only [Response.fields, List.forall_mem_cons] at hkeys
    exact ⟨(Fields.member_congr hkeys.1).trans h.1, (Fields.member_congr hkeys.2.1).trans h.2⟩
  | ok | status | waitMatch | waitExited | hello =>
    exact (Fields.member_congr (hkeys _ List.mem_cons_self)).trans h
  | logEnd | waitTimeout | unknown => trivial

theorem Holds.without {fields : Fields} {r : Response} {key : String} (h : r.Holds fields)
    (hne : ∀ field ∈ r.fields, field.1 ≠ key) : r.Holds (fields.without key) :=
  h.congr fun field hfield => by rw [Fields.valuesOf_without, if_neg (hne field hfield)]

theorem Holds.modify {fields : Fields} {r : Response} {key : String} (h : r.Holds fields)
    (hne : ∀ field ∈ r.fields, field.1 ≠ key) (g : Json → Json) : r.Holds (fields.modify key g) :=
  h.congr fun field hfield => by rw [Fields.valuesOf_modify, if_neg (hne field hfield)]

/-- The fields marked with a default. -/
def DEFAULTED : List String := ["port", "url"]

/-- A response without one of them. -/
def clear (key : String) : Response → Response
  | .runOk name id pid port url =>
    .runOk name id pid (if "port" = key then none else port) (if "url" = key then none else url)
  | r => r

theorem holds_clear {fields : Fields} {r : Response} {key : String} (hkey : key ∈ DEFAULTED)
    (h : r.Holds fields) : (r.clear key).Holds (fields.without key) := by
  have hne : ∀ k, k ∉ DEFAULTED → k ≠ key := fun k hk heq => hk (heq ▸ hkey)
  cases r with
  | runOk =>
    obtain ⟨hname, hid, hpid, hport, hurl⟩ := h
    exact ⟨Fields.required_without (hne _ (by simp [DEFAULTED])) hname,
      Fields.required_without (hne _ (by simp [DEFAULTED])) hid,
      Fields.required_without (hne _ (by simp [DEFAULTED])) hpid,
      Fields.defaulted_without hport, Fields.defaulted_without hurl⟩
  | _ => exact h.without (by simp [Response.fields, hne, DEFAULTED])

/-- **A response without a field that has a default** is read as the response without it. -/
theorem read_without {message : Json} {r : Response} {key : String} (hkey : key ∈ DEFAULTED)
    (h : format.read message = some r) : format.read (message.without key) = some (r.clear key) := by
  have htype : key ≠ "type" := by
    rintro rfl
    simp [DEFAULTED] at hkey
  refine read_tagged_without htype (fun tag fields hfields => ?_) h
  exact ofFields_change hfields (by cases r <;> rfl) (holds_clear hkey)

/-- A response with another description of its `i`th process. -/
def modifyProcess (i : ℕ) (g : ProcessInfo → ProcessInfo) : Response → Response
  | .status processes => .status (processes.modify i g)
  | r => r

/-- **Another description of a process**, in a response. -/
theorem read_modify_process {message : Json} {r : Response} {i : ℕ} {g : Json → Json}
    {g' : ProcessInfo → ProcessInfo} (hg : ∀ value info,
      ProcessInfo.format.read value = some info → ProcessInfo.format.read (g value) = some (g' info))
    (h : format.read message = some r) :
    format.read (message.modify "processes" (·.modifyNth i g)) = some (r.modifyProcess i g') := by
  refine read_tagged_modify (by simp) (fun tag fields hfields => ?_) h
  refine ofFields_change hfields (by cases r <;> rfl) fun hholds => ?_
  cases r with
  | status =>
    exact Fields.member_modify_self (fun _ hvalue => read_list_modifyNth hg i hvalue) nofun hholds
  | _ => exact hholds.modify (by simp [Response.fields]) _

/-- A response with another code. -/
def withCode (code : ErrorCode) : Response → Response
  | .error _ message => .error code message
  | r => r

/-- **A code of another version** is general. -/
theorem read_modify_code {message : Json} {r : Response} {code : ℤ} (hcode : i32.Fits code)
    (h : format.read message = some r) :
    format.read (message.modify "code" fun _ => .int code) =
      some (r.withCode (ErrorCode.ofI32 code)) := by
  have hread : ErrorCode.format.read (.int code) = some (ErrorCode.ofI32 code) := by
    have hint : i32.read (.int code) = some code := i32.read_write code hcode
    exact congrArg (Option.map ErrorCode.ofI32) hint
  refine read_tagged_modify (by simp) (fun tag fields hfields => ?_) h
  refine ofFields_change hfields (by cases r <;> rfl) fun hholds => ?_
  cases r with
  | error =>
    exact ⟨Fields.member_modify_self (fun _ _ => hread) nofun hholds.1,
      (Fields.member_modify_of_ne (by simp) _).trans hholds.2⟩
  | _ => exact hholds.modify (by simp [Response.fields]) _

end Response

/-! ## Over a serializer of values -/

/-- The JSON of requests, over what prints and parses JSON values. -/
def RequestJson.over (print : Json → String) (parse : String → Except String Json)
    (unreadable : Json → String) : RequestJson where
  encode r := print (Request.format.write r)
  fromStr text := do
    let value ← parse text
    (Request.format.read value).elim (.error (unreadable value)) .ok

/-- **A request that fits can be sent**, if its value is printed on one line and parsed back. -/
theorem sendable_over {print : Json → String} {parse : String → Except String Json}
    {unreadable : Json → String} {r : Request} (hfits : r.Fits)
    (hline : NEWLINE ∉ utf8 (print (Request.format.write r)))
    (hparse : parse (print (Request.format.write r) ++ "\n") = .ok (Request.format.write r))
    (hshort : ((RequestJson.over print parse unreadable).sendRequest r).length < MAX_MESSAGE_SIZE) :
    Sendable (.over print parse unreadable) r where
  newlineFree := hline
  decodes := by
    change (parse (print (Request.format.write r) ++ "\n") >>= _) = _
    rw [hparse]
    change (Request.format.read (Request.format.write r)).elim _ _ = _
    rw [Request.format.read_write r hfits]
    rfl
  short := hshort

/-! ## Messages of another version -/

/-- **The wire format is compatible**: what is written is read back, an unknown tag is the variant
`unknown` whatever comes with it, a field with a default may be left out, and one of these codes and
any state that is not known make no message unreadable. -/
structure Compatible (codes : ℤ → Prop) : Prop where
  requests : ∀ r : Request, r.Fits → Request.format.read (Request.format.write r) = some r
  responses : ∀ r : Response, r.Fits → Response.format.read (Response.format.write r) = some r
  requestTags : ∀ tag fields, Request.UnknownTag tag → Fields.valuesOf "type" fields = [.str tag] →
    Request.format.read (.obj fields) = some .unknown
  responseTags : ∀ tag fields, Response.UnknownTag tag →
    Fields.valuesOf "type" fields = [.str tag] → Response.format.read (.obj fields) = some .unknown
  requestDefaults : ∀ message r, Request.format.read message = some r → ∀ key ∈ Request.DEFAULTED,
    Request.format.read (message.without key) = some (r.clear key)
  watchDefaults : ∀ message r, Request.format.read message = some r →
    ∀ key ∈ WatchConfig.DEFAULTED,
      Request.format.read (message.modify "watch" (·.without key)) =
        some (r.modifyWatch (·.clear key))
  responseDefaults : ∀ message r, Response.format.read message = some r →
    ∀ key ∈ Response.DEFAULTED, Response.format.read (message.without key) = some (r.clear key)
  processDefaults : ∀ message r i, Response.format.read message = some r →
    ∀ key ∈ ProcessInfo.DEFAULTED,
      Response.format.read (message.modify "processes" (·.modifyNth i (·.without key))) =
        some (r.modifyProcess i (·.clear key))
  codes : ∀ message r code, Response.format.read message = some r → codes code → code ≠ 2 →
    Response.format.read (message.modify "code" fun _ => .int code) = some (r.withCode .general)
  states : ∀ message r i state, Response.format.read message = some r →
    (∀ s : ProcessState, s.name = state → s = .unknown) →
      Response.format.read
          (message.modify "processes" (·.modifyNth i (·.modify "state" fun _ => .str state))) =
        some (r.modifyProcess i fun info => { info with state := .unknown })

theorem ErrorCode.ofI32_of_ne {code : ℤ} (h : code ≠ 2) : ofI32 code = .general := by
  unfold ofI32
  split
  · exact absurd rfl h
  · rfl

/-- **Messages of another version are read**, with any code that is an `i32`. -/
theorem compatible_i32 : Compatible i32.Fits where
  requests := Request.format.read_write
  responses := Response.format.read_write
  requestTags tag fields htag htype := read_tagged_iff.mpr ⟨fields, rfl, tag,
    Fields.member_of_valuesOf htype, Request.ofFields_of_unknownTag htag _⟩
  responseTags tag fields htag htype := read_tagged_iff.mpr ⟨fields, rfl, tag,
    Fields.member_of_valuesOf htype, Response.ofFields_of_unknownTag htag _⟩
  requestDefaults _ _ h _ hkey := Request.read_without hkey h
  watchDefaults _ _ h _ hkey := Request.read_watch_without hkey h
  responseDefaults _ _ h _ hkey := Response.read_without hkey h
  processDefaults _ _ _ h _ hkey := Response.read_modify_process
    (fun _ _ hinfo => ProcessInfo.read_without hkey hinfo) h
  codes message r code h hcode hne := by
    rw [Response.read_modify_code hcode h, ErrorCode.ofI32_of_ne hne]
  states _ _ _ _ h hstate := Response.read_modify_process
    (fun _ _ hinfo => ProcessInfo.read_modify_state hstate hinfo) h

/-- **A code that is no `i32`** makes its message unreadable. -/
theorem not_compatible : ¬Compatible fun _ => True := by
  intro h
  have hwritten := h.responses (.error .general "") trivial
  have hread := h.codes _ _ (2 ^ 31) hwritten trivial (by decide)
  exact absurd hread (by decide)

end AgentProcs
