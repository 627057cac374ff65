import AgentProcs.Machinery.Json
import AgentProcs.Protocol.Messages

/-!
# Protocol/Wire — the messages as JSON

    Request.stop "web"     {"type": "Stop", "target": "web"}
    Response.logEnd        {"type": "LogEnd"}

The formats that the attributes of the message types give them: a message is an object whose `type`
names the variant, beside the variant's fields.  Every field is written, `null` where it is nothing.
How the text of a JSON value is written and parsed is the serializer's affair, and what it would also
accept in place of an object or a name, and nobody writes, is left out.
-/

namespace AgentProcs

open Format

/-! ## Numbers, codes and names -/

def u16 : Format ℕ := unsigned 16

def u32 : Format ℕ := unsigned 32

def u64 : Format ℕ := unsigned 64

def i32 : Format ℤ := signed 32

instance : u16.NeverNull := inferInstanceAs (unsigned 16).NeverNull

instance : u32.NeverNull := inferInstanceAs (unsigned 32).NeverNull

instance : u64.NeverNull := inferInstanceAs (unsigned 64).NeverNull

instance : i32.NeverNull := inferInstanceAs (signed 32).NeverNull

def ErrorCode.toI32 : ErrorCode → ℤ
  | general => 1
  | notFound => 2

def ErrorCode.ofI32 : ℤ → ErrorCode
  | 2 => notFound
  | _ => general

/-- `into = "i32", from = "i32"`. -/
def ErrorCode.format : Format ErrorCode := i32.via toI32 ofI32 fun c => by cases c <;> rfl

instance : ErrorCode.format.Total := ⟨fun c => by cases c <;> exact ⟨by decide, by decide⟩⟩

/-- `kebab-case`. -/
def RestartMode.name : RestartMode → String
  | always => "always"
  | onFailure => "on-failure"
  | never => "never"

def RestartMode.format : Format RestartMode :=
  named name [always, onFailure, never] fun m => by cases m <;> decide

instance : RestartMode.format.Total := ⟨fun _ => trivial⟩

/-- `lowercase`. -/
def Stream.name : Stream → String
  | stdout => "stdout"
  | stderr => "stderr"

def Stream.format : Format Stream := named name [stdout, stderr] fun s => by cases s <;> decide

instance : Stream.format.Total := ⟨fun _ => trivial⟩

/-- `lowercase`. -/
def ProcessState.name : ProcessState → String
  | running => "running"
  | exited => "exited"
  | failed => "failed"
  | unknown => "unknown"

def ProcessState.ofName : String → ProcessState
  | "running" => running
  | "exited" => exited
  | "failed" => failed
  | _ => unknown

def ProcessState.format : Format ProcessState := string.via name ofName fun s => by cases s <;> rfl

instance : ProcessState.format.Total := ⟨fun _ => trivial⟩

/-! ## Records -/

namespace RestartPolicy

def fields (p : RestartPolicy) : Fields := [
  ("mode", RestartMode.format.write p.mode),
  ("max_restarts", u32.option.write p.maxRestarts),
  ("restart_delay_ms", u64.write p.restartDelayMs)]

def ofFields (fields : Fields) : Option RestartPolicy := do
  let mode ← fields.required "mode" RestartMode.format
  let maxRestarts ← fields.optional "max_restarts" u32
  let restartDelayMs ← fields.required "restart_delay_ms" u64
  return ⟨mode, maxRestarts, restartDelayMs⟩

/-- Its numbers are those of their types. -/
structure Fits (p : RestartPolicy) : Prop where
  maxRestarts : u32.option.Fits p.maxRestarts
  restartDelayMs : u64.Fits p.restartDelayMs

theorem ofFields_fields (p : RestartPolicy) (h : p.Fits) : ofFields p.fields = some p := by
  simp [ofFields, fields, Fields.required, Fields.optional, Fields.member,
    read_write _ _ h.maxRestarts, read_write _ _ h.restartDelayMs]

/-- What its attributes make of it. -/
def format : Format RestartPolicy := record fields ofFields Fits ofFields_fields

instance : format.NeverNull := ⟨nofun⟩

end RestartPolicy

namespace WatchConfig

def fields (w : WatchConfig) : Fields := [
  ("paths", string.list.write w.paths),
  ("ignore", string.list.option.write w.ignore)]

def ofFields (fields : Fields) : Option WatchConfig := do
  let paths ← fields.required "paths" string.list
  let ignore ← fields.defaulted "ignore" string.list.option none
  return ⟨paths, ignore⟩

theorem ofFields_fields (w : WatchConfig) : ofFields w.fields = some w := by
  simp [ofFields, fields, Fields.required, Fields.defaulted, Fields.member]

def format : Format WatchConfig :=
  record fields ofFields (fun _ => True) fun w _ => w.ofFields_fields

instance : format.NeverNull := ⟨nofun⟩

instance : format.Total := ⟨fun _ => trivial⟩

end WatchConfig

namespace ProcessInfo

def fields (i : ProcessInfo) : Fields := [
  ("name", string.write i.name),
  ("id", string.write i.id),
  ("pid", u32.write i.pid),
  ("state", ProcessState.format.write i.state),
  ("exit_code", i32.option.write i.exitCode),
  ("uptime_secs", u64.option.write i.uptimeSecs),
  ("command", string.write i.command),
  ("port", u16.option.write i.port),
  ("url", string.option.write i.url),
  ("restart_count", u32.option.write i.restartCount),
  ("max_restarts", u32.option.write i.maxRestarts),
  ("restart_policy", string.option.write i.restartPolicy),
  ("watched", bool.option.write i.watched)]

def ofFields (fields : Fields) : Option ProcessInfo := do
  let name ← fields.required "name" string
  let id ← fields.required "id" string
  let pid ← fields.required "pid" u32
  let state ← fields.required "state" ProcessState.format
  let exitCode ← fields.optional "exit_code" i32
  let uptimeSecs ← fields.optional "uptime_secs" u64
  let command ← fields.required "command" string
  let port ← fields.defaulted "port" u16.option none
  let url ← fields.defaulted "url" string.option none
  let restartCount ← fields.defaulted "restart_count" u32.option none
  let maxRestarts ← fields.defaulted "max_restarts" u32.option none
  let restartPolicy ← fields.defaulted "restart_policy" string.option none
  let watched ← fields.defaulted "watched" bool.option none
  return ⟨name, id, pid, state, exitCode, uptimeSecs, command, port, url, restartCount, maxRestarts,
    restartPolicy, watched⟩

/-- Its numbers are those of their types. -/
structure Fits (i : ProcessInfo) : Prop where
  pid : u32.Fits i.pid
  exitCode : i32.option.Fits i.exitCode
  uptimeSecs : u64.option.Fits i.uptimeSecs
  port : u16.option.Fits i.port
  restartCount : u32.option.Fits i.restartCount
  maxRestarts : u32.option.Fits i.maxRestarts

theorem ofFields_fields (i : ProcessInfo) (h : i.Fits) : ofFields i.fields = some i := by
  simp [ofFields, fields, Fields.required, Fields.optional, Fields.defaulted, Fields.member,
    read_write _ _ h.pid, read_write _ _ h.exitCode, read_write _ _ h.uptimeSecs,
    read_write _ _ h.port, read_write _ _ h.restartCount, read_write _ _ h.maxRestarts]

def format : Format ProcessInfo := record fields ofFields Fits ofFields_fields

end ProcessInfo

/-! ## Messages -/

namespace Request

def name : Request → String
  | .run .. => "Run"
  | .stop _ => "Stop"
  | .stopAll => "StopAll"
  | .restart _ => "Restart"
  | .status => "Status"
  | .logs .. => "Logs"
  | .wait .. => "Wait"
  | .shutdown => "Shutdown"
  | .enableProxy _ => "EnableProxy"
  | .hello _ => "Hello"
  | .unknown => "Unknown"

def fields : Request → Fields
  | .run command name cwd env port policy watch => [
    ("command", string.write command),
    ("name", string.option.write name),
    ("cwd", string.option.write cwd),
    ("env", string.dict.option.write env),
    ("port", u16.option.write port),
    ("restart", RestartPolicy.format.option.write policy),
    ("watch", WatchConfig.format.option.write watch)]
  | .stop target => [("target", string.write target)]
  | .restart target => [("target", string.write target)]
  | .logs target tail follow stderr all timeoutSecs lines => [
    ("target", string.option.write target),
    ("tail", u64.write tail),
    ("follow", bool.write follow),
    ("stderr", bool.write stderr),
    ("all", bool.write all),
    ("timeout_secs", u64.option.write timeoutSecs),
    ("lines", u64.option.write lines)]
  | .wait target untilPattern regex exit timeoutSecs => [
    ("target", string.write target),
    ("until", string.option.write untilPattern),
    ("regex", bool.write regex),
    ("exit", bool.write exit),
    ("timeout_secs", u64.option.write timeoutSecs)]
  | .enableProxy proxyPort => [("proxy_port", u16.option.write proxyPort)]
  | .hello version => [("version", u32.write version)]
  | .stopAll | .status | .shutdown | .unknown => []

/-- A variant by its name; the last is marked `other`. -/
def ofFields : String → Fields → Option Request
  | "Run", fields => do
    let command ← fields.required "command" string
    let name ← fields.optional "name" string
    let cwd ← fields.optional "cwd" string
    let env ← fields.defaulted "env" string.dict.option none
    let port ← fields.defaulted "port" u16.option none
    let policy ← fields.defaulted "restart" RestartPolicy.format.option none
    let watch ← fields.defaulted "watch" WatchConfig.format.option none
    return .run command name cwd env port policy watch
  | "Stop", fields => do
    let target ← fields.required "target" string
    return .stop target
  | "StopAll", _ => some .stopAll
  | "Restart", fields => do
    let target ← fields.required "target" string
    return .restart target
  | "Status", _ => some .status
  | "Logs", fields => do
    let target ← fields.optional "target" string
    let tail ← fields.required "tail" u64
    let follow ← fields.required "follow" bool
    let stderr ← fields.required "stderr" bool
    let all ← fields.required "all" bool
    let timeoutSecs ← fields.optional "timeout_secs" u64
    let lines ← fields.defaulted "lines" u64.option none
    return .logs target tail follow stderr all timeoutSecs lines
  | "Wait", fields => do
    let target ← fields.required "target" string
    let untilPattern ← fields.optional "until" string
    let regex ← fields.required "regex" bool
    let exit ← fields.required "exit" bool
    let timeoutSecs ← fields.optional "timeout_secs" u64
    return .wait target untilPattern regex exit timeoutSecs
  | "Shutdown", _ => some .shutdown
  | "EnableProxy", fields => do
    let proxyPort ← fields.defaulted "proxy_port" u16.option none
    return .enableProxy proxyPort
  | "Hello", fields => do
    let version ← fields.required "version" u32
    return .hello version
  | _, _ => some .unknown

/-- Its numbers are those of their types, and its environment is a map. -/
def Fits : Request → Prop
  | .run _ _ _ env port policy _ => string.dict.option.Fits env ∧ u16.option.Fits port ∧
    RestartPolicy.format.option.Fits policy
  | .logs _ tail _ _ _ timeoutSecs lines => u64.Fits tail ∧
    u64.option.Fits timeoutSecs ∧ u64.option.Fits lines
  | .wait _ _ _ _ timeoutSecs => u64.option.Fits timeoutSecs
  | .enableProxy proxyPort => u16.option.Fits proxyPort
  | .hello version => u32.Fits version
  | _ => True

theorem ofFields_fields (r : Request) (h : r.Fits) : ofFields r.name r.fields = some r := by
  cases r with
  | run command name cwd env port policy watch =>
    obtain ⟨henv, hport, hpolicy⟩ := h
    simp [ofFields, fields, Request.name, Fields.required, Fields.optional, Fields.defaulted,
      Fields.member, read_write _ _ henv, read_write _ _ hport, read_write _ _ hpolicy]
  | logs target tail follow stderr all timeoutSecs lines =>
    obtain ⟨htail, htimeout, hlines⟩ := h
    simp [ofFields, fields, Request.name, Fields.required, Fields.optional, Fields.defaulted,
      Fields.member, read_write _ _ htail, read_write _ _ htimeout, read_write _ _ hlines]
  | wait target untilPattern regex exit timeoutSecs =>
    simp [ofFields, fields, name, Fields.required, Fields.optional, Fields.member,
      read_write u64.option _ h]
  | enableProxy proxyPort =>
    simp [ofFields, fields, name, Fields.defaulted, Fields.member,
      read_write u16.option _ h]
  | hello version =>
    simp [ofFields, fields, name, Fields.required, Fields.member, read_write u32 _ h]
  | stop target => simp [ofFields, fields, name, Fields.required, Fields.member]
  | restart target => simp [ofFields, fields, name, Fields.required, Fields.member]
  | stopAll | status | shutdown | unknown => rfl

theorem type_notMem_fields (r : Request) : ∀ field ∈ r.fields, field.1 ≠ "type" := by
  cases r <;> simp [fields]

/-- `tag = "type"`. -/
def format : Format Request :=
  Format.tagged "type" name fields ofFields Fits type_notMem_fields ofFields_fields

end Request

namespace Response

def name : Response → String
  | .ok _ => "Ok"
  | .runOk .. => "RunOk"
  | .status _ => "Status"
  | .logLine .. => "LogLine"
  | .logEnd => "LogEnd"
  | .waitMatch _ => "WaitMatch"
  | .waitExited _ => "WaitExited"
  | .waitTimeout => "WaitTimeout"
  | .error .. => "Error"
  | .hello _ => "Hello"
  | .unknown => "Unknown"

def fields : Response → Fields
  | .ok message => [("message", string.write message)]
  | .runOk name id pid port url => [
    ("name", string.write name),
    ("id", string.write id),
    ("pid", u32.write pid),
    ("port", u16.option.write port),
    ("url", string.option.write url)]
  | .status processes => [("processes", ProcessInfo.format.list.write processes)]
  | .logLine process stream line => [
    ("process", string.write process),
    ("stream", Stream.format.write stream),
    ("line", string.write line)]
  | .waitMatch line => [("line", string.write line)]
  | .waitExited exitCode => [("exit_code", i32.option.write exitCode)]
  | .error code message => [
    ("code", ErrorCode.format.write code),
    ("message", string.write message)]
  | .hello version => [("version", u32.write version)]
  | .logEnd | .waitTimeout | .unknown => []

/-- A variant by its name; the last is marked `other`. -/
def ofFields : String → Fields → Option Response
  | "Ok", fields => do
    let message ← fields.required "message" string
    return .ok message
  | "RunOk", fields => do
    let name ← fields.required "name" string
    let id ← fields.required "id" string
    let pid ← fields.required "pid" u32
    let port ← fields.defaulted "port" u16.option none
    let url ← fields.defaulted "url" string.option none
    return .runOk name id pid port url
  | "Status", fields => do
    let processes ← fields.required "processes" ProcessInfo.format.list
    return .status processes
  | "LogLine", fields => do
    let process ← fields.required "process" string
    let stream ← fields.required "stream" Stream.format
    let line ← fields.required "line" string
    return .logLine process stream line
  | "LogEnd", _ => some .logEnd
  | "WaitMatch", fields => do
    let line ← fields.required "line" string
    return .waitMatch line
  | "WaitExited", fields => do
    let exitCode ← fields.optional "exit_code" i32
    return .waitExited exitCode
  | "WaitTimeout", _ => some .waitTimeout
  | "Error", fields => do
    let code ← fields.required "code" ErrorCode.format
    let message ← fields.required "message" string
    return .error code message
  | "Hello", fields => do
    let version ← fields.required "version" u32
    return .hello version
  | _, _ => some .unknown

/-- Its numbers are those of their types. -/
def Fits : Response → Prop
  | .runOk _ _ pid port _ => u32.Fits pid ∧ u16.option.Fits port
  | .status processes => ProcessInfo.format.list.Fits processes
  | .waitExited exitCode => i32.option.Fits exitCode
  | .hello version => u32.Fits version
  | _ => True

theorem ofFields_fields (r : Response) (h : r.Fits) : ofFields r.name r.fields = some r := by
  cases r with
  | runOk name id pid port url =>
    obtain ⟨hpid, hport⟩ := h
    simp [ofFields, fields, Response.name, Fields.required, Fields.defaulted, Fields.member,
      read_write _ _ hpid, read_write _ _ hport]
  | status processes =>
    simp [ofFields, fields, name, Fields.required, Fields.member,
      read_write ProcessInfo.format.list _ h]
  | waitExited exitCode =>
    simp [ofFields, fields, name, Fields.optional, Fields.member,
      read_write i32.option _ h]
  | hello version =>
    simp [ofFields, fields, name, Fields.required, Fields.member, read_write u32 _ h]
  | ok message => simp [ofFields, fields, name, Fields.required, Fields.member]
  | logLine process stream line => simp [ofFields, fields, name, Fields.required, Fields.member]
  | waitMatch line => simp [ofFields, fields, name, Fields.required, Fields.member]
  | error code message => simp [ofFields, fields, name, Fields.required, Fields.member]
  | logEnd | waitTimeout | unknown => rfl

theorem type_notMem_fields (r : Response) : ∀ field ∈ r.fields, field.1 ≠ "type" := by
  cases r <;> simp [fields]

/-- `tag = "type"`. -/
def format : Format Response :=
  Format.tagged "type" name fields ofFields Fits type_notMem_fields ofFields_fields

end Response

end AgentProcs
