import AgentProcs.Daemon.ProcessManager
import AgentProcs.Daemon.Proxy
import AgentProcs.Machinery.Lines

/-!
# Daemon/Forwarding — one request at the proxy

    Host ──▸ no subdomain           ──▸ the status page
             no port under its name ──▸ 502
             a port                 ──▸ http://127.0.0.1:port‹path› ──parse──▸ to the backend

The port is looked up in the map last published, without asking the actor.  The URI for the backend
is put together as text and read again.  Header names are lower case; values are bytes, and only
those that are visible ASCII can be read as text.
-/

namespace AgentProcs

def HOST : String := "host"

/-! ## URIs -/

/-- The longest URI that is read, in bytes. -/
def MAX_URI_LEN : ℕ := 65534

/-- Where the authority of a URI ends. -/
def endsAuthority (c : Char) : Bool := ['/', '?', '#'].contains c

/-- A URI that begins with `http://`. -/
structure Uri where
  authority : String
  pathAndQuery : String
  deriving DecidableEq, Repr

namespace Uri

/-- A URI from its text, whose characters are all ones that a URI may have. -/
def parse (text : String) : Option Uri :=
  if text.utf8ByteSize ≤ MAX_URI_LEN then
    let rest := text.toList.drop "http://".toList.length
    let authority := rest.takeWhile (!endsAuthority ·)
    let path := (rest.drop authority.length).takeWhile (· != '#')
    some ⟨String.ofList authority, if path.isEmpty then "/" else String.ofList path⟩
  else none

/-- What is behind the last colon of the authority, if that is a number. -/
def port (u : Uri) : Option ℕ :=
  let digits := u.authority.toList.rtakeWhile (· != ':')
  if ':' ∈ u.authority.toList ∧ digits ≠ [] ∧ digits.all Char.isDigit then
    some (Nat.ofDigitChars 10 digits 0)
  else none

/-- The port that the client connects to. -/
def destination (u : Uri) : ℕ := u.port.getD 80

end Uri

/-- A path with its query, as a request line has it: a fragment is not part of it. -/
structure PathAndQuery where
  text : String
  leads : text.toList.head? = some '/' ∨ text.toList.head? = some '?'
  plain : '#' ∉ text.toList
  deriving DecidableEq, Repr

/-- The URI of a request line. -/
inductive RequestTarget where
  /-- A path, behind an authority or not. -/
  | path (pathAndQuery : PathAndQuery)
  /-- `*`, as in `OPTIONS *` -/
  | asterisk
  /-- An authority and nothing else, as in `CONNECT`. -/
  | authority
  deriving DecidableEq, Repr

/-- `path_and_query().as_str()` -/
def RequestTarget.pathAndQuery : RequestTarget → Option String
  | path pathAndQuery => some pathAndQuery.text
  | asterisk => some "*"
  | authority => none

/-! ## Requests -/

structure HttpRequest where
  method : String
  target : RequestTarget
  headers : List (String × List UInt8)
  body : List UInt8
  deriving DecidableEq, Repr

/-- A request as it is handed to the client for the backend. -/
structure BackendRequest where
  method : String
  uri : Uri
  headers : List (String × List UInt8)
  body : List UInt8
  deriving DecidableEq, Repr

structure HttpResponse where
  status : ℕ
  headers : List (String × List UInt8)
  body : List UInt8
  deriving DecidableEq, Repr

/-- A value as text. -/
def headerStr (value : List UInt8) : Option String :=
  if value.all fun b => (32 ≤ b && b < 127) || b == 9 then utf8? value else none

namespace HttpRequest

/-- The first header of this name. -/
def header (name : String) (req : HttpRequest) : Option (List UInt8) :=
  (req.headers.find? (·.1 == name)).map (·.2)

def host (req : HttpRequest) : String := ((req.header HOST).bind headerStr).getD ""

def path (req : HttpRequest) : String := req.target.pathAndQuery.getD "/"

def newUri (port : ℕ) (req : HttpRequest) : String := s!"http://127.0.0.1:{port}{req.path}"

/-- The request that is sent to the backend, if its URI can be read. -/
def forwardedTo (port : ℕ) (req : HttpRequest) : Option BackendRequest := do
  let uri ← Uri.parse (req.newUri port)
  some {
    method := req.method
    uri
    headers := req.headers.map fun h =>
      if h.1 = HOST then (HOST, utf8 s!"127.0.0.1:{port}") else h
    body := req.body }

end HttpRequest

def ProcessState.display : ProcessState → String
  | .running => "running"
  | .exited => "exited"
  | .failed => "FAILED"
  | .unknown => "unknown"

/-- A line of the status page. -/
def routeLine (proxyPort : ℕ) (p : ProcessInfo) : String :=
  let state := p.state.display
  let name := p.name
  match p.port with
  | some port => s!"  http://{name}.localhost:{proxyPort} -> 127.0.0.1:{port} [{state}]\n"
  | none => s!"  {name} (no port) [{state}]\n"

/-- A plain-text page that lists all routes. -/
def statusPage (snapshot : Response) (proxyPort : ℕ) : String :=
  s!"agent-procs proxy on port {proxyPort}\n\n" ++
    match snapshot with
    | .status [] => "No processes running.\n"
    | .status processes => "Routes:\n" ++ String.join (processes.map (routeLine proxyPort))
    | _ => ""

def textResponse (status : ℕ) (text : String) : HttpResponse := ⟨status, [], utf8 text⟩

/-- What the proxy does about a request: it answers it, passes it on, or panics in the attempt. -/
inductive Proxied where
  | answered (resp : HttpResponse)
  | forwarded (name : String) (port : ℕ) (req : BackendRequest)
  | panicked
  deriving DecidableEq, Repr

def handleProxyRequest (req : HttpRequest) (portMap : PortMap) (snapshot : Response)
    (proxyPort : ℕ) : Proxied :=
  match extractSubdomain req.host with
  | none => .answered
      ⟨200, [("content-type", utf8 "text/plain")], utf8 (statusPage snapshot proxyPort)⟩
  | some name =>
    match portMap.lookup name with
    | none => .answered <| textResponse 502 <|
        s!"502 Bad Gateway: no running process named '{name}' with a port. " ++
          s!"Visit http://localhost:{proxyPort} to see available routes."
    | some port =>
      match req.forwardedTo port with
      | some req' => .forwarded name port req'
      -- `builder.body(…).unwrap()`
      | none => .panicked

/-- The answer to a request, given what became of it at the backend; a panic ends the connection. -/
def Proxied.answer (result : Except String HttpResponse) : Proxied → Option HttpResponse
  | answered resp => some resp
  | forwarded name port _ => some <|
    match result with
    | .ok resp => resp
    | .error e => textResponse 502
        s!"502 Bad Gateway: failed to connect to backend '{name}' on port {port}: {e}"
  | panicked => none

/-! ## What a forwarded request keeps -/

/-- The request is passed on to this port: all of it but who it is for. -/
structure Relayed (req : HttpRequest) (req' : BackendRequest) (port : ℕ) : Prop where
  method : req'.method = req.method
  destination : req'.uri.destination = port
  path : req'.uri.pathAndQuery = req.path
  body : req'.body = req.body
  /-- The same headers in the same order. -/
  names : req'.headers.map (·.1) = req.headers.map (·.1)
  others : req'.headers.filter (·.1 != HOST) = req.headers.filter (·.1 != HOST)
  host : ∀ value, (HOST, value) ∈ req'.headers → value = utf8 s!"127.0.0.1:{port}"

/-- The URI for the backend is not too long to be read. -/
def HttpRequest.Fits (req : HttpRequest) (port : ℕ) : Prop :=
  (req.newUri port).utf8ByteSize ≤ MAX_URI_LEN

instance (req : HttpRequest) (port : ℕ) : Decidable (req.Fits port) :=
  inferInstanceAs (Decidable ((req.newUri port).utf8ByteSize ≤ MAX_URI_LEN))

/-- A number is written in digits. -/
theorem isDigit_of_mem_toString {n : ℕ} {c : Char} (h : c ∈ (toString n).toList) :
    c.isDigit = true := by
  rw [show toString n = n.repr from rfl, Nat.toList_repr] at h
  exact Nat.isDigit_of_mem_toDigits (by decide) (by decide) h

/-- Neither an address nor a number ends an authority. -/
theorem endsAuthority_of_mem_backend {port : ℕ} {c : Char}
    (h : c ∈ "127.0.0.1:".toList ++ (toString port).toList) : endsAuthority c = false := by
  rcases List.mem_append.mp h with h | h
  · have haddress : ("127.0.0.1:".toList.all fun c => endsAuthority c == false) = true := by decide
    exact beq_iff_eq.mp (List.all_eq_true.mp haddress c h)
  · have hdigit := isDigit_of_mem_toString h
    rw [endsAuthority, Bool.eq_false_iff, Ne, List.contains_iff_mem]
    intro hmem
    have hends : (['/', '?', '#'].all fun c => c.isDigit == false) = true := by decide
    rw [beq_iff_eq.mp (List.all_eq_true.mp hends c hmem)] at hdigit
    exact absurd hdigit Bool.false_ne_true

/-- **Whatever of the path does not end the authority** is read as a part of it. -/
theorem parse_newUri {req : HttpRequest} {port : ℕ} {more path : List Char} (hfits : req.Fits port)
    (hpath : req.path.toList = more ++ path) (hmore : ∀ c ∈ more, endsAuthority c = false)
    (hlead : ∀ c ∈ path.head?, endsAuthority c = true) (hplain : '#' ∉ path) :
    Uri.parse (req.newUri port) = some
      ⟨String.ofList ("127.0.0.1:".toList ++ (toString port).toList ++ more),
        if path.isEmpty then "/" else String.ofList path⟩ := by
  have hrest : (req.newUri port).toList.drop "http://".toList.length =
      ("127.0.0.1:".toList ++ (toString port).toList ++ more) ++ path := by
    have hdef : req.newUri port = "http://127.0.0.1:" ++ toString port ++ req.path := rfl
    rw [hdef, String.toList_append, String.toList_append, hpath,
      show "http://127.0.0.1:".toList = "http://".toList ++ "127.0.0.1:".toList by decide]
    simp only [List.append_assoc, List.drop_left]
  have hauthority : ∀ c ∈ "127.0.0.1:".toList ++ (toString port).toList ++ more,
      (!endsAuthority c) = true := by
    intro c hc
    rw [Bool.not_eq_true']
    rcases List.mem_append.mp hc with hc | hc
    · exact endsAuthority_of_mem_backend hc
    · exact hmore c hc
  have hstop : path.takeWhile (!endsAuthority ·) = [] := by
    cases path with
    | nil => rfl
    | cons c path => exact List.takeWhile_cons_of_neg (by simp [hlead c (by simp)])
  have hwhole : path.takeWhile (· != '#') = path :=
    List.takeWhile_eq_self_iff.mpr fun c hc => bne_iff_ne.mpr fun he => hplain (he ▸ hc)
  have hsize : (req.newUri port).utf8ByteSize ≤ MAX_URI_LEN := hfits
  rw [Uri.parse, if_pos hsize, hrest]
  dsimp only
  rw [List.takeWhile_append_of_pos hauthority, hstop, List.append_nil, List.drop_left, hwhole]

theorem rtakeWhile_append_cons {α : Type*} {p : α → Bool} {x : α} (l : List α) {r : List α}
    (hr : ∀ y ∈ r, p y = true) (hx : p x = false) : (l ++ x :: r).rtakeWhile p = r := by
  have hreverse : (l ++ x :: r).reverse = r.reverse ++ x :: l.reverse := by simp
  rw [List.rtakeWhile, hreverse,
    List.takeWhile_append_of_pos fun y hy => hr y (List.mem_reverse.mp hy),
    List.takeWhile_cons_of_neg (by simp [hx]), List.append_nil, List.reverse_reverse]

/-- What is behind the last colon: a number and more. -/
theorem rtakeWhile_backend {port : ℕ} {more : List Char} (hmore : ':' ∉ more) :
    ("127.0.0.1:".toList ++ (toString port).toList ++ more).rtakeWhile (· != ':') =
      (toString port).toList ++ more := by
  rw [show "127.0.0.1:".toList = "127.0.0.1".toList ++ [':'] by decide, List.append_assoc,
    List.append_assoc, List.singleton_append]
  refine rtakeWhile_append_cons _ (fun c hc => ?_) (by simp)
  rw [bne_iff_ne]
  rintro rfl
  rcases List.mem_append.mp hc with hc | hc
  · exact absurd (isDigit_of_mem_toString hc) (by decide)
  · exact hmore hc

/-- **The port that was put behind the colon** is read again. -/
theorem destination_backend (port : ℕ) (path : String) :
    (Uri.mk (String.ofList ("127.0.0.1:".toList ++ (toString port).toList)) path).destination =
      port := by
  have hbehind : ("127.0.0.1:".toList ++ (toString port).toList).rtakeWhile (· != ':') =
      (toString port).toList := by
    simpa only [List.append_nil] using rtakeWhile_backend List.not_mem_nil
  have hdigits : (toString port).toList = Nat.toDigits 10 port := Nat.toList_repr
  have hall : (Nat.toDigits 10 port).all Char.isDigit = true :=
    List.all_eq_true.mpr fun c hc => isDigit_of_mem_toString (hdigits ▸ hc)
  have hnumber : (toString port).toList ≠ [] ∧ (toString port).toList.all Char.isDigit = true := by
    rw [hdigits]
    exact ⟨Nat.toDigits_ne_nil, hall⟩
  rw [Uri.destination, Uri.port, String.toList_ofList, hbehind, if_pos ⟨by simp, hnumber⟩,
    hdigits, Nat.ofDigitChars_ten_toDigits, Option.getD_some]

theorem forwardedTo_eq_some {req : HttpRequest} {req' : BackendRequest} {port : ℕ}
    (h : req.forwardedTo port = some req') :
    req.Fits port ∧ Uri.parse (req.newUri port) = some req'.uri ∧ req'.method = req.method ∧
      req'.body = req.body ∧ req'.headers = req.headers.map fun h =>
        if h.1 = HOST then (HOST, utf8 s!"127.0.0.1:{port}") else h := by
  rw [HttpRequest.forwardedTo] at h
  obtain ⟨uri, huri, hreq⟩ := Option.bind_eq_some_iff.mp h
  obtain rfl := Option.some.inj hreq
  refine ⟨?_, huri, rfl, rfl, rfl⟩
  by_contra hlong
  rw [Uri.parse, if_neg (show ¬ (req.newUri port).utf8ByteSize ≤ MAX_URI_LEN from hlong)] at huri
  exact absurd huri (by simp)

/-- What a request asks for, where it does not ask for `*`. -/
theorem path_of_ne_asterisk {req : HttpRequest} (h : req.target ≠ .asterisk) :
    (∃ c path, req.path.toList = c :: path ∧ endsAuthority c = true) ∧ '#' ∉ req.path.toList := by
  rw [HttpRequest.path]
  cases htarget : req.target with
  | path pathAndQuery =>
    refine ⟨?_, pathAndQuery.plain⟩
    rcases pathAndQuery.leads with hlead | hlead <;>
      exact ⟨_, _, List.eq_cons_of_mem_head? hlead, by decide⟩
  | asterisk => exact absurd htarget h
  | authority => exact ⟨⟨'/', [], by decide, by decide⟩, by decide⟩

section Headers

variable (value : List UInt8) (headers : List (String × List UInt8))

/-- Writing another `Host` keeps the names, in their order, -/
theorem names_rewriteHost :
    (headers.map fun h => if h.1 = HOST then (HOST, value) else h).map (·.1) =
      headers.map (·.1) := by
  rw [List.map_map]
  refine List.map_congr_left fun h _ => ?_
  rw [Function.comp_apply]
  split
  · rename_i heq
    exact heq.symm
  · rfl

/-- and all that have another name; -/
theorem others_rewriteHost :
    (headers.map fun h => if h.1 = HOST then (HOST, value) else h).filter (·.1 != HOST) =
      headers.filter (·.1 != HOST) := by
  induction headers with
  | nil => rfl
  | cons h hs ih =>
    rw [List.map_cons]
    by_cases hname : h.1 = HOST
    · rw [if_pos hname, List.filter_cons_of_neg (by simp),
        List.filter_cons_of_neg (by simp [hname])]
      exact ih
    · rw [if_neg hname, List.filter_cons_of_pos (by simpa using hname),
        List.filter_cons_of_pos (by simpa using hname), ih]

/-- what has this one has this value. -/
theorem host_rewriteHost {v : List UInt8}
    (h : (HOST, v) ∈ headers.map fun h => if h.1 = HOST then (HOST, value) else h) : v = value := by
  obtain ⟨x, -, heq⟩ := List.mem_map.mp h
  split at heq
  · exact (Prod.mk.inj heq).2.symm
  · rename_i hname
    exact absurd (congrArg Prod.fst heq) hname

end Headers

/-- **A request goes to the port that it is for**, with everything but its `Host` unchanged, unless
it asks for `*`. -/
theorem relayed_of_forwardedTo {req : HttpRequest} {req' : BackendRequest} {port : ℕ}
    (htarget : req.target ≠ .asterisk) (h : req.forwardedTo port = some req') :
    Relayed req req' port := by
  obtain ⟨hfits, huri, hmethod, hbody, hheaders⟩ := forwardedTo_eq_some h
  obtain ⟨⟨c, path, hpath, hends⟩, hplain⟩ := path_of_ne_asterisk htarget
  rw [parse_newUri hfits (List.nil_append _).symm (by simp) (by simp [hpath, hends]) hplain,
    List.append_nil] at huri
  have hread := Option.some.inj huri
  refine ⟨hmethod, ?_, ?_, hbody, ?_, ?_, fun value hmem => ?_⟩
  · rw [← hread]
    exact destination_backend port _
  · rw [← hread, hpath, List.isEmpty_cons, if_neg Bool.false_ne_true, ← hpath, String.ofList_toList]
  · rw [hheaders]
    exact names_rewriteHost _ _
  · rw [hheaders]
    exact others_rewriteHost _ _
  · rw [hheaders] at hmem
    exact host_rewriteHost _ _ hmem

/-- **`*` goes astray**: behind the port it makes no number, so the client takes port 80. -/
theorem astray_of_asterisk {req : HttpRequest} {req' : BackendRequest} {port : ℕ}
    (htarget : req.target = .asterisk) (h : req.forwardedTo port = some req') :
    req'.uri.destination = 80 ∧ req'.uri.pathAndQuery = "/" := by
  obtain ⟨hfits, huri, -⟩ := forwardedTo_eq_some h
  have hpath : req.path.toList = ['*'] ++ [] := by
    rw [HttpRequest.path, htarget]
    decide
  have hmark : ∀ c ∈ ['*'], endsAuthority c = false := by simp [endsAuthority]
  rw [parse_newUri hfits hpath hmark (by simp) (by simp)] at huri
  have hread := Option.some.inj huri
  refine ⟨?_, by rw [← hread]; rfl⟩
  have hstar : ¬ ((toString port).toList ++ ['*']).all Char.isDigit = true := by
    rw [List.all_append]
    simp
  rw [← hread, Uri.destination, Uri.port, String.toList_ofList, rtakeWhile_backend (by simp),
    if_neg fun hnumber => hstar hnumber.2.2]
  rfl

/-- A request is passed on, unless its URI is too long. -/
theorem exists_forwardedTo {req : HttpRequest} {port : ℕ} (hfits : req.Fits port) :
    ∃ req', req.forwardedTo port = some req' := by
  have hsize : (req.newUri port).utf8ByteSize ≤ MAX_URI_LEN := hfits
  rw [HttpRequest.forwardedTo, Uri.parse, if_pos hsize]
  exact ⟨_, rfl⟩

/-! ## What becomes of a request -/

section Request

variable {req : HttpRequest} {portMap : PortMap} {snapshot : Response} {proxyPort port : ℕ}
  {name : String}

/-- **It is passed on** to the port that is published under the name in its `Host`. -/
theorem handleProxyRequest_eq_forwarded_iff {req' : BackendRequest} :
    handleProxyRequest req portMap snapshot proxyPort = .forwarded name port req' ↔
      extractSubdomain req.host = some name ∧ portMap.lookup name = some port ∧
        req.forwardedTo port = some req' := by
  constructor
  · intro h
    rw [handleProxyRequest] at h
    split at h
    · cases h
    · rename_i hhost
      split at h
      · cases h
      · rename_i hport
        split at h
        · rename_i hreq
          cases h
          exact ⟨hhost, hport, hreq⟩
        · cases h
  · rintro ⟨hhost, hport, hreq⟩
    rw [handleProxyRequest, hhost]
    dsimp only
    rw [hport]
    dsimp only
    rw [hreq]

/-- **The proxy panics** only over a URI for the backend that is too long. -/
theorem not_fits_of_panicked (h : handleProxyRequest req portMap snapshot proxyPort = .panicked) :
    ∃ name port, extractSubdomain req.host = some name ∧ portMap.lookup name = some port ∧
      ¬ req.Fits port := by
  rw [handleProxyRequest] at h
  split at h
  · cases h
  · rename_i hhost
    split at h
    · cases h
    · rename_i port hport
      refine ⟨_, port, hhost, hport, fun hfits => ?_⟩
      obtain ⟨req', hreq⟩ := exists_forwardedTo hfits
      rw [hreq] at h
      cases h

end Request

end AgentProcs
