import AgentProcs.Protocol.Messages
import Mathlib.Data.List.DropRight

/-!
# Daemon/Proxy — from a URL to a process name

    http://api.localhost:9090/path  ──host──▸  api.localhost:9090  ──subdomain──▸  api

A client that opens a URL sends its host part along; the proxy reads a process name out of that.
Which part of a URL is its host is the generic URI syntax: the authority ends at the first `/`, `?`
or `#`, and whatever precedes its last `@` is user information.
-/

namespace AgentProcs

/-- Extract the subdomain from a `Host` header value. -/
def extractSubdomain (host : String) : Option String :=
  let hostname := host.toList.takeWhile (· != ':')
  let parts := hostname.splitOn '.'
  if parts.length < 2 then none
  else if parts.getLast? = some "localhost".toList then
    (parts[parts.length - 2]?).map String.ofList
  else none

end AgentProcs
