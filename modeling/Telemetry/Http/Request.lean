import Telemetry.Http.Header
import Telemetry.Http.Target

/-!
# Requests

`RequestInfo` is what events are made from: a read-only view of a request that answers for its
method, host, path, peer and headers. Whatever can give these answers can be reported on.

`InboundRequest` is a request as it came over the wire, with its parts checked: a method token, a
target, headers, and the address of the peer. Its host is that of the target if the target names
one, and that of the `Host` header otherwise; user information is taken off in either case.
-/

namespace Telemetry

/-- The view of a request that events are made from. -/
structure RequestInfo where
  /-- The method token of the request line. -/
  method : String
  /-- The host with its port; empty if it is not known. -/
  host : String
  /-- The path as it was sent, without the query. -/
  path : String
  /-- The address of the peer. -/
  remoteAddress : String
  /-- The value of a header, if it is there. -/
  header : String → Option String

namespace RequestInfo

/-- Host and path: what an event calls the URI of the request. -/
def uri (request : RequestInfo) : String :=
  request.host ++ request.path

/-- The view of a request whose parts are known already. -/
def ofHeaders (method host path remoteAddress : String) (headers : List Header) : RequestInfo where
  method := method
  host := host
  path := path
  remoteAddress := remoteAddress
  header := Header.text? headers

end RequestInfo

/-- A request as it came over the wire. -/
structure InboundRequest where
  method : String
  target : Target
  headers : List Header
  remoteAddress : String
  deriving DecidableEq

/-- The part of a request that is not what it should be. -/
inductive RequestFault where
  | method
  | target
  /-- The name of a header, counted from zero. -/
  | headerName (index : Nat)
  /-- The value of a header, counted from zero. -/
  | headerValue (index : Nat)
  deriving DecidableEq

def RequestFault.message : RequestFault → String
  | .method => "method"
  | .target => "uri"
  | .headerName index => "header name " ++ toString index
  | .headerValue index => "header value " ++ toString index

namespace InboundRequest

/-- Checks headers, numbered on from `index`. -/
def readHeaders (index : Nat) :
    List (List UInt8 × List UInt8) → Except RequestFault (List Header)
  | [] => .ok []
  | (name, value) :: rest =>
    match Header.token? name with
    | none => .error (.headerName index)
    | some name =>
      if Header.isValue value then (readHeaders (index + 1) rest).map (⟨name, value⟩ :: ·)
      else .error (.headerValue index)

/-- The request of these parts, if each is in order: the method, the target, then the headers one
by one. -/
def ofParts (method target : List UInt8) (headers : List (List UInt8 × List UInt8))
    (remoteAddress : String) : Except RequestFault InboundRequest :=
  match Header.token? method with
  | none => .error .method
  | some method =>
    match Target.ofBytes? target with
    | none => .error .target
    | some target => (readHeaders 0 headers).map fun headers =>
        ⟨method, target, headers, remoteAddress⟩

def hostHeader : String := "host"

/-- The host that the request is for; empty if neither its target nor a readable `Host` header
names one. -/
def host (request : InboundRequest) : String :=
  match request.target.authority with
  | some authority => Authority.host authority
  -- a path or an asterisk: the header has to say which host is meant
  | none =>
    match (Header.find? request.headers hostHeader).bind Header.visible? with
    | some authority => Authority.host authority
    | none => ""

def info (request : InboundRequest) : RequestInfo :=
  .ofHeaders request.method request.host request.target.path request.remoteAddress request.headers

@[simp] theorem method_info (request : InboundRequest) : request.info.method = request.method := rfl

@[simp] theorem host_info (request : InboundRequest) : request.info.host = request.host := rfl

@[simp] theorem path_info (request : InboundRequest) :
    request.info.path = request.target.path := rfl

@[simp] theorem header_info (request : InboundRequest) (name : String) :
    request.info.header name = Header.text? request.headers name := rfl

end InboundRequest

end Telemetry
