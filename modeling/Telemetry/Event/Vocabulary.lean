import Telemetry.Json.Codec

/-!
# The closed vocabularies of events

Methods, peer types, message types and event types are enumerations, and each enumeration lists its
values in the order in which a refusal names them. A value has two names, from two sources. How it
is shown is written down value by value. How it is written in JSON is made from its identifier, a
name in mixed case, by one rule for all values of the vocabulary: the words of an identifier become
`snake_case`, `UPPERCASE` or `SCREAMING-KEBAB-CASE`. That both names are the same is a fact about
the tables (`EventType.wireName_eq` and its like), and what is written can be found by what is shown
because of it.

Text that comes from outside is read more generously than JSON: `parse` takes an underscore in the
name of a method for a hyphen, and folds the case of ASCII letters in a peer type or message type.
The JSON readers accept the names alone. Methods are case-sensitive in either reading.

What can go wrong when an event or an envelope is made from texts or fields is an `EventError`.
-/

namespace Telemetry

/-! ### Errors -/

/-- A field without which there is no envelope. -/
inductive RequiredField where
  | origin | timestamp | event
  deriving DecidableEq

def RequiredField.name : RequiredField → String
  | .origin => "origin"
  | .timestamp => "timestamp"
  | .event => "event"

/-- Why an event or an envelope could not be made. Each error keeps what it is about. -/
inductive EventError where
  | unknownMethod (text : String)
  | unknownPeerType (text : String)
  | unknownMessageType (text : String)
  /-- An envelope lacks one of its fields. -/
  | missingField (field : RequiredField)
  /-- A JSON text does not hold what was to be read from it. -/
  | serialization (fault : Fault)
  deriving DecidableEq

/-- The error in words; about a JSON text, those of `Fault.message`. -/
def EventError.message : EventError → String
  | .unknownMethod text => "unknown HTTP method: " ++ text
  | .unknownPeerType text => "unknown peer type: " ++ text
  | .unknownMessageType text => "unknown message type: " ++ text
  | .missingField field => "missing required field: " ++ field.name
  | .serialization fault => "serialization error: " ++ fault.message

/-! ### From identifiers to names -/

namespace Identifier

/-- A character of an identifier behind the first. A capital begins a word and gets the mark. -/
def marked (mark c : Char) : List Char :=
  if c.isUpper then [mark, c] else [c]

/-- The words of an identifier with the mark between them. -/
def divided (mark : Char) (identifier : String) : String :=
  match identifier.toList with
  | [] => ""
  | first :: rest => String.ofList (first :: rest.flatMap (marked mark))

def snakeCase (identifier : String) : String :=
  Ascii.lowered (divided '_' identifier)

def screamingKebabCase (identifier : String) : String :=
  Ascii.raised (divided '-' identifier)

example : snakeCase "HttpStartStop" = "http_start_stop" := by decide +kernel
example : screamingKebabCase "BaselineControl" = "BASELINE-CONTROL" := by decide +kernel

end Identifier

/-! ### Event types -/

/-- What kind of event an envelope carries. -/
inductive EventType where
  | httpStart | httpStop | httpStartStop | logMessage | containerMetric
  deriving DecidableEq

namespace EventType

def name : EventType → String
  | .httpStart => "http_start"
  | .httpStop => "http_stop"
  | .httpStartStop => "http_start_stop"
  | .logMessage => "log_message"
  | .containerMetric => "container_metric"

def identifier : EventType → String
  | .httpStart => "HttpStart"
  | .httpStop => "HttpStop"
  | .httpStartStop => "HttpStartStop"
  | .logMessage => "LogMessage"
  | .containerMetric => "ContainerMetric"

/-- The name in JSON. -/
def wireName (t : EventType) : String :=
  Identifier.snakeCase t.identifier

/-- A value is written as it is shown. -/
theorem wireName_eq (t : EventType) : t.wireName = t.name := by
  cases t <;> decide +kernel

def all : List EventType :=
  [.httpStart, .httpStop, .httpStartStop, .logMessage, .containerMetric]

theorem mem_all (t : EventType) : t ∈ all := by cases t <;> decide

/-- A value is the first of its name, so no two share a name. -/
theorem find?_name (t : EventType) : (all.find? fun u => u.name == t.name) = some t := by
  cases t <;> rfl

instance : ToString EventType := ⟨name⟩

def codec : Codec EventType := .variant all wireName

theorem codec_eq : codec = .variant all name :=
  congrArg (Codec.variant all) (funext wireName_eq)

end EventType

/-! ### Peer types -/

/-- Which side of an exchange an event describes. -/
inductive PeerType where
  | client | server
  deriving DecidableEq

namespace PeerType

def name : PeerType → String
  | .client => "client"
  | .server => "server"

def identifier : PeerType → String
  | .client => "Client"
  | .server => "Server"

/-- The name in JSON. -/
def wireName (t : PeerType) : String :=
  Identifier.snakeCase t.identifier

/-- A value is written as it is shown. -/
theorem wireName_eq (t : PeerType) : t.wireName = t.name := by
  cases t <;> decide +kernel

def all : List PeerType := [.client, .server]

theorem mem_all (t : PeerType) : t ∈ all := by cases t <;> decide

/-- A value is the first of its name, so no two share a name. -/
theorem find?_name (t : PeerType) : (all.find? fun u => u.name == t.name) = some t := by
  cases t <;> rfl

instance : ToString PeerType := ⟨name⟩

def codec : Codec PeerType := .variant all wireName

theorem codec_eq : codec = .variant all name :=
  congrArg (Codec.variant all) (funext wireName_eq)

/-- The peer type of a text, in any case of its letters. -/
def parse (text : String) : Except EventError PeerType :=
  match Ascii.lowered text with
  | "client" => .ok .client
  | "server" => .ok .server
  | _ => .error (.unknownPeerType text)

end PeerType

/-! ### Message types -/

/-- The stream that a log line was written to. -/
inductive MessageType where
  | out | err
  deriving DecidableEq

namespace MessageType

def name : MessageType → String
  | .out => "OUT"
  | .err => "ERR"

def identifier : MessageType → String
  | .out => "Out"
  | .err => "Err"

/-- The name in JSON. -/
def wireName (t : MessageType) : String :=
  Ascii.raised t.identifier

/-- A value is written as it is shown. -/
theorem wireName_eq (t : MessageType) : t.wireName = t.name := by
  cases t <;> decide +kernel

def all : List MessageType := [.out, .err]

theorem mem_all (t : MessageType) : t ∈ all := by cases t <;> decide

/-- A value is the first of its name, so no two share a name. -/
theorem find?_name (t : MessageType) : (all.find? fun u => u.name == t.name) = some t := by
  cases t <;> rfl

instance : ToString MessageType := ⟨name⟩

def codec : Codec MessageType := .variant all wireName

theorem codec_eq : codec = .variant all name :=
  congrArg (Codec.variant all) (funext wireName_eq)

/-- The message type of a text, in any case of its letters. -/
def parse (text : String) : Except EventError MessageType :=
  match Ascii.raised text with
  | "OUT" => .ok .out
  | "ERR" => .ok .err
  | _ => .error (.unknownMessageType text)

end MessageType

/-! ### Methods -/

/-- The HTTP request methods that events know. -/
inductive Method where
  | get | post | put | delete | head | acl | baselineControl | bind | checkin | checkout | connect
  | copy | debug | label | link | lock | merge | mkactivity | mkcalendar | mkcol | mkredirectref
  | mkworkspace | move | options | orderpatch | patch | pri | propfind | proppatch | rebind
  | report | search | showmethod | spacejump | textsearch | trace | track | unbind | uncheckout
  | unlink | unlock | update | updateredirectref | versionControl
  deriving DecidableEq

namespace Method

/-- The token of the method in a request line. -/
def token : Method → String
  | .get => "GET"
  | .post => "POST"
  | .put => "PUT"
  | .delete => "DELETE"
  | .head => "HEAD"
  | .acl => "ACL"
  | .baselineControl => "BASELINE-CONTROL"
  | .bind => "BIND"
  | .checkin => "CHECKIN"
  | .checkout => "CHECKOUT"
  | .connect => "CONNECT"
  | .copy => "COPY"
  | .debug => "DEBUG"
  | .label => "LABEL"
  | .link => "LINK"
  | .lock => "LOCK"
  | .merge => "MERGE"
  | .mkactivity => "MKACTIVITY"
  | .mkcalendar => "MKCALENDAR"
  | .mkcol => "MKCOL"
  | .mkredirectref => "MKREDIRECTREF"
  | .mkworkspace => "MKWORKSPACE"
  | .move => "MOVE"
  | .options => "OPTIONS"
  | .orderpatch => "ORDERPATCH"
  | .patch => "PATCH"
  | .pri => "PRI"
  | .propfind => "PROPFIND"
  | .proppatch => "PROPPATCH"
  | .rebind => "REBIND"
  | .report => "REPORT"
  | .search => "SEARCH"
  | .showmethod => "SHOWMETHOD"
  | .spacejump => "SPACEJUMP"
  | .textsearch => "TEXTSEARCH"
  | .trace => "TRACE"
  | .track => "TRACK"
  | .unbind => "UNBIND"
  | .uncheckout => "UNCHECKOUT"
  | .unlink => "UNLINK"
  | .unlock => "UNLOCK"
  | .update => "UPDATE"
  | .updateredirectref => "UPDATEREDIRECTREF"
  | .versionControl => "VERSION-CONTROL"

def identifier : Method → String
  | .get => "Get"
  | .post => "Post"
  | .put => "Put"
  | .delete => "Delete"
  | .head => "Head"
  | .acl => "Acl"
  | .baselineControl => "BaselineControl"
  | .bind => "Bind"
  | .checkin => "Checkin"
  | .checkout => "Checkout"
  | .connect => "Connect"
  | .copy => "Copy"
  | .debug => "Debug"
  | .label => "Label"
  | .link => "Link"
  | .lock => "Lock"
  | .merge => "Merge"
  | .mkactivity => "Mkactivity"
  | .mkcalendar => "Mkcalendar"
  | .mkcol => "Mkcol"
  | .mkredirectref => "Mkredirectref"
  | .mkworkspace => "Mkworkspace"
  | .move => "Move"
  | .options => "Options"
  | .orderpatch => "Orderpatch"
  | .patch => "Patch"
  | .pri => "Pri"
  | .propfind => "Propfind"
  | .proppatch => "Proppatch"
  | .rebind => "Rebind"
  | .report => "Report"
  | .search => "Search"
  | .showmethod => "Showmethod"
  | .spacejump => "Spacejump"
  | .textsearch => "Textsearch"
  | .trace => "Trace"
  | .track => "Track"
  | .unbind => "Unbind"
  | .uncheckout => "Uncheckout"
  | .unlink => "Unlink"
  | .unlock => "Unlock"
  | .update => "Update"
  | .updateredirectref => "Updateredirectref"
  | .versionControl => "VersionControl"

/-- The name in JSON. -/
def wireName (m : Method) : String :=
  Identifier.screamingKebabCase m.identifier

/-- A value is written as it is shown. -/
theorem wireName_eq (m : Method) : m.wireName = m.token := by
  cases m <;> decide +kernel

def all : List Method :=
  [.get, .post, .put, .delete, .head, .acl, .baselineControl, .bind, .checkin, .checkout,
   .connect, .copy, .debug, .label, .link, .lock, .merge, .mkactivity, .mkcalendar, .mkcol,
   .mkredirectref, .mkworkspace, .move, .options, .orderpatch, .patch, .pri, .propfind,
   .proppatch, .rebind, .report, .search, .showmethod, .spacejump, .textsearch, .trace, .track,
   .unbind, .uncheckout, .unlink, .unlock, .update, .updateredirectref, .versionControl]

theorem mem_all (m : Method) : m ∈ all := by cases m <;> decide

/-- A method is the first of its token, so no two share a token. -/
theorem find?_token (m : Method) : (all.find? fun n => n.token == m.token) = some m := by
  cases m <;> rfl

instance : ToString Method := ⟨token⟩

def codec : Codec Method := .variant all wireName

theorem codec_eq : codec = .variant all token :=
  congrArg (Codec.variant all) (funext wireName_eq)

/-- A text with hyphens for its underscores, which is how tokens are spelled. -/
def hyphenated (text : String) : String :=
  String.ofList (text.toList.map fun c => if c = '_' then '-' else c)

@[simp] theorem toList_hyphenated (text : String) :
    (hyphenated text).toList = text.toList.map fun c => if c = '_' then '-' else c := by
  simp [hyphenated]

def parse (text : String) : Except EventError Method :=
  match all.find? fun m => m.token == hyphenated text with
  | some m => .ok m
  | none => .error (.unknownMethod text)

end Method

end Telemetry
