import Telemetry.Event.Payload

/-!
# Events

An event is one of the five payloads. In JSON it is a pair of members: `event_type` names the kind
of the payload and `event` holds it. The two are found in any order among members of other names.
Behind the name the payload is read as it comes; before the name it has to be put aside until the
name is known. Once both are there, neither may come again.

The pair can also be written as an array of the name and the payload.
-/

namespace Telemetry

/-- An event of any kind. -/
inductive Event where
  | httpStart (payload : HttpStart)
  | httpStop (payload : HttpStop)
  | httpStartStop (payload : HttpStartStop)
  | logMessage (payload : LogMessage)
  | containerMetric (payload : ContainerMetric)
  deriving DecidableEq

namespace Event

def eventType : Event → EventType
  | .httpStart _ => .httpStart
  | .httpStop _ => .httpStop
  | .httpStartStop _ => .httpStartStop
  | .logMessage _ => .logMessage
  | .containerMetric _ => .containerMetric

/-! ### Writing -/

/-- The JSON record of the payload. -/
def payload : Event → Json
  | .httpStart e => HttpStart.codec.write e
  | .httpStop e => HttpStop.codec.write e
  | .httpStartStop e => HttpStartStop.codec.write e
  | .logMessage e => LogMessage.codec.write e
  | .containerMetric e => ContainerMetric.codec.write e

/-- The member that names the kind of an event. -/
def tagName : String := "event_type"

/-- The member that holds the payload of an event. -/
def contentName : String := "event"

def members (e : Event) : List (String × Json) :=
  [(tagName, EventType.codec.write e.eventType), (contentName, e.payload)]

/-! ### Reading -/

/-- Reads the payload of an event of the given kind. -/
def readPayload (kind : EventType) (mode : Mode) (raw : Raw) : Except Fault Event :=
  match kind with
  | .httpStart => (HttpStart.codec.read mode raw).map .httpStart
  | .httpStop => (HttpStop.codec.read mode raw).map .httpStop
  | .httpStartStop => (HttpStartStop.codec.read mode raw).map .httpStartStop
  | .logMessage => (LogMessage.codec.read mode raw).map .logMessage
  | .containerMetric => (ContainerMetric.codec.read mode raw).map .containerMetric

/-- The two members that matter. -/
inductive Part where
  | tag | content
  deriving DecidableEq

def Part.name : Part → String
  | .tag => tagName
  | .content => contentName

/-- The part that a member is by its name. -/
def part? (name : String) : Option Part :=
  if name = tagName then some .tag
  else if name = contentName then some .content
  else none

/-- The next member that matters, and the members behind it. Members of other names are skipped;
`none` at the end of the object. -/
def nextPart (ending : Ending) :
    List Raw.Member → Except Fault (Option (Part × Raw × List Raw.Member))
  | [] => do
    ending.used
    return none
  | (key, item) :: rest => do
    let name ← key
    match part? name with
    | some part => return some (part, item, rest)
    | none =>
      item.skip
      nextPart ending rest

/-- Reads to the end of an object in which both parts have been found. -/
def readEnd (ending : Ending) (members : List Raw.Member) : Except Fault Unit := do
  match ← nextPart ending members with
  | none => return ()
  | some (part, _, _) => throw (.misfit (.duplicate part.name))

/-- Reads on behind the name of the kind. -/
def readAfterTag (mode : Mode) (ending : Ending) (kind : EventType) (members : List Raw.Member) :
    Except Fault Event := do
  match ← nextPart ending members with
  | none => throw (.misfit (.missing contentName))
  | some (.tag, _, _) => throw (.misfit (.duplicate tagName))
  | some (.content, item, rest) =>
    let event ← readPayload kind mode item
    readEnd ending rest
    return event

/-- Reads on behind a payload that was put aside. -/
def readAfterContent (mode : Mode) (ending : Ending) (content : Raw) (members : List Raw.Member) :
    Except Fault Event := do
  match ← nextPart ending members with
  | none => throw (.misfit (.missing tagName))
  | some (.content, _, _) => throw (.misfit (.duplicate contentName))
  | some (.tag, item, rest) =>
    let kind ← EventType.codec.read mode item
    let event ← readPayload kind .held content
    readEnd ending rest
    return event

/-- Reads an event from the members of an object. -/
def readMembers (mode : Mode) (ending : Ending) (members : List Raw.Member) :
    Except Fault Event := do
  match ← nextPart ending members with
  | none => throw (.misfit (.missing tagName))
  | some (.tag, item, rest) =>
    let kind ← EventType.codec.read mode item
    readAfterTag mode ending kind rest
  | some (.content, item, rest) =>
    -- the kind is not known yet
    item.buffer Raw.roomInside
    readAfterContent mode ending item rest

/-- What is wrong with an array that ends after `found` of the two elements of an event. -/
def short (found : Nat) : Ending → Fault
  | .closed => .misfit (.shortPair found "Event")
  | .broken tear | .dangling tear => tear.used

/-- Reads an event from the elements of an array. -/
def readElements (mode : Mode) (ending : Ending) : List Raw → Except Fault Event
  | [] => .error (short 0 ending)
  | [tag] => do
    -- the name is read before the payload is found to be missing
    let _ ← Codec.readName EventType.all EventType.wireName tag
    throw (short 1 ending)
  | tag :: content :: rest => do
    let kind ← Codec.readName EventType.all EventType.wireName tag
    let event ← readPayload kind mode content
    Record.surplus mode 2 rest ending
    return event

def read (mode : Mode) : Raw → Except Fault Event
  | .object members ending => readMembers mode ending members
  | .array items ending => readElements mode ending items
  | raw => .error (raw.mismatch (.tagged "Event"))

/-- Events as pairs of a name and a payload. -/
def codec : Codec Event where
  read := read
  write e := .object e.members

/-- The text of the payload alone. -/
def payloadText (e : Event) : List UInt8 :=
  e.payload.render

end Event

end Telemetry
