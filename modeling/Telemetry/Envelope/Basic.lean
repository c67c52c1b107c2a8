import Telemetry.Envelope.Tags
import Telemetry.Event.Basic

/-!
# Envelopes

An envelope carries one event together with metadata about the component that emitted it. In JSON
the two members of the event stand beside the members of the metadata, in one object.

The reader takes the metadata as it comes and puts every other member aside. When the object has
been read to its end and no metadata is missing, the event is read from what was put aside. An
envelope is never written as an array. Reading does not refuse an empty origin; that is the
builder's business.
-/

namespace Telemetry

/-- An event with its metadata. -/
structure Envelope where
  /-- The component that emitted the event. -/
  origin : String
  /-- When the envelope was stamped, in nanoseconds since the beginning of 1970. -/
  timestamp : Int64
  deployment : Option String
  job : Option String
  index : Option String
  ip : Option String
  tags : Tags
  event : Event
  deriving DecidableEq

namespace Envelope

def eventType (e : Envelope) : EventType :=
  e.event.eventType

/-- The members of the metadata. -/
abbrev fields : List Field :=
  [⟨"origin", String, .text⟩,
   ⟨"timestamp", Int64, .signed64⟩,
   ⟨"deployment", Option String, .optional .text⟩,
   ⟨"job", Option String, .optional .text⟩,
   ⟨"index", Option String, .optional .text⟩,
   ⟨"ip", Option String, .optional .text⟩,
   ⟨"tags", Tags, Tags.codec⟩]

def toRow (e : Envelope) : Row fields :=
  (e.origin, e.timestamp, e.deployment, e.job, e.index, e.ip, e.tags, ())

def ofRow (event : Event) : Row fields → Envelope
  | (origin, timestamp, deployment, job, index, ip, tags, ()) =>
    ⟨origin, timestamp, deployment, job, index, ip, tags, event⟩

@[simp] theorem ofRow_toRow (e : Envelope) : ofRow e.event e.toRow = e := rfl

/-- The members of the envelope: first the metadata, then the event. -/
def members (e : Envelope) : List (String × Json) :=
  Record.write fields e.toRow ++ e.event.members

/-- Reads the metadata among the members of an object, and checks the members that are put
aside. -/
def readMembers : Slots fields → List Raw.Member → Except Fault (Slots fields × List Raw.Member)
  | slots, [] => .ok (slots, [])
  | slots, (key, item) :: rest => do
    let name ← key
    match Record.accept? .direct name item fields slots with
    | some read =>
      let slots ← read
      readMembers slots rest
    | none =>
      -- a member of the event, or of a name that nobody asked for
      item.buffer Raw.roomInside
      let (slots, held) ← readMembers slots rest
      return (slots, (key, item) :: held)

def read : Raw → Except Fault Envelope
  | .object members ending => do
    let (slots, held) ← readMembers (Record.vacant fields) members
    ending.used
    -- missing metadata is reported before the event is looked at
    let row ← Record.finish fields slots
    let event ← Event.readMembers .held .closed held
    return ofRow event row
  | raw => .error (raw.mismatch (.record "Envelope"))

def codec : Codec Envelope where
  read _ raw := read raw
  write e := .object e.members

/-- The JSON text of the envelope. -/
def toText (e : Envelope) : List UInt8 :=
  codec.toText e

/-- The envelope of a JSON text. -/
def ofText (text : List UInt8) : Except EventError Envelope :=
  (codec.ofText text).mapError .serialization

end Envelope

end Telemetry
