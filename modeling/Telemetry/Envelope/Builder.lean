import Telemetry.Envelope.Basic

/-!
# Building envelopes

A builder collects the parts of an envelope. Settings come in any order and any number: of several
for one part the last counts, and tags are added up. Nothing is checked before `build`, which
reports the first part that is lacking: the origin (an empty one counts as none), the timestamp,
the event.
-/

namespace Telemetry

/-- One call on a builder. -/
inductive Setting where
  | origin (text : String)
  | timestamp (time : Int64)
  | deployment (text : String)
  | job (text : String)
  | index (text : String)
  | ip (text : String)
  | tag (key value : String)
  | tags (pairs : List (String × String))
  | event (event : Event)

/-- The parts of an envelope that have been set. -/
structure EnvelopeBuilder where
  origin : Option String := none
  timestamp : Option Int64 := none
  deployment : Option String := none
  job : Option String := none
  index : Option String := none
  ip : Option String := none
  tags : Tags := Tags.empty
  event : Option Event := none
  deriving DecidableEq

namespace EnvelopeBuilder

def empty : EnvelopeBuilder := {}

def set (b : EnvelopeBuilder) : Setting → EnvelopeBuilder
  | .origin text => { b with origin := some text }
  | .timestamp time => { b with timestamp := some time }
  | .deployment text => { b with deployment := some text }
  | .job text => { b with job := some text }
  | .index text => { b with index := some text }
  | .ip text => { b with ip := some text }
  | .tag key value => { b with tags := b.tags.insert key value }
  | .tags pairs => { b with tags := b.tags.insertAll pairs }
  | .event event => { b with event := some event }

def setAll (b : EnvelopeBuilder) (settings : List Setting) : EnvelopeBuilder :=
  settings.foldl set b

/-- The part of a field that an envelope must have. -/
def required (field : RequiredField) : Option α → Except EventError α
  | some a => .ok a
  | none => .error (.missingField field)

/-- **The envelope of the parts**, or the first field that is lacking. -/
def build (b : EnvelopeBuilder) : Except EventError Envelope := do
  let origin ← required .origin (b.origin.filter fun text => !text.isEmpty)
  let timestamp ← required .timestamp b.timestamp
  let event ← required .event b.event
  return {
    origin, timestamp, event
    deployment := b.deployment
    job := b.job
    index := b.index
    ip := b.ip
    tags := b.tags }

@[simp] theorem setAll_nil (b : EnvelopeBuilder) : b.setAll [] = b := rfl

@[simp] theorem setAll_cons (b : EnvelopeBuilder) (s : Setting) (rest : List Setting) :
    b.setAll (s :: rest) = (b.set s).setAll rest := rfl

theorem setAll_append (b : EnvelopeBuilder) (xs ys : List Setting) :
    b.setAll (xs ++ ys) = (b.setAll xs).setAll ys := by
  simp [setAll]

/-- Several tags at once are set as single tags in their order. -/
theorem set_tags (b : EnvelopeBuilder) (pairs : List (String × String)) :
    b.set (.tags pairs) = b.setAll (pairs.map fun pair => .tag pair.1 pair.2) := by
  induction pairs generalizing b with
  | nil => rfl
  | cons pair rest ih =>
    rw [List.map_cons, setAll_cons, ← ih]
    rfl

end EnvelopeBuilder

end Telemetry
