import Telemetry.Envelope.Tags
import Telemetry.Text.Blank

/-!
# Configuration

The configuration is the metadata that goes into every envelope. It is loaded from six variables,
found by any `Lookup`; other variables do not matter.

Blank values are treated in three ways. The origin has a default for when its variable is missing,
but must not be blank. The other texts count as missing when they are blank. A value that is not
blank is kept as it is, white space included.

Tags are written as `key=value` entries between commas. White space around an entry, a key or a
value is dropped, and so is an entry without anything else. The key ends at the first `=`. The
first entry that is malformed is reported.
-/

namespace Telemetry

/-- What is wrong with a configuration. -/
inductive ConfigFault where
  | emptyOrigin
  /-- An entry of the tags has no equals sign. -/
  | tagWithoutEquals (entry : String)
  /-- An entry of the tags has nothing before its equals sign. -/
  | tagWithEmptyKey (entry : String)
  deriving DecidableEq

namespace Config

/-- The names of the variables. -/
def originVariable : String := "SONDE_ORIGIN"
def deploymentVariable : String := "SONDE_DEPLOYMENT"
def jobVariable : String := "SONDE_JOB"
def indexVariable : String := "SONDE_INDEX"
def ipVariable : String := "SONDE_IP"
def tagsVariable : String := "SONDE_TAGS"

def variableNames : List String :=
  [originVariable, deploymentVariable, jobVariable, indexVariable, ipVariable, tagsVariable]

def defaultOrigin : String := "sonde"

end Config

def ConfigFault.message : ConfigFault → String
  | .emptyOrigin => Config.originVariable ++ " cannot be empty"
  | .tagWithoutEquals entry => Config.tagsVariable ++ " entry '" ++ entry ++ "' must be key=value"
  | .tagWithEmptyKey entry => Config.tagsVariable ++ " entry '" ++ entry ++ "' has an empty key"

/-- The metadata of envelopes. -/
structure Config where
  origin : String := Config.defaultOrigin
  deployment : Option String := none
  job : Option String := none
  index : Option String := none
  ip : Option String := none
  tags : Tags := Tags.empty
  deriving DecidableEq

namespace Config

def default : Config := {}

/-! ### Tags -/

/-- The pieces of a text between the separators. -/
def pieces (separator : Char) : List Char → List (List Char)
  | [] => [[]]
  | c :: rest =>
    if c = separator then [] :: pieces separator rest
    else
      match pieces separator rest with
      | [] => [[c]]
      | piece :: more => (c :: piece) :: more

/-- The entries of a tags text: its pieces between commas, trimmed, less the empty ones. -/
def entries (text : List Char) : List (List Char) :=
  ((pieces ',' text).map Text.trim).filter fun entry => !entry.isEmpty

def readEntry (entry : List Char) : Except ConfigFault (String × String) :=
  match entry.dropWhile (· ≠ '=') with
  | [] => .error (.tagWithoutEquals (String.ofList entry))
  | _ :: value =>
    -- further equals signs belong to the value
    let key := Text.trim (entry.takeWhile (· ≠ '='))
    if key.isEmpty then .error (.tagWithEmptyKey (String.ofList entry))
    else .ok (String.ofList key, String.ofList (Text.trim value))

/-- Reads entries up to the first that is malformed. -/
def readEntries : List (List Char) → Except ConfigFault (List (String × String))
  | [] => .ok []
  | entry :: rest => do
    let pair ← readEntry entry
    let more ← readEntries rest
    return pair :: more

def readTags (text : String) : Except ConfigFault Tags :=
  (readEntries (entries text.toList)).map Tags.ofList

/-! ### Loading -/

/-- The value of each variable, if it is set. -/
abbrev Lookup := String → Option String

/-- The value of a variable that is set and not blank. -/
def filled (lookup : Lookup) (name : String) : Option String :=
  (lookup name).filter fun value => !Text.isBlankText value

/-- The origin: the value of its variable, which must not be blank, or the default. -/
def readOrigin : Option String → Except ConfigFault String
  | none => .ok defaultOrigin
  | some value => if Text.isBlankText value then .error .emptyOrigin else .ok value

/-- **Loads a configuration.** A blank origin is reported before malformed tags. -/
def load (lookup : Lookup) : Except ConfigFault Config := do
  let origin ← readOrigin (lookup originVariable)
  let tags ←
    match filled lookup tagsVariable with
    | some text => readTags text
    | none => pure Tags.empty
  return {
    origin, tags
    deployment := filled lookup deploymentVariable
    job := filled lookup jobVariable
    index := filled lookup indexVariable
    ip := filled lookup ipVariable }

end Config

end Telemetry
