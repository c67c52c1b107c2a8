import Std.Time.DateTime.Timestamp
import Telemetry.Factory.Basic

/-!
# What surrounds the library

The only effects of the library: reading the wall clock, drawing random bytes, and looking up
variables of the process environment. Each hands its result to a pure function and decides nothing
itself.
-/

namespace Telemetry.Ambient

/-- The time of the wall clock in nanoseconds since the beginning of 1970; the greatest time there
is once it has been passed, in 2262. -/
def now : IO Int64 := do
  let time ← Std.Time.Timestamp.now
  let nanoseconds := time.toNanosecondsSinceUnixEpoch.toInt
  return if nanoseconds ≤ Int64.maxValue.toInt then Int64.ofInt nanoseconds else Int64.maxValue

/-- A new random id. -/
def freshId : IO CorrelationId := do
  let bytes ← IO.getRandomBytes 16
  match CorrelationId.exactly? bytes.data.toList with
  | some bytes => return CorrelationId.ofRandom bytes
  | none => throw (IO.userError "no random bytes")

/-- The variables of the process environment that a configuration is loaded from. -/
def environment : IO Config.Lookup := do
  let values ← Config.variableNames.mapM fun name => do return (name, ← IO.getEnv name)
  return fun name => (values.lookup name).bind id

/-- The configuration of the process environment. -/
def loadConfig : IO (Except ConfigFault Config) := do
  return Config.load (← environment)

/-- Carries out an operation at the present time; also gives the log. -/
def perform (making : Making α) : IO (Except FactoryError α × List LogRecord) := do
  let clock := Clock.fixed (← now)
  let (result, recorder) := making.run { clock, taken := 0, log := [] }
  return (result, recorder.log)

end Telemetry.Ambient
