import Telemetry.Factory.Session
import Telemetry.Ambient
import Telemetry.Proofs.RoundTrip
import Telemetry.Proofs.Id.Text
import Telemetry.Proofs.Factory.Privacy
import Telemetry.Proofs.Factory.HeaderRules
import Telemetry.Proofs.Factory.ClockAccounting
import Telemetry.Proofs.Factory.Wrapping
import Telemetry.Proofs.Factory.Noninterference
import Telemetry.Proofs.Factory.Agreement
import Telemetry.Proofs.Envelope.Builder
import Telemetry.Proofs.Kinds
import Telemetry.Proofs.Omission
import Telemetry.Proofs.Factory.TagEntries
import Telemetry.Proofs.Decimal.Signed
import Telemetry.Proofs.Factory.InstanceIndex
import Telemetry.Proofs.Factory.Loading
import Telemetry.Proofs.Json.Around
import Telemetry.Proofs.Json.Gap
import Telemetry.Proofs.Json.Spot
import Telemetry.Proofs.Event.Integers
import Telemetry.Proofs.Integers
import Telemetry.Proofs.Id.Order
import Telemetry.Proofs.Factory.HeaderList
import Telemetry.Proofs.Factory.Trace
import Telemetry.Proofs.Event.Vocabulary
