import Telemetry.Factory.Basic

/-!
# Sessions

A session is a factory at work: a clock, how often it has been read, the configuration in force,
and the events made so far. `step` makes one call and says what came of it; `run` makes calls one
after the other.

A call that puts an event into an envelope names the event itself, or the earlier call that made
it.
-/

namespace Telemetry

/-- The event that goes into an envelope. -/
inductive Subject where
  | given (event : Event)
  /-- The event made by a call of the session, counted from zero. -/
  | madeBy (call : Nat)

/-- One call on a factory. -/
inductive Call where
  | httpStart (request : RequestInfo) (peerType : PeerType) (requestId : CorrelationId)
  | httpStop (request : RequestInfo) (statusCode : Int32) (contentLength : Int64)
      (peerType : PeerType) (requestId : CorrelationId)
  | httpStartStop (request : RequestInfo) (statusCode : Int32) (contentLength : Int64)
      (peerType : PeerType) (requestId : CorrelationId)
  | logMessage (messageType : MessageType) (message : List UInt8) (appId sourceType : String)
  | containerMetric (metric : ContainerMetric)
  | envelope (subject : Subject)
  | configure (config : Config)

/-- What came of a call. -/
inductive Reply where
  | event (event : Event)
  | envelope (envelope : Envelope)
  | configured (config : Config)
  | failed (error : FactoryError)
  /-- The call that should have made the event made none. -/
  | noSuchEvent (call : Nat)
  deriving DecidableEq

def Reply.event? : Reply → Option Event
  | .event e => some e
  | _ => none

/-- A call's reply and what was noted during it. -/
structure Outcome where
  reply : Reply
  log : List LogRecord
  deriving DecidableEq

/-- A factory at work. -/
structure Session where
  clock : Clock
  /-- How often the clock has been read. -/
  taken : Nat
  /-- The configuration in force. -/
  config : Config
  /-- The event that each call made, if it made one. -/
  made : List (Option Event)

namespace Session

def start (clock : Clock) (config : Config) : Session where
  clock := clock
  taken := 0
  config := config
  made := []

/-- Carries out an operation on the clock and an empty log. -/
def perform (s : Session) (making : Making α) (reply : α → Reply) : Session × Outcome :=
  let (result, recorder) := making.run { clock := s.clock, taken := s.taken, log := [] }
  let reply :=
    match result with
    | .ok a => reply a
    | .error error => .failed error
  ({ s with taken := recorder.taken }, ⟨reply, recorder.log⟩)

/-- The event that a subject stands for. -/
def resolve (s : Session) : Subject → Except Nat Event
  | .given event => .ok event
  | .madeBy call =>
    match s.made[call]? with
    | some (some event) => .ok event
    | _ => .error call

/-- What a call does, apart from being remembered. -/
def answer (s : Session) : Call → Session × Outcome
  | .httpStart request peerType requestId =>
    s.perform (Making.httpStart request peerType requestId) fun e => .event (.httpStart e)
  | .httpStop request statusCode contentLength peerType requestId =>
    s.perform (Making.httpStop request statusCode contentLength peerType requestId)
      fun e => .event (.httpStop e)
  | .httpStartStop request statusCode contentLength peerType requestId =>
    s.perform (Making.httpStartStop request statusCode contentLength peerType requestId)
      fun e => .event (.httpStartStop e)
  | .logMessage messageType message appId sourceType =>
    s.perform (Making.logMessage messageType message appId sourceType)
      fun e => .event (.logMessage e)
  | .containerMetric metric => (s, ⟨.event (.containerMetric metric), []⟩)
  | .envelope subject =>
    match s.resolve subject with
    | .ok event => s.perform (Making.envelope s.config event) .envelope
    | .error call => (s, ⟨.noSuchEvent call, []⟩)
  | .configure config => ({ s with config := config }, ⟨.configured config, []⟩)

def step (s : Session) (call : Call) : Session × Outcome :=
  let (next, outcome) := s.answer call
  ({ next with made := next.made ++ [outcome.reply.event?] }, outcome)

def run (s : Session) : List Call → Session × List Outcome
  | [] => (s, [])
  | call :: rest =>
    let (next, outcome) := s.step call
    let (last, outcomes) := next.run rest
    (last, outcome :: outcomes)

def outcomes (s : Session) (calls : List Call) : List Outcome :=
  (s.run calls).2

@[simp] theorem outcomes_nil (s : Session) : s.outcomes [] = [] := rfl

@[simp] theorem outcomes_cons (s : Session) (call : Call) (rest : List Call) :
    s.outcomes (call :: rest) = (s.step call).2 :: (s.step call).1.outcomes rest := rfl

def after (s : Session) (calls : List Call) : Session :=
  (s.run calls).1

@[simp] theorem after_nil (s : Session) : s.after [] = s := rfl

@[simp] theorem after_cons (s : Session) (call : Call) (rest : List Call) :
    s.after (call :: rest) = (s.step call).1.after rest := rfl

end Session

end Telemetry
