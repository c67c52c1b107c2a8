import Telemetry.Proofs.Factory.ClockAccounting

/-!
# What stands on an envelope

An envelope is made with the configuration in force, that is the one installed last. It shows that
configuration and the event to the letter: what the configuration lacks is absent, what it has is
there even if it is empty, and the event is the one that was put in. The only thing that can go
wrong is an empty origin.

A configuration that was loaded has an origin (`Config.Loaded.origin_ne_empty`): the loader refuses
a blank one, and an empty text is blank. The two checks are not the same, since the loader trims and
the builder does not, but the loader's is the stricter. So no envelope is refused as long as only
loaded configurations are installed. `Session.envelope_as_configured` has all of this, at every
moment of a run.
-/

namespace Telemetry

/-! ### Configurations that have an origin -/

namespace Config

/-- The configuration is the default or was loaded from some variables. -/
def Loaded (config : Config) : Prop :=
  config = default ∨ ∃ lookup, load lookup = .ok config

theorem readOrigin_ne_empty {value : Option String} {origin : String}
    (h : readOrigin value = .ok origin) : origin ≠ "" := by
  cases value with
  | none =>
    cases h
    decide
  | some value =>
    rw [readOrigin] at h
    by_cases hblank : Text.isBlankText value
    · rw [if_pos hblank] at h
      cases h
    · rw [if_neg hblank] at h
      cases h
      -- the empty text is blank
      rintro rfl
      exact hblank rfl

/-- The tags of the variables: none if their variable is missing or blank. -/
def loadTags (lookup : Lookup) : Except ConfigFault Tags :=
  ((filled lookup tagsVariable).map readTags).getD (.ok Tags.empty)

/-- Loading, as a whole: first the origin may fail, then the tags, and nothing else. -/
theorem load_eq (lookup : Lookup) :
    load lookup =
      (readOrigin (lookup originVariable)).bind fun origin =>
        (loadTags lookup).map fun tags =>
          { origin, tags
            deployment := filled lookup deploymentVariable
            job := filled lookup jobVariable
            index := filled lookup indexVariable
            ip := filled lookup ipVariable } := by
  rw [load, loadTags]
  cases filled lookup tagsVariable <;> rfl

/-- The origin of a loaded configuration is what was read of its variable. -/
theorem readOrigin_of_load {lookup : Lookup} {config : Config} (h : load lookup = .ok config) :
    readOrigin (lookup originVariable) = .ok config.origin := by
  rw [load_eq] at h
  -- loading has come as far as the tags, so the origin was read, and it is kept
  cases horigin : readOrigin (lookup originVariable) with
  | error fault =>
    rw [horigin] at h
    cases h
  | ok origin =>
    cases htags : loadTags lookup with
    | error fault =>
      rw [horigin, htags] at h
      cases h
    | ok tags =>
      rw [horigin, htags] at h
      cases h
      rfl

theorem Loaded.origin_ne_empty {config : Config} (h : config.Loaded) : config.origin ≠ "" := by
  rcases h with rfl | ⟨lookup, hload⟩
  · decide
  · exact readOrigin_ne_empty (readOrigin_of_load hload)

end Config

namespace Session

/-! ### The configuration in force -/

/-- The configurations that the calls install, in order. -/
def installed (calls : List Call) : List Config :=
  calls.filterMap fun
    | .configure config => some config
    | _ => none

/-- The configuration changes only if one is installed. -/
theorem config_answer (s : Session) (call : Call) :
    (s.answer call).1.config = (installed [call]).getLastD s.config := by
  cases call with
  | envelope subject =>
    rw [answer]
    -- an envelope leaves the configuration alone, whether or not there is an event to put in
    split <;> rfl
  | _ => rfl

/-- **The configuration in force** is the one installed last. -/
theorem config_after (s : Session) (calls : List Call) :
    (s.after calls).config = (installed calls).getLastD s.config := by
  -- The session varies: it is the configuration behind the first call that the rest goes on with.
  induction calls generalizing s with
  | nil => rfl
  | cons call rest ih =>
    have hstep : (s.step call).1.config = (installed [call]).getLastD s.config :=
      s.config_answer call
    rw [after_cons, ih, hstep]
    cases call with
    -- what is installed now is in force until something else is installed
    | configure config => exact List.getLastD_cons.symm
    | _ => rfl

/-! ### One envelope -/

/-- The reply to a call that puts an event into an envelope, at a reading of the clock. -/
def wrapped (config : Config) (event : Event) (time : Int64) : Reply :=
  if config.origin = "" then .failed (.event (.missingField .origin))
  else .envelope (Making.enveloped config event time)

/-- Putting an event into an envelope takes a reading and notes nothing, whatever comes of it. -/
theorem answer_envelope_eq {s : Session} {subject : Subject} {event : Event}
    (h : s.resolve subject = .ok event) :
    s.answer (.envelope subject) =
      ({ s with taken := s.taken + 1 },
        ⟨wrapped s.config event (s.clock.reading s.taken), []⟩) := by
  have hrun := Making.envelope_run ⟨s.clock, s.taken, []⟩ s.config event
  rw [answer_envelope h, wrapped]
  -- the reading has been taken by then
  by_cases horigin : s.config.origin = ""
  · rw [if_pos horigin] at hrun ⊢
    exact perform_of_error hrun
  · rw [if_neg horigin] at hrun ⊢
    exact perform_of_ok hrun

/-- An envelope is refused exactly if the origin is empty, and for no other reason. -/
theorem wrapped_eq_failed_iff {config : Config} {event : Event} {time : Int64}
    {error : FactoryError} :
    wrapped config event time = .failed error ↔
      config.origin = "" ∧ error = .event (.missingField .origin) := by
  rw [wrapped]
  by_cases horigin : config.origin = ""
  · rw [if_pos horigin, Reply.failed.injEq]
    exact ⟨fun h => ⟨horigin, h.symm⟩, fun h => h.2.symm⟩
  · rw [if_neg horigin]
    exact ⟨fun h => (Reply.noConfusion h), fun h => absurd h.1 horigin⟩

/-- The envelope shows the event and the configuration to the letter. -/
structure Shows (envelope : Envelope) (config : Config) (event : Event) : Prop where
  eventType : envelope.eventType = event.eventType
  event : envelope.event = event
  origin : envelope.origin = config.origin
  deployment : envelope.deployment = config.deployment
  job : envelope.job = config.job
  index : envelope.index = config.index
  ip : envelope.ip = config.ip
  tags : envelope.tags = config.tags

theorem exists_of_origin {config : Config} (h : config.origin ≠ "") (event : Event)
    (time : Int64) :
    ∃ e, wrapped config event time = .envelope e ∧ Shows e config event :=
  ⟨Making.enveloped config event time, if_neg h, ⟨rfl, rfl, rfl, rfl, rfl, rfl, rfl, rfl⟩⟩

/-- **Envelopes are made as configured.** At any moment of a run an event that is put into an
envelope is refused if the origin in force is empty, with the origin as the missing field, and for
no other reason; otherwise the envelope shows the event and the configuration in force. As long as
only loaded configurations have been installed there is always an envelope. -/
theorem envelope_as_configured (clock : Clock) (config : Config) (calls : List Call) :
    let s := start clock config
    ∀ n subject event, calls[n]? = some (.envelope subject) →
      (s.after (calls.take n)).resolve subject = .ok event →
      let inForce := (installed (calls.take n)).getLastD config
      ∃ outcome, (s.outcomes calls)[n]? = some outcome ∧
        (∀ error, outcome.reply = .failed error ↔
          inForce.origin = "" ∧ error = .event (.missingField .origin)) ∧
        (inForce.origin ≠ "" → ∃ e, outcome.reply = .envelope e ∧ Shows e inForce event) ∧
        ((∀ c ∈ config :: installed (calls.take n), c.Loaded) →
          ∃ e, outcome.reply = .envelope e ∧ Shows e inForce event) := by
  intro s n subject event hcall hevent inForce
  have hconfig : (s.after (calls.take n)).config = inForce := s.config_after _
  have hanswer := answer_envelope_eq hevent
  refine ⟨_, s.outcomes_at hcall, ?_⟩
  rw [step, hanswer, hconfig]
  refine ⟨fun error => wrapped_eq_failed_iff, fun horigin => exists_of_origin horigin event _, ?_⟩
  intro hloaded
  -- the configuration in force is that of the beginning or one of those installed since
  have hmem : inForce ∈ config :: installed (calls.take n) := List.getLastD_mem_cons
  exact exists_of_origin (hloaded inForce hmem).origin_ne_empty event _

/-- Variables that give an origin with white space around it, and a blank job. -/
def paddedVariables : Config.Lookup
  | "SONDE_ORIGIN" => some " router "
  | "SONDE_JOB" => some " "
  | _ => none

/-- One event, put into an envelope under three configurations. -/
def reconfiguredCalls : List Call :=
  [.logMessage .out [104, 105] "app" "APP",
    .envelope (.madeBy 0),
    .configure { origin := "", job := some "z1" },
    .envelope (.madeBy 0),
    .configure { origin := " ", job := some "" },
    .envelope (.madeBy 0)]

/-- The origin that was loaded keeps its white space; an empty one is refused; a blank one that was
not loaded is not, and an empty job stays there. -/
theorem envelope_as_configured_reconfigured :
    let loaded : Config := { origin := " router " }
    let s := start (.ticking 100 10) loaded
    Config.load paddedVariables = .ok loaded ∧
      (∃ outcome e, (s.outcomes reconfiguredCalls)[1]? = some outcome ∧
        outcome.reply = .envelope e ∧ e.origin = " router " ∧ e.job = none) ∧
      (∃ outcome, (s.outcomes reconfiguredCalls)[3]? = some outcome ∧
        outcome.reply = .failed (.event (.missingField .origin))) ∧
      ∃ outcome e, (s.outcomes reconfiguredCalls)[5]? = some outcome ∧
        outcome.reply = .envelope e ∧ e.origin = " " ∧ e.job = some "" := by
  intro loaded s
  have hload : Config.load paddedVariables = .ok loaded := by rfl
  let event : Event := .logMessage
    { message := [104, 105], messageType := .out, timestamp := 100, appId := "app"
      sourceType := "APP", sourceInstance := none }
  have hall := envelope_as_configured (.ticking 100 10) loaded reconfiguredCalls
  obtain ⟨first, hfirst, -, -, hshown⟩ := hall 1 _ event rfl (by rfl)
  obtain ⟨second, hsecond, hfailed, -⟩ := hall 3 _ event rfl (by rfl)
  obtain ⟨third, hthird, -, hmade, -⟩ := hall 5 _ event rfl (by rfl)
  refine ⟨hload, ⟨first, ?_⟩, ⟨second, hsecond, (hfailed _).mpr ⟨rfl, rfl⟩⟩, third, ?_⟩
  · -- only one configuration has been in force so far, and it was loaded
    have hloaded : ∀ c ∈ [loaded], c.Loaded := by
      intro c hc
      rw [List.mem_singleton.mp hc]
      exact .inr ⟨paddedVariables, hload⟩
    obtain ⟨e, he, hshows⟩ := hshown hloaded
    exact ⟨e, hfirst, he, hshows.origin, hshows.job⟩
  · obtain ⟨e, he, hshows⟩ := hmade (by decide)
    exact ⟨e, hthird, he, hshows.origin, hshows.job⟩

end Session

end Telemetry
