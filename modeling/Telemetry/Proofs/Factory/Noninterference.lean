import Telemetry.Proofs.Factory.Wrapping

/-!
# Configuration does not show in events

Configurations may be installed anywhere in a run. What is left of the run without them is its
`script`: the calls that do something, in order, where a call that is referred to is counted among
these. Two runs with one script make the same calls.

The argument compares a run with the run of its script on one fixed configuration. The two keep in
step (`Session.InStep`): they have read the clock equally often, and what the one has made is what
the other has made, apart from the places where a configuration was installed. A call that makes an
event does not look at the configuration at all. A call that makes an envelope does, but only after
it has read the clock, so it takes its reading even if it is refused; that is what keeps the runs
in step.

Since a run agrees with its script whatever is installed, two runs with one script agree with each
other: `Session.events_ignore_configuration`.
-/

namespace Telemetry

/-! ### The script of a run -/

/-- The call does something other than install a configuration. -/
def Call.works : Call → Bool
  | .configure _ => false
  | _ => true

/-- The number of an earlier call among the calls that work. What does not work makes no event, and
neither does a call that is not made yet; the number of the present call stands for these. -/
def Subject.renumber (before : List Call) : Subject → Subject
  | .given event => .given event
  | .madeBy call =>
    if before[call]?.any Call.works then .madeBy ((before.take call).countP Call.works)
    else .madeBy (before.countP Call.works)

def Call.renumber (before : List Call) : Call → Call
  | .envelope subject => .envelope (subject.renumber before)
  | call => call

/-- The calls that work among those that come after `before`, renumbered. -/
def scriptAfter (before : List Call) : List Call → List Call
  | [] => []
  | call :: rest =>
    if call.works then call.renumber before :: scriptAfter (before ++ [call]) rest
    else scriptAfter (before ++ [call]) rest

/-- **The script of a run**: its calls without the configurations that are installed. -/
def script (calls : List Call) : List Call :=
  scriptAfter [] calls

theorem works_renumber (before : List Call) (call : Call) :
    (call.renumber before).works = call.works := by
  cases call <;> rfl

theorem works_of_mem_scriptAfter {before calls : List Call} {call : Call}
    (h : call ∈ scriptAfter before calls) : call.works := by
  -- The calls before vary: the first call joins them on the way.
  induction calls generalizing before with
  | nil => cases h
  | cons first rest ih =>
    rw [scriptAfter] at h
    by_cases hworks : first.works
    · rw [if_pos hworks, List.mem_cons] at h
      rcases h with rfl | h
      · rw [works_renumber, hworks]
      · exact ih h
    · rw [if_neg hworks] at h
      exact ih h

/-- Of the entries for calls, those for the calls that work. -/
def working : List Call → List α → List α
  | call :: calls, a :: as => if call.works then a :: working calls as else working calls as
  | _, _ => []

theorem working_append {calls : List Call} {as : List α} (h : as.length = calls.length)
    (call : Call) (a : α) :
    working (calls ++ [call]) (as ++ [a]) = working calls as ++ working [call] [a] := by
  -- Both lists lose their first entry at once, whether or not it is kept.
  induction calls generalizing as with
  | nil =>
    obtain rfl : as = [] := List.length_eq_zero_iff.mp h
    rfl
  | cons first calls ih =>
    obtain ⟨b, bs, rfl⟩ := List.exists_cons_of_length_eq_add_one h
    have htail := ih (Nat.succ.inj h)
    rw [List.cons_append, List.cons_append, working, working, htail]
    by_cases hworks : first.works
    · rw [if_pos hworks, if_pos hworks]
      rfl
    · rw [if_neg hworks, if_neg hworks]

theorem length_working {calls : List Call} {as : List α} (h : as.length = calls.length) :
    (working calls as).length = calls.countP Call.works := by
  induction calls generalizing as with
  | nil => rfl
  | cons first calls ih =>
    obtain ⟨b, bs, rfl⟩ := List.exists_cons_of_length_eq_add_one h
    have htail := ih (Nat.succ.inj h)
    rw [working, List.countP_cons]
    by_cases hworks : first.works
    · rw [if_pos hworks, if_pos hworks, List.length_cons, htail]
    · rw [if_neg hworks, if_neg hworks, htail, Nat.add_zero]

/-- The entry for a call that works is found under its number. -/
theorem working_getElem? {calls : List Call} {as : List α} (h : as.length = calls.length) {k : Nat}
    {call : Call} (hcall : calls[k]? = some call) (hworks : call.works) :
    (working calls as)[(calls.take k).countP Call.works]? = as[k]? := by
  induction calls generalizing as k with
  | nil => cases hcall
  | cons first calls ih =>
    obtain ⟨b, bs, rfl⟩ := List.exists_cons_of_length_eq_add_one h
    cases k with
    -- the call itself is the first one, and nothing that works comes before it
    | zero =>
      obtain rfl : first = call := Option.some.inj hcall
      rw [working, if_pos hworks]
      rfl
    | succ k =>
      -- the first call shifts the numbers by one if it works, and by nothing if it does not
      have htail := ih (Nat.succ.inj h) hcall
      rw [working, List.take_succ_cons, List.countP_cons]
      by_cases hfirst : first.works
      · rw [if_pos hfirst, if_pos hfirst, List.getElem?_cons_succ, htail]
        rfl
      · rw [if_neg hfirst, if_neg hfirst, Nat.add_zero, htail]
        rfl

namespace Session

/-! ### Keeping in step -/

/-- There is an entry for each of the calls, and none of a call that does no work. -/
structure Recorded (calls : List Call) (made : List (Option Event)) : Prop where
  length_eq : made.length = calls.length
  idle : ∀ (k : Nat) (call : Call), calls[k]? = some call → call.works = false →
    made[k]? = some none

theorem Recorded.append {calls : List Call} {made : List (Option Event)} (h : Recorded calls made)
    {call : Call} {event : Option Event} (hevent : call.works = false → event = none) :
    Recorded (calls ++ [call]) (made ++ [event]) where
  length_eq := by
    rw [List.length_append, List.length_append, h.length_eq]
    rfl
  idle := by
    intro k other hother hidle
    rw [List.getElem?_append] at hother ⊢
    rw [h.length_eq]
    -- an entry of before stays where it was
    by_cases hk : k < calls.length
    · rw [if_pos hk] at hother ⊢
      exact h.idle k other hother hidle
    · rw [if_neg hk] at hother ⊢
      -- the only entry left is the one that is added
      rw [List.getElem?_singleton] at hother ⊢
      by_cases hlast : k - calls.length = 0
      · rw [if_pos hlast] at hother ⊢
        cases hother
        rw [hevent hidle]
      · rw [if_neg hlast] at hother
        cases hother

/-- The run of `s` has made the calls `before`, and `t` has made their script. -/
structure InStep (before : List Call) (s t : Session) : Prop where
  clock : s.clock = t.clock
  taken : s.taken = t.taken
  recorded : Recorded before s.made
  made : working before s.made = t.made

theorem inStep_start (clock : Clock) (config config' : Config) :
    InStep [] (start clock config) (start clock config') where
  clock := rfl
  taken := rfl
  recorded := ⟨rfl, fun _ _ h => nomatch h⟩
  made := rfl

/-- The subjects stand for one event, or neither stands for any. -/
def SameSubject (s t : Session) (subject subject' : Subject) : Prop :=
  (∃ event, s.resolve subject = .ok event ∧ t.resolve subject' = .ok event) ∨
    ∃ call call', s.resolve subject = .error call ∧ t.resolve subject' = .error call'

theorem resolve_madeBy (s : Session) (k : Nat) :
    s.resolve (.madeBy k) =
      match s.made[k]?.join with
      | some event => .ok event
      | none => .error k := by
  rw [resolve]
  rcases s.made[k]? with _ | _ | event <;> rfl

/-- A call that is not made yet, or that installed a configuration, has made no event. -/
theorem InStep.not_made {before : List Call} {s t : Session} (h : InStep before s t) {k : Nat}
    (hk : before[k]?.any Call.works = false) : s.made[k]?.join = none := by
  -- There is no such call yet, or it installed a configuration; either way there is no event.
  rcases hcall : before[k]? with _ | call
  · rw [List.getElem?_eq_none (h.recorded.length_eq ▸ List.getElem?_eq_none_iff.mp hcall)]
    rfl
  · rw [hcall, Option.any_some] at hk
    rw [h.recorded.idle k call hcall hk]
    rfl

/-- A subject stands for the same event in both runs. -/
theorem InStep.sameSubject {before : List Call} {s t : Session} (h : InStep before s t)
    (subject : Subject) : SameSubject s t subject (subject.renumber before) := by
  cases subject with
  | given event => exact .inl ⟨event, rfl, rfl⟩
  | madeBy k =>
    rw [Subject.renumber]
    by_cases hk : before[k]?.any Call.works
    · -- an earlier call that works has one entry in both runs
      obtain ⟨call, hcall, hworks⟩ := (Option.any_eq_true ..).mp hk
      have hsame : t.made[(before.take k).countP Call.works]? = s.made[k]? := by
        rw [← h.made, working_getElem? h.recorded.length_eq hcall hworks]
      rw [if_pos hk, SameSubject, resolve_madeBy, resolve_madeBy, hsame]
      cases s.made[k]?.join with
      | some event => exact .inl ⟨event, rfl, rfl⟩
      | none => exact .inr ⟨_, _, rfl, rfl⟩
    · -- the number of the present call stands for nothing that the script has made
      have hs := h.not_made (Bool.eq_false_iff.mpr hk)
      have ht : t.made[before.countP Call.works]? = none := by
        rw [← h.made, List.getElem?_eq_none (Nat.le_of_eq (length_working h.recorded.length_eq))]
      rw [if_neg hk, SameSubject, resolve_madeBy, resolve_madeBy, hs, ht]
      exact .inr ⟨_, _, rfl, rfl⟩

/-- The runs stay in step over a call that works if it takes as many readings in both and makes the
same event. -/
theorem InStep.extend {before : List Call} {s t : Session} (h : InStep before s t)
    {call call' : Call} (hworks : call.works)
    (htaken : (s.answer call).1.taken = (t.answer call').1.taken)
    (hevent : (s.answer call).2.reply.event? = (t.answer call').2.reply.event?) :
    InStep (before ++ [call]) (s.step call).1 (t.step call').1 where
  clock := by rw [clock_step, clock_step, h.clock]
  taken := htaken
  recorded := by
    change Recorded _ ((s.answer call).1.made ++ [_])
    rw [made_answer]
    refine h.recorded.append fun hidle => ?_
    rw [hworks] at hidle
    cases hidle
  made := by
    -- the entry that is added counts in both, because the call works
    change working (before ++ [call]) ((s.answer call).1.made ++ [(s.answer call).2.reply.event?]) =
      (t.answer call').1.made ++ [(t.answer call').2.reply.event?]
    rw [made_answer, made_answer, working_append h.recorded.length_eq, h.made, hevent, working,
      if_pos hworks]
    rfl

/-- The runs stay in step if the one installs a configuration and the other does nothing. -/
theorem InStep.install {before : List Call} {s t : Session} (h : InStep before s t)
    (config : Config) :
    InStep (before ++ [.configure config]) (s.step (.configure config)).1 t where
  clock := h.clock
  taken := h.taken
  recorded := h.recorded.append fun _ => rfl
  made := by
    change working _ (s.made ++ [none]) = _
    rw [working_append h.recorded.length_eq, h.made]
    exact List.append_nil _

/-! ### One call -/

end Session

/-- The reply is that of an envelope call with this reading and this event. Whether the origin is
refused, and what else stands on the envelope, is left open. -/
def Reply.Wraps (time : Int64) (event : Event) (reply : Reply) : Prop :=
  reply = .failed (.event (.missingField .origin)) ∨
    ∃ e, reply = .envelope e ∧ e.timestamp = time ∧ e.event = event

/-- Two outcomes of a call are the same; of an envelope call they may differ in the metadata of the
envelope, and in whether there is one. -/
def Call.SameButMetadata (call : Call) (o o' : Outcome) : Prop :=
  match call with
  | .envelope _ =>
    o.log = o'.log ∧
      ((∃ time event, o.reply.Wraps time event ∧ o'.reply.Wraps time event) ∨
        ∃ n n', o.reply = .noSuchEvent n ∧ o'.reply = .noSuchEvent n')
  | _ => o = o'

namespace Session

theorem wraps_wrapped (config : Config) (event : Event) (time : Int64) :
    (wrapped config event time).Wraps time event := by
  -- with an origin there is an envelope, without one it is refused
  by_cases horigin : config.origin = ""
  · exact .inl (if_pos horigin)
  · exact .inr ⟨_, if_neg horigin, rfl, rfl⟩

theorem event?_wrapped (config : Config) (event : Event) (time : Int64) :
    (wrapped config event time).event? = none := by
  by_cases horigin : config.origin = ""
  · rw [wrapped, if_pos horigin]
    rfl
  · rw [wrapped, if_neg horigin]
    rfl

/-- Two answers take as many readings, make the same event and differ in metadata at most. -/
structure SameAnswer (call : Call) (a b : Session × Outcome) : Prop where
  taken : a.1.taken = b.1.taken
  event : a.2.reply.event? = b.2.reply.event?
  outcome : call.SameButMetadata a.2 b.2

theorem InStep.sameAnswer_envelope {before : List Call} {s t : Session} (h : InStep before s t)
    (subject : Subject) :
    SameAnswer (.envelope (subject.renumber before)) (s.answer (.envelope subject))
      (t.answer (.envelope (subject.renumber before))) := by
  rcases h.sameSubject subject with ⟨event, hs, ht⟩ | ⟨n, n', hs, ht⟩
  · -- the reading is taken before the origin is looked at
    rw [answer_envelope_eq hs, answer_envelope_eq ht, h.taken, h.clock]
    exact ⟨rfl, by rw [event?_wrapped, event?_wrapped], rfl,
      .inl ⟨_, event, wraps_wrapped .., wraps_wrapped ..⟩⟩
  · -- neither run has an event to put in, and no reading is taken
    rw [answer, answer, hs, ht]
    exact ⟨h.taken, rfl, rfl, .inr ⟨n, n', rfl, rfl⟩⟩

/-- An operation that is not told the configuration does the same in both runs. -/
theorem InStep.sameAnswer_perform {before : List Call} {s t : Session} (h : InStep before s t)
    (call : Call) (hsame : ∀ o, call.SameButMetadata o o) (making : Making α) (reply : α → Reply) :
    SameAnswer call (s.perform making reply) (t.perform making reply) := by
  rw [perform, perform, h.clock, h.taken]
  exact ⟨rfl, rfl, hsame _⟩

theorem InStep.sameAnswer {before : List Call} {s t : Session} (h : InStep before s t)
    {call : Call} (hworks : call.works) :
    SameAnswer (call.renumber before) (s.answer call) (t.answer (call.renumber before)) := by
  -- Only an envelope is made with the configuration; all other operations are not told it.
  cases call with
  | configure config => cases hworks
  | envelope subject => exact h.sameAnswer_envelope subject
  | containerMetric metric => exact ⟨h.taken, rfl, rfl⟩
  | httpStart request peerType requestId =>
    exact h.sameAnswer_perform (.httpStart request peerType requestId) (fun _ => rfl)
      (Making.httpStart request peerType requestId) fun e => .event (.httpStart e)
  | httpStop request statusCode contentLength peerType requestId =>
    exact h.sameAnswer_perform (.httpStop request statusCode contentLength peerType requestId)
      (fun _ => rfl) (Making.httpStop request statusCode contentLength peerType requestId)
      fun e => .event (.httpStop e)
  | httpStartStop request statusCode contentLength peerType requestId =>
    exact h.sameAnswer_perform (.httpStartStop request statusCode contentLength peerType requestId)
      (fun _ => rfl) (Making.httpStartStop request statusCode contentLength peerType requestId)
      fun e => .event (.httpStartStop e)
  | logMessage messageType message appId sourceType =>
    exact h.sameAnswer_perform (.logMessage messageType message appId sourceType) (fun _ => rfl)
      (Making.logMessage messageType message appId sourceType) fun e => .event (.logMessage e)

/-! ### A run and its script -/

/-- **A run does what its script does**, whatever configurations it installs and whatever the
script runs on. -/
theorem InStep.run {before : List Call} {s t : Session} (h : InStep before s t)
    (calls : List Call) :
    (s.after calls).taken = (t.after (scriptAfter before calls)).taken ∧
      ∀ (i : Nat) (call : Call), (scriptAfter before calls)[i]? = some call →
        ∃ o o', (working calls (s.outcomes calls))[i]? = some o ∧
          (t.outcomes (scriptAfter before calls))[i]? = some o' ∧ call.SameButMetadata o o' := by
  -- The invariant is that the runs are in step. A call that works extends it on both sides, an
  -- installation on the side of the run alone.
  induction calls generalizing before s t with
  | nil => exact ⟨h.taken, fun _ _ hcall => nomatch hcall⟩
  | cons call rest ih =>
    by_cases hworks : call.works
    · -- the call is the next one of the script too
      obtain ⟨htaken, hevent, houtcome⟩ := h.sameAnswer hworks
      obtain ⟨hafter, hrest⟩ := ih (h.extend hworks htaken hevent)
      rw [scriptAfter, if_pos hworks, outcomes_cons, working, if_pos hworks]
      refine ⟨hafter, ?_⟩
      intro i other hother
      cases i with
      | zero =>
        cases hother
        exact ⟨_, _, rfl, rfl, houtcome⟩
      | succ i => exact hrest i other hother
    · -- what does no work installs a configuration
      obtain ⟨config, rfl⟩ : ∃ config, call = .configure config := by
        cases call with
        | configure config => exact ⟨config, rfl⟩
        | _ => exact absurd rfl hworks
      exact ih (h.install config)

/-! ### Two runs -/

/-- Envelopes are not refused as long as there is an origin and nothing is installed. -/
theorem not_refused {t : Session} (horigin : t.config.origin ≠ "") {calls : List Call}
    (hworks : ∀ call ∈ calls, call.works) {i : Nat} {subject : Subject}
    (hcall : calls[i]? = some (.envelope subject)) {o : Outcome}
    (ho : (t.outcomes calls)[i]? = some o) :
    o.reply ≠ .failed (.event (.missingField .origin)) := by
  -- nothing has been installed before the call, so the configuration of the beginning is in force
  have hinstalled : installed (calls.take i) = [] := by
    refine List.filterMap_eq_nil_iff.mpr fun call hmem => ?_
    have hcallWorks := hworks call (List.mem_of_mem_take hmem)
    cases call with
    | configure config => cases hcallWorks
    | _ => rfl
  have hconfig : (t.after (calls.take i)).config = t.config := by
    rw [config_after, hinstalled]
    rfl
  rw [outcomes_at t hcall] at ho
  cases ho
  -- there is an event to put in, or the reply is that there is none
  cases hsubject : (t.after (calls.take i)).resolve subject with
  | ok event =>
    rw [step, answer_envelope_eq hsubject, hconfig]
    exact fun hfailed => horigin (wrapped_eq_failed_iff.mp hfailed).1
  | error n =>
    rw [step, answer, hsubject]
    intro hfailed
    cases hfailed

/-- A run from the beginning, compared with its script on the default configuration, which refuses
no envelope. -/
theorem run_script (clock : Clock) (config : Config) (calls : List Call) :
    ((start clock config).after calls).taken =
        ((start clock .default).after (script calls)).taken ∧
      ∀ (i : Nat) (call : Call), (script calls)[i]? = some call →
        ∃ o reference, (working calls ((start clock config).outcomes calls))[i]? = some o ∧
          ((start clock .default).outcomes (script calls))[i]? = some reference ∧
          (∀ subject, call = .envelope subject →
            reference.reply ≠ .failed (.event (.missingField .origin))) ∧
          call.SameButMetadata o reference := by
  obtain ⟨htaken, hrun⟩ := (inStep_start clock config .default).run calls
  refine ⟨htaken, ?_⟩
  intro i call hcall
  obtain ⟨o, reference, ho, hreference, hagree⟩ := hrun i call hcall
  refine ⟨o, reference, ho, hreference, ?_, hagree⟩
  rintro subject rfl
  -- the default configuration has an origin
  have horigin : (start clock .default).config.origin ≠ "" := by
    change Config.default.origin ≠ ""
    decide
  exact not_refused horigin (fun _ => works_of_mem_scriptAfter) hcall hreference

theorem wraps_envelope {time : Int64} {event : Event} {e : Envelope}
    (h : (Reply.envelope e).Wraps time event) : e.timestamp = time ∧ e.event = event := by
  rcases h with hfailed | ⟨e', he', htime, hevent⟩
  · cases hfailed
  · cases he'
    exact ⟨htime, hevent⟩

/-- Two outcomes that agree with one and the same, in which no envelope is refused, agree with each
other. -/
theorem sameButMetadata_of_reference {call : Call} {o o' reference : Outcome}
    (h : call.SameButMetadata o reference) (h' : call.SameButMetadata o' reference)
    (hmade : ∀ subject, call = .envelope subject →
      reference.reply ≠ .failed (.event (.missingField .origin))) :
    call.SameButMetadata o o' := by
  cases call with
  | envelope subject =>
    obtain ⟨hlog, hreply⟩ := h
    obtain ⟨hlog', hreply'⟩ := h'
    refine ⟨hlog.trans hlog'.symm, ?_⟩
    rcases hreply with ⟨time, event, hwraps, hreference⟩ | ⟨n, m, hn, hm⟩
    · -- the envelope that was made has one timestamp and one event
      obtain ⟨e, he, htime, hevent⟩ := hreference.resolve_left (hmade subject rfl)
      rcases hreply' with ⟨time', event', hwraps', hreference'⟩ | ⟨n', m', hn', hm'⟩
      · rw [he] at hreference'
        obtain ⟨htime', hevent'⟩ := wraps_envelope hreference'
        rw [← htime, ← hevent] at hwraps
        rw [← htime', ← hevent'] at hwraps'
        exact .inl ⟨_, _, hwraps, hwraps'⟩
      · -- the reference cannot both be an envelope and have found no event
        rw [he] at hm'
        cases hm'
    · -- no event was found for the reference, so neither run has found one
      rcases hreply' with ⟨time', event', hwraps', hreference'⟩ | ⟨n', m', hn', hm'⟩
      · obtain ⟨e, he, -⟩ := hreference'.resolve_left (hmade subject rfl)
        rw [he] at hm
        cases hm
      · exact .inr ⟨n, n', hn, hn'⟩
  | _ => exact Eq.trans h (Eq.symm h')

/-- **Configuration does not show in events.** Let two runs on one clock make the same calls, with
whatever configurations at the beginning and installed in between. Then each call has the same
outcome in both, with the same records in the log; only of an envelope the metadata may differ, and
it may be refused in one run and not in the other. In particular no call is given another reading,
and in the end the clock has been read equally often. -/
theorem events_ignore_configuration (clock : Clock) (config config' : Config)
    (calls calls' : List Call) (hsame : script calls = script calls') :
    let s := start clock config
    let s' := start clock config'
    (∀ (i : Nat) (call : Call), (script calls)[i]? = some call →
      ∃ o o', (working calls (s.outcomes calls))[i]? = some o ∧
        (working calls' (s'.outcomes calls'))[i]? = some o' ∧ call.SameButMetadata o o') ∧
      (s.after calls).taken = (s'.after calls').taken := by
  intro s s'
  obtain ⟨htaken, hrun⟩ := run_script clock config calls
  obtain ⟨htaken', hrun'⟩ := run_script clock config' calls'
  -- it is one script, and it has one run on the default configuration
  rw [← hsame] at htaken' hrun'
  refine ⟨?_, htaken.trans htaken'.symm⟩
  intro i call hcall
  obtain ⟨o, reference, ho, hreference, hmade, hagree⟩ := hrun i call hcall
  obtain ⟨o', reference', ho', hreference', -, hagree'⟩ := hrun' i call hcall
  -- both outcomes are compared with the outcome of one and the same call
  rw [hreference] at hreference'
  obtain rfl : reference = reference' := Option.some.inj hreference'
  exact ⟨o, o', ho, ho', sameButMetadata_of_reference hagree hagree' hmade⟩

/-- The work of two runs: a request begins, its event is put into an envelope, a line is logged. -/
def beginAndLog (subject : Subject) : List Call :=
  [.envelope subject, .logMessage .err [33] "app" "APP"]

/-- One run installs an empty origin, so that its envelope is refused; the other installs two
configurations, and its envelope is made. The line that is logged next is the same in both. -/
theorem events_ignore_configuration_refused :
    let begins : Call := .httpStart (plainRequest "GET") .client ⟨1, 0⟩
    let calls := [begins, .configure { origin := "" }] ++ beginAndLog (.madeBy 0)
    let calls' := [.configure { origin := "a" }, begins, .configure { origin := "b" }] ++
      beginAndLog (.madeBy 1)
    let s := start (.ticking 100 10) {}
    let s' := start (.ticking 100 10) { origin := "", job := some "z1" }
    script calls = script calls' ∧
      (∃ o, (s.outcomes calls)[2]? = some o ∧
        o.reply = .failed (.event (.missingField .origin))) ∧
      (∃ o e, (s'.outcomes calls')[3]? = some o ∧ o.reply = .envelope e ∧ e.origin = "b") ∧
      ∃ o, (working calls (s.outcomes calls))[2]? = some o ∧
        (working calls' (s'.outcomes calls'))[2]? = some o ∧
        ∃ e, o.reply = .event (.logMessage e) ∧ e.timestamp = 120 := by
  intro begins calls calls' s s'
  have hsame : script calls = script calls' := rfl
  obtain ⟨hall, -⟩ := events_ignore_configuration (.ticking 100 10) {}
    { origin := "", job := some "z1" } calls calls' hsame
  obtain ⟨o, o', ho, ho', hequal⟩ := hall 2 _ rfl
  -- a line of output is no envelope, so its outcomes are equal
  obtain rfl : o = o' := hequal
  refine ⟨hsame, ⟨_, rfl, rfl⟩, ⟨_, _, rfl, rfl, rfl⟩, o, ho, ho', ?_⟩
  cases ho
  exact ⟨_, rfl, by decide +kernel⟩

end Session

end Telemetry
