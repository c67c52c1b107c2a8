import Telemetry.Factory.Session
import Telemetry.Proofs.Factory.Making

/-!
# Which reading of the clock a call is given

A session counts the readings that have been taken. `Session.consumes` says of a call whether it
takes one: every call that stamps something does, an envelope that then cannot be made among them,
and a call whose method is not known does not. This depends on the session only for an envelope
that names an earlier call, which has no event to put in if that call made none.

`Session.step_accounts` is the invariant of one call: the count goes up by one if the call consumes
a reading, and what the call gives then bears the reading of the old count. By induction over the
calls (`Session.taken_after`) the count is at every moment the number of calls that have consumed a
reading, so each of them bears the reading of its own number. `Session.clock_accounting` says this
of a whole run, and that the numbering leaves no reading out and gives none twice.
-/

namespace Telemetry.Session

/-! ### One call -/

/-- The call takes a reading of the clock. -/
def consumes (s : Session) : Call → Bool
  | .httpStart request _ _ | .httpStartStop request _ _ _ _ => (Method.parse request.method).isOk
  | .httpStop .. | .logMessage .. => true
  | .envelope subject => (s.resolve subject).isOk
  | .containerMetric _ | .configure _ => false

/-- The reply to a call that takes the reading `t`: an event or envelope that bears it, or the error
of an envelope that lacks its origin. The event in an envelope is as it was before. -/
def Stamped (s : Session) (t : Int64) : Call → Reply → Prop
  | .httpStart .., reply => ∃ e, reply = .event (.httpStart e) ∧ e.timestamp = t
  | .httpStop .., reply => ∃ e, reply = .event (.httpStop e) ∧ e.timestamp = t
  | .httpStartStop .., reply =>
    ∃ e, reply = .event (.httpStartStop e) ∧ e.startTimestamp = t ∧ e.stopTimestamp = t
  | .logMessage .., reply => ∃ e, reply = .event (.logMessage e) ∧ e.timestamp = t
  | .envelope subject, reply =>
    if s.config.origin = "" then reply = .failed (.event (.missingField .origin))
    else ∃ e, reply = .envelope e ∧ e.timestamp = t ∧ s.resolve subject = .ok e.event
  | .containerMetric _, _ | .configure _, _ => False

/-- The reply to a call that takes no reading. -/
def Unstamped (s : Session) : Call → Reply → Prop
  | .httpStart request _ _, reply | .httpStartStop request _ _ _ _, reply =>
    reply = .failed (.unknownMethod request.method)
  | .envelope subject, reply => ∃ call, s.resolve subject = .error call ∧ reply = .noSuchEvent call
  | .containerMetric metric, reply => reply = .event (.containerMetric metric)
  | .configure config, reply => reply = .configured config
  | .httpStop .., _ | .logMessage .., _ => False

/-- What `perform` comes to if the operation succeeds. -/
theorem perform_of_ok {s : Session} {making : Making α} {reply : α → Reply} {a : α}
    {recorder : Recorder}
    (h : making.run { clock := s.clock, taken := s.taken, log := [] } = (.ok a, recorder)) :
    s.perform making reply = ({ s with taken := recorder.taken }, ⟨reply a, recorder.log⟩) := by
  rw [perform, h]

/-- What `perform` comes to if the operation fails: what it did before stays done. -/
theorem perform_of_error {s : Session} {making : Making α} {reply : α → Reply}
    {error : FactoryError} {recorder : Recorder}
    (h : making.run { clock := s.clock, taken := s.taken, log := [] } = (.error error, recorder)) :
    s.perform making reply =
      ({ s with taken := recorder.taken }, ⟨.failed error, recorder.log⟩) := by
  rw [perform, h]

theorem answer_envelope {s : Session} {subject : Subject} {event : Event}
    (h : s.resolve subject = .ok event) :
    s.answer (.envelope subject) = s.perform (Making.envelope s.config event) .envelope := by
  rw [answer, h]

/-- **One call** takes one reading or none. If it takes one, it is the next, and the reply bears
it. -/
theorem step_accounts (s : Session) (call : Call) :
    (s.step call).1.clock = s.clock ∧
      if s.consumes call then
        (s.step call).1.taken = s.taken + 1 ∧
          s.Stamped (s.clock.reading s.taken) call (s.step call).2.reply
      else
        (s.step call).1.taken = s.taken ∧ s.Unstamped call (s.step call).2.reply := by
  -- The recorder of the session counts from `s.taken`; what each operation does to it is known as a
  -- whole.
  cases call with
  | httpStart request peerType requestId =>
    have hrun := Making.httpStart_run ⟨s.clock, s.taken, []⟩ request peerType requestId
    -- the method is looked at before the clock is read
    cases hmethod : Method.parse request.method with
    | ok method =>
      rw [hmethod] at hrun
      rw [step, answer, perform_of_ok hrun, consumes, hmethod]
      exact ⟨rfl, rfl, _, rfl, rfl⟩
    | error e =>
      rw [hmethod] at hrun
      rw [step, answer, perform_of_error hrun, consumes, hmethod]
      exact ⟨rfl, rfl, rfl⟩
  | httpStop request statusCode contentLength peerType requestId =>
    have hrun := Making.httpStop_run ⟨s.clock, s.taken, []⟩ request statusCode contentLength
      peerType requestId
    rw [step, answer, perform_of_ok hrun]
    exact ⟨rfl, rfl, _, rfl, rfl⟩
  | httpStartStop request statusCode contentLength peerType requestId =>
    have hrun := Making.httpStartStop_run ⟨s.clock, s.taken, []⟩ request statusCode contentLength
      peerType requestId
    cases hmethod : Method.parse request.method with
    | ok method =>
      rw [hmethod] at hrun
      rw [step, answer, perform_of_ok hrun, consumes, hmethod]
      exact ⟨rfl, rfl, _, rfl, rfl, rfl⟩
    | error e =>
      rw [hmethod] at hrun
      rw [step, answer, perform_of_error hrun, consumes, hmethod]
      exact ⟨rfl, rfl, rfl⟩
  | logMessage messageType message appId sourceType =>
    have hrun := Making.logMessage_run ⟨s.clock, s.taken, []⟩ messageType message appId sourceType
    rw [step, answer, perform_of_ok hrun]
    exact ⟨rfl, rfl, _, rfl, rfl⟩
  | containerMetric metric => exact ⟨rfl, rfl, rfl⟩
  | configure config => exact ⟨rfl, rfl, rfl⟩
  | envelope subject =>
    cases hsubject : s.resolve subject with
    | error call =>
      -- the call that is named made no event, so no operation runs
      rw [step, answer, hsubject, consumes, hsubject]
      exact ⟨rfl, rfl, call, hsubject, rfl⟩
    | ok event =>
      have hrun := Making.envelope_run ⟨s.clock, s.taken, []⟩ s.config event
      -- the clock is read before the origin is looked at
      by_cases horigin : s.config.origin = ""
      · rw [if_pos horigin] at hrun
        rw [step, answer_envelope hsubject, perform_of_error hrun, consumes, hsubject]
        exact ⟨rfl, rfl, by rw [Stamped, if_pos horigin]⟩
      · rw [if_neg horigin] at hrun
        rw [step, answer_envelope hsubject, perform_of_ok hrun, consumes, hsubject]
        refine ⟨rfl, rfl, ?_⟩
        rw [Stamped, if_neg horigin]
        exact ⟨_, rfl, rfl, hsubject⟩

/-! ### A run -/

/-- How many of the calls take a reading, if they are made one after the other. -/
def consumed (s : Session) : List Call → Nat
  | [] => 0
  | call :: rest => (if s.consumes call then 1 else 0) + (s.step call).1.consumed rest

/-- The readings of a run are those of its first part and those of the rest, which begins where
the first part has led. -/
theorem consumed_append (s : Session) (before rest : List Call) :
    s.consumed (before ++ rest) = s.consumed before + (s.after before).consumed rest := by
  -- The session varies: the rest is counted from where the first call has led.
  induction before generalizing s with
  | nil => simp [consumed]
  | cons call before ih =>
    calc s.consumed (call :: (before ++ rest))
        = (if s.consumes call then 1 else 0) + (s.step call).1.consumed (before ++ rest) := rfl
      _ = (if s.consumes call then 1 else 0) + ((s.step call).1.consumed before +
            ((s.step call).1.after before).consumed rest) := by rw [ih]
      _ = s.consumed (call :: before) + (s.after (call :: before)).consumed rest := by
        rw [consumed, after_cons, Nat.add_assoc]

/-- The clock itself never changes. -/
theorem clock_step (s : Session) (call : Call) : (s.step call).1.clock = s.clock :=
  (s.step_accounts call).1

theorem taken_step (s : Session) (call : Call) :
    (s.step call).1.taken = s.taken + if s.consumes call then 1 else 0 := by
  have h := (s.step_accounts call).2
  by_cases hconsumes : s.consumes call
  · rw [if_pos hconsumes] at h ⊢
    exact h.1
  · rw [if_neg hconsumes] at h ⊢
    exact h.1

theorem clock_after (s : Session) (calls : List Call) : (s.after calls).clock = s.clock := by
  induction calls generalizing s with
  | nil => rfl
  | cons call rest ih => rw [after_cons, ih, clock_step]

/-- The clock has been read as often as calls have taken a reading. -/
theorem taken_after (s : Session) (calls : List Call) :
    (s.after calls).taken = s.taken + s.consumed calls := by
  induction calls generalizing s with
  | nil => rfl
  | cons call rest ih =>
    calc (s.after (call :: rest)).taken
        = (s.step call).1.taken + (s.step call).1.consumed rest := by rw [after_cons, ih]
      _ = s.taken + s.consumed (call :: rest) := by rw [taken_step, consumed, Nat.add_assoc]

/-- What came of call `n` is what comes of it where the calls before it have led. -/
theorem outcomes_at (s : Session) {calls : List Call} {n : Nat} {call : Call}
    (h : calls[n]? = some call) :
    (s.outcomes calls)[n]? = some ((s.after (calls.take n)).step call).2 := by
  -- by induction on the calls, of which the first is taken off together with a step of `n`
  induction calls generalizing s n with
  | nil => cases h
  | cons first rest ih =>
    cases n with
    | zero =>
      obtain rfl : first = call := Option.some.inj h
      rfl
    | succ n => exact ih _ h

/-- Call `n` of the calls takes reading `k` of the readings that they take. -/
def Takes (s : Session) (calls : List Call) (n k : Nat) : Prop :=
  ∃ call, calls[n]? = some call ∧ (s.after (calls.take n)).consumes call ∧
    s.consumed (calls.take n) = k

/-- Once call `n` has taken its reading the next one has the next number. -/
theorem Takes.consumed_succ {s : Session} {calls : List Call} {n k : Nat}
    (h : s.Takes calls n k) : s.consumed (calls.take (n + 1)) = k + 1 := by
  obtain ⟨call, hcall, hconsumes, hk⟩ := h
  rw [List.take_add_one, hcall, Option.toList_some, consumed_append, hk, consumed, if_pos hconsumes]
  rfl

/-- The number of readings only grows. -/
theorem consumed_take_le (s : Session) (calls : List Call) {m n : Nat} (h : m ≤ n) :
    s.consumed (calls.take m) ≤ s.consumed (calls.take n) := by
  have hsplit : calls.take n = calls.take m ++ (calls.drop m).take (n - m) := by
    rw [← List.take_add, Nat.add_sub_cancel' h]
  rw [hsplit, consumed_append]
  omega

/-- Of two calls that take readings, the later one takes the later reading. -/
theorem Takes.lt {s : Session} {calls : List Call} {n n' k k' : Nat} (h : s.Takes calls n k)
    (h' : s.Takes calls n' k') (hlt : n < n') : k < k' := by
  -- behind call `n` the count is `k + 1`, and it has not gone down before call `n'`
  have hle := s.consumed_take_le calls (Nat.succ_le_of_lt hlt)
  rw [h.consumed_succ] at hle
  obtain ⟨call, hcall, hconsumes, hk⟩ := h'
  omega

theorem Takes.lt_iff {s : Session} {calls : List Call} {n n' k k' : Nat} (h : s.Takes calls n k)
    (h' : s.Takes calls n' k') : n < n' ↔ k < k' := by
  refine ⟨h.lt h', ?_⟩
  intro hlt
  rcases Nat.lt_trichotomy n n' with hn | rfl | hn
  · exact hn
  · -- one call takes one reading
    obtain ⟨call, hcall, hconsumes, hk⟩ := h
    obtain ⟨call', hcall', hconsumes', hk'⟩ := h'
    omega
  · exact absurd (h'.lt h hn) (Nat.lt_asymm hlt)

/-- Every reading up to the number taken is taken by some call. -/
theorem exists_takes (s : Session) (calls : List Call) {k : Nat} (h : k < s.consumed calls) :
    ∃ n, s.Takes calls n k := by
  induction calls generalizing s k with
  | nil => cases h
  | cons first rest ih =>
    rw [consumed] at h
    by_cases hconsumes : s.consumes first
    · rw [if_pos hconsumes] at h
      cases k with
      | zero => exact ⟨0, first, rfl, hconsumes, rfl⟩
      | succ k =>
        -- the first call has taken reading 0, so that of the rest it is reading `k`
        have hrest : k < (s.step first).1.consumed rest := by omega
        obtain ⟨n, call, hcall, hn, hk⟩ := ih (s.step first).1 hrest
        refine ⟨n + 1, call, hcall, hn, ?_⟩
        rw [List.take_succ_cons, consumed, if_pos hconsumes, hk, Nat.add_comm]
    · -- the first call takes none, so the numbers of the rest stay
      rw [if_neg hconsumes, Nat.zero_add] at h
      obtain ⟨n, call, hcall, hn, hk⟩ := ih (s.step first).1 h
      refine ⟨n + 1, call, hcall, hn, ?_⟩
      rw [List.take_succ_cons, consumed, if_neg hconsumes, hk, Nat.zero_add]

/-- No call takes a reading beyond the number taken. -/
theorem Takes.lt_consumed {s : Session} {calls : List Call} {n k : Nat} (h : s.Takes calls n k) :
    k < s.consumed calls := by
  -- the calls up to call `n` are some of all calls, and have taken `k + 1` readings
  have hle := s.consumed_take_le calls (Nat.le_max_left (n + 1) calls.length)
  rw [h.consumed_succ, List.take_of_length_le (Nat.le_max_right ..)] at hle
  exact hle

/-- What a call made is remembered only by `step`. -/
theorem made_answer (s : Session) (call : Call) : (s.answer call).1.made = s.made := by
  cases call with
  | envelope subject =>
    rw [answer]
    -- whether there is an event to put in or not
    split <;> rfl
  | _ => rfl

/-- What an envelope can name is what the earlier calls have made. -/
theorem made_after (s : Session) (calls : List Call) :
    (s.after calls).made = s.made ++ (s.outcomes calls).map (·.reply.event?) := by
  induction calls generalizing s with
  | nil => simp
  | cons call rest ih =>
    -- one call adds one entry, which is empty if it made no event
    have hmade : (s.step call).1.made = s.made ++ [(s.step call).2.reply.event?] :=
      congrArg (· ++ _) (s.made_answer call)
    rw [after_cons, ih, hmade, outcomes_cons, List.map_cons, List.append_assoc]
    rfl

/-- **Exact clock accounting.** Let calls be made one after the other, from the beginning. Then the
clock has been read as often as calls have taken a reading. Each call takes no reading, or it takes
the one whose number is that of the calls before it that took one, and bears it. Each reading up to
the last is taken by a call, and a later reading by a later call, so none is left out and none is
given twice. The events that envelopes may name are those that the earlier calls gave. -/
theorem clock_accounting (clock : Clock) (config : Config) (calls : List Call) :
    let s := start clock config
    (s.after calls).taken = s.consumed calls ∧
      (∀ n call, calls[n]? = some call →
        let here := s.after (calls.take n)
        here.made = (s.outcomes (calls.take n)).map (·.reply.event?) ∧
        ∃ outcome, (s.outcomes calls)[n]? = some outcome ∧
          if here.consumes call then
            here.Stamped (clock.reading (s.consumed (calls.take n))) call outcome.reply
          else here.Unstamped call outcome.reply) ∧
      (∀ k, (∃ n, s.Takes calls n k) ↔ k < s.consumed calls) ∧
      ∀ n n' k k', s.Takes calls n k → s.Takes calls n' k' → (n < n' ↔ k < k') := by
  intro s
  refine ⟨?_, ?_, ?_, ?_⟩
  · rw [taken_after]
    exact Nat.zero_add _
  · intro n call hcall
    refine ⟨s.made_after _, _, s.outcomes_at hcall, ?_⟩
    -- the count that `call` finds is the number of readings taken by the calls before it
    have hstep := (step_accounts (s.after (calls.take n)) call).2
    rw [clock_after, taken_after] at hstep
    by_cases hconsumes : (s.after (calls.take n)).consumes call
    · rw [if_pos hconsumes] at hstep ⊢
      exact Nat.zero_add (s.consumed _) ▸ hstep.2
    · rw [if_neg hconsumes] at hstep ⊢
      exact hstep.2
  · intro k
    refine ⟨?_, s.exists_takes calls⟩
    rintro ⟨n, h⟩
    exact h.lt_consumed
  · intro n n' k k' h h'
    exact h.lt_iff h'

/-- A request with the given method and nothing else to report. -/
def plainRequest (method : String) : RequestInfo :=
  .ofHeaders method "host" "/" "peer" []

/-- Calls of which the second, the third and the fifth take no reading. -/
def mixedCalls : List Call :=
  [.httpStart (plainRequest "GET") .client ⟨1, 0⟩,
    .httpStart (plainRequest "FETCH") .client ⟨2, 0⟩,
    .envelope (.madeBy 1),
    .envelope (.madeBy 0),
    .configure { origin := "" },
    .envelope (.madeBy 0),
    .httpStartStop (plainRequest "PUT") 200 0 .server ⟨3, 0⟩]

/-- On a clock that begins at 100 and moves on by 10, the last of `mixedCalls` is the fourth to take
a reading, since the envelope without an origin has taken the third. -/
theorem clock_accounting_mixedCalls :
    let s := start (.ticking 100 10) {}
    s.Takes mixedCalls 5 2 ∧ s.Takes mixedCalls 6 3 ∧ 2 < 3 ∧
      ∃ outcome e, (s.outcomes mixedCalls)[6]? = some outcome ∧
        outcome.reply = .event (.httpStartStop e) ∧ e.startTimestamp = 130 ∧
        e.stopTimestamp = 130 := by
  intro s
  obtain ⟨-, hcalls, -, horder⟩ := clock_accounting (.ticking 100 10) {} mixedCalls
  have hfailed : s.Takes mixedCalls 5 2 := ⟨_, rfl, by decide +kernel, by decide +kernel⟩
  have hlast : s.Takes mixedCalls 6 3 := ⟨_, rfl, by decide +kernel, by decide +kernel⟩
  obtain ⟨-, outcome, houtcome, hstamped⟩ := hcalls 6 _ rfl
  have hconsumed : s.consumed (mixedCalls.take 6) = 3 := by decide +kernel
  rw [if_pos (by decide +kernel), hconsumed] at hstamped
  obtain ⟨e, hreply, hstart, hstop⟩ := hstamped
  have horder' : 2 < 3 := (horder 5 6 2 3 hfailed hlast).mp (by decide)
  exact ⟨hfailed, hlast, horder', outcome, e, houtcome, hreply, hstart.trans (by decide +kernel),
    hstop.trans (by decide +kernel)⟩

end Telemetry.Session
