import Telemetry.Envelope.Builder
import Telemetry.Proofs.Envelope.Codec
import Telemetry.Proofs.Text.ByteOrder

/-!
# The last call counts

A builder is a row of registers. What a run of calls leaves in one of them does not depend on the
calls that set others, nor on all but the last of those that set it: `EnvelopeBuilder.get_set` says
what one call does to a register and `EnvelopeBuilder.get_setAll` what a run of calls does. The
registers are a `Slot` each, where every key has one for its tag, and `Setting.values` are the
values that a call puts into a register, in their order; only a call with several tags has more
than one.

So the last values (`EnvelopeBuilder.lastValue`) determine the builder, what is built and what is
written (`EnvelopeBuilder.build_by_last_values`).
-/

namespace Telemetry

namespace EnvelopeBuilder

/-- What can be set on its own: a part of the envelope, or the tag of a key. -/
inductive Slot where
  | origin | timestamp | deployment | job | index | ip | event
  | tag (key : String)

/-- What a slot holds. -/
@[reducible] def Slot.Value : Slot → Type
  | .timestamp => Int64
  | .event => Event
  | .origin | .deployment | .job | .index | .ip | .tag _ => String

end EnvelopeBuilder

namespace Setting

open EnvelopeBuilder (Slot)

/-- The values that a call puts into a slot, one after the other. -/
def values : Setting → (slot : Slot) → List slot.Value
  | .origin text, .origin => [text]
  | .timestamp time, .timestamp => [time]
  | .deployment text, .deployment => [text]
  | .job text, .job => [text]
  | .index text, .index => [text]
  | .ip text, .ip => [text]
  | .tag key value, .tag other => Tags.valuesUnder other [(key, value)]
  | .tags pairs, .tag other => Tags.valuesUnder other pairs
  | .event e, .event => [e]
  | _, _ => []

/-- Two calls that have no slot in common. -/
def Apart (a b : Setting) : Prop :=
  ∀ slot, a.values slot = [] ∨ b.values slot = []

/-- Tags of different keys are apart. -/
theorem apart_tag {key other : String} (h : key ≠ other) (value value' : String) :
    (tag key value).Apart (tag other value') := by
  intro slot
  cases slot with
  | tag name =>
    -- a key is at most one of the two
    by_cases hname : key = name
    · exact .inr (Tags.valuesUnder_cons_of_ne (fun heq => h (hname.trans heq.symm)) [])
    · exact .inl (Tags.valuesUnder_cons_of_ne hname [])
  | _ => exact .inl rfl

end Setting

namespace EnvelopeBuilder

/-- What a slot of the builder holds. -/
def get (b : EnvelopeBuilder) : (slot : Slot) → Option slot.Value
  | .origin => b.origin
  | .timestamp => b.timestamp
  | .deployment => b.deployment
  | .job => b.job
  | .index => b.index
  | .ip => b.ip
  | .event => b.event
  | .tag key => b.tags.get? key

/-- The last of the values that a run of calls puts into a slot. -/
def lastValue (settings : List Setting) (slot : Slot) : Option slot.Value :=
  (settings.flatMap fun s => s.values slot).getLast?

/-! ### What calls leave in a slot -/

/-- **A call sets its own slots and leaves the others as they are.** -/
theorem get_set (b : EnvelopeBuilder) (s : Setting) (slot : Slot) :
    (b.set s).get slot = (s.values slot).getLast?.or (b.get slot) := by
  -- only tags share a part of the builder
  cases s with
  | tag key value =>
    cases slot with
    | tag other => exact Tags.get?_insertAll b.tags [(key, value)] other
    | _ => rfl
  | tags pairs =>
    cases slot with
    | tag other => exact Tags.get?_insertAll b.tags pairs other
    | _ => rfl
  | _ => cases slot <;> rfl

/-- **Of a run of calls the last value counts,** slot by slot. -/
theorem get_setAll (b : EnvelopeBuilder) (settings : List Setting) (slot : Slot) :
    (b.setAll settings).get slot = (lastValue settings slot).or (b.get slot) := by
  -- The builder varies: the induction goes on from the builder behind the first call.
  induction settings generalizing b with
  | nil => rfl
  | cons s settings ih =>
    rw [setAll_cons, ih, get_set, lastValue, lastValue, List.flatMap_cons, List.getLast?_append,
      Option.or_assoc]

theorem get_empty (slot : Slot) : empty.get slot = none := by
  cases slot <;> rfl

theorem get_setAll_empty (settings : List Setting) (slot : Slot) :
    (empty.setAll settings).get slot = lastValue settings slot := by
  rw [get_setAll, get_empty, Option.or_none]

/-- A builder is what its slots hold. -/
theorem eq_of_get {a b : EnvelopeBuilder} (h : ∀ slot, a.get slot = b.get slot) : a = b := by
  -- the tags are the one part that several slots share
  have htags : a.tags = b.tags := Tags.eq_of_get? fun key => h (.tag key)
  cases a
  cases b
  exact (EnvelopeBuilder.mk.injEq ..).mpr ⟨h .origin, h .timestamp, h .deployment, h .job,
    h .index, h .ip, htags, h .event⟩

theorem setAll_congr {settings others : List Setting}
    (h : ∀ slot, lastValue others slot = lastValue settings slot) :
    empty.setAll others = empty.setAll settings :=
  eq_of_get fun slot => by rw [get_setAll_empty, get_setAll_empty, h]

/-- **Calls that have no slot in common can change places.** -/
theorem set_comm (b : EnvelopeBuilder) {s t : Setting} (h : s.Apart t) :
    (b.set s).set t = (b.set t).set s := by
  refine eq_of_get fun slot => ?_
  rw [get_set, get_set, get_set, get_set]
  -- one of the two calls puts nothing into the slot, so the value is that of the other in any order
  rcases h slot with hnone | hnone
  · rw [hnone, List.getLast?_nil, Option.none_or, Option.none_or]
  · rw [hnone, List.getLast?_nil, Option.none_or, Option.none_or]

/-! ### What is built -/

/-- The envelope has the values: those that it must have and those that it may lack, and the tags
are a map of them. -/
structure Holds (e : Envelope) (value : (slot : Slot) → Option slot.Value) : Prop where
  origin : some e.origin = value .origin
  timestamp : some e.timestamp = value .timestamp
  deployment : e.deployment = value .deployment
  job : e.job = value .job
  index : e.index = value .index
  ip : e.ip = value .ip
  event : some e.event = value .event
  tags : ∀ key, e.tags.get? key = value (.tag key)

/-- What comes of building with the given values: the first part that is lacking is reported, where
an empty origin counts as lacking, and otherwise there is an envelope of all of them. -/
structure Builds (value : (slot : Slot) → Option slot.Value)
    (result : Except EventError Envelope) : Prop where
  noOrigin : value .origin = none ∨ value .origin = some "" →
    result = .error (.missingField .origin)
  noTimestamp : ∀ origin, value .origin = some origin → origin ≠ "" →
    value .timestamp = none → result = .error (.missingField .timestamp)
  noEvent : ∀ origin time, value .origin = some origin → origin ≠ "" →
    value .timestamp = some time → value .event = none →
    result = .error (.missingField .event)
  built : ∀ origin time event, value .origin = some origin → origin ≠ "" →
    value .timestamp = some time → value .event = some event →
    ∃ e, result = .ok e ∧ Holds e value

theorem filter_nonempty {origin : String} (h : origin ≠ "") :
    (some origin).filter (fun text => !text.isEmpty) = some origin := by
  rw [Option.filter_some, if_pos]
  simpa using h

/-- A builder builds what its slots hold. -/
theorem builds_get (b : EnvelopeBuilder) : Builds b.get b.build where
  noOrigin h := by
    -- an origin that is missing and one that is empty are the same to the builder
    have hnone : b.origin.filter (fun text => !text.isEmpty) = none := by
      rcases h with h | h
      · rw [show b.origin = none from h]
        rfl
      · rw [show b.origin = some "" from h]
        rfl
    rw [build, hnone]
    rfl
  noTimestamp origin horigin hne htimestamp := by
    rw [build, show b.origin = some origin from horigin, filter_nonempty hne,
      show b.timestamp = none from htimestamp]
    rfl
  noEvent origin time horigin hne htimestamp hevent := by
    rw [build, show b.origin = some origin from horigin, filter_nonempty hne,
      show b.timestamp = some time from htimestamp, show b.event = none from hevent]
    rfl
  built origin time event horigin hne htimestamp hevent := by
    refine ⟨⟨origin, time, b.deployment, b.job, b.index, b.ip, b.tags, event⟩, ?_, ?_⟩
    · rw [build, show b.origin = some origin from horigin, filter_nonempty hne,
        show b.timestamp = some time from htimestamp, show b.event = some event from hevent]
      rfl
    · exact ⟨horigin.symm, htimestamp.symm, rfl, rfl, rfl, rfl, hevent.symm, fun _ => rfl⟩

end EnvelopeBuilder

/-! ### What is written -/

namespace Envelope

/-- The member of the tags, which is there if there are tags, and holds them in their order. -/
theorem lookup_tags (e : Envelope) :
    e.members.lookup "tags" =
      if e.tags.isEmpty then none else some (.object (e.tags.toList.map Tags.member)) := by
  rw [lookup_metadata (by decide)]
  rfl

/-- The keys of the tags are written in ascending order of their bytes. -/
theorem tags_ascend (e : Envelope) :
    (e.tags.toList.map fun pair => Utf8.ofString pair.1).Pairwise (· < ·) :=
  List.pairwise_map.2 (e.tags.ascending.imp Utf8.ofString_lt)

end Envelope

namespace EnvelopeBuilder

/-- **The last value of every slot is built,** whatever run of calls it comes from. Several tags at
once are single tags in their order, and calls that have no slot in common can change places
anywhere in a run. Runs that agree on the last values build the same envelope, which is written as
the same bytes, or fail alike; and the tags of an envelope are written in ascending order of the
bytes of their keys. -/
theorem build_by_last_values :
    (∀ settings, Builds (lastValue settings) (empty.setAll settings).build) ∧
    (∀ before pairs after,
      (empty.setAll (before ++ .tags pairs :: after)).build =
        (empty.setAll (before ++ (pairs.map fun pair => .tag pair.1 pair.2) ++ after)).build) ∧
    (∀ before s t after, s.Apart t →
      (empty.setAll (before ++ s :: t :: after)).build =
        (empty.setAll (before ++ t :: s :: after)).build) ∧
    (∀ settings others, (∀ slot, lastValue others slot = lastValue settings slot) →
      (empty.setAll others).build = (empty.setAll settings).build ∧
      (empty.setAll others).build.map Envelope.toText =
        (empty.setAll settings).build.map Envelope.toText) ∧
    ∀ e : Envelope, e.toText = (Json.object e.members).render ∧
      e.members.lookup "tags" =
        (if e.tags.isEmpty then none else some (.object (e.tags.toList.map Tags.member))) ∧
      (e.tags.toList.map fun pair => Utf8.ofString pair.1).Pairwise (· < ·) := by
  refine ⟨?_, ?_, ?_, ?_, ?_⟩
  · intro settings
    -- the last values are what the slots hold, and a builder builds what its slots hold
    rw [← funext (get_setAll_empty settings)]
    exact builds_get _
  · intro before pairs after
    -- the call with several tags is opened in the middle of the run
    rw [List.append_assoc, setAll_append, setAll_append, setAll_append, setAll_cons, set_tags]
  · intro before s t after h
    -- both runs agree up to the two calls and go on alike behind them
    rw [setAll_append, setAll_append, setAll_cons, setAll_cons, setAll_cons, setAll_cons,
      set_comm _ h]
  · intro settings others h
    -- the two builders are the same
    rw [setAll_congr h]
    exact ⟨rfl, rfl⟩
  · intro e
    exact ⟨rfl, e.lookup_tags, e.tags_ascend⟩

/-- A line of output, for an event. -/
def sampleEvent : Event :=
  .logMessage ⟨[], .out, 0, "app", "APP", none⟩

/-- A run that sets the origin, the job and a tag again. -/
def sampleRun : List Setting :=
  [.origin "a", .job "x", .tag "k" "1", .event sampleEvent, .timestamp 5,
    .tags [("k", "2"), ("j", "0")], .origin "b", .job "y"]

/-- The last values of `sampleRun`, in another order. -/
def sampleRerun : List Setting :=
  [.tag "j" "0", .timestamp 5, .job "y", .tag "k" "2", .origin "b", .event sampleEvent]

/-- An empty origin takes back the one before it; of what is set again the last value is built, and
setting the last values alone builds the same. -/
theorem build_by_last_values_again :
    (empty.setAll [.origin "a", .origin ""]).build = .error (.missingField .origin) ∧
    (empty.setAll [.origin "", .origin "a"]).build = .error (.missingField .timestamp) ∧
    (empty.setAll [.timestamp 1, .origin "a"]).build = .error (.missingField .event) ∧
    (∃ e, (empty.setAll sampleRun).build = .ok e ∧ e.origin = "b" ∧ e.job = some "y" ∧
      e.ip = none ∧ e.tags.get? "k" = some "2") ∧
    (empty.setAll sampleRerun).build = (empty.setAll sampleRun).build ∧
    (empty.setAll ([] ++ .tag "k" "1" :: .tag "j" "2" :: sampleRun)).build =
      (empty.setAll ([] ++ .tag "j" "2" :: .tag "k" "1" :: sampleRun)).build := by
  obtain ⟨hbuilds, -, hswap, hagree, -⟩ := build_by_last_values
  have hrerun : ∀ slot, lastValue sampleRerun slot = lastValue sampleRun slot := by
    intro slot
    cases slot with
    | tag key =>
      -- of the tags only the keys `k` and `j` are ever set
      show (Tags.valuesUnder key [("j", "0")] ++ (Tags.valuesUnder key [("k", "2")] ++
        [])).getLast? = (Tags.valuesUnder key [("k", "1")] ++
        (Tags.valuesUnder key [("k", "2"), ("j", "0")] ++ [])).getLast?
      simp only [Tags.valuesUnder, List.filter_cons, List.filter_nil, decide_eq_true_eq]
      by_cases hk : "k" = key
      · subst hk
        decide
      · by_cases hj : "j" = key <;> simp [hk, hj]
    | _ => rfl
  obtain ⟨e, hbuilt, he⟩ := (hbuilds sampleRun).built "b" 5 sampleEvent rfl (by decide) rfl rfl
  refine ⟨(hbuilds _).noOrigin (.inr rfl), (hbuilds _).noTimestamp "a" rfl (by decide) rfl,
    (hbuilds _).noEvent "a" 1 rfl (by decide) rfl rfl, ⟨e, hbuilt, ?_⟩,
    (hagree _ _ hrerun).1, hswap [] _ _ sampleRun (Setting.apart_tag (by decide) _ _)⟩
  exact ⟨Option.some.inj he.origin, he.job, he.ip, he.tags "k"⟩

end EnvelopeBuilder

end Telemetry
