import Telemetry.Proofs.Envelope.Codec

/-!
# From values to texts and back

The laws of the codecs speak of trees; here they are brought to the texts that are written and read.
`Codec.ofText_of_reads` does this once for all: whatever is written for a thing is read as the thing
from every text of every layout.

* `Codec.Faithful` — the text of a thing is read as the thing, so that different things have
  different texts. All types of the wire format have it (`wire_faithful`), the metric and what can
  hold one as far as the double in it survives its own text.
* A metric whose double is not finite is written with null in its place, and its text is refused.
* `wire_layout` — events and envelopes are read from every text that says the same.
-/

namespace Telemetry

namespace Codec

/-- **Every text of every layout is read** by a codec that obeys its law. -/
theorem ofText_of_reads {c : Codec α} {shape : Shape} {room : Nat} {a : α}
    (h : c.Reads shape room a) {j : Json} (hj : shape.Relaid (c.write a) j) {text : List UInt8}
    (htext : Token.Spaced j.tokens text) : c.ofText text = .ok a := by
  rw [ofText_of_spaced c (h.legible hj) htext, h.read hj]

theorem ofText_toText {c : Codec α} {shape : Shape} {room : Nat} {a : α}
    (h : c.Reads shape room a) : c.ofText (c.toText a) = .ok a :=
  ofText_of_reads h h.self (Json.spaced_render (c.write a))

/-- The texts of the things in question are read as these things, and no two of them share a
text. -/
structure Faithful (c : Codec α) (good : α → Prop) : Prop where
  reads_back : ∀ a, good a → c.ofText (c.toText a) = .ok a
  injective : ∀ a b, good a → good b → c.toText a = c.toText b → a = b

theorem faithful_of_reads {c : Codec α} {good : α → Prop} {shape : α → Shape} {room : Nat}
    (h : ∀ a, good a → c.Reads (shape a) room a) : c.Faithful good where
  reads_back a ha := ofText_toText (h a ha)
  injective a b ha hb heq := by
    have hread := ofText_toText (h a ha)
    rw [heq, ofText_toText (h b hb)] at hread
    exact (Except.ok.inj hread).symm

end Codec

/-! ### Metrics that are not finite -/

namespace Json

theorem renderMembers_congr {a b : List (String × Json)}
    (h : a.map (fun member => (member.1, member.2.render)) =
      b.map fun member => (member.1, member.2.render)) : renderMembers a = renderMembers b := by
  induction a generalizing b with
  | nil =>
    obtain rfl : b = [] := List.map_eq_nil_iff.1 h.symm
    rfl
  | cons member a ih =>
    obtain ⟨other, b, rfl, heq, hrest⟩ := List.map_eq_cons_iff.1 h.symm
    obtain ⟨hname, hvalue⟩ := Prod.mk.inj heq
    rw [renderMembers, renderMembers, ih hrest.symm, hname, hvalue]

/-- The text of an object is made up of the texts of its members. -/
theorem render_object_congr {a b : List (String × Json)}
    (h : a.map (fun member => (member.1, member.2.render)) =
      b.map fun member => (member.1, member.2.render)) : (object a).render = (object b).render := by
  match a, b with
  | [], [] => rfl
  | [], _ :: _ | _ :: _, [] => exact absurd h (by simp)
  | (key, item) :: a, (key', item') :: b =>
    obtain ⟨heq, hrest⟩ := List.cons.inj h
    obtain ⟨hname, hvalue⟩ := Prod.mk.inj heq
    simp only at hname hvalue
    rw [render, render, renderMembers_congr hrest, hname, hvalue]

end Json

namespace ContainerMetric

/-- The members of a metric, with null for its double. -/
def nulled (e : ContainerMetric) : Json :=
  .object [("application_id", .text e.applicationId),
    ("instance_index", .number (.int e.instanceIndex.toInt)), ("cpu_percentage", .null),
    ("memory_bytes", .number (.int e.memoryBytes.toNat)),
    ("disk_bytes", .number (.int e.diskBytes.toNat))]

/-- A double that is not finite is written as null is. -/
theorem render_real {x : Float} (h : x.isFinite = false) :
    (Json.number (.real x)).render = Json.null.render := by
  rw [← Decimal.isSome_binary?, Option.isSome_eq_false_iff, Option.isNone_iff_eq_none] at h
  rw [Json.render, Json.render, Number.text, Number.realText, h]
  rfl

theorem render_write {e : ContainerMetric} (h : e.cpuPercentage.isFinite = false) :
    (ContainerMetric.codec.write e).render = e.nulled.render := by
  refine Json.render_object_congr ?_
  show [_, _, ("cpu_percentage", (Json.number (.real e.cpuPercentage)).render), _, _] = _
  rw [render_real h]
  rfl

/-- The reader takes the members up to the null and refuses that. -/
theorem read_nulled (e : ContainerMetric) (mode : Mode) :
    ContainerMetric.codec.read mode (Raw.ofJson e.nulled) =
      .error (.misfit (.wrongKind .null .real)) := by
  have hid : Record.step mode fields (Record.vacant fields)
      ("application_id", .text e.applicationId) =
        .ok (some e.applicationId, none, none, none, none, ()) := rfl
  have hindex : Record.step mode fields (some e.applicationId, none, none, none, none, ())
      ("instance_index", .number (.int e.instanceIndex.toInt)) =
        .ok (some e.applicationId, some e.instanceIndex, none, none, none, ()) := by
    have hread := (Codec.signed32_reads e.instanceIndex 0).read (.fixed _) mode
    have hne : "application_id" ≠ "instance_index" := by decide
    exact Record.step_cons_eq_ok.2 (.inl ⟨hne, rfl,
      Record.step_cons_eq_ok.2 (.inr ⟨rfl, rfl, rfl, _, hread, rfl⟩)⟩)
  -- here the reader of the double meets the null
  have hdouble : Record.step mode fields
      (some e.applicationId, some e.instanceIndex, none, none, none, ())
      ("cpu_percentage", .null) = .error (.misfit (.wrongKind .null .real)) := rfl
  show (Record.read "ContainerMetric" fields mode (Raw.ofJson e.nulled)).map ofRow = _
  rw [nulled, Raw.ofJson, Record.read, Record.readMembers_ofMembers, Record.steps,
    List.foldlM_cons, hid, Fault.ok_bind, List.foldlM_cons, hindex, Fault.ok_bind,
    List.foldlM_cons, hdouble]
  rfl

theorem legible_nulled (e : ContainerMetric) : e.nulled.Legible ∧ e.nulled.depth ≤ 1 := by
  have hindex := Codec.signed32_reads e.instanceIndex 0
  have hmemory := Codec.unsigned64_reads e.memoryBytes 0
  have hdisk := Codec.unsigned64_reads e.diskBytes 0
  constructor
  · -- each member is legible, null among them
    refine Json.legible_object.2 ?_
    simp only [List.forall_mem_cons]
    exact ⟨Json.legible_text _, hindex.legible (.fixed _), Json.legible_null,
      hmemory.legible (.fixed _), hdisk.legible (.fixed _), by simp⟩
  · -- nothing is nested in a metric
    refine Json.depth_object_le.2 ?_
    simp only [List.forall_mem_cons]
    exact ⟨Nat.le_refl 0, hindex.shallow (.fixed _), Nat.le_refl 0,
      hmemory.shallow (.fixed _), hdisk.shallow (.fixed _), by simp⟩

end ContainerMetric

namespace Event

/-- The members of the event of a metric, with null for its double. -/
def nulledMembers (e : ContainerMetric) : List (String × Json) :=
  [tagMember (.containerMetric e), (contentName, e.nulled)]

/-- The event of such a metric is refused for the null inside it. -/
theorem readMembers_nulled (e : ContainerMetric) (mode : Mode) :
    readMembers mode .closed (Raw.ofMembers (nulledMembers e)) =
      .error (.misfit (.wrongKind .null .real)) := by
  rw [nulledMembers, readMembers_pair]
  show (ContainerMetric.codec.read mode (Raw.ofJson e.nulled)).map Event.containerMetric = _
  rw [e.read_nulled mode]
  rfl

theorem legible_nulledMembers (e : ContainerMetric) :
    ∀ member ∈ nulledMembers e, member.2.Legible ∧ member.2.depth ≤ 1 := by
  have htag : (tagMember (.containerMetric e)).2.Legible := Json.legible_text _
  simp only [nulledMembers, List.forall_mem_cons]
  exact ⟨⟨htag, Nat.zero_le 1⟩, e.legible_nulled, by simp⟩

end Event

/-- The refusal of null where a double was wanted. -/
def Fault.nullForReal : Fault :=
  .misfit (.wrongKind .null .real)

/-- A metric that is not finite has a text, but the text is not read. -/
theorem ContainerMetric.text_nonFinite {e : ContainerMetric}
    (h : e.cpuPercentage.isFinite = false) :
    ContainerMetric.codec.toText e = e.nulled.render ∧
      ContainerMetric.codec.ofText (ContainerMetric.codec.toText e) = .error .nullForReal := by
  have htext : ContainerMetric.codec.toText e = e.nulled.render := render_write h
  refine ⟨htext, ?_⟩
  rw [htext, Codec.ofText_of_spaced _ e.legible_nulled.1 e.nulled.spaced_render]
  exact e.read_nulled .direct

theorem Event.text_nonFinite {e : ContainerMetric} (h : e.cpuPercentage.isFinite = false) :
    Event.codec.toText (.containerMetric e) = (Json.object (nulledMembers e)).render ∧
      Event.codec.ofText (Event.codec.toText (.containerMetric e)) = .error .nullForReal := by
  -- the tag is as ever, and the payload is written as with null
  have htext : Event.codec.toText (.containerMetric e) =
      (Json.object (nulledMembers e)).render := by
    refine Json.render_object_congr ?_
    show [_, (contentName, (ContainerMetric.codec.write e).render)] = _
    rw [ContainerMetric.render_write h]
    rfl
  refine ⟨htext, ?_⟩
  have hlegible := Json.legible_object.2 fun member hmember =>
    (legible_nulledMembers e member hmember).1
  rw [htext, Codec.ofText_of_spaced _ hlegible (Json.spaced_render _)]
  show Event.read .direct (Raw.ofJson (.object (nulledMembers e))) = _
  rw [Raw.ofJson, Event.read]
  exact readMembers_nulled e .direct

/-- **A metric that is not finite makes the text of its envelope unreadable.** The metadata is
read as ever, and the null is refused by the reader of the event. -/
theorem Envelope.text_nonFinite {e : ContainerMetric} (h : e.cpuPercentage.isFinite = false)
    {env : Envelope} (henv : env.event = .containerMetric e) :
    env.toText =
        (Json.object (Record.write fields env.toRow ++ Event.nulledMembers e)).render ∧
      Envelope.ofText env.toText = .error (.serialization .nullForReal) := by
  -- the own members do not show the double, and the two of the event are as above
  have htext : env.toText =
      (Json.object (Record.write fields env.toRow ++ Event.nulledMembers e)).render := by
    refine Json.render_object_congr ?_
    rw [Envelope.members, List.map_append, List.map_append, henv]
    show _ ++ [_, (Event.contentName, (ContainerMetric.codec.write e).render)] = _
    rw [ContainerMetric.render_write h]
    rfl
  refine ⟨htext, ?_⟩
  have hown := Record.self_kept (row_reads env)
  -- null is legible, so the text is cut and gathered as it was written
  have hlegible :
      (Json.object (Record.write fields env.toRow ++ Event.nulledMembers e)).Legible := by
    refine Json.legible_object.2 ?_
    intro member hmember
    rcases List.mem_append.1 hmember with hmember | hmember
    · exact (Record.legible_kept (row_reads env) hown member hmember).1
    · exact (Event.legible_nulledMembers e member hmember).1
  -- the two members are foreign to the envelope and put aside for the event
  have hforeign : ∀ member ∈ Event.nulledMembers e, isForeign member = true := by
    simp only [Event.nulledMembers, List.forall_mem_cons]
    exact ⟨rfl, rfl, by simp⟩
  have hshallow : ∀ member ∈ Event.nulledMembers e, member.2.depth ≤ Raw.roomInside := by
    intro member hmember
    exact Nat.le_trans (Event.legible_nulledMembers e member hmember).2 (by decide)
  obtain ⟨-, hread⟩ := read_of_perm hown hforeign hshallow (.refl _)
  -- what is put aside for the reader of the event is its two members
  have hheld : (Record.write fields env.toRow ++ Event.nulledMembers e).filter isForeign =
      Event.nulledMembers e := by
    rw [List.filter_append, List.filter_eq_nil_iff.2 (not_isForeign_own hown),
      List.filter_eq_self.2 hforeign, List.nil_append]
  rw [hheld, Event.readMembers_nulled] at hread
  rw [htext, Envelope.ofText, Codec.ofText_of_spaced _ hlegible (Json.spaced_render _), Raw.ofJson]
  exact congrArg (Except.mapError EventError.serialization) hread

/-! ### The wire format -/

/-- **What is written is read back,** for every type of the wire format. So the text of a thing
belongs to no other thing of its type. A metric is read back if its double survives its own text,
and so is what holds it. A metric whose double is not finite is written with null in its place;
reading it is refused there, also inside an event and inside an envelope. -/
theorem wire_faithful :
    CorrelationId.codec.Faithful (fun _ => True) ∧
    Method.codec.Faithful (fun _ => True) ∧
    PeerType.codec.Faithful (fun _ => True) ∧
    MessageType.codec.Faithful (fun _ => True) ∧
    EventType.codec.Faithful (fun _ => True) ∧
    HttpStart.codec.Faithful (fun _ => True) ∧
    HttpStop.codec.Faithful (fun _ => True) ∧
    HttpStartStop.codec.Faithful (fun _ => True) ∧
    LogMessage.codec.Faithful (fun _ => True) ∧
    ContainerMetric.codec.Faithful (fun e => Number.Stable e.cpuPercentage) ∧
    Event.codec.Faithful Event.Stable ∧
    Envelope.codec.Faithful (fun env => env.event.Stable) ∧
    (∀ env : Envelope, env.event.Stable → Envelope.ofText env.toText = .ok env) ∧
    ∀ e : ContainerMetric, e.cpuPercentage.isFinite = false →
      (ContainerMetric.codec.toText e = e.nulled.render ∧
        ContainerMetric.codec.ofText (ContainerMetric.codec.toText e) = .error .nullForReal) ∧
      (Event.codec.toText (.containerMetric e) = (Json.object (Event.nulledMembers e)).render ∧
        Event.codec.ofText (Event.codec.toText (.containerMetric e)) = .error .nullForReal) ∧
      ∀ env : Envelope, env.event = .containerMetric e →
        env.toText = (Json.object
          (Record.write Envelope.fields env.toRow ++ Event.nulledMembers e)).render ∧
        Envelope.ofText env.toText = .error (.serialization .nullForReal) := by
  refine ⟨Codec.faithful_of_reads fun id _ => id.codec_reads,
    Codec.faithful_of_reads fun m _ => m.codec_reads 0,
    Codec.faithful_of_reads fun t _ => t.codec_reads 0,
    Codec.faithful_of_reads fun t _ => t.codec_reads 0,
    Codec.faithful_of_reads fun t _ => t.codec_reads 0,
    Codec.faithful_of_reads fun e _ => e.codec_reads,
    Codec.faithful_of_reads fun e _ => e.codec_reads,
    Codec.faithful_of_reads fun e _ => e.codec_reads,
    Codec.faithful_of_reads fun e _ => e.codec_reads,
    Codec.faithful_of_reads fun _ h => ContainerMetric.codec_reads h,
    Codec.faithful_of_reads fun _ h => Event.codec_reads h,
    Codec.faithful_of_reads fun _ h => Envelope.codec_reads h, ?_, ?_⟩
  · -- `toText` and `ofText` are those of the codec, with the fault put in an error
    intro env h
    rw [Envelope.ofText, Envelope.toText, Codec.ofText_toText (Envelope.codec_reads h)]
    rfl
  · intro e h
    exact ⟨ContainerMetric.text_nonFinite h, Event.text_nonFinite h,
      fun _ henv => Envelope.text_nonFinite h henv⟩

/-- A metric whose double survives its own text. -/
def ContainerMetric.sample : ContainerMetric := ⟨"app", 0, 0.5, 1, 2⟩

theorem ContainerMetric.stable_sample : Number.Stable sample.cpuPercentage where
  finite := by decide +kernel
  reads_back := by
    have h : (Codec.real.ofText (Codec.real.toText 0.5)).toOption = some 0.5 := by decide +kernel
    show Codec.real.ofText (Codec.real.toText 0.5) = .ok 0.5
    cases hread : Codec.real.ofText (Codec.real.toText 0.5) with
    | error fault => rw [hread] at h; exact absurd h (by simp [Except.toOption])
    | ok x => rw [hread] at h; exact congrArg Except.ok (Option.some.inj h)

/-- The metric in an envelope. -/
def Envelope.sample : Envelope :=
  ⟨"router", 1, none, none, none, some "", .empty, .containerMetric .sample⟩

/-- A metric of 0.5 is read back, bare and in an envelope, and one of 0/0 is refused. -/
theorem wire_faithful_metric :
    Number.Stable ContainerMetric.sample.cpuPercentage ∧
    ContainerMetric.codec.ofText (ContainerMetric.codec.toText .sample) = .ok .sample ∧
    Envelope.ofText Envelope.sample.toText = .ok .sample ∧
    Float.isFinite (0 / 0) = false ∧
    Event.codec.ofText (Event.codec.toText (.containerMetric ⟨"app", 0, 0 / 0, 1, 2⟩)) =
      .error .nullForReal := by
  obtain ⟨-, -, -, -, -, -, -, -, -, hmetric, -, -, henvelope, hrefused⟩ := wire_faithful
  have hnan : Float.isFinite (0 / 0) = false := by decide +kernel
  exact ⟨ContainerMetric.stable_sample, hmetric.reads_back _ ContainerMetric.stable_sample,
    henvelope .sample ContainerMetric.stable_sample, hnan,
    (hrefused ⟨"app", 0, 0 / 0, 1, 2⟩ hnan).2.1.2⟩

/-- **Reading does not depend on layout.** An event or envelope is read from every text of what is
written for it, laid out anew: with the members of every object in any order, with members of other
names added to every object but the tags, and with white space between the tokens. The text of an
envelope is also a text of its event. -/
theorem wire_layout :
    (∀ (e : Event) (j : Json) (text : List UInt8), e.Stable →
      (Event.shape e.eventType).Relaid (Event.codec.write e) j → Token.Spaced j.tokens text →
      Event.codec.ofText text = .ok e) ∧
    (∀ (env : Envelope) (j : Json) (text : List UInt8), env.event.Stable →
      (Envelope.shape env.eventType).Relaid (Envelope.codec.write env) j →
      Token.Spaced j.tokens text → Envelope.ofText text = .ok env) ∧
    ∀ env : Envelope, env.event.Stable → Event.codec.ofText env.toText = .ok env.event := by
  refine ⟨fun e j text h hj htext => Codec.ofText_of_reads (Event.codec_reads h) hj htext,
    ?_, ?_⟩
  · -- `ofText` only puts the fault in an error
    intro env j text h hj htext
    rw [Envelope.ofText, Codec.ofText_of_reads (Envelope.codec_reads h) hj htext]
    rfl
  · intro env h
    -- the writer's own text is one of the layouts, and the reader of events passes over the
    -- metadata
    have henv := Envelope.codec_reads h
    rw [Envelope.toText, Codec.toText,
      Codec.ofText_of_spaced _ (henv.legible henv.self) (Json.spaced_render _)]
    exact Envelope.read_event h henv.self .direct

/-- An event is read with its payload before its kind, behind a member of another name and white
space. -/
theorem wire_layout_contentFirst :
    Event.codec.ofText (Ascii.bytes "\n " ++ (Json.object [("note", .array [.null]),
      ("event", ContainerMetric.codec.write .sample),
      ("event_type", .text "container_metric")]).render) = .ok (.containerMetric .sample) := by
  have hpayload := (ContainerMetric.codec_reads ContainerMetric.stable_sample).self
  have hnote : (Json.array [.null]).Addable :=
    ⟨Json.legible_array.2 (List.forall_mem_singleton.2 Json.legible_null), by decide⟩
  refine wire_layout.1 (.containerMetric .sample) _ _ ContainerMetric.stable_sample ?_
    (Json.spaced_of_space rfl (Json.spaced_render _))
  have hextras : ∀ member ∈ [("note", Json.array [.null])],
      member.1 ∉ [Event.tagName, Event.contentName] ∧ member.2.Addable :=
    List.forall_mem_singleton.2 ⟨by decide, hnote⟩
  exact .record (.cons (.fixed _) (.cons hpayload .nil)) hextras (List.reverse_perm _).symm

end Telemetry
