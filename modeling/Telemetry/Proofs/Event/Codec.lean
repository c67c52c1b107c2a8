import Telemetry.Event.Basic
import Telemetry.Proofs.Json.Record

/-!
# Reading events in any layout

The payloads are records, and obey the law of records field by field (`HttpStart.codec_reads` and
its like). An id in a payload is a record of its own, so its members may be laid out anew as well.

An event is found by its two members among any others. Which of them comes first decides how the
payload is read: straight from the text when its kind is known, or put aside and read later.
`Event.finds_filter` says that the search for the next of the two sees only these two, and
`Event.readMembers_of_perm` that both courses end with the event. The latter asks nothing of the
other members, not even that they could be put aside, and holds in either mode; an envelope, which
holds the members of its event among its own, relies on both.

A metric holds a double. Its law needs `Event.Stable`, that the double survives its own text.
-/

namespace Telemetry

/-! ### Payloads -/

/-- The layouts of an id. -/
def CorrelationId.shape : Shape :=
  .record (CorrelationId.fields.map Field.name) fun _ => .fixed

theorem CorrelationId.row_reads (id : CorrelationId) :
    Row.Reads (fun _ => .fixed) 100 CorrelationId.fields id.toRow :=
  -- the two words are written bare and have but one layout
  ⟨.written (Codec.unsigned64_reads _ _) rfl, .written (Codec.unsigned64_reads _ _) rfl, trivial⟩

theorem CorrelationId.codec_reads (id : CorrelationId) :
    CorrelationId.codec.Reads CorrelationId.shape 101 id :=
  .map (Record.codec_reads 100 (by decide) id.row_reads (Nat.le_refl _)) rfl

theorem PeerType.codec_reads (t : PeerType) (room : Nat) : PeerType.codec.Reads .fixed room t := by
  rw [PeerType.codec_eq]
  exact Codec.variant_reads t.find?_name

theorem MessageType.codec_reads (t : MessageType) (room : Nat) :
    MessageType.codec.Reads .fixed room t := by
  rw [MessageType.codec_eq]
  exact Codec.variant_reads t.find?_name

theorem EventType.codec_reads (t : EventType) (room : Nat) :
    EventType.codec.Reads .fixed room t := by
  rw [EventType.codec_eq]
  exact Codec.variant_reads t.find?_name

theorem Method.codec_reads (m : Method) (room : Nat) : Method.codec.Reads .fixed room m := by
  rw [Method.codec_eq]
  exact Codec.variant_reads m.find?_token

/-- The shapes of what stands in a payload: ids and values without freedom. -/
def Event.inside (name : String) : Shape :=
  if name = "request_id" ∨ name = "application_id" then CorrelationId.shape else .fixed

namespace Field.Reads

variable {name : String} {room : Nat}

theorem optionalText (a : Option String) :
    Field.Reads ⟨name, Option String, .optional .text⟩ .fixed room a :=
  .optional (fun _ _ h => nomatch h) fun b _ => Codec.text_reads b _

theorem optionalSigned32 (a : Option Int32) :
    Field.Reads ⟨name, Option Int32, .optional .signed32⟩ .fixed room a :=
  .optional (fun _ _ h => nomatch h) fun b _ => Codec.signed32_reads b _

theorem optionalId (a : Option CorrelationId) :
    Field.Reads ⟨name, Option CorrelationId, .optional CorrelationId.codec⟩ CorrelationId.shape
      101 a :=
  .optional (fun _ _ h => nomatch h) fun b _ => CorrelationId.codec_reads b

end Field.Reads

/-- The layouts of the payload of an event of the given kind. -/
def EventType.shape : EventType → Shape
  | .httpStart => .record (HttpStart.fields.map Field.name) Event.inside
  | .httpStop => .record (HttpStop.fields.map Field.name) Event.inside
  | .httpStartStop => .record (HttpStartStop.fields.map Field.name) Event.inside
  | .logMessage => .record (LogMessage.fields.map Field.name) fun _ => .fixed
  -- the id of the application is a text here
  | .containerMetric => .record (ContainerMetric.fields.map Field.name) fun _ => .fixed

theorem HttpStart.row_reads (e : HttpStart) :
    Row.Reads Event.inside 101 HttpStart.fields e.toRow :=
  ⟨.written (Codec.signed64_reads _ _) rfl,
    .written (CorrelationId.codec_reads _) rfl,
    .written (PeerType.codec_reads _ _) rfl,
    .written (Method.codec_reads _ _) rfl,
    .written (Codec.text_reads _ _) rfl,
    .written (Codec.text_reads _ _) rfl,
    .optionalText _, .optionalId _, .optionalSigned32 _,
    .optionalText _, trivial⟩

theorem HttpStart.codec_reads (e : HttpStart) :
    HttpStart.codec.Reads EventType.httpStart.shape 102 e :=
  .map (Record.codec_reads 101 (by decide) e.row_reads (by decide)) rfl

theorem HttpStop.row_reads (e : HttpStop) :
    Row.Reads Event.inside 101 HttpStop.fields e.toRow :=
  ⟨.written (Codec.signed64_reads _ _) rfl,
    .written (Codec.text_reads _ _) rfl,
    .written (CorrelationId.codec_reads _) rfl,
    .written (PeerType.codec_reads _ _) rfl,
    .written (Codec.signed32_reads _ _) rfl,
    .written (Codec.signed64_reads _ _) rfl,
    .optionalId _, trivial⟩

theorem HttpStop.codec_reads (e : HttpStop) :
    HttpStop.codec.Reads EventType.httpStop.shape 102 e :=
  .map (Record.codec_reads 101 (by decide) e.row_reads (by decide)) rfl

theorem HttpStartStop.row_reads (e : HttpStartStop) :
    Row.Reads Event.inside 101 HttpStartStop.fields e.toRow :=
  ⟨.written (Codec.signed64_reads _ _) rfl,
    .written (Codec.signed64_reads _ _) rfl,
    .written (CorrelationId.codec_reads _) rfl,
    .written (PeerType.codec_reads _ _) rfl,
    .written (Method.codec_reads _ _) rfl,
    .written (Codec.text_reads _ _) rfl,
    .written (Codec.text_reads _ _) rfl,
    .optionalText _,
    .written (Codec.signed32_reads _ _) rfl,
    .written (Codec.signed64_reads _ _) rfl,
    .optionalId _, .optionalSigned32 _, .optionalText _,
    trivial⟩

theorem HttpStartStop.codec_reads (e : HttpStartStop) :
    HttpStartStop.codec.Reads EventType.httpStartStop.shape 102 e :=
  .map (Record.codec_reads 101 (by decide) e.row_reads (by decide)) rfl

theorem LogMessage.row_reads (e : LogMessage) :
    Row.Reads (fun _ => .fixed) 101 LogMessage.fields e.toRow :=
  ⟨.written (Codec.sequence_reads 100 fun b _ => Codec.byte_reads b _) rfl,
    .written (MessageType.codec_reads _ _) rfl,
    .written (Codec.signed64_reads _ _) rfl,
    .written (Codec.text_reads _ _) rfl,
    .written (Codec.text_reads _ _) rfl,
    .optionalText _, trivial⟩

theorem LogMessage.codec_reads (e : LogMessage) :
    LogMessage.codec.Reads EventType.logMessage.shape 102 e :=
  .map (Record.codec_reads 101 (by decide) e.row_reads (by decide)) rfl

theorem ContainerMetric.row_reads {e : ContainerMetric} (h : Number.Stable e.cpuPercentage) :
    Row.Reads (fun _ => .fixed) 101 ContainerMetric.fields e.toRow :=
  ⟨.written (Codec.text_reads _ _) rfl,
    .written (Codec.signed32_reads _ _) rfl,
    .written (Codec.real_reads h) rfl,
    .written (Codec.unsigned64_reads _ _) rfl,
    .written (Codec.unsigned64_reads _ _) rfl, trivial⟩

theorem ContainerMetric.codec_reads {e : ContainerMetric} (h : Number.Stable e.cpuPercentage) :
    ContainerMetric.codec.Reads EventType.containerMetric.shape 102 e :=
  .map (Record.codec_reads 101 (by decide) (row_reads h) (by decide)) rfl

namespace Event

/-- The double of a metric survives its own text. -/
def Stable : Event → Prop
  | .containerMetric e => Number.Stable e.cpuPercentage
  | _ => True

/-- The payload of an event, laid out anew, is read as the event. -/
structure ReadsPayload (e : Event) : Prop where
  self : e.eventType.shape.Relaid e.payload e.payload
  legible {j : Json} (h : e.eventType.shape.Relaid e.payload j) : j.Legible
  shallow {j : Json} (h : e.eventType.shape.Relaid e.payload j) : j.depth ≤ 102
  read {j : Json} (h : e.eventType.shape.Relaid e.payload j) (mode : Mode) :
    readPayload e.eventType mode (Raw.ofJson j) = .ok e

/-- The law of the payload's codec is that of the event, which wraps the payload. -/
theorem readsPayload_of_reads {c : Codec α} {a : α} {e : Event} {wrap : α → Event}
    (h : c.Reads e.eventType.shape 102 a) (hwrite : e.payload = c.write a) (he : e = wrap a)
    (hread : ∀ mode raw, readPayload e.eventType mode raw = (c.read mode raw).map wrap) :
    e.ReadsPayload where
  self := hwrite ▸ h.self
  legible hj := h.legible (hwrite ▸ hj)
  shallow hj := h.shallow (hwrite ▸ hj)
  read hj mode := by
    rw [hread, h.read (hwrite ▸ hj) mode, he]
    rfl

/-- **The payload of every event is read in any layout.** -/
theorem readsPayload {e : Event} (h : e.Stable) : e.ReadsPayload := by
  -- Four kinds hold no double and need nothing of `h`.
  cases e with
  | httpStart e => exact readsPayload_of_reads e.codec_reads rfl rfl fun _ _ => rfl
  | httpStop e => exact readsPayload_of_reads e.codec_reads rfl rfl fun _ _ => rfl
  | httpStartStop e => exact readsPayload_of_reads e.codec_reads rfl rfl fun _ _ => rfl
  | logMessage e => exact readsPayload_of_reads e.codec_reads rfl rfl fun _ _ => rfl
  | containerMetric e =>
    exact readsPayload_of_reads (ContainerMetric.codec_reads h) rfl rfl fun _ _ => rfl

/-! ### The two members among others -/

/-- The member is one of the two of an event. -/
def isPart (member : String × Json) : Bool :=
  (part? member.1).isSome

/-- The search for the next part among the members finds the first of `found` and goes on to the
others, or comes to the end. -/
def Finds (members : List (String × Json)) : List (String × Json) → Prop
  | [] => nextPart .closed (Raw.ofMembers members) = .ok none
  | member :: more => ∃ part rest, part? member.1 = some part ∧
      nextPart .closed (Raw.ofMembers members) =
        .ok (some (part, Raw.ofJson member.2, Raw.ofMembers rest)) ∧
      rest.filter isPart = more

/-- A member of another name is passed over. -/
theorem nextPart_skip {member : String × Json} (h : part? member.1 = none)
    (members : List (String × Json)) :
    nextPart .closed (Raw.ofMembers (member :: members)) =
      nextPart .closed (Raw.ofMembers members) := by
  rw [Raw.ofMembers, nextPart]
  simp only [bind, Except.bind, Raw.skip_ofJson, h]

theorem nextPart_of_part {member : String × Json} {part : Part} (h : part? member.1 = some part)
    (members : List (String × Json)) :
    nextPart .closed (Raw.ofMembers (member :: members)) =
      .ok (some (part, Raw.ofJson member.2, Raw.ofMembers members)) := by
  rw [Raw.ofMembers, nextPart]
  simp only [bind, Except.bind, h]
  rfl

/-- **The search for the next part sees only parts.** -/
theorem finds_filter (members : List (String × Json)) :
    Finds members (members.filter isPart) := by
  -- A member of another name leaves the search where it was; the first part ends it.
  induction members with
  | nil => exact rfl
  | cons member members ih =>
    cases hpart : part? member.1 with
    | none =>
      rw [List.filter_cons_of_neg (by simp [isPart, hpart])]
      unfold Finds at ih ⊢
      rw [nextPart_skip hpart]
      exact ih
    | some part =>
      rw [List.filter_cons_of_pos (by simp [isPart, hpart])]
      exact ⟨part, members, hpart, nextPart_of_part hpart members, rfl⟩

theorem finds_of_filter {members found : List (String × Json)}
    (h : members.filter isPart = found) : Finds members found :=
  h ▸ finds_filter members

/-- Two things can be put in two orders. -/
theorem eq_or_eq_of_perm_pair {a b : α} {l : List α} (h : [a, b].Perm l) :
    l = [a, b] ∨ l = [b, a] := by
  match l, h.length_eq with
  | [x, y], _ =>
    -- `a` is the first or the second, and then the other one is `b`
    rcases List.mem_cons.1 (h.mem_iff.1 List.mem_cons_self) with rfl | ha
    · exact .inl (congrArg _ (List.singleton_perm.1 h.cons_inv).symm)
    · obtain rfl := List.mem_singleton.1 ha
      have hrest : [b].Perm [x] := (h.trans (.swap ..)).cons_inv
      obtain rfl := List.singleton_perm_singleton.1 hrest
      exact .inr rfl

/-- The member that names the kind of the event. -/
def tagMember (e : Event) : String × Json :=
  (tagName, EventType.codec.write e.eventType)

theorem read_tagMember (e : Event) (mode : Mode) :
    EventType.codec.read mode (Raw.ofJson e.tagMember.2) = .ok e.eventType :=
  (e.eventType.codec_reads 0).read (.fixed _) mode

theorem members_eq (e : Event) : e.members = [e.tagMember, (contentName, e.payload)] := rfl

theorem members_names (e : Event) : ∀ member ∈ e.members, member.1 ∈ [tagName, contentName] :=
  List.forall_mem_cons.2 ⟨List.mem_cons_self,
    List.forall_mem_singleton.2 (List.mem_cons_of_mem _ List.mem_cons_self)⟩

/-- An event whose kind comes first is read as its payload is. -/
theorem readMembers_pair (e : Event) (content : Json) (mode : Mode) :
    readMembers mode .closed (Raw.ofMembers [e.tagMember, (contentName, content)]) =
      readPayload e.eventType mode (Raw.ofJson content) := by
  -- the reader meets the kind, then the payload, then the end
  show (EventType.codec.read mode (Raw.ofJson e.tagMember.2) >>= fun kind =>
    readAfterTag mode .closed kind (Raw.ofMembers [(contentName, content)])) = _
  rw [read_tagMember, Fault.ok_bind]
  show (readPayload e.eventType mode (Raw.ofJson content) >>= fun event => .ok event) = _
  cases readPayload e.eventType mode (Raw.ofJson content) <;> rfl

/-- **An event is read from its two members,** in either order and among members of other names. -/
theorem readMembers_of_perm {e : Event} (mode : Mode) (h : e.ReadsPayload) {content : Json}
    (hcontent : e.eventType.shape.Relaid e.payload content)
    {members extras : List (String × Json)} (hextras : ∀ member ∈ extras, isPart member = false)
    (hperm : ([e.tagMember, (contentName, content)] ++ extras).Perm members) :
    readMembers mode .closed (Raw.ofMembers members) = .ok e := by
  have hkind := e.read_tagMember mode
  -- of the members the search sees the two parts alone, and those in one of two orders
  have hparts : [e.tagMember, (contentName, content)].Perm (members.filter isPart) := by
    have hnone : extras.filter isPart = [] :=
      List.filter_eq_nil_iff.2 fun member hmember => by simp [hextras member hmember]
    have hfilter := hperm.filter isPart
    rwa [List.filter_append, hnone, List.append_nil] at hfilter
  rcases eq_or_eq_of_perm_pair hparts with horder | horder
  · -- the kind comes first, so the payload is read as it comes
    obtain ⟨part, rest, hpart, hnext, hrest⟩ := finds_of_filter horder
    obtain rfl : Part.tag = part := Option.some.inj hpart
    obtain ⟨part, rest', hpart, hnext', hrest'⟩ := finds_of_filter hrest
    obtain rfl : Part.content = part := Option.some.inj hpart
    have hend : nextPart .closed (Raw.ofMembers rest') = .ok none := finds_of_filter hrest'
    rw [readMembers, hnext]
    simp only [bind, Except.bind, hkind, readAfterTag, hnext', h.read hcontent mode, readEnd, hend]
    rfl
  · -- the payload comes first and is put aside until the kind is known
    obtain ⟨part, rest, hpart, hnext, hrest⟩ := finds_of_filter horder
    obtain rfl : Part.content = part := Option.some.inj hpart
    obtain ⟨part, rest', hpart, hnext', hrest'⟩ := finds_of_filter hrest
    obtain rfl : Part.tag = part := Option.some.inj hpart
    have hend : nextPart .closed (Raw.ofMembers rest') = .ok none := finds_of_filter hrest'
    have hbuffer : (Raw.ofJson content).buffer Raw.roomInside = .ok () :=
      Raw.buffer_ofJson content (Nat.le_trans (h.shallow hcontent) (by decide))
    rw [readMembers, hnext]
    simp only [bind, Except.bind, hbuffer, readAfterContent, hnext', hkind, h.read hcontent .held,
      readEnd, hend]
    rfl

/-- The shapes of what stands under the two members of an event of the given kind. -/
def insideOf (kind : EventType) (name : String) : Shape :=
  if name = contentName then kind.shape else .fixed

/-- The layouts of an event of the given kind. -/
def shape (kind : EventType) : Shape :=
  .record [tagName, contentName] (insideOf kind)

theorem isPart_eq_false {member : String × Json} :
    isPart member = false ↔ member.1 ∉ [tagName, contentName] := by
  rw [isPart, part?]
  -- the two names are looked at one after the other
  split
  · next h => simp [h]
  · next htag =>
    split
    · next h => simp [h]
    · next hcontent => simp [htag, hcontent]

/-- The members of an event, laid out anew, are its kind and a layout of its payload. -/
theorem eq_of_relaidMembers {e : Event} {inside : String → Shape} {kept : List (String × Json)}
    (htag : inside tagName = .fixed) (hcontent : inside contentName = e.eventType.shape)
    (h : Shape.RelaidMembers inside e.members kept) :
    ∃ content, e.eventType.shape.Relaid e.payload content ∧
      kept = [e.tagMember, (contentName, content)] := by
  -- there are two members, and only the second has a free layout
  cases h with
  | @cons _ _ _ tag _ rest hkind hrest =>
  rw [htag] at hkind
  cases hkind
  cases hrest with
  | @cons _ _ _ content _ rest hpayload hrest =>
  cases hrest
  rw [hcontent] at hpayload
  exact ⟨content, hpayload, rfl⟩

/-- The members of an event are legible and not nested too deep. -/
theorem legible_parts {e : Event} (h : e.ReadsPayload) {content : Json}
    (hcontent : e.eventType.shape.Relaid e.payload content) :
    ∀ member ∈ [e.tagMember, (contentName, content)],
      member.2.Legible ∧ member.2.depth ≤ 102 := by
  have hkind := e.eventType.codec_reads 102
  refine List.forall_mem_cons.2 ⟨?_, List.forall_mem_singleton.2 ?_⟩
  · exact ⟨hkind.legible (.fixed _), hkind.shallow (.fixed _)⟩
  · exact ⟨h.legible hcontent, h.shallow hcontent⟩

/-- **An event is read in any layout.** -/
theorem codec_reads {e : Event} (h : e.Stable) :
    Event.codec.Reads (shape e.eventType) 103 e := by
  have hpayload := readsPayload h
  refine .ofObject (.ofMembers (.cons (.fixed _) (.cons hpayload.self .nil))) fun {j} hj => ?_
  cases hj with
  | @record _ _ _ kept extras members hkept hextras hperm =>
  obtain ⟨content, hcontent, rfl⟩ := eq_of_relaidMembers rfl rfl hkept
  refine ⟨members, rfl, ?_, ?_⟩
  · intro member hmember
    rcases List.mem_append.1 (hperm.mem_iff.2 hmember) with hmember | hmember
    · exact legible_parts hpayload hcontent member hmember
    · -- an added member was asked to be so
      have hadded := (hextras member hmember).2
      exact ⟨hadded.legible, Nat.le_trans hadded.shallow (by decide)⟩
  · intro mode
    exact readMembers_of_perm mode hpayload hcontent
      (fun member hmember => isPart_eq_false.2 (hextras member hmember).1) hperm

end Event

end Telemetry
