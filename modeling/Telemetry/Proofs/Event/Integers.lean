import Telemetry.Proofs.Kinds
import Telemetry.Proofs.Json.Place

/-!
# The integers of events

Every payload has a list of the places where its integers stand (`EventType.integers`): its
timestamps, counts and indices, the words of its ids, and the bytes of a message. What stands in an
optional member has places if it is there. By the law of records all of them are exact
(`EventType.exact_integers`).

The payload of an event is read in one of two ways. Behind the name of its kind it is read as it
comes. In front of the name it is put aside first, which only asks of a number that it has a
meaning, and then read again. A member that has been read as the payload is read in the same way
whatever stands in it (`Event.readMembers_content`); so the places of the payload are exact in the
event too (`EventType.exact_event`), in either order of its members, and in an array.
-/

namespace Telemetry

open Place (whole inside AllExact)

/-! ### Payloads -/

namespace CorrelationId

/-- The places of the integers of an id. -/
def integers (id : CorrelationId) : List (Place CorrelationId) :=
  inside ⟨"low", 0⟩ (fun n => { id with low := n }) [whole .u64] ++
  inside ⟨"high", 1⟩ (fun n => { id with high := n }) [whole .u64]

theorem described : Place.Describes fields toRow ofRow codec :=
  ⟨by decide, fun _ => rfl, _, fun _ _ => rfl⟩

theorem exact_integers (id : CorrelationId) : AllExact id.integers codec.read id := by
  -- one case for each field with an integer in it; the number is the position in the record
  refine .append ?low ?high
  case low => exact .field described (.nth fields 0) (.whole .unsigned64)
  case high => exact .field described (.nth fields 1) (.whole .unsigned64)

end CorrelationId

namespace HttpStart

/-- The places of the integers of the payload. -/
def integers (e : HttpStart) : List (Place HttpStart) :=
  inside ⟨"timestamp", 0⟩ (fun n => { e with timestamp := n }) [whole .i64] ++
  inside ⟨"request_id", 1⟩ (fun id => { e with requestId := id }) e.requestId.integers ++
  inside ⟨"application_id", 7⟩ (fun id => { e with applicationId := id })
    (Place.optional CorrelationId.integers e.applicationId) ++
  inside ⟨"instance_index", 8⟩ (fun n => { e with instanceIndex := n })
    (Place.optional (fun _ => [whole .i32]) e.instanceIndex)

theorem described : Place.Describes fields toRow ofRow codec :=
  ⟨by decide, fun _ => rfl, _, fun _ _ => rfl⟩

theorem exact_integers (e : HttpStart) : AllExact e.integers codec.read e := by
  refine .append (.append (.append ?timestamp ?requestId) ?applicationId) ?instanceIndex
  case timestamp => exact .field described (.nth fields 0) (.whole .signed64)
  case requestId => exact .field described (.nth fields 1) e.requestId.exact_integers
  case applicationId =>
    exact .field described (.nth fields 7) (.optional CorrelationId.exact_integers _)
  case instanceIndex =>
    exact .field described (.nth fields 8) (.optional (fun _ => .whole .signed32) _)

end HttpStart

namespace HttpStop

/-- The places of the integers of the payload. -/
def integers (e : HttpStop) : List (Place HttpStop) :=
  inside ⟨"timestamp", 0⟩ (fun n => { e with timestamp := n }) [whole .i64] ++
  inside ⟨"request_id", 2⟩ (fun id => { e with requestId := id }) e.requestId.integers ++
  inside ⟨"status_code", 4⟩ (fun n => { e with statusCode := n }) [whole .i32] ++
  inside ⟨"content_length", 5⟩ (fun n => { e with contentLength := n }) [whole .i64] ++
  inside ⟨"application_id", 6⟩ (fun id => { e with applicationId := id })
    (Place.optional CorrelationId.integers e.applicationId)

theorem described : Place.Describes fields toRow ofRow codec :=
  ⟨by decide, fun _ => rfl, _, fun _ _ => rfl⟩

theorem exact_integers (e : HttpStop) : AllExact e.integers codec.read e := by
  refine .append (.append (.append (.append ?timestamp ?requestId) ?statusCode) ?contentLength)
    ?applicationId
  case timestamp => exact .field described (.nth fields 0) (.whole .signed64)
  case requestId => exact .field described (.nth fields 2) e.requestId.exact_integers
  case statusCode => exact .field described (.nth fields 4) (.whole .signed32)
  case contentLength => exact .field described (.nth fields 5) (.whole .signed64)
  case applicationId =>
    exact .field described (.nth fields 6) (.optional CorrelationId.exact_integers _)

end HttpStop

namespace HttpStartStop

/-- The places of the integers of the payload. -/
def integers (e : HttpStartStop) : List (Place HttpStartStop) :=
  inside ⟨"start_timestamp", 0⟩ (fun n => { e with startTimestamp := n }) [whole .i64] ++
  inside ⟨"stop_timestamp", 1⟩ (fun n => { e with stopTimestamp := n }) [whole .i64] ++
  inside ⟨"request_id", 2⟩ (fun id => { e with requestId := id }) e.requestId.integers ++
  inside ⟨"status_code", 8⟩ (fun n => { e with statusCode := n }) [whole .i32] ++
  inside ⟨"content_length", 9⟩ (fun n => { e with contentLength := n }) [whole .i64] ++
  inside ⟨"application_id", 10⟩ (fun id => { e with applicationId := id })
    (Place.optional CorrelationId.integers e.applicationId) ++
  inside ⟨"instance_index", 11⟩ (fun n => { e with instanceIndex := n })
    (Place.optional (fun _ => [whole .i32]) e.instanceIndex)

theorem described : Place.Describes fields toRow ofRow codec :=
  ⟨by decide, fun _ => rfl, _, fun _ _ => rfl⟩

theorem exact_integers (e : HttpStartStop) : AllExact e.integers codec.read e := by
  refine .append (.append (.append (.append (.append (.append ?startTimestamp ?stopTimestamp)
    ?requestId) ?statusCode) ?contentLength) ?applicationId) ?instanceIndex
  case startTimestamp => exact .field described (.nth fields 0) (.whole .signed64)
  case stopTimestamp => exact .field described (.nth fields 1) (.whole .signed64)
  case requestId => exact .field described (.nth fields 2) e.requestId.exact_integers
  case statusCode => exact .field described (.nth fields 8) (.whole .signed32)
  case contentLength => exact .field described (.nth fields 9) (.whole .signed64)
  case applicationId =>
    exact .field described (.nth fields 10) (.optional CorrelationId.exact_integers _)
  case instanceIndex =>
    exact .field described (.nth fields 11) (.optional (fun _ => .whole .signed32) _)

end HttpStartStop

namespace LogMessage

/-- The places of the integers of the payload. -/
def integers (e : LogMessage) : List (Place LogMessage) :=
  inside ⟨"message", 0⟩ (fun bytes => { e with message := bytes })
    (Place.items (fun _ => [whole .u8]) e.message) ++
  inside ⟨"timestamp", 2⟩ (fun n => { e with timestamp := n }) [whole .i64]

theorem described : Place.Describes fields toRow ofRow codec :=
  ⟨by decide, fun _ => rfl, _, fun _ _ => rfl⟩

theorem exact_integers (e : LogMessage) : AllExact e.integers codec.read e := by
  -- every byte of the message is a place of its own
  refine .append ?message ?timestamp
  case message => exact .field described (.nth fields 0) (.sequence (fun _ => .whole .byte) _)
  case timestamp => exact .field described (.nth fields 2) (.whole .signed64)

end LogMessage

namespace ContainerMetric

/-- The places of the integers of the payload. -/
def integers (e : ContainerMetric) : List (Place ContainerMetric) :=
  inside ⟨"instance_index", 1⟩ (fun n => { e with instanceIndex := n }) [whole .i32] ++
  inside ⟨"memory_bytes", 3⟩ (fun n => { e with memoryBytes := n }) [whole .u64] ++
  inside ⟨"disk_bytes", 4⟩ (fun n => { e with diskBytes := n }) [whole .u64]

theorem described : Place.Describes fields toRow ofRow codec :=
  ⟨by decide, fun _ => rfl, _, fun _ _ => rfl⟩

theorem exact_integers (e : ContainerMetric) : AllExact e.integers codec.read e := by
  refine .append (.append ?instanceIndex ?memoryBytes) ?diskBytes
  case instanceIndex => exact .field described (.nth fields 1) (.whole .signed32)
  case memoryBytes => exact .field described (.nth fields 3) (.whole .unsigned64)
  case diskBytes => exact .field described (.nth fields 4) (.whole .unsigned64)

end ContainerMetric

/-- The places of the integers of a payload. -/
def EventType.integers : (kind : EventType) → kind.Payload → List (Place kind.Payload)
  | .httpStart => HttpStart.integers
  | .httpStop => HttpStop.integers
  | .httpStartStop => HttpStartStop.integers
  | .logMessage => LogMessage.integers
  | .containerMetric => ContainerMetric.integers

/-- **The integers of a payload are read exactly or refused.** -/
theorem EventType.exact_integers (kind : EventType) (v : kind.Payload) :
    AllExact (kind.integers v) kind.payloadCodec.read v := by
  cases kind with
  | httpStart => exact v.exact_integers
  | httpStop => exact v.exact_integers
  | httpStartStop => exact v.exact_integers
  | logMessage => exact v.exact_integers
  | containerMetric => exact v.exact_integers

/-! ### Events -/

namespace Event

variable {mode : Mode} {ending : Ending} {before after : List Raw.Member} {item : Raw} {e : Event}

/-- In front of a member with the content, the search for the next part fails, or finds another
part, or comes to the member. It does not look into the member. -/
theorem nextPart_content (ending : Ending) (before after : List Raw.Member) :
    (∃ fault, ∀ item, nextPart ending (before ++ (.ok contentName, item) :: after) =
        .error fault) ∨
      (∃ part found rest, ∀ item, nextPart ending (before ++ (.ok contentName, item) :: after) =
        .ok (some (part, found, rest ++ (.ok contentName, item) :: after))) ∨
      ∀ item, nextPart ending (before ++ (.ok contentName, item) :: after) =
        .ok (some (.content, item, after)) := by
  -- By induction on the members in front: the search ends at one of them, or goes on as from the
  -- next.
  induction before with
  | nil => exact .inr (.inr fun item => rfl)
  | cons member before ih =>
    obtain ⟨key, found⟩ := member
    simp only [List.cons_append, nextPart]
    cases key with
    -- a key that cannot be read
    | error fault => exact .inl ⟨fault, fun item => rfl⟩
    | ok name =>
      simp only [Fault.ok_bind]
      cases part? name with
      | some part => exact .inr (.inl ⟨part, found, before, fun item => rfl⟩)
      | none => -- a member of another name is skipped
        cases found.skip with
        | error fault => exact .inl ⟨fault, fun item => rfl⟩
        | ok u =>
          simp only [Fault.ok_bind]
          exact ih

/-- The content comes once. -/
theorem readEnd_content (item : Raw) :
    readEnd ending (before ++ (.ok contentName, item) :: after) ≠ .ok () := by
  intro h
  rw [readEnd] at h
  -- In each case the search fails or finds a part, and to read the end neither is allowed.
  rcases nextPart_content ending before after with hnext | hnext | hnext
  · obtain ⟨fault, hnext⟩ := hnext
    rw [hnext] at h
    cases h
  · obtain ⟨part, found, rest, hnext⟩ := hnext
    rw [hnext] at h
    cases h
  · rw [hnext] at h
    cases h

/-- Behind the name of its kind, the payload is read as it comes. -/
theorem readAfterTag_content {kind : EventType}
    (h : readAfterTag mode ending kind (before ++ (.ok contentName, item) :: after) = .ok e) :
    ∀ other, readAfterTag mode ending kind (before ++ (.ok contentName, other) :: after) =
      readPayload kind mode other := by
  intro other
  rw [readAfterTag] at h ⊢
  rcases nextPart_content ending before after with hnext | hnext | hnext
  · obtain ⟨fault, hnext⟩ := hnext
    rw [hnext] at h
    cases h
  · obtain ⟨part, found, rest, hnext⟩ := hnext
    rw [hnext, Fault.ok_bind] at h
    cases part with
    | tag => cases h
    | content => -- then the member would be a second content
      obtain ⟨event, -, h⟩ := Fault.bind_eq_ok.1 h
      obtain ⟨⟨⟩, hend, -⟩ := Fault.bind_eq_ok.1 h
      exact absurd hend (readEnd_content item)
  · -- the member is the content: only its own reader looks into it
    rw [hnext, Fault.ok_bind] at h ⊢
    obtain ⟨event, -, h⟩ := Fault.bind_eq_ok.1 h
    obtain ⟨⟨⟩, hend, -⟩ := Fault.bind_eq_ok.1 h
    simp only [hend, Fault.ok_bind]
    cases readPayload kind mode other <;> rfl

/-- Behind a payload that was put aside, there is no other. -/
theorem readAfterContent_content (content : Raw) :
    readAfterContent mode ending content (before ++ (.ok contentName, item) :: after) ≠ .ok e := by
  intro h
  rw [readAfterContent] at h
  rcases nextPart_content ending before after with hnext | hnext | hnext
  · obtain ⟨fault, hnext⟩ := hnext
    rw [hnext] at h
    cases h
  · obtain ⟨part, found, rest, hnext⟩ := hnext
    rw [hnext, Fault.ok_bind] at h
    cases part with
    -- the name of the kind is found, and then the member is one too many at the end
    | tag =>
      obtain ⟨kind, -, h⟩ := Fault.bind_eq_ok.1 h
      obtain ⟨event, -, h⟩ := Fault.bind_eq_ok.1 h
      obtain ⟨⟨⟩, hend, -⟩ := Fault.bind_eq_ok.1 h
      exact readEnd_content item hend
    | content => cases h
  · rw [hnext] at h
    cases h

/-- What was put aside is read as the payload. -/
theorem exists_readAfterContent {content : Raw}
    (h : readAfterContent mode ending content after = .ok e) :
    ∃ kind, ∀ other, readAfterContent mode ending other after = readPayload kind .held other := by
  rw [readAfterContent] at h
  obtain ⟨next, hnext, h⟩ := Fault.bind_eq_ok.1 h
  -- of the three ends of the search only the name of the kind leads to an event
  rcases next with _ | ⟨_ | _, found, rest⟩
  · cases h
  · obtain ⟨kind, hkind, h⟩ := Fault.bind_eq_ok.1 h
    obtain ⟨event, -, h⟩ := Fault.bind_eq_ok.1 h
    obtain ⟨⟨⟩, hend, -⟩ := Fault.bind_eq_ok.1 h
    refine ⟨kind, fun other => ?_⟩
    rw [readAfterContent, hnext]
    simp only [hkind, hend, Fault.ok_bind]
    cases readPayload kind .held other <;> rfl
  · cases h

/-- **A member that is the content of an event decides its payload.** Either it is read as it comes,
or it is put aside and read then. -/
theorem readMembers_content
    (h : readMembers mode ending (before ++ (.ok contentName, item) :: after) = .ok e) :
    ∃ kind, (∀ other, readMembers mode ending (before ++ (.ok contentName, other) :: after) =
        readPayload kind mode other) ∨
      ∀ other, readMembers mode ending (before ++ (.ok contentName, other) :: after) =
        other.buffer Raw.roomInside >>= fun _ => readPayload kind .held other := by
  rw [readMembers] at h
  -- The first part is in front of the member, or it is the member.
  rcases nextPart_content ending before after with hnext | hnext | hnext
  · obtain ⟨fault, hnext⟩ := hnext
    rw [hnext] at h
    cases h
  · obtain ⟨part, found, rest, hnext⟩ := hnext
    rw [hnext, Fault.ok_bind] at h
    cases part with
    | tag => -- the name of the kind comes first
      obtain ⟨kind, hkind, h⟩ := Fault.bind_eq_ok.1 h
      refine ⟨kind, .inl fun other => ?_⟩
      rw [readMembers, hnext, Fault.ok_bind]
      simp only [hkind, Fault.ok_bind, readAfterTag_content h]
    | content => -- then the member would be a second content
      obtain ⟨⟨⟩, -, h⟩ := Fault.bind_eq_ok.1 h
      exact absurd h (readAfterContent_content found)
  · -- the payload comes first
    rw [hnext, Fault.ok_bind] at h
    obtain ⟨⟨⟩, -, h⟩ := Fault.bind_eq_ok.1 h
    obtain ⟨kind, hread⟩ := exists_readAfterContent h
    refine ⟨kind, .inr fun other => ?_⟩
    rw [readMembers, hnext, Fault.ok_bind]
    simp only [hread]

/-- An element of an array that is the content of an event decides its payload. -/
theorem readElements_content {tag : Raw} {rest : List Raw}
    (h : readElements mode ending (tag :: item :: rest) = .ok e) :
    ∃ kind, ∀ other, readElements mode ending (tag :: other :: rest) =
      readPayload kind mode other := by
  rw [readElements] at h
  obtain ⟨kind, hkind, h⟩ := Fault.bind_eq_ok.1 h
  obtain ⟨event, -, h⟩ := Fault.bind_eq_ok.1 h
  obtain ⟨⟨⟩, hend, -⟩ := Fault.bind_eq_ok.1 h
  -- the name of the kind and what is behind the payload are read as before
  refine ⟨kind, fun other => ?_⟩
  rw [readElements]
  simp only [hkind, hend, Fault.ok_bind]
  cases readPayload kind mode other <;> rfl

/-- The step to the content of an event. -/
def contentStep : Step :=
  ⟨contentName, 1⟩

end Event

namespace EventType

variable {kind : EventType} {v : kind.Payload}

theorem wrap_injective (kind : EventType) : Function.Injective kind.wrap := by
  cases kind <;>
  · intro a b h
    cases h
    rfl

/-- What is read as the event of a payload is read as the payload. -/
theorem read_of_readPayload {kind' : EventType} {mode : Mode} {raw : Raw}
    (h : Event.readPayload kind' mode raw = .ok (kind.wrap v)) :
    kind' = kind ∧ kind.payloadCodec.read mode raw = .ok v := by
  rw [readPayload_eq] at h
  obtain ⟨w, hw, heq⟩ := Fault.map_eq_ok.1 h
  -- the kind can be told from the event
  have hkind := congrArg Event.eventType heq
  rw [eventType_wrap, eventType_wrap] at hkind
  subst hkind
  rw [kind'.wrap_injective heq] at hw
  exact ⟨rfl, hw⟩

theorem exact_readPayload {p : Place kind.Payload} (h : p.Exact kind.payloadCodec.read v)
    (kind' : EventType) : (p.within kind.wrap).Exact (Event.readPayload kind') (kind.wrap v) := by
  -- the reader of the payload is passed the value as it is
  refine .passedOn fun {around mode m} hat hread => ?_
  obtain ⟨rfl, hv⟩ := read_of_readPayload hread
  exact ⟨_, h.fill hat hv, fun x => readPayload_eq ..⟩

/-- **The places of a payload are exact in its event,** in either order of the two members. -/
theorem exact_event {p : Place kind.Payload} (h : p.Exact kind.payloadCodec.read v) :
    (p.under Event.contentStep kind.wrap).Exact Event.read (kind.wrap v) where
  fill hat hread x := by
    cases hat with
    | @item _ _ inner before after ending hinner hindex =>
      -- one element comes before the payload, the name of its kind
      obtain ⟨tag, rfl⟩ := List.length_eq_one_iff.1 hindex
      obtain ⟨kind', hpass⟩ := Event.readElements_content hread
      have hpayload := (hpass _).symm.trans hread
      exact (congrArg _ (hpass _)).trans ((exact_readPayload h kind').fill hinner hpayload x)
    | @member _ _ inner before after ending hinner =>
      obtain ⟨kind', hpass | hpass⟩ := Event.readMembers_content hread
      · -- the payload is read as it comes
        have hpayload := (hpass _).symm.trans hread
        exact (congrArg _ (hpass _)).trans ((exact_readPayload h kind').fill hinner hpayload x)
      · -- the payload has been put aside, so the number must have a meaning
        obtain ⟨⟨⟩, hbuffer, hpayload⟩ := Fault.bind_eq_ok.1 ((hpass _).symm.trans hread)
        refine (congrArg _ (hpass _)).trans ?_
        rw [Raw.buffer_fill hbuffer]
        exact Place.toOption_checked ((exact_readPayload h kind').fill hinner hpayload x)

end EventType

end Telemetry
