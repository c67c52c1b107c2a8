import Telemetry.Envelope.Basic
import Telemetry.Proofs.Event.Codec
import Telemetry.Proofs.Json.Outline

/-!
# No kind of event is read as another

The payloads have most of their names in common, members of other names are passed over, and some
members may be missing. What keeps the kinds apart are the members that must be there. For every two
kinds there is one that the second needs and that the first never writes
(`EventType.exists_required_of_ne`), so the text of the one is not read as the other
(`EventType.payload_refused`). The same holds of the text of an event or envelope, which has no
member that a payload needs, and of the text of a payload, which does not name its kind.

A reader that succeeds has found what it needs among the members: `Record.exists_of_read` says so of
records, `Event.exists_of_readMembers` of the two members of an event, and
`Envelope.mem_of_readMembers` that an envelope's reader puts aside nothing else than what is there.
These speak of what stands in a text, and only the outline of that is used; so nothing is asked of
the doubles.
-/

namespace Telemetry

/-! ### Members that must be there -/

namespace Record

variable {mode : Mode} {fields : List Field}

/-- The names of the slots that are full. -/
def filled : (fields : List Field) → Slots fields → List String
  | [], () => []
  | f :: fs, (slot, slots) => if slot.isSome then f.name :: filled fs slots else filled fs slots

theorem filled_vacant (fields : List Field) : filled fields (vacant fields) = [] := by
  induction fields with
  | nil => rfl
  | cons f fs ih => exact ih

/-- A member fills a slot of its own name. -/
theorem filled_of_accept? {name : String} {item : Raw} {slots result : Slots fields}
    (h : accept? mode name item fields slots = some (.ok result)) :
    ∀ n ∈ filled fields result, n = name ∨ n ∈ filled fields slots := by
  -- field by field: the member is for the first one, or for one of those behind it
  induction fields with
  | nil => rw [accept?] at h; cases h
  | cons f fs ih =>
    obtain ⟨slot, slots⟩ := slots
    rw [accept?.eq_def] at h
    simp only at h
    split at h
    · next hname =>
      cases slot with
      | some a => cases h
      | none =>
        -- the slot was vacant and is full now, and the others are as they were
        cases hread : f.codec.read mode item with
        | error fault => rw [hread] at h; cases h
        | ok a =>
          rw [hread] at h
          cases h
          intro n hn
          exact (List.mem_cons.1 hn).imp_left fun heq => heq.trans hname
    · -- the member is for a field behind, and the first slot is as it was
      obtain ⟨read, haccept, hmap⟩ := Option.map_eq_some_iff.1 h
      cases read with
      | error fault => cases hmap
      | ok more =>
        cases hmap
        intro n hn
        cases slot with
        | none => exact ih haccept n hn
        | some a =>
          rcases List.mem_cons.1 hn with rfl | hn
          · exact .inr List.mem_cons_self
          · exact (ih haccept n hn).imp_right (List.mem_cons_of_mem _)

/-- **Full slots were full before or have their member.** -/
theorem filled_of_readMembers {slots result : Slots fields} {raws : List Raw.Member}
    (h : readMembers mode fields slots raws = .ok result) :
    ∀ n ∈ filled fields result, n ∈ filled fields slots ∨ ∃ item, (.ok n, item) ∈ raws := by
  -- by induction on the members, with the slots that are full so far
  induction raws generalizing slots with
  | nil =>
    obtain rfl := Except.ok.inj h
    exact fun n hn => .inl hn
  | cons member raws ih =>
    obtain ⟨key, item⟩ := member
    rw [readMembers] at h
    obtain ⟨name, rfl, hbody⟩ := Fault.bind_eq_ok.1 h
    -- the member itself fills the slot of its name at most
    obtain ⟨middle, hmiddle, hrest⟩ : ∃ middle,
        (∀ n ∈ filled fields middle, n = name ∨ n ∈ filled fields slots) ∧
          readMembers mode fields middle raws = .ok result := by
      -- the member is taken by a field, or passed over
      split at hbody
      · next read haccept =>
        obtain ⟨middle, rfl, hrest⟩ := Fault.bind_eq_ok.1 hbody
        exact ⟨middle, filled_of_accept? haccept, hrest⟩
      · obtain ⟨-, -, hrest⟩ := Fault.bind_eq_ok.1 hbody
        exact ⟨slots, fun n hn => .inr hn, hrest⟩
    intro n hn
    rcases ih hrest n hn with hn | ⟨found, hfound⟩
    · rcases hmiddle n hn with rfl | hn
      · exact .inr ⟨item, List.mem_cons_self⟩
      · exact .inl hn
    · exact .inr ⟨found, List.mem_cons_of_mem _ hfound⟩

/-- At the end of the object the slots are full that must be. -/
theorem filled_of_finish {slots : Slots fields} {row : Row fields}
    (h : finish fields slots = .ok row) :
    ∀ f ∈ fields, f.codec.absent = none → f.name ∈ filled fields slots := by
  induction fields with
  | nil => simp
  | cons f fs ih =>
    obtain ⟨slot, slots⟩ := slots
    rw [finish] at h
    obtain ⟨a, hsettle, h⟩ := Fault.bind_eq_ok.1 h
    obtain ⟨more, hfinish, -⟩ := Fault.bind_eq_ok.1 h
    refine List.forall_mem_cons.2 ⟨fun habsent => ?_, fun g hg habsent => ?_⟩
    · -- a vacant slot could only be settled by `absent`
      cases slot with
      | some b => exact List.mem_cons_self
      | none =>
        rw [settle, habsent] at hsettle
        cases hsettle
    · have hmem := ih hfinish g hg habsent
      rw [filled]
      split
      · exact List.mem_cons_of_mem _ hmem
      · exact hmem

/-- **A record that is read has every member that must be there.** -/
theorem exists_of_read {name : String} {raws : List Raw.Member} {ending : Ending} {row : Row fields}
    (h : Record.read name fields mode (.object raws ending) = .ok row) {f : Field}
    (hf : f ∈ fields) (habsent : f.codec.absent = none) : ∃ item, (.ok f.name, item) ∈ raws := by
  rw [Record.read] at h
  obtain ⟨slots, hread, h⟩ := Fault.bind_eq_ok.1 h
  obtain ⟨-, -, h⟩ := Fault.bind_eq_ok.1 h
  -- the slot is full at the end and was vacant at the start, so a member has filled it
  have hmem := filled_of_readMembers hread _ (filled_of_finish h f hf habsent)
  refine hmem.resolve_left ?_
  rw [filled_vacant]
  exact List.not_mem_nil

end Record

/-! ### The members of an event -/

namespace Event

theorem name_of_part? {name : String} {part : Part} (h : part? name = some part) :
    part.name = name := by
  unfold part? at h
  split at h
  · next hname =>
    cases h
    exact hname.symm
  · split at h
    · next hname =>
      cases h
      exact hname.symm
    · cases h

/-- The next part is among the members, and so is what comes behind it. -/
theorem mem_of_nextPart {ending : Ending} {raws rest : List Raw.Member} {part : Part} {item : Raw}
    (h : nextPart ending raws = .ok (some (part, item, rest))) :
    (.ok part.name, item) ∈ raws ∧ ∀ member ∈ rest, member ∈ raws := by
  -- members of other names are passed over up to the next part
  induction raws with
  | nil =>
    rw [nextPart] at h
    obtain ⟨-, -, h⟩ := Fault.bind_eq_ok.1 h
    cases h
  | cons member raws ih =>
    obtain ⟨key, found⟩ := member
    rw [nextPart] at h
    obtain ⟨name, rfl, hbody⟩ := Fault.bind_eq_ok.1 h
    split at hbody
    · next hpart =>
      cases hbody
      rw [name_of_part? hpart]
      exact ⟨List.mem_cons_self, fun _ => List.mem_cons_of_mem _⟩
    · obtain ⟨-, -, hnext⟩ := Fault.bind_eq_ok.1 hbody
      obtain ⟨hitem, hrest⟩ := ih hnext
      exact ⟨List.mem_cons_of_mem _ hitem,
        fun member hmember => List.mem_cons_of_mem _ (hrest member hmember)⟩

/-- **An event that is read has a member that names its kind and one that is read as its
payload.** -/
theorem exists_of_readMembers {mode : Mode} {ending : Ending} {raws : List Raw.Member} {e : Event}
    (h : readMembers mode ending raws = .ok e) :
    ∃ tag content kind mode', (.ok tagName, tag) ∈ raws ∧ (.ok contentName, content) ∈ raws ∧
      EventType.codec.read mode tag = .ok kind ∧ readPayload kind mode' content = .ok e := by
  rw [readMembers] at h
  obtain ⟨first, hfirst, h⟩ := Fault.bind_eq_ok.1 h
  rcases first with _ | ⟨_ | _, item, rest⟩
  · -- neither the kind nor a payload is there
    cases h
  · -- the kind is named first
    obtain ⟨htag, hrest⟩ := mem_of_nextPart hfirst
    obtain ⟨kind, hkind, h⟩ := Fault.bind_eq_ok.1 h
    -- only a payload may follow, and it is read as one of this kind
    rw [readAfterTag] at h
    obtain ⟨second, hsecond, h⟩ := Fault.bind_eq_ok.1 h
    rcases second with _ | ⟨_ | _, content, more⟩
    · cases h
    · cases h
    · obtain ⟨event, hevent, h⟩ := Fault.bind_eq_ok.1 h
      obtain ⟨-, -, h⟩ := Fault.bind_eq_ok.1 h
      cases h
      exact ⟨item, content, kind, mode, htag, hrest _ (mem_of_nextPart hsecond).1, hkind, hevent⟩
  · -- the payload is put aside
    obtain ⟨hcontent, hrest⟩ := mem_of_nextPart hfirst
    obtain ⟨-, -, h⟩ := Fault.bind_eq_ok.1 h
    -- only the kind may follow, and what was put aside is then read as one of it
    rw [readAfterContent] at h
    obtain ⟨second, hsecond, h⟩ := Fault.bind_eq_ok.1 h
    rcases second with _ | ⟨_ | _, tag, more⟩
    · cases h
    · obtain ⟨kind, hkind, h⟩ := Fault.bind_eq_ok.1 h
      obtain ⟨event, hevent, h⟩ := Fault.bind_eq_ok.1 h
      obtain ⟨-, -, h⟩ := Fault.bind_eq_ok.1 h
      cases h
      exact ⟨tag, item, kind, .held, hrest _ (mem_of_nextPart hsecond).1, hcontent, hkind, hevent⟩
    · cases h

end Event

/-! ### What an envelope puts aside -/

namespace Envelope

theorem mem_of_readMembers {slots result : Slots fields} {raws held : List Raw.Member}
    (h : readMembers slots raws = .ok (result, held)) : ∀ member ∈ held, member ∈ raws := by
  -- by induction on the members: each is taken by a field or put aside as it is
  induction raws generalizing slots held with
  | nil =>
    cases h
    exact fun _ hmember => hmember
  | cons member raws ih =>
    obtain ⟨key, item⟩ := member
    rw [readMembers] at h
    obtain ⟨name, rfl, hbody⟩ := Fault.bind_eq_ok.1 h
    split at hbody
    · -- a member of the envelope's own
      obtain ⟨middle, -, hrest⟩ := Fault.bind_eq_ok.1 hbody
      exact fun member hmember => List.mem_cons_of_mem _ (ih hrest member hmember)
    · -- a member that is put aside goes in front of the others that are
      obtain ⟨-, -, hbody⟩ := Fault.bind_eq_ok.1 hbody
      obtain ⟨⟨middle, more⟩, hread, hbody⟩ := Fault.bind_eq_ok.1 hbody
      cases hbody
      intro member hmember
      rcases List.mem_cons.1 hmember with rfl | hmember
      · exact List.mem_cons_self
      · exact List.mem_cons_of_mem _ (ih hread member hmember)

/-- **An envelope that is read has its event among its members.** -/
theorem exists_of_read {raws : List Raw.Member} {ending : Ending} {e : Envelope}
    (h : read (.object raws ending) = .ok e) :
    ∃ held, (∀ member ∈ held, member ∈ raws) ∧
      Event.readMembers .held .closed held = .ok e.event := by
  rw [read] at h
  obtain ⟨⟨slots, held⟩, hread, h⟩ := Fault.bind_eq_ok.1 h
  obtain ⟨-, -, h⟩ := Fault.bind_eq_ok.1 h
  obtain ⟨row, -, h⟩ := Fault.bind_eq_ok.1 h
  obtain ⟨event, hevent, h⟩ := Fault.bind_eq_ok.1 h
  cases h
  exact ⟨held, mem_of_readMembers hread, hevent⟩

end Envelope

/-! ### The kinds of payloads -/

namespace EventType

/-- The payloads of events of the kind. -/
@[reducible] def Payload : EventType → Type
  | .httpStart => HttpStart
  | .httpStop => HttpStop
  | .httpStartStop => HttpStartStop
  | .logMessage => LogMessage
  | .containerMetric => ContainerMetric

def payloadCodec : (kind : EventType) → Codec kind.Payload
  | .httpStart => HttpStart.codec
  | .httpStop => HttpStop.codec
  | .httpStartStop => HttpStartStop.codec
  | .logMessage => LogMessage.codec
  | .containerMetric => ContainerMetric.codec

/-- The event of a payload. -/
def wrap : (kind : EventType) → kind.Payload → Event
  | .httpStart => .httpStart
  | .httpStop => .httpStop
  | .httpStartStop => .httpStartStop
  | .logMessage => .logMessage
  | .containerMetric => .containerMetric

/-- The fields of the payload. -/
def fields : EventType → List Field
  | .httpStart => HttpStart.fields
  | .httpStop => HttpStop.fields
  | .httpStartStop => HttpStartStop.fields
  | .logMessage => LogMessage.fields
  | .containerMetric => ContainerMetric.fields

/-- The names of the members that a payload must have. -/
def required (kind : EventType) : List String :=
  (kind.fields.filter fun f => f.codec.absent.isNone).map Field.name

theorem readPayload_eq (kind : EventType) (mode : Mode) (raw : Raw) :
    Event.readPayload kind mode raw = (kind.payloadCodec.read mode raw).map kind.wrap := by
  cases kind <;> rfl

theorem exists_wrap (e : Event) : ∃ v, e = e.eventType.wrap v := by
  cases e <;> exact ⟨_, rfl⟩

@[simp] theorem eventType_wrap (kind : EventType) (v : kind.Payload) :
    (kind.wrap v).eventType = kind := by
  cases kind <;> rfl

@[simp] theorem payload_wrap (kind : EventType) (v : kind.Payload) :
    (kind.wrap v).payload = kind.payloadCodec.write v := by
  cases kind <;> rfl

/-- What is written for a payload stands under the names of its fields. -/
theorem exists_write (kind : EventType) (v : kind.Payload) :
    ∃ members, kind.payloadCodec.write v = .object members ∧
      ∀ member ∈ members, member.1 ∈ kind.fields.map Field.name := by
  cases kind <;> exact ⟨_, rfl, Record.write_names⟩

/-- A payload is read as a record. -/
theorem exists_read (kind : EventType) : ∃ (name : String) (ofRow : Row kind.fields → kind.Payload),
    ∀ mode raw, kind.payloadCodec.read mode raw =
      (Record.read name kind.fields mode raw).map ofRow := by
  cases kind <;> exact ⟨_, _, fun _ _ => rfl⟩

/-- **A payload is not read from an object that lacks a member which it must have.** -/
theorem payload_refused {kind : EventType} {raw : Raw} {members : List (String × Json)}
    (h : raw.Outlines (.object members)) {name : String} (hname : name ∈ kind.required)
    (hmembers : ∀ member ∈ members, member.1 ≠ name) (mode : Mode) :
    Refused (kind.payloadCodec.read mode raw) := by
  obtain ⟨raws, rfl, hraws⟩ := h.object
  obtain ⟨f, hf, rfl⟩ := List.mem_map.1 hname
  rw [List.mem_filter, Option.isNone_iff_eq_none] at hf
  obtain ⟨record, ofRow, hread⟩ := kind.exists_read
  rw [hread]
  refine Refused.map (refused_of_ne_ok fun row hrow => ?_) ofRow
  -- the member would be among those that were written
  obtain ⟨item, hitem⟩ := Record.exists_of_read hrow hf.1 hf.2
  obtain ⟨member, hmember, hkey, -⟩ := hraws _ _ hitem
  exact hmembers member hmember (Except.ok.inj hkey).symm

/-- **Of two kinds each must have a member that the other never has.** -/
theorem exists_required_of_ne {a b : EventType} (h : a ≠ b) :
    ∃ name ∈ b.required, name ∉ a.fields.map Field.name := by
  -- twenty pairs, of which each is decided by the names in the tables
  revert h
  cases a <;> cases b <;> decide

/-- Every kind must have a member that no event and no envelope has. -/
theorem exists_required_foreign (kind : EventType) :
    ∃ name ∈ kind.required,
      name ∉ Envelope.fields.map Field.name ++ [Event.tagName, Event.contentName] := by
  cases kind <;> decide

/-- No payload has a member that names a kind. -/
theorem tagName_not_mem_fields (kind : EventType) :
    Event.tagName ∉ kind.fields.map Field.name := by
  cases kind <;> decide

end EventType

/-! ### Texts with another kind's name -/

/-- The members with `kind` for the kind that they name. -/
def EventType.retag (kind : EventType) (members : List (String × Json)) : List (String × Json) :=
  members.map fun member =>
    if member.1 = Event.tagName then (member.1, .text kind.name) else member

/-- Members that name the kind `b` and hold a payload of the kind `a`. -/
structure Mistagged (a b : EventType) (members : List (String × Json)) : Prop where
  tag : ∀ member ∈ members, member.1 = Event.tagName → member.2 = .text b.name
  content : ∀ member ∈ members, member.1 = Event.contentName →
    ∃ v : a.Payload, member.2 = a.payloadCodec.write v

namespace Mistagged

variable {a b : EventType} {members : List (String × Json)}

/-- The members of an event, with another kind named. -/
theorem retag_members (b : EventType) (e : Event) :
    Mistagged e.eventType b (b.retag e.members) := by
  obtain ⟨v, hv⟩ := EventType.exists_wrap e
  -- an event has two members, of which one names its kind
  have hmembers : b.retag e.members =
      [(Event.tagName, .text b.name), (Event.contentName, e.payload)] := rfl
  have hpayload : e.payload = e.eventType.payloadCodec.write v := by
    rw [← EventType.payload_wrap, ← hv]
  have hne : Event.contentName ≠ Event.tagName := by decide
  rw [hmembers]
  exact {
    tag := List.forall_mem_cons.2 ⟨fun _ => rfl,
      List.forall_mem_singleton.2 fun h => absurd h hne⟩
    content := List.forall_mem_cons.2 ⟨fun h => absurd h hne.symm,
      List.forall_mem_singleton.2 fun _ => ⟨v, hpayload⟩⟩ }

/-- The metadata of an envelope has no part in this. -/
theorem retag_envelope (b : EventType) (env : Envelope) :
    Mistagged env.eventType b (b.retag env.members) := by
  have hevent := retag_members b env.event
  have hsplit : b.retag env.members =
      b.retag (Record.write Envelope.fields env.toRow) ++ b.retag env.event.members :=
    List.map_append ..
  -- no member of the metadata has one of the two names
  have hown : ∀ member ∈ b.retag (Record.write Envelope.fields env.toRow),
      member.1 ≠ Event.tagName ∧ member.1 ≠ Event.contentName := by
    intro member hmember
    obtain ⟨written, hwritten, rfl⟩ := List.mem_map.1 hmember
    have hname := Record.write_names written hwritten
    have hall : ∀ name ∈ Envelope.fields.map Field.name,
        name ≠ Event.tagName ∧ name ≠ Event.contentName := by decide
    -- the name stays, whatever stands under it
    split
    · exact hall _ hname
    · exact hall _ hname
  rw [hsplit]
  constructor
  · intro member hmember hname
    rcases List.mem_append.1 hmember with hmember | hmember
    · exact absurd hname (hown member hmember).1
    · exact hevent.tag member hmember hname
  · intro member hmember hname
    rcases List.mem_append.1 hmember with hmember | hmember
    · exact absurd hname (hown member hmember).2
    · exact hevent.content member hmember hname

/-- **The payload is not read as one of the kind that is named,** whatever else stands beside. -/
theorem event_refused (h : Mistagged a b members) (hne : a ≠ b) {raws held : List Raw.Member}
    (hraws : ∀ key item, (key, item) ∈ raws →
      ∃ member ∈ members, key = .ok member.1 ∧ item.Outlines member.2)
    (hheld : ∀ member ∈ held, member ∈ raws) (mode : Mode) (ending : Ending) :
    Refused (Event.readMembers mode ending held) := by
  refine refused_of_ne_ok fun e he => ?_
  -- an event that is read would have a kind and a payload, both written under their names
  obtain ⟨tag, content, kind, mode', htag, hcontent, hkind, hread⟩ :=
    Event.exists_of_readMembers he
  obtain ⟨tagged, htagged, htagKey, htagItem⟩ := hraws _ _ (hheld _ htag)
  obtain ⟨held, hmember, hkey, hitem⟩ := hraws _ _ (hheld _ hcontent)
  rw [h.tag tagged htagged (Except.ok.inj htagKey).symm] at htagItem
  obtain ⟨v, hv⟩ := h.content held hmember (Except.ok.inj hkey).symm
  -- the reader takes the kind that is named
  have hnamed : EventType.codec.read mode tag = .ok b := by
    rw [htagItem.text, ← b.wireName_eq]
    exact (b.codec_reads 0).read (.fixed _) mode
  obtain rfl : b = kind := Except.ok.inj (hnamed.symm.trans hkind)
  obtain ⟨written, hwrite, hnames⟩ := a.exists_write v
  -- the payload lacks a member that the named kind must have
  obtain ⟨name, hname, hnone⟩ := EventType.exists_required_of_ne hne
  rw [hv, hwrite] at hitem
  obtain ⟨fault, hfault⟩ := EventType.payload_refused hitem hname
    (fun member hmember heq => hnone (heq ▸ hnames member hmember)) mode'
  rw [EventType.readPayload_eq, hfault] at hread
  cases hread

/-- Neither the reader of events nor that of envelopes accepts the members. -/
theorem refused (h : Mistagged a b members) (hne : a ≠ b) {text : List UInt8}
    (htext : Token.Spaced (Json.object members).tokens text) :
    Refused (Event.codec.ofText text) ∧ Refused (Envelope.ofText text) := by
  obtain ⟨raw, hraw, hread⟩ := Json.outline_ofText htext
  obtain ⟨raws, rfl, hraws⟩ := hraw.object
  rw [Envelope.ofText, hread Event.codec, hread Envelope.codec]
  refine ⟨h.event_refused hne hraws (fun _ hmember => hmember) .direct .closed,
    Refused.mapError (refused_of_ne_ok fun env henv => ?_) _⟩
  -- an envelope would have the event among what it puts aside
  obtain ⟨held, hheld, hevent⟩ := Envelope.exists_of_read henv
  obtain ⟨fault, hfault⟩ := h.event_refused hne hraws hheld .held .closed
  rw [hfault] at hevent
  cases hevent

end Mistagged

/-! ### Texts of other types -/

namespace EventType

variable {kind : EventType} {members : List (String × Json)} {text : List UInt8}

theorem payload_refused_of_text (htext : Token.Spaced (Json.object members).tokens text)
    {name : String} (hname : name ∈ kind.required)
    (hmembers : ∀ member ∈ members, member.1 ≠ name) : Refused (kind.payloadCodec.ofText text) := by
  obtain ⟨raw, hraw, hread⟩ := Json.outline_ofText htext
  rw [hread]
  exact payload_refused hraw hname hmembers .direct

/-- Members without the name of a kind are read neither as an event nor as an envelope. -/
theorem event_refused_of_text (htext : Token.Spaced (Json.object members).tokens text)
    (hmembers : ∀ member ∈ members, member.1 ≠ Event.tagName) :
    Refused (Event.codec.ofText text) ∧ Refused (Envelope.ofText text) := by
  obtain ⟨raw, hraw, hread⟩ := Json.outline_ofText htext
  obtain ⟨raws, rfl, hraws⟩ := hraw.object
  -- whatever part of the members is put aside, none of them names a kind
  have hevent : ∀ {mode ending held e}, (∀ member ∈ held, member ∈ raws) →
      Event.readMembers mode ending held ≠ .ok e := by
    intro mode ending held e hheld he
    obtain ⟨tag, -, -, -, htag, -⟩ := Event.exists_of_readMembers he
    obtain ⟨member, hmember, hkey, -⟩ := hraws _ _ (hheld _ htag)
    exact hmembers member hmember (Except.ok.inj hkey).symm
  rw [Envelope.ofText, hread Event.codec, hread Envelope.codec]
  refine ⟨refused_of_ne_ok fun e => hevent fun _ hmember => hmember,
    Refused.mapError (refused_of_ne_ok fun env henv => ?_) _⟩
  obtain ⟨held, hheld, he⟩ := Envelope.exists_of_read henv
  exact hevent hheld he

end EventType

/-! ### The kinds are apart -/

/-- **No kind of event is read as another.** Here `text` is the text of what is written, with white
space between its tokens as one likes, and nothing is asked of the double in a metric.

* The text of a payload is not read as a payload of another kind.
* The text of an event or envelope is not read, neither as an event nor as an envelope, when it
  names another kind than its own.
* The text of an event or envelope is not read as a payload of any kind, and the text of a payload
  is read neither as an event nor as an envelope. -/
theorem kinds_apart :
    (∀ (a b : EventType) (v : a.Payload) (text : List UInt8), a ≠ b →
      Token.Spaced (a.payloadCodec.write v).tokens text →
      Refused (b.payloadCodec.ofText text)) ∧
    (∀ (a b : EventType) (v : a.Payload) (text : List UInt8), a ≠ b →
      Token.Spaced (Json.object (b.retag (a.wrap v).members)).tokens text →
      Refused (Event.codec.ofText text) ∧ Refused (Envelope.ofText text)) ∧
    (∀ (env : Envelope) (b : EventType) (text : List UInt8), env.eventType ≠ b →
      Token.Spaced (Json.object (b.retag env.members)).tokens text →
      Refused (Event.codec.ofText text) ∧ Refused (Envelope.ofText text)) ∧
    (∀ (e : Event) (kind : EventType) (text : List UInt8),
      Token.Spaced (Event.codec.write e).tokens text → Refused (kind.payloadCodec.ofText text)) ∧
    (∀ (env : Envelope) (kind : EventType) (text : List UInt8),
      Token.Spaced (Envelope.codec.write env).tokens text →
      Refused (kind.payloadCodec.ofText text)) ∧
    ∀ (kind : EventType) (v : kind.Payload) (text : List UInt8),
      Token.Spaced (kind.payloadCodec.write v).tokens text →
      Refused (Event.codec.ofText text) ∧ Refused (Envelope.ofText text) := by
  refine ⟨?_, ?_, ?_, ?_, ?_, ?_⟩
  · -- a payload as one of another kind
    intro a b v text hne htext
    obtain ⟨members, hwrite, hnames⟩ := a.exists_write v
    obtain ⟨name, hname, hnone⟩ := EventType.exists_required_of_ne hne
    rw [hwrite] at htext
    exact EventType.payload_refused_of_text htext hname
      fun member hmember heq => hnone (heq ▸ hnames member hmember)
  · -- an event under another kind's name
    intro a b v text hne htext
    have h := Mistagged.retag_members b (a.wrap v)
    rw [EventType.eventType_wrap] at h
    exact h.refused hne htext
  · -- an envelope under another kind's name
    intro env b text hne htext
    exact (Mistagged.retag_envelope b env).refused hne htext
  · -- an event as a payload, which needs a member that no event has
    intro e kind text htext
    obtain ⟨name, hname, hnone⟩ := kind.exists_required_foreign
    exact EventType.payload_refused_of_text htext hname fun member hmember heq =>
      hnone (List.mem_append_right _ (heq ▸ e.members_names member hmember))
  · -- nor does an envelope have it, neither in its metadata nor in its event
    intro env kind text htext
    obtain ⟨name, hname, hnone⟩ := kind.exists_required_foreign
    refine EventType.payload_refused_of_text htext hname fun member hmember heq => hnone ?_
    rw [← heq]
    rcases List.mem_append.1 hmember with hmember | hmember
    · exact List.mem_append_left _ (Record.write_names member hmember)
    · exact List.mem_append_right _ (env.event.members_names member hmember)
  · -- a payload as an event or envelope: it does not name its kind
    intro kind v text htext
    obtain ⟨members, hwrite, hnames⟩ := kind.exists_write v
    rw [hwrite] at htext
    exact EventType.event_refused_of_text htext
      fun member hmember heq => kind.tagName_not_mem_fields (heq ▸ hnames member hmember)

/-- A response to a request of which little is known. -/
def HttpStop.sample : HttpStop :=
  ⟨1, "host/", ⟨2, 3⟩, .server, 200, 0, none⟩

/-- A metric whose double is written as null. -/
def ContainerMetric.sampleOfNothing : ContainerMetric :=
  ⟨"app", 0, 0 / 0, 1, 2⟩

/-- The metric in an envelope. -/
def Envelope.sampleOfNothing : Envelope :=
  ⟨"router", 1, none, none, none, none, .empty, .containerMetric .sampleOfNothing⟩

/-- A stop is not read as a start, nor its event as a stop; a metric is not read as a line of
output, bare or in an envelope, although its own reader refuses it as well. -/
theorem kinds_apart_samples :
    Refused (HttpStart.codec.ofText (HttpStop.codec.toText .sample)) ∧
    Refused (HttpStop.codec.ofText (Event.codec.toText (.httpStop .sample))) ∧
    Refused (Event.codec.ofText (Json.object (EventType.logMessage.retag
      (Event.containerMetric .sampleOfNothing).members)).render) ∧
    Refused (Envelope.ofText (Json.object (EventType.logMessage.retag
      Envelope.sampleOfNothing.members)).render) ∧
    Refused (LogMessage.codec.ofText Envelope.sampleOfNothing.toText) ∧
    Refused (Envelope.ofText (HttpStop.codec.toText .sample)) := by
  obtain ⟨hpayload, hevent, henvelope, hbare, hbareEnvelope, hwrapped⟩ := kinds_apart
  exact ⟨hpayload .httpStop .httpStart .sample _ (by decide) (Json.spaced_render _),
    hbare (.httpStop .sample) .httpStop _ (Json.spaced_render _),
    (hevent .containerMetric .logMessage .sampleOfNothing _ (by decide) (Json.spaced_render _)).1,
    (henvelope .sampleOfNothing .logMessage _ (by decide) (Json.spaced_render _)).2,
    hbareEnvelope .sampleOfNothing .logMessage _ (Json.spaced_render _),
    (hwrapped .httpStop .sample _ (Json.spaced_render _)).2⟩

end Telemetry
