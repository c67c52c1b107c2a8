import Telemetry.Proofs.Envelope.Codec
import Telemetry.Proofs.Json.Edit

/-!
# What may be missing from a text

Some members of an event or envelope may be missing, and each of them has its own path. An
`Omissible` is such a member: its path, whether it is written at all, and the thing that is left
when it is not. The tables `Event.omissibles` and `Envelope.omissibles` list them; what is not in
the tables must be there. A metric has none, although its application and its index have the names
of members that other kinds may lack.

`Codec.Omits` says that a table is right: each of its members is written or not as it says, and a
value with an edited member is read as the table says, or not at all. Payloads have it because they
are records (`Codec.Omits.ofRecord`), and from there it passes to events and envelopes, whose
payload is read straight from the text in one case and put aside first in the other. An edited
member of an envelope stands in its metadata or in its event, and the other of the two is read as it
was written (`Envelope.read_alteredMetadata`, `Envelope.read_alteredEvent`). Tags are the one
exception. They may be missing, but null is no object and is refused.
-/

namespace Telemetry

/-- A member that may be missing. -/
structure Omissible (α : Type) where
  path : List String
  /-- The member is written. -/
  present : Bool
  /-- The thing without it. -/
  cleared : α

namespace Omissible

/-- The member inside a member, for a thing that holds the other. -/
def under (name : String) (f : α → β) (o : Omissible α) : Omissible β :=
  ⟨name :: o.path, o.present, f o.cleared⟩

/-- The member beside others, for a thing that holds the other. -/
def within (f : α → β) (o : Omissible α) : Omissible β :=
  ⟨o.path, o.present, f o.cleared⟩

/-- What is left without the member at the path, if it may be missing. -/
def without? (os : List (Omissible α)) (path : List String) : Option α :=
  (os.find? fun o => o.path = path).map cleared

variable {os os' : List (Omissible α)} {f : α → β} {path : List String}

theorem without?_append :
    without? (os ++ os') path = (without? os path).or (without? os' path) := by
  rw [without?, List.find?_append, Option.map_or]
  rfl

theorem without?_within : without? (os.map (within f)) path = (without? os path).map f := by
  rw [without?, List.find?_map, without?, Option.map_map, Option.map_map]
  rfl

theorem without?_under (name : String) :
    without? (os.map (under name f)) (name :: path) = (without? os path).map f := by
  -- one path is that of the member inside if and only if the other is
  have hpath : ((fun o => decide (o.path = name :: path)) ∘ under name f) =
      fun o : Omissible α => decide (o.path = path) := by
    funext o
    simp [under]
  rw [without?, List.find?_map, hpath, without?, Option.map_map, Option.map_map]
  rfl

theorem without?_eq_none (h : ∀ o ∈ os, o.path ≠ path) : without? os path = none := by
  rw [without?, List.find?_eq_none.2 fun o ho => by simpa using h o ho, Option.map_none]

end Omissible

open Omissible (without?)

/-- **What may be missing from what the codec writes for a thing.** -/
structure Codec.Omits (c : Codec α) (a : α) (os : List (Omissible α)) : Prop where
  present : ∀ o ∈ os, ((c.write a).at? o.path).isSome = o.present
  edited {edit : Edit} {path : List String} {j : Json} (h : (c.write a).Edited edit path j)
    (mode : Mode) : (c.read mode (Raw.ofJson j)).toOption = without? os path

/-! ### Payloads -/

/-- What may be missing from a record are fields of its own. -/
theorem Codec.Omits.ofRecord {name : String} {fields : List Field} {ofRow : Row fields → α}
    {toRow : α → Row fields} {inside : String → Shape} {room : Nat} {a : α}
    {os : List (Omissible α)} (hnames : (fields.map Field.name).Nodup)
    (hrow : Row.Reads inside room fields (toRow a))
    (hfields : ∀ f ∈ fields, f.codec.NullIsAbsent)
    (hpresent : ∀ o ∈ os, ∃ field, o.path = [field] ∧
      (Record.written? field fields (toRow a)).isSome = o.present)
    (hcleared : ∀ field ∈ fields.map Field.name,
      (Record.clearRow field fields (toRow a)).map ofRow = without? os [field]) :
    ((Record.codec name fields).map ofRow toRow).Omits a os where
  present o ho := by
    obtain ⟨field, hpath, hwritten⟩ := hpresent o ho
    show ((Json.object (Record.write fields (toRow a))).at? o.path).isSome = o.present
    -- the path is a name, and under it stands what is written for the field
    rw [hpath, Json.at?, Record.lookup_write hnames, ← hwritten]
    cases Record.written? field fields (toRow a) <;> rfl
  edited {edit path j} h mode := by
    have hedit : (Json.object (Record.write fields (toRow a))).Edited edit path j := h
    obtain ⟨field, rest, members, item, rfl, hobject, hitem, -, -⟩ := hedit.exists_object
    obtain rfl := Json.object.inj hobject
    have hread : (Record.read name fields mode (Raw.ofJson j)).toOption =
        if rest = [] then Record.clearRow field fields (toRow a) else none :=
      Record.read_edited hnames hrow hedit fun f hf _ => hfields f hf
    show ((Record.read name fields mode (Raw.ofJson j)).map ofRow).toOption = _
    rw [Fault.toOption_map, hread]
    -- a member of the record itself, or something inside one
    split
    · next hnil =>
      rw [hnil]
      exact hcleared field (Record.name_of_lookup hitem)
    · next hrest =>
      -- nothing inside a member may be missing, and no path in the table leads there
      refine (Omissible.without?_eq_none fun o ho heq => hrest ?_).symm
      obtain ⟨field, hpath, -⟩ := hpresent o ho
      rw [hpath] at heq
      exact (List.cons.inj heq).2.symm

/-- An optional field is written if there is something to write. -/
theorem isSome_written (a : Option α) (j : Json) :
    (if a.isNone then none else some j).isSome = a.isSome := by
  cases a <;> rfl

theorem CorrelationId.nullIsAbsent : CorrelationId.codec.NullIsAbsent :=
  .record (by decide) CorrelationId.row_reads
    (List.forall_mem_cons.2 ⟨⟨.integer, rfl⟩, List.forall_mem_singleton.2 ⟨.integer, rfl⟩⟩)

namespace HttpStart

/-- What may be missing from the start of a request. -/
def omissibles (e : HttpStart) : List (Omissible HttpStart) :=
  [⟨["user_agent"], e.userAgent.isSome, { e with userAgent := none }⟩,
   ⟨["application_id"], e.applicationId.isSome, { e with applicationId := none }⟩,
   ⟨["instance_index"], e.instanceIndex.isSome, { e with instanceIndex := none }⟩,
   ⟨["instance_id"], e.instanceId.isSome, { e with instanceId := none }⟩]

theorem omits (e : HttpStart) : HttpStart.codec.Omits e e.omissibles := by
  refine .ofRecord (by decide) e.row_reads ?_ ?_ ?_
  · simp only [List.forall_mem_cons]
    exact ⟨.integer, CorrelationId.nullIsAbsent, .variant _ _, .variant _ _, .text, .text,
      .optional .text, .optional CorrelationId.nullIsAbsent, .optional .integer, .optional .text,
      by simp⟩
  · simp only [omissibles, List.forall_mem_cons]
    exact ⟨⟨_, rfl, isSome_written _ _⟩, ⟨_, rfl, isSome_written _ _⟩, ⟨_, rfl, isSome_written _ _⟩,
      ⟨_, rfl, isSome_written _ _⟩, by simp⟩
  · simp only [List.map_cons, List.forall_mem_cons]
    exact ⟨rfl, rfl, rfl, rfl, rfl, rfl, rfl, rfl, rfl, rfl, by simp⟩

end HttpStart

namespace HttpStop

/-- What may be missing from the end of a response. -/
def omissibles (e : HttpStop) : List (Omissible HttpStop) :=
  [⟨["application_id"], e.applicationId.isSome, { e with applicationId := none }⟩]

theorem omits (e : HttpStop) : HttpStop.codec.Omits e e.omissibles := by
  refine .ofRecord (by decide) e.row_reads ?_ ?_ ?_
  · simp only [List.forall_mem_cons]
    exact ⟨.integer, .text, CorrelationId.nullIsAbsent, .variant _ _, .integer, .integer,
      .optional CorrelationId.nullIsAbsent, by simp⟩
  · exact List.forall_mem_singleton.2 ⟨_, rfl, isSome_written _ _⟩
  · simp only [List.map_cons, List.forall_mem_cons]
    exact ⟨rfl, rfl, rfl, rfl, rfl, rfl, rfl, by simp⟩

end HttpStop

namespace HttpStartStop

/-- What may be missing from an exchange. -/
def omissibles (e : HttpStartStop) : List (Omissible HttpStartStop) :=
  [⟨["user_agent"], e.userAgent.isSome, { e with userAgent := none }⟩,
   ⟨["application_id"], e.applicationId.isSome, { e with applicationId := none }⟩,
   ⟨["instance_index"], e.instanceIndex.isSome, { e with instanceIndex := none }⟩,
   ⟨["instance_id"], e.instanceId.isSome, { e with instanceId := none }⟩]

theorem omits (e : HttpStartStop) : HttpStartStop.codec.Omits e e.omissibles := by
  refine .ofRecord (by decide) e.row_reads ?_ ?_ ?_
  · simp only [List.forall_mem_cons]
    exact ⟨.integer, .integer, CorrelationId.nullIsAbsent, .variant _ _, .variant _ _, .text, .text,
      .optional .text, .integer, .integer, .optional CorrelationId.nullIsAbsent,
      .optional .integer, .optional .text, by simp⟩
  · simp only [omissibles, List.forall_mem_cons]
    exact ⟨⟨_, rfl, isSome_written _ _⟩, ⟨_, rfl, isSome_written _ _⟩, ⟨_, rfl, isSome_written _ _⟩,
      ⟨_, rfl, isSome_written _ _⟩, by simp⟩
  · simp only [List.map_cons, List.forall_mem_cons]
    exact ⟨rfl, rfl, rfl, rfl, rfl, rfl, rfl, rfl, rfl, rfl, rfl, rfl, rfl, by simp⟩

end HttpStartStop

namespace LogMessage

/-- What may be missing from a line of output. -/
def omissibles (e : LogMessage) : List (Omissible LogMessage) :=
  [⟨["source_instance"], e.sourceInstance.isSome, { e with sourceInstance := none }⟩]

theorem omits (e : LogMessage) : LogMessage.codec.Omits e e.omissibles := by
  refine .ofRecord (by decide) e.row_reads ?_ ?_ ?_
  · simp only [List.forall_mem_cons]
    exact ⟨.sequence _, .variant _ _, .integer, .text, .text, .optional .text, by simp⟩
  · exact List.forall_mem_singleton.2 ⟨_, rfl, isSome_written _ _⟩
  · simp only [List.map_cons, List.forall_mem_cons]
    exact ⟨rfl, rfl, rfl, rfl, rfl, rfl, by simp⟩

end LogMessage

/-- Nothing may be missing from a metric. -/
theorem ContainerMetric.omits {e : ContainerMetric} (h : Number.Stable e.cpuPercentage) :
    ContainerMetric.codec.Omits e [] := by
  refine .ofRecord (by decide) (row_reads h) ?_ (by simp) ?_
  · simp only [List.forall_mem_cons]
    exact ⟨.text, .integer, .real, .integer, .integer, by simp⟩
  · simp only [List.map_cons, List.forall_mem_cons]
    exact ⟨rfl, rfl, rfl, rfl, rfl, by simp⟩

/-! ### Events -/

namespace Event

/-- What may be missing from the payload of an event. -/
def payloadOmissibles : Event → List (Omissible Event)
  | .httpStart e => e.omissibles.map (.within .httpStart)
  | .httpStop e => e.omissibles.map (.within .httpStop)
  | .httpStartStop e => e.omissibles.map (.within .httpStartStop)
  | .logMessage e => e.omissibles.map (.within .logMessage)
  | .containerMetric _ => []

/-- What may be missing from an event stands in its payload. -/
def omissibles (e : Event) : List (Omissible Event) :=
  e.payloadOmissibles.map (.under contentName id)

/-- The payload of an event says what may be missing from it. -/
structure OmitsPayload (e : Event) : Prop where
  present : ∀ o ∈ e.payloadOmissibles, (e.payload.at? o.path).isSome = o.present
  edited {edit : Edit} {path : List String} {j : Json} (h : e.payload.Edited edit path j)
    (mode : Mode) :
    (readPayload e.eventType mode (Raw.ofJson j)).toOption = without? e.payloadOmissibles path

/-- The table of an event is that of its payload. -/
theorem omitsPayload_of_omits {c : Codec α} {a : α} {os : List (Omissible α)} {e : Event}
    {wrap : α → Event} (h : c.Omits a os) (hwrite : e.payload = c.write a)
    (hos : e.payloadOmissibles = os.map (.within wrap))
    (hread : ∀ mode raw, readPayload e.eventType mode raw = (c.read mode raw).map wrap) :
    e.OmitsPayload where
  present := by
    rw [hos, hwrite]
    exact List.forall_mem_map.2 h.present
  edited {edit path j} hedit mode := by
    rw [hwrite] at hedit
    rw [hread, Fault.toOption_map, h.edited hedit mode, hos, Omissible.without?_within]

theorem omitsPayload {e : Event} (h : e.Stable) : e.OmitsPayload := by
  cases e with
  | httpStart e => exact omitsPayload_of_omits e.omits rfl rfl fun _ _ => rfl
  | httpStop e => exact omitsPayload_of_omits e.omits rfl rfl fun _ _ => rfl
  | httpStartStop e => exact omitsPayload_of_omits e.omits rfl rfl fun _ _ => rfl
  | logMessage e => exact omitsPayload_of_omits e.omits rfl rfl fun _ _ => rfl
  | containerMetric e =>
    exact omitsPayload_of_omits (ContainerMetric.omits h) rfl rfl fun _ _ => rfl

/-- What may be missing from an event has a path through its payload. -/
theorem path_of_mem {e : Event} {o : Omissible Event} (h : o ∈ e.omissibles) :
    ∃ inner ≠ [], o.path = contentName :: inner := by
  obtain ⟨inner, hinner, rfl⟩ := List.mem_map.1 h
  -- all paths in the tables of payloads have a name
  have hne : ∀ o ∈ e.payloadOmissibles, o.path ≠ [] := by
    cases e <;> simp [payloadOmissibles, HttpStart.omissibles, HttpStop.omissibles,
      HttpStartStop.omissibles, LogMessage.omissibles, Omissible.within]
  exact ⟨inner.path, hne inner hinner, rfl⟩

theorem without?_eq_none {e : Event} {name : String} {path : List String}
    (h : name = contentName → path = []) : without? e.omissibles (name :: path) = none := by
  refine Omissible.without?_eq_none fun o ho heq => ?_
  -- a path in the table goes through the payload and further
  obtain ⟨inner, hne, hpath⟩ := path_of_mem ho
  obtain ⟨hname, rfl⟩ := List.cons.inj (hpath.symm.trans heq)
  exact hne (h hname.symm)

/-- **An event must name its kind,** which must not be null. -/
theorem readMembers_editedTag (e : Event) (h : e.payload.depth ≤ Raw.roomInside) (edit : Edit)
    (mode : Mode) :
    (readMembers mode .closed (Raw.ofMembers
      (Json.alterMember (Json.alter edit.new []) tagName e.members))).toOption = none := by
  cases edit with
  | delete =>
    -- the payload is put aside, for a kind that does not come
    show ((Raw.ofJson e.payload).buffer Raw.roomInside >>= fun _ =>
      readAfterContent mode .closed (Raw.ofJson e.payload) []).toOption = none
    rw [Raw.buffer_ofJson _ h]
    rfl
  | nullify =>
    -- null is the name of no kind
    have hnull : Refused (EventType.codec.read mode .null) :=
      refused_of_toOption ((Codec.NullIsAbsent.variant EventType.all EventType.wireName).null mode)
    obtain ⟨fault, hfault⟩ := hnull
    show (EventType.codec.read mode .null >>= fun kind =>
      readAfterTag mode .closed kind (Raw.ofMembers [(contentName, e.payload)])).toOption = none
    rw [hfault]
    rfl

theorem readPayload_null (kind : EventType) (mode : Mode) :
    (readPayload kind mode .null).toOption = none := by
  cases kind <;> rfl

/-- **An event must have a payload,** from which is missing what its table says. -/
theorem readMembers_editedContent {e : Event} (h : e.Stable) {edit : Edit} {path : List String}
    (hat : (e.payload.at? path).isSome = true) (mode : Mode) :
    (readMembers mode .closed (Raw.ofMembers
      (Json.alterMember (Json.alter edit.new path) contentName e.members))).toOption =
        without? e.omissibles (contentName :: path) := by
  have hne : tagName ≠ contentName := by decide
  rw [members_eq, Json.alterMember_cons_of_ne hne, Json.alterMember_cons]
  -- the payload itself is edited, or a member of it
  cases path with
  | nil =>
    rw [without?_eq_none fun _ => rfl]
    cases edit with
    | delete =>
      -- the kind is read, and no payload comes
      show (EventType.codec.read mode (Raw.ofJson e.tagMember.2) >>= fun kind =>
        readAfterTag mode .closed kind []).toOption = none
      rw [read_tagMember]
      rfl
    | nullify =>
      show (readMembers mode .closed
        (Raw.ofMembers [e.tagMember, (contentName, .null)])).toOption = none
      rw [readMembers_pair]
      exact readPayload_null e.eventType mode
  | cons inner path =>
    -- the payload is still there, and is read as its own table says
    obtain ⟨j, hj, hedited⟩ := Json.exists_edited edit hat
    rw [hj]
    show (readMembers mode .closed (Raw.ofMembers [e.tagMember, (contentName, j)])).toOption = _
    rw [readMembers_pair, (omitsPayload h).edited hedited mode, omissibles,
      Omissible.without?_under, Option.map_id]
    rfl

/-- **The two members of an event with one of them edited,** or a member inside one. -/
theorem readMembers_edited {e : Event} (h : e.Stable) {edit : Edit} {name : String}
    {path : List String} {item : Json} (hitem : e.members.lookup name = some item)
    (hat : (item.at? path).isSome = true) (mode : Mode) :
    (readMembers mode .closed (Raw.ofMembers
      (Json.alterMember (Json.alter edit.new path) name e.members))).toOption =
        without? e.omissibles (name :: path) := by
  -- there are two members, so the edit is in the one or in the other
  have hname : name ∈ [tagName, contentName] := e.members_names _ (Json.mem_of_lookup hitem)
  rcases List.mem_pair.1 hname with rfl | rfl
  · obtain rfl : EventType.codec.write e.eventType = item := Option.some.inj hitem
    -- the kind is a text, and there is nothing in it
    obtain rfl : path = [] := by
      cases path with
      | nil => rfl
      | cons inner path =>
        obtain ⟨_, _, hobject, -⟩ := Json.exists_of_at? hat
        cases hobject
    have hpayload := readsPayload h
    have hdepth : e.payload.depth ≤ Raw.roomInside :=
      Nat.le_trans (hpayload.shallow hpayload.self) (by decide)
    rw [readMembers_editedTag e hdepth, without?_eq_none fun _ => rfl]
  · obtain rfl : e.payload = item := Option.some.inj hitem
    exact readMembers_editedContent h hat mode

/-- **What may be missing from an event.** -/
theorem omits {e : Event} (h : e.Stable) : Event.codec.Omits e e.omissibles where
  present := List.forall_mem_map.2 (omitsPayload h).present
  edited {edit path j} hedit mode := by
    obtain ⟨name, rest, members, item, rfl, hobject, hitem, hat, rfl⟩ := hedit.exists_object
    obtain rfl := Json.object.inj hobject
    show (Event.read mode (Raw.ofJson (.object _))).toOption = _
    rw [Raw.ofJson, Event.read]
    exact readMembers_edited h hitem hat mode

end Event

/-! ### Envelopes -/

namespace Envelope

/-- What may be missing from the metadata, tags aside. -/
def metadataOmissibles (env : Envelope) : List (Omissible Envelope) :=
  [⟨["deployment"], env.deployment.isSome, { env with deployment := none }⟩,
   ⟨["job"], env.job.isSome, { env with job := none }⟩,
   ⟨["index"], env.index.isSome, { env with index := none }⟩,
   ⟨["ip"], env.ip.isSome, { env with ip := none }⟩]

/-- What may be missing from an envelope, tags aside. -/
def omissibles (env : Envelope) : List (Omissible Envelope) :=
  env.metadataOmissibles ++ env.event.omissibles.map (.within fun e => { env with event := e })

theorem path_of_mem_metadata {env : Envelope} {o : Omissible Envelope}
    (h : o ∈ env.metadataOmissibles) : ∃ name ∈ fields.map Field.name, o.path = [name] := by
  revert o
  simp only [metadataOmissibles, List.forall_mem_cons]
  exact ⟨⟨_, by decide, rfl⟩, ⟨_, by decide, rfl⟩, ⟨_, by decide, rfl⟩, ⟨_, by decide, rfl⟩,
    by simp⟩

/-- The metadata is read from its own members and the event from the others. -/
theorem toOption_read {own parts : List (String × Json)}
    (hown : ∀ member ∈ own, member.1 ∈ fields.map Field.name)
    (hparts : ∀ member ∈ parts, isForeign member = true)
    (hshallow : ∀ member ∈ own ++ parts, member.2.depth ≤ Raw.roomInside) :
    (Envelope.read (.object (Raw.ofMembers (own ++ parts)) .closed)).toOption =
      (Record.taken? .direct fields own).bind fun row =>
        (Event.readMembers .held .closed (Raw.ofMembers parts)).toOption.map fun e =>
          ofRow e row := by
  -- none of the own members is put aside, and all of the others are
  have hheld : (own ++ parts).filter isForeign = parts := by
    have hnone : own.filter isForeign = [] :=
      List.filter_eq_nil_iff.2 fun member hmember hforeign =>
        isForeign_iff.1 hforeign (hown member hmember)
    rw [List.filter_append, hnone, List.filter_eq_self.2 hparts, List.nil_append]
  rw [read_ofMembers hshallow, hheld, Record.steps_append, Record.taken?]
  cases Record.steps .direct fields (Record.vacant fields) own with
  | error fault => rfl
  | ok slots =>
    -- the others leave the slots of the metadata alone
    have hextras : Record.steps .direct fields slots parts = .ok slots :=
      Record.steps_extras fun member hmember => isForeign_iff.1 (hparts member hmember)
    rw [Fault.ok_bind, hextras, Fault.ok_bind]
    cases Record.finish fields slots with
    | error fault => rfl
    | ok row => cases Event.readMembers .held .closed (Raw.ofMembers parts) <;> rfl

section Altered

variable {env : Envelope} {new : Json → Option Json} {name : String}

/-- **Another member in the metadata** is read as the field that it is, beside the same event. -/
theorem read_alteredMetadata (h : env.event.Stable) (hname : name ∈ fields.map Field.name)
    (hwritten : (Record.written? name fields env.toRow).isSome = true)
    (hshallow : ∀ member ∈ Json.alterMember new name env.members,
      member.2.depth ≤ Raw.roomInside) :
    (Envelope.read (Raw.ofJson (.object (Json.alterMember new name env.members)))).toOption =
      (Record.alterRow .direct new name fields env.toRow).map (ofRow env.event) := by
  -- the members of the event have other names, so the edit leaves them alone
  have hevent : Json.alterMember new name env.event.members = env.event.members :=
    Json.alterMember_of_ne fun member hmember heq =>
      names_apart name hname (heq ▸ env.event.members_names member hmember)
  have hself : (Event.readMembers .held .closed (Raw.ofMembers env.event.members)).toOption =
      some env.event := by
    have hpayload := Event.readsPayload h
    rw [Event.members_eq, Event.readMembers_pair, hpayload.read hpayload.self]
    rfl
  rw [members, Json.alterMember_append, hevent] at hshallow ⊢
  rw [Raw.ofJson, toOption_read (Json.names_alterMember Record.write_names)
    (isForeign_members env.event) hshallow,
    Record.taken?_alter (by decide) (row_reads env) hwritten, hself]
  cases Record.alterRow .direct new name fields env.toRow <;> rfl

/-- **Another member in the event** is read as the event's, beside the same metadata. -/
theorem read_alteredEvent (hname : name ∉ fields.map Field.name)
    (hshallow : ∀ member ∈ Json.alterMember new name env.members,
      member.2.depth ≤ Raw.roomInside) :
    (Envelope.read (Raw.ofJson (.object (Json.alterMember new name env.members)))).toOption =
      (Event.readMembers .held .closed (Raw.ofMembers
        (Json.alterMember new name env.event.members))).toOption.map fun e =>
          { env with event := e } := by
  -- the members of the metadata have other names, so the edit leaves them alone
  have hmetadata : Json.alterMember new name (Record.write fields env.toRow) =
      Record.write fields env.toRow :=
    Json.alterMember_of_ne fun member hmember heq => hname (heq ▸ Record.write_names member hmember)
  rw [members, Json.alterMember_append, hmetadata] at hshallow ⊢
  rw [Raw.ofJson, toOption_read Record.write_names
    (isForeign_of_names (Json.names_alterMember env.event.members_names)) hshallow,
    Record.taken?_write (by decide) (row_reads env)]
  rfl

end Altered

/-- The outcome of reading an envelope with an edited member. -/
def outcome? (env : Envelope) (edit : Edit) (path : List String) : Option Envelope :=
  if path = ["tags"] ∧ edit = .delete then some { env with tags := .empty }
  else without? env.omissibles path

theorem outcome?_metadata {env : Envelope} {edit : Edit} {name : String} {path : List String}
    (hname : name ∈ fields.map Field.name) : env.outcome? edit (name :: path) =
      if name :: path = ["tags"] ∧ edit = .delete then some { env with tags := .empty }
      else without? env.metadataOmissibles (name :: path) := by
  -- no path into the metadata is one into the payload
  have hcontent : name ≠ Event.contentName := by
    rintro rfl
    exact absurd hname (by decide)
  rw [outcome?, omissibles, Omissible.without?_append, Omissible.without?_within,
    Event.without?_eq_none fun heq => absurd heq hcontent, Option.map_none, Option.or_none]

theorem outcome?_event {env : Envelope} {edit : Edit} {name : String} {path : List String}
    (hname : name ∉ fields.map Field.name) : env.outcome? edit (name :: path) =
      (without? env.event.omissibles (name :: path)).map fun e => { env with event := e } := by
  -- tags are metadata, so the special case does not arise
  have htags : ¬ (name :: path = ["tags"] ∧ edit = .delete) := by
    rintro ⟨heq, -⟩
    obtain ⟨rfl, -⟩ := List.cons.inj heq
    exact hname (by decide)
  have hmetadata : without? env.metadataOmissibles (name :: path) = none := by
    refine Omissible.without?_eq_none fun o ho heq => ?_
    obtain ⟨own, hown, hpath⟩ := path_of_mem_metadata ho
    obtain ⟨rfl, -⟩ := List.cons.inj (hpath.symm.trans heq)
    exact hname hown
  rw [outcome?, if_neg htags, omissibles, Omissible.without?_append, hmetadata, Option.none_or,
    Omissible.without?_within]

/-- What is left of the metadata without one of its members, tags aside. -/
theorem clearRow_metadata (env : Envelope) : ∀ name ∈ fields.map Field.name, name ≠ "tags" →
    (Record.clearRow name fields env.toRow).map (ofRow env.event) =
      without? env.metadataOmissibles [name] := by
  simp only [List.map_cons, List.forall_mem_cons]
  exact ⟨fun _ => rfl, fun _ => rfl, fun _ => rfl, fun _ => rfl, fun _ => rfl, fun _ => rfl,
    fun h => absurd rfl h, by simp⟩

/-- The metadata with one of its members edited. -/
theorem alterRow_metadata {env : Envelope} {edit : Edit} {name : String} {path : List String}
    {item : Json} (hitem : Record.written? name fields env.toRow = some item)
    (hname : name ∈ fields.map Field.name) (hat : (item.at? path).isSome = true)
    (htags : name = "tags" → path = []) :
    (Record.alterRow .direct (Json.alter edit.new path) name fields env.toRow).map
      (ofRow env.event) = env.outcome? edit (name :: path) := by
  rw [outcome?_metadata hname]
  by_cases htag : name = "tags"
  · -- tags may be missing, but they may not be null
    obtain rfl := htags htag
    subst htag
    cases edit <;> rfl
  · -- for all other fields null says the same as a missing member
    have hnull : ∀ f ∈ fields, f.name = name → f.codec.NullIsAbsent := by
      simp only [List.forall_mem_cons]
      exact ⟨fun _ => .text, fun _ => .integer, fun _ => .optional .text,
        fun _ => .optional .text, fun _ => .optional .text, fun _ => .optional .text,
        fun h => absurd h.symm htag, by simp⟩
    have hother : ¬ (name :: path = ["tags"] ∧ edit = .delete) :=
      fun h => htag (List.cons.inj h.1).1
    rw [Record.alterRow_edit hnull hitem hat, if_neg hother]
    split
    · next hnil =>
      rw [hnil]
      exact env.clearRow_metadata name hname htag
    · next hne =>
      -- the other fields hold texts and a number, with nothing inside that could be missing
      refine (Omissible.without?_eq_none fun o ho heq => hne ?_).symm
      obtain ⟨own, -, hpath⟩ := path_of_mem_metadata ho
      exact (List.cons.inj (hpath.symm.trans heq)).2.symm

/-- **An envelope with an edited member** is read as the tables say. -/
theorem read_edited {env : Envelope} (h : env.event.Stable) {edit : Edit} {path : List String}
    {j : Json} (hedit : (Envelope.codec.write env).Edited edit path j)
    (htags : path.head? = some "tags" → path = ["tags"]) :
    (Envelope.read (Raw.ofJson j)).toOption = env.outcome? edit path := by
  have hself := Envelope.codec_reads h
  obtain ⟨-, hdepth⟩ := hedit.fits (hself.legible hself.self) (hself.shallow hself.self)
  obtain ⟨name, rest, members, item, rfl, hobject, hitem, hat, rfl⟩ := hedit.exists_object
  obtain rfl := Json.object.inj hobject
  -- the edit makes nothing deeper, so what is put aside still has room
  have hshallow : ∀ member ∈ Json.alterMember (Json.alter edit.new rest) name env.members,
      member.2.depth ≤ Raw.roomInside :=
    fun member hmember => Nat.le_trans (Json.depth_object_le.1 hdepth member hmember) (by decide)
  -- the member is one of the metadata or one of the event
  by_cases hname : name ∈ fields.map Field.name
  · rw [lookup_metadata hname] at hitem
    rw [read_alteredMetadata h hname (by rw [hitem]; rfl) hshallow]
    refine alterRow_metadata hitem hname hat ?_
    rintro rfl
    exact (List.cons.inj (htags rfl)).2
  · rw [lookup_event hname] at hitem
    rw [read_alteredEvent hname hshallow, Event.readMembers_edited h hitem hat,
      outcome?_event hname]

/-- What may be missing is written if there is something to write. -/
theorem present {env : Envelope} (h : env.event.Stable) :
    ∀ o ∈ env.omissibles, ((Envelope.codec.write env).at? o.path).isSome = o.present := by
  refine List.forall_mem_append.2 ⟨?_, List.forall_mem_map.2 fun o ho => ?_⟩
  · -- the members of the metadata, each by its field
    have hfield : ∀ {name : String} {field : Option String},
        name ∈ fields.map Field.name → Record.written? name fields env.toRow =
          (if field.isNone then none else some ((Codec.optional .text).write field)) →
        ((env.members.lookup name).bind (Json.at? [])).isSome = field.isSome := by
      intro name field hname hwritten
      rw [lookup_metadata hname, hwritten]
      cases field <;> rfl
    simp only [metadataOmissibles, List.forall_mem_cons]
    exact ⟨hfield (by decide) rfl, hfield (by decide) rfl, hfield (by decide) rfl,
      hfield (by decide) rfl, by simp⟩
  · -- those of the event are found in the envelope as in the event
    obtain ⟨inner, -, hpath⟩ := Event.path_of_mem ho
    show ((Envelope.codec.write env).at? o.path).isSome = o.present
    rw [← (Event.omits h).present o ho, hpath]
    show ((env.members.lookup _).bind _).isSome = ((env.event.members.lookup _).bind _).isSome
    rw [lookup_event (by decide)]

/-- Tags are written if there are any. -/
theorem present_tags (env : Envelope) :
    ((Envelope.codec.write env).at? ["tags"]).isSome = !env.tags.isEmpty := by
  show ((env.members.lookup _).bind _).isSome = _
  rw [lookup_metadata (by decide)]
  show ((if env.tags.isEmpty then none else some (Tags.codec.write env.tags)).bind _).isSome = _
  cases env.tags.isEmpty <;> rfl

end Envelope

/-! ### Texts -/

/-- The result of reading a thing from a text without the member at the path. -/
structure ReadsWithout (os : List (Omissible α)) (path : List String) (result : Except ε α) :
    Prop where
  /-- A member that may be missing is gone, and nothing else has changed. -/
  cleared : ∀ o ∈ os, o.path = path → result = .ok o.cleared
  /-- Every other member must be there. -/
  refused : (∀ o ∈ os, o.path ≠ path) → Refused result

/-- A member is found by its path. -/
theorem Omissible.without?_of_mem {os : List (Omissible α)}
    (hpaths : (os.map Omissible.path).Nodup) {o : Omissible α} (ho : o ∈ os) :
    without? os o.path = some o.cleared := by
  -- the first member with the path is the only one
  induction os with
  | nil => cases ho
  | cons first os ih =>
    rw [List.map_cons, List.nodup_cons] at hpaths
    rw [without?, List.find?_cons]
    rcases List.mem_cons.1 ho with rfl | ho
    · rw [decide_eq_true rfl]
      rfl
    · have hne : first.path ≠ o.path := fun heq => hpaths.1 (heq ▸ List.mem_map_of_mem ho)
      rw [decide_eq_false hne]
      exact ih hpaths.2 ho

theorem readsWithout_of_toOption {os : List (Omissible α)} {path : List String}
    {result : Except ε α} (hpaths : (os.map Omissible.path).Nodup)
    (h : result.toOption = without? os path) : ReadsWithout os path result where
  cleared o ho hpath := by
    rw [← hpath, Omissible.without?_of_mem hpaths ho] at h
    exact eq_ok_of_toOption h
  refused hnone := by
    rw [Omissible.without?_eq_none hnone] at h
    exact refused_of_toOption h

/-- No two members have the same path. -/
theorem Event.nodup_omissibles (e : Event) : (e.omissibles.map Omissible.path).Nodup := by
  cases e <;> simp [omissibles, payloadOmissibles, HttpStart.omissibles, HttpStop.omissibles,
    HttpStartStop.omissibles, LogMessage.omissibles, Omissible.within, Omissible.under]

theorem Envelope.nodup_omissibles (env : Envelope) :
    (env.omissibles.map Omissible.path).Nodup := by
  have hevent : (env.event.omissibles.map (.within fun e => { env with event := e })).map
      Omissible.path = env.event.omissibles.map Omissible.path := by
    rw [List.map_map]
    rfl
  rw [omissibles, List.map_append, hevent, List.nodup_append]
  refine ⟨by simp [metadataOmissibles], env.event.nodup_omissibles, ?_⟩
  rintro _ hown _ hpath rfl
  obtain ⟨own, hmem, heq⟩ := List.mem_map.1 hown
  obtain ⟨o, ho, heq'⟩ := List.mem_map.1 hpath
  -- the one path ends at the envelope itself, and the other leads into the payload
  obtain ⟨name, -, hname⟩ := path_of_mem_metadata hmem
  obtain ⟨inner, hne, hinner⟩ := Event.path_of_mem ho
  exact hne (List.cons.inj (hinner.symm.trans (heq'.trans (heq.symm.trans hname)))).2

/-- **What may be missing from a text, and what may not.** In the text of an event or envelope a
member that may be missing stands if and only if there is something to write. When a member, at any
depth, is deleted or its value is replaced by null, the text is read as the same thing without it
if the member is one that may be missing, and refused otherwise. Tags are written if there are any;
they may be deleted, but they may not be null. -/
theorem wire_omission :
    (∀ e : Event, e.Stable →
      (∀ o ∈ e.omissibles, ((Event.codec.write e).at? o.path).isSome = o.present) ∧
      ∀ (edit : Edit) (path : List String) (j : Json) (text : List UInt8),
        (Event.codec.write e).Edited edit path j → Token.Spaced j.tokens text →
        ReadsWithout e.omissibles path (Event.codec.ofText text)) ∧
    ∀ env : Envelope, env.event.Stable →
      (∀ o ∈ env.omissibles, ((Envelope.codec.write env).at? o.path).isSome = o.present) ∧
      ((Envelope.codec.write env).at? ["tags"]).isSome = !env.tags.isEmpty ∧
      ∀ (edit : Edit) (path : List String) (j : Json) (text : List UInt8),
        (Envelope.codec.write env).Edited edit path j → Token.Spaced j.tokens text →
        -- the members of the tags are named by others
        (path.head? = some "tags" → path = ["tags"]) →
        (path = ["tags"] → edit = .delete →
          Envelope.ofText text = .ok { env with tags := .empty }) ∧
        (¬ (path = ["tags"] ∧ edit = .delete) →
          ReadsWithout env.omissibles path (Envelope.ofText text)) := by
  refine ⟨fun e h => ⟨(Event.omits h).present, ?_⟩,
    fun env h => ⟨Envelope.present h, env.present_tags, ?_⟩⟩
  · intro edit path j text hedit htext
    have hself := Event.codec_reads h
    have hlegible := (hedit.fits (hself.legible hself.self) (hself.shallow hself.self)).1
    -- the text is read as the edited value, whatever white space is in it
    rw [Codec.ofText_of_spaced _ hlegible htext]
    exact readsWithout_of_toOption e.nodup_omissibles ((Event.omits h).edited hedit .direct)
  · intro edit path j text hedit htext htags
    have hself := Envelope.codec_reads h
    have hlegible := (hedit.fits (hself.legible hself.self) (hself.shallow hself.self)).1
    -- `ofText` only puts the fault in an error
    have hread : (Envelope.ofText text).toOption = env.outcome? edit path := by
      rw [Envelope.ofText, Codec.ofText_of_spaced _ hlegible htext,
        ← Envelope.read_edited h hedit htags]
      show ((Envelope.read (Raw.ofJson j)).mapError _).toOption = _
      cases Envelope.read (Raw.ofJson j) <;> rfl
    rw [Envelope.outcome?] at hread
    refine ⟨fun hpath hdelete => ?_, fun hother => ?_⟩
    · rw [if_pos ⟨hpath, hdelete⟩] at hread
      exact eq_ok_of_toOption hread
    · rw [if_neg hother] at hread
      exact readsWithout_of_toOption env.nodup_omissibles hread

/-- A response on behalf of an application. -/
def HttpStop.sampleOfApplication : HttpStop :=
  ⟨1, "host/", ⟨2, 3⟩, .server, 200, 0, some ⟨4, 5⟩⟩

/-- The response in an envelope with a tag. -/
def Envelope.sampleTagged : Envelope :=
  ⟨"router", 1, none, some "gateway", none, none, Tags.empty.insert "zone" "z1",
    .httpStop .sampleOfApplication⟩

/-- A response is read without its application, but not with half of the application's id, nor
without a timestamp; an envelope is read without its tags and its job, but not with null tags. -/
theorem wire_omission_samples :
    (∃ j, (Event.codec.write (.httpStop .sampleOfApplication)).Edited .delete
        ["event", "application_id"] j ∧
      Event.codec.ofText j.render =
        .ok (.httpStop { HttpStop.sampleOfApplication with applicationId := none })) ∧
    (∃ j, (Event.codec.write (.httpStop .sampleOfApplication)).Edited .delete
        ["event", "application_id", "low"] j ∧ Refused (Event.codec.ofText j.render)) ∧
    (∃ j, (Event.codec.write (.httpStop .sampleOfApplication)).Edited .nullify
        ["event", "timestamp"] j ∧ Refused (Event.codec.ofText j.render)) ∧
    (∃ j, (Envelope.codec.write .sampleTagged).Edited .delete ["tags"] j ∧
      Envelope.ofText j.render = .ok { Envelope.sampleTagged with tags := .empty }) ∧
    (∃ j, (Envelope.codec.write .sampleTagged).Edited .nullify ["tags"] j ∧
      Refused (Envelope.ofText j.render)) ∧
    ∃ j, (Envelope.codec.write .sampleTagged).Edited .nullify ["job"] j ∧
      Envelope.ofText j.render = .ok { Envelope.sampleTagged with job := none } := by
  obtain ⟨hevent, henvelope⟩ := wire_omission
  obtain ⟨-, hevent⟩ := hevent (.httpStop .sampleOfApplication) trivial
  obtain ⟨-, -, henvelope⟩ := henvelope .sampleTagged trivial
  have hothers : ∀ o ∈ Envelope.sampleTagged.omissibles, o.path ≠ ["tags"] := by
    simp only [Envelope.omissibles, Envelope.metadataOmissibles, Event.omissibles,
      Event.payloadOmissibles, Envelope.sampleTagged, HttpStop.omissibles]
    decide
  have hinEvent : ∀ path ∈ [["event", "application_id"], ["event", "application_id", "low"],
      ["event", "timestamp"]],
      ((Event.codec.write (.httpStop .sampleOfApplication)).at? path).isSome = true := by
    decide
  have hinEnvelope : ∀ path ∈ [["tags"], ["job"]],
      ((Envelope.codec.write .sampleTagged).at? path).isSome = true := by
    decide
  simp only [List.forall_mem_cons] at hinEvent hinEnvelope
  obtain ⟨happlication, hlow, htimestamp, -⟩ := hinEvent
  obtain ⟨htags, hjob, -⟩ := hinEnvelope
  refine ⟨?_, ?_, ?_, ?_, ?_, ?_⟩
  · obtain ⟨j, -, hj⟩ := Json.exists_edited .delete happlication
    exact ⟨j, hj, (hevent _ _ j _ hj (Json.spaced_render j)).cleared _ List.mem_cons_self rfl⟩
  · obtain ⟨j, -, hj⟩ := Json.exists_edited .delete hlow
    exact ⟨j, hj, (hevent _ _ j _ hj (Json.spaced_render j)).refused
      (List.forall_mem_singleton.2 (by decide))⟩
  · obtain ⟨j, -, hj⟩ := Json.exists_edited .nullify htimestamp
    exact ⟨j, hj, (hevent _ _ j _ hj (Json.spaced_render j)).refused
      (List.forall_mem_singleton.2 (by decide))⟩
  · obtain ⟨j, -, hj⟩ := Json.exists_edited .delete htags
    exact ⟨j, hj, (henvelope _ _ j _ hj (Json.spaced_render j) fun _ => rfl).1 rfl rfl⟩
  · obtain ⟨j, -, hj⟩ := Json.exists_edited .nullify htags
    exact ⟨j, hj, ((henvelope _ _ j _ hj (Json.spaced_render j) fun _ => rfl).2
      (by decide)).refused hothers⟩
  · obtain ⟨j, -, hj⟩ := Json.exists_edited .nullify hjob
    exact ⟨j, hj, ((henvelope _ _ j _ hj (Json.spaced_render j) (by decide)).2
      (by decide)).cleared _ (List.mem_cons_of_mem _ List.mem_cons_self) rfl⟩

end Telemetry
