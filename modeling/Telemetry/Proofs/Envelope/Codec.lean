import Telemetry.Envelope.Basic
import Telemetry.Proofs.Envelope.Tags
import Telemetry.Proofs.Event.Codec

/-!
# Reading envelopes in any layout

An envelope and its event share one object. The reader of the metadata goes through all members and
puts aside those that are none of its own, in their order (`Envelope.readMembers_ofMembers`); the
reader of the event then finds its two members among what was put aside. So the law of envelopes
(`Envelope.codec_reads`) comes from the law of records for the one reader and from
`Event.readMembers_of_perm` for the other. To be put aside, a member must not be nested too deep,
and here the bound on what may be added is used.

Tags are an object whose names are not known beforehand. Reading puts each pair into its place, so
that the order of the members makes no difference (`Tags.ofList_of_perm`).
-/

namespace Telemetry

/-! ### Tags -/

namespace Tags

/-- The member of a pair. -/
def member (pair : String × String) : String × Json :=
  (pair.1, .text pair.2)

/-- The pair of a member. -/
def pairOf : String × Json → String × String
  | (key, .text value) => (key, value)
  | (key, _) => (key, "")

theorem readMembers_map {tags : Tags} {pairs : List (String × String)} :
    readMembers tags (Raw.ofMembers (pairs.map member)) = .ok (tags.insertAll pairs) := by
  induction pairs generalizing tags with
  | nil =>
    rw [List.map_nil, Raw.ofMembers, readMembers]
    rfl
  -- The tags vary: they are those that the members before have made.
  | cons pair pairs ih =>
    rw [List.map_cons, member, Raw.ofMembers, readMembers, Raw.ofJson, Codec.readText]
    exact ih

/-- Members in any order of the writer's are the members of pairs. -/
theorem exists_pairs (pairs : List (String × String)) {members : List (String × Json)}
    (h : (pairs.map member).Perm members) :
    ∃ pairs' : List (String × String), pairs'.Perm pairs ∧ members = pairs'.map member := by
  refine ⟨members.map pairOf, ?_, ?_⟩
  · -- `pairOf` takes a member of the writer back to its pair
    have hback := h.map pairOf
    rw [List.map_map, show pairOf ∘ member = id from rfl, List.map_id] at hback
    exact hback.symm
  · rw [List.map_map]
    -- each member is one of the writer's, whose values are texts
    have hsame : ∀ m ∈ members, (member ∘ pairOf) m = m := by
      intro m hm
      obtain ⟨p, -, rfl⟩ := List.mem_map.1 (h.mem_iff.2 hm)
      rfl
    rw [List.map_congr_left hsame, List.map_id']

theorem codec_reads {room : Nat} (tags : Tags) : Tags.codec.Reads .map (room + 1) tags := by
  refine .ofObject (.map (.refl _)) fun {j} hj => ?_
  cases hj with
  | @map _ members h =>
  obtain ⟨pairs, hpairs, rfl⟩ := exists_pairs tags.toList h
  refine ⟨_, rfl, ?_, ?_⟩
  · intro m hm
    obtain ⟨pair, -, rfl⟩ := List.mem_map.1 hm
    exact ⟨Json.legible_text pair.2, Nat.zero_le _⟩
  · intro mode
    -- the reader puts the pairs into their places one by one
    show Tags.read (.object (Raw.ofMembers (pairs.map member)) .closed) = .ok tags
    rw [Tags.read, readMembers_map, show empty.insertAll pairs = ofList pairs from rfl,
      ofList_of_perm hpairs]
    rfl

end Tags

theorem Field.Reads.tags {name : String} {room : Nat} (tags : Tags) :
    Field.Reads ⟨name, Tags, Tags.codec⟩ .map (room + 1) tags := by
  cases hempty : tags.isEmpty with
  | true =>
    -- no tags are left out, and what is taken for a missing member are no tags either
    have hnil : tags.toList = [] := List.isEmpty_iff.1 hempty
    show if tags.isEmpty then some Tags.empty = some tags else _
    rw [if_pos hempty]
    exact congrArg some (Tags.ext hnil.symm)
  | false => exact .written tags.codec_reads hempty

/-! ### Members that are laid out anew, side by side -/

theorem Shape.relaidMembers_append {inside : String → Shape} :
    ∀ {a b kept : List (String × Json)}, Shape.RelaidMembers inside (a ++ b) kept →
    ∃ kept₁ kept₂, kept = kept₁ ++ kept₂ ∧ Shape.RelaidMembers inside a kept₁ ∧
      Shape.RelaidMembers inside b kept₂
  | [], _, kept, h => ⟨[], kept, rfl, .nil, h⟩
  | (name, j) :: a, b, _, .cons hj hrest => by
    obtain ⟨kept₁, kept₂, rfl, h₁, h₂⟩ := relaidMembers_append hrest
    exact ⟨_ :: kept₁, kept₂, rfl, .cons hj h₁, h₂⟩

theorem Shape.RelaidMembers.append {inside : String → Shape} :
    ∀ {a a' b b' : List (String × Json)}, Shape.RelaidMembers inside a a' →
    Shape.RelaidMembers inside b b' → Shape.RelaidMembers inside (a ++ b) (a' ++ b')
  | _, _, _, _, .nil, hb => hb
  | _, _, _, _, .cons hj hrest, hb => .cons hj (hrest.append hb)

namespace Envelope

/-! ### Envelopes -/

/-- The shapes of what stands in the envelope of an event of the given kind. -/
def inside (kind : EventType) (name : String) : Shape :=
  if name = "tags" then .map else Event.insideOf kind name

/-- The layouts of the envelope of an event of the given kind. Its object has the members of the
metadata and those of the event. -/
def shape (kind : EventType) : Shape :=
  .record (fields.map Field.name ++ [Event.tagName, Event.contentName]) (inside kind)

/-- The member is none of the metadata. -/
def isForeign (member : String × Json) : Bool :=
  member.1 ∉ fields.map Field.name

theorem isForeign_iff {member : String × Json} :
    isForeign member = true ↔ member.1 ∉ fields.map Field.name :=
  decide_eq_true_iff

/-- No member of the metadata has the name of a member of the event. -/
theorem names_apart :
    ∀ name ∈ fields.map Field.name, name ∉ [Event.tagName, Event.contentName] := by
  decide

/-- The members of the event are none of the metadata's. -/
theorem isForeign_of_names {members : List (String × Json)}
    (h : ∀ member ∈ members, member.1 ∈ [Event.tagName, Event.contentName]) :
    ∀ member ∈ members, isForeign member = true :=
  fun member hmember => isForeign_iff.2 fun hname => names_apart _ hname (h member hmember)

theorem isForeign_members (e : Event) : ∀ member ∈ e.members, isForeign member = true :=
  isForeign_of_names e.members_names

/-- The members of the metadata are found among its fields. -/
theorem lookup_metadata {env : Envelope} {name : String} (h : name ∈ fields.map Field.name) :
    env.members.lookup name = Record.written? name fields env.toRow := by
  -- the event has no member of such a name
  have hnone : env.event.members.lookup name = none :=
    List.lookup_eq_none_iff.2 fun member hmember => bne_iff_ne.2 fun heq =>
      names_apart name h (heq ▸ env.event.members_names member hmember)
  rw [members, List.lookup_append, Record.lookup_write (by decide), hnone, Option.or_none]

/-- All others are found in the event. -/
theorem lookup_event {env : Envelope} {name : String} (h : name ∉ fields.map Field.name) :
    env.members.lookup name = env.event.members.lookup name := by
  rw [members, List.lookup_append, Record.lookup_write (by decide), Record.written?_of_not_mem h,
    Option.none_or]

theorem row_reads (e : Envelope) : Row.Reads (inside e.eventType) 102 fields e.toRow :=
  -- the fields in their order: origin, timestamp, the four that may be lacking, the tags
  ⟨.written (Codec.text_reads _ _) rfl, .written (Codec.signed64_reads _ _) rfl, .optionalText _,
    .optionalText _, .optionalText _, .optionalText _, .tags _, trivial⟩

/-- **Members that are none of the metadata are put aside, in their order,** and the others are read
as those of a record. -/
theorem readMembers_ofMembers {slots : Slots fields} {members : List (String × Json)}
    (hshallow : ∀ member ∈ members, member.2.depth ≤ Raw.roomInside) :
    readMembers slots (Raw.ofMembers members) =
      (Record.steps .direct fields slots members).map fun result =>
        (result, Raw.ofMembers (members.filter isForeign)) := by
  -- The slots vary, being filled by the members in front. A member goes to one of the two readers,
  -- never to both.
  induction members generalizing slots with
  | nil => rfl
  | cons member members ih =>
    rw [List.forall_mem_cons] at hshallow
    rw [Raw.ofMembers, readMembers, Record.steps_cons, Record.step]
    cases haccept : Record.accept? .direct member.1 (Raw.ofJson member.2) fields slots with
    | some read =>
      -- a field has taken the member, so nothing is put aside
      have hown : ¬ isForeign member = true := by
        intro hforeign
        have hnone : Record.accept? .direct member.1 (Raw.ofJson member.2) fields slots = none :=
          Record.accept?_eq_none.2 (isForeign_iff.1 hforeign)
        rw [haccept] at hnone
        cases hnone
      rw [List.filter_cons_of_neg hown, Option.getD_some]
      simp only [bind, Except.bind, haccept]
      cases read with
      | error fault => rfl
      | ok middle => exact ih hshallow.2
    | none =>
      -- no field has its name, so it is put aside, for which it must be shallow enough
      have hforeign : isForeign member = true :=
        isForeign_iff.2 (Record.accept?_eq_none.1 haccept)
      rw [List.filter_cons_of_pos hforeign, Raw.ofMembers, Option.getD_none, Fault.ok_bind]
      simp only [bind, Except.bind, haccept, Raw.buffer_ofJson member.2 hshallow.1,
        ih hshallow.2]
      cases Record.steps .direct fields slots members <;> rfl

/-- The metadata is read from its own members, and the event from those that are put aside. -/
theorem read_ofMembers {members : List (String × Json)}
    (hshallow : ∀ member ∈ members, member.2.depth ≤ Raw.roomInside) :
    Envelope.read (.object (Raw.ofMembers members) .closed) =
      (Record.steps .direct fields (Record.vacant fields) members >>= Record.finish fields) >>=
        fun row => (Event.readMembers .held .closed
          (Raw.ofMembers (members.filter isForeign))).map fun event => ofRow event row := by
  rw [Envelope.read, readMembers_ofMembers hshallow]
  cases Record.steps .direct fields (Record.vacant fields) members with
  | error fault => rfl
  | ok slots =>
    simp only [bind, Except.bind, Except.map, Ending.used_closed]
    cases Record.finish fields slots with
    | error fault => rfl
    | ok row =>
      cases Event.readMembers .held .closed (Raw.ofMembers (members.filter isForeign)) <;> rfl

/-- The metadata of the writer, laid out anew, is not foreign. -/
theorem not_isForeign_own {e : Envelope} {inside : String → Shape} {own : List (String × Json)}
    (h : Shape.RelaidMembers inside (Record.write fields e.toRow) own) :
    ∀ member ∈ own, ¬ isForeign member = true := by
  intro member hmember hforeign
  exact isForeign_iff.1 hforeign (Record.kept_names h member hmember)

/-- **The metadata is read in any layout,** and the event is left to its own reader, with the
members that were put aside. -/
theorem read_of_perm {e : Envelope} {own foreign members : List (String × Json)}
    (hown : Shape.RelaidMembers (inside e.eventType) (Record.write fields e.toRow) own)
    (hforeign : ∀ member ∈ foreign, isForeign member = true)
    (hshallow : ∀ member ∈ foreign, member.2.depth ≤ Raw.roomInside)
    (hperm : (own ++ foreign).Perm members) :
    foreign.Perm (members.filter isForeign) ∧
      Envelope.read (.object (Raw.ofMembers members) .closed) =
        (Event.readMembers .held .closed (Raw.ofMembers (members.filter isForeign))).map
          fun event => ofRow event e.toRow := by
  have hrow := row_reads e
  constructor
  · -- of the members only the foreign ones are kept, in some order
    have hfilter := hperm.filter isForeign
    rwa [List.filter_append, List.filter_eq_nil_iff.2 (not_isForeign_own hown),
      List.filter_eq_self.2 hforeign, List.nil_append] at hfilter
  · -- the metadata, laid out anew, fills the slots of its record
    obtain ⟨slots, hsteps, hfinish⟩ := Record.steps_kept .direct (by decide) hrow hown
    -- in the writer's order, and with the foreign members last, the metadata fills the slots
    have hread : Record.steps .direct fields (Record.vacant fields) members = .ok slots := by
      refine Record.steps_perm hperm ?_
      rw [Record.steps_append, hsteps]
      exact Record.steps_extras fun member hmember => isForeign_iff.1 (hforeign member hmember)
    have hall : ∀ member ∈ members, member.2.depth ≤ Raw.roomInside := by
      intro member hmember
      rcases List.mem_append.1 (hperm.mem_iff.2 hmember) with hmember | hmember
      · exact Nat.le_trans (Record.legible_kept hrow hown member hmember).2 (by decide)
      · exact hshallow member hmember
    rw [read_ofMembers hall, hread, Fault.ok_bind, hfinish]
    rfl

/-- **An envelope is read in any layout.** -/
theorem codec_reads {e : Envelope} (h : e.event.Stable) :
    Envelope.codec.Reads (shape e.eventType) 103 e := by
  have hpayload := Event.readsPayload h
  refine .ofObject (.ofMembers ((Record.self_kept (row_reads e)).append
    (.cons (.fixed _) (.cons hpayload.self .nil)))) fun {j} hj => ?_
  cases hj with
  | @record _ _ _ kept extras members hkept hextras hperm =>
  obtain ⟨own, parts, rfl, hown, hparts⟩ := Shape.relaidMembers_append hkept
  obtain ⟨content, hcontent, rfl⟩ := Event.eq_of_relaidMembers (e := e.event) rfl rfl hparts
  rw [List.append_assoc] at hperm
  -- the members of the event and the added ones are put aside together
  have hforeign : ∀ member ∈ [e.event.tagMember, (Event.contentName, content)] ++ extras,
      isForeign member = true ∧ member.2.Legible ∧ member.2.depth ≤ 102 := by
    intro member hmember
    rcases List.mem_append.1 hmember with hmember | hmember
    · have hpart : ∀ part ∈ [e.event.tagMember, (Event.contentName, content)],
          isForeign part = true := List.forall_mem_cons.2 ⟨rfl, List.forall_mem_singleton.2 rfl⟩
      exact ⟨hpart member hmember, Event.legible_parts hpayload hcontent member hmember⟩
    · obtain ⟨hname, hadded⟩ := hextras member hmember
      refine ⟨isForeign_iff.2 ?_, hadded.legible, Nat.le_trans hadded.shallow (by decide)⟩
      intro hmem
      exact hname (List.mem_append_left _ hmem)
  refine ⟨members, rfl, ?_, ?_⟩
  · intro member hmember
    rcases List.mem_append.1 (hperm.mem_iff.2 hmember) with hmember | hmember
    · exact Record.legible_kept (row_reads e) hown member hmember
    · exact (hforeign member hmember).2
  · intro mode
    -- the reader of the event finds its two members among what was put aside
    obtain ⟨hheld, hread⟩ := read_of_perm hown (fun member hmember => (hforeign member hmember).1)
      (fun member hmember => Nat.le_trans (hforeign member hmember).2.2 (by decide)) hperm
    have hevent := Event.readMembers_of_perm .held hpayload hcontent
      (fun member hmember => Event.isPart_eq_false.2 fun hmem =>
        (hextras member hmember).1 (List.mem_append_right _ hmem)) hheld
    show Envelope.read (.object (Raw.ofMembers members) .closed) = .ok e
    rw [hread, hevent]
    rfl

/-- **An envelope in any layout is also an event.** -/
theorem read_event {e : Envelope} (h : e.event.Stable) {j : Json}
    (hj : (shape e.eventType).Relaid (Envelope.codec.write e) j) (mode : Mode) :
    Event.codec.read mode (Raw.ofJson j) = .ok e.event := by
  cases hj with
  | @record _ _ _ kept extras members hkept hextras hperm =>
  obtain ⟨own, parts, rfl, hown, hparts⟩ := Shape.relaidMembers_append hkept
  obtain ⟨content, hcontent, rfl⟩ := Event.eq_of_relaidMembers (e := e.event) rfl rfl hparts
  -- the reader of events takes the metadata for members of other names
  have hothers : ∀ member ∈ own ++ extras, Event.isPart member = false := by
    intro member hmember
    rcases List.mem_append.1 hmember with hmember | hmember
    · exact Event.isPart_eq_false.2 (names_apart _ (Record.kept_names hown member hmember))
    · exact Event.isPart_eq_false.2 fun hmem =>
        (hextras member hmember).1 (List.mem_append_right _ hmem)
  -- the metadata moves behind the two members, to the added ones
  have horder : ([e.event.tagMember, (Event.contentName, content)] ++ (own ++ extras)).Perm
      members := by
    refine List.Perm.trans ?_ hperm
    rw [← List.append_assoc]
    exact List.perm_append_comm.append_right extras
  show Event.read mode (Raw.ofJson (.object members)) = .ok e.event
  rw [Raw.ofJson, Event.read]
  exact Event.readMembers_of_perm mode (Event.readsPayload h) hcontent hothers horder

end Envelope

end Telemetry
