import Telemetry.Proofs.Json.Record

/-!
# Taking a member out of a value

A member of a value, at any depth, has a path: the names of the members that lead to it, the last
of them its own. `Json.at?` looks a path up and `Json.alter` puts something else at its end, or
nothing. A member can be deleted and it can be replaced by null, and `Edit` names the two.

What a record makes of it depends on the one field that has the name (`Record.taken?_alter`): the
other fields are read as they were written. For most codecs it makes no difference whether a member
is missing or null, and nothing inside what they write can be missed; `Codec.NullIsAbsent` says
both. Then the field has what its codec takes for a missing member, or the record is refused
(`Record.read_edited`).
-/

namespace Telemetry

/-! ### Paths -/

namespace Json

/-- The value at the end of a path. -/
def at? : List String → Json → Option Json
  | [], j => some j
  | name :: path, .object members => (members.lookup name).bind (at? path)
  | _ :: _, _ => none

/-- The members, with what `f` makes of the one with the name. -/
def alterMember (f : Json → Option Json) (name : String) (members : List (String × Json)) :
    List (String × Json) :=
  members.filterMap fun member =>
    if member.1 = name then (f member.2).map fun j => (member.1, j) else some member

/-- The value with `new` at the end of the path, or with nothing there. -/
def alter (new : Option Json) : List String → Json → Option Json
  | [], _ => new
  | name :: path, .object members => some (.object (alterMember (alter new path) name members))
  | _ :: _, j => some j

theorem mem_of_lookup {members : List (String × Json)} {name : String} {item : Json}
    (h : members.lookup name = some item) : (name, item) ∈ members := by
  obtain ⟨before, after, rfl, -⟩ := List.lookup_eq_some_iff.1 h
  exact List.mem_append_right _ List.mem_cons_self

/-- Only an object has something in it that a path leads to. -/
theorem exists_of_at? {name : String} {path : List String} {j : Json}
    (h : (j.at? (name :: path)).isSome = true) :
    ∃ members item, j = .object members ∧ members.lookup name = some item ∧
      (item.at? path).isSome = true := by
  cases j with
  | object members =>
    rw [at?] at h
    cases hitem : members.lookup name with
    | none => rw [hitem] at h; cases h
    | some item =>
      rw [hitem] at h
      exact ⟨members, item, rfl, hitem, h⟩
  | _ => cases h

section AlterMember

variable {f : Json → Option Json} {name : String} {members more : List (String × Json)}

theorem alterMember_append :
    alterMember f name (members ++ more) = alterMember f name members ++ alterMember f name more :=
  List.filterMap_append

theorem alterMember_cons_of_ne {member : String × Json} (h : member.1 ≠ name) :
    alterMember f name (member :: members) = member :: alterMember f name members := by
  rw [alterMember, List.filterMap_cons, if_neg h]
  rfl

theorem alterMember_cons (item : Json) :
    alterMember f name ((name, item) :: members) =
      ((f item).map fun j => (name, j)).toList ++ alterMember f name members := by
  rw [alterMember, List.filterMap_cons, if_pos rfl]
  cases f item <;> rfl

/-- Members of other names stay as they are. -/
theorem alterMember_of_ne (h : ∀ member ∈ members, member.1 ≠ name) :
    alterMember f name members = members := by
  induction members with
  | nil => rfl
  | cons member members ih =>
    rw [List.forall_mem_cons] at h
    rw [alterMember_cons_of_ne h.1, ih h.2]

/-- A member that has been altered is one of those before, or stands in place of one. -/
theorem mem_of_alterMember {member : String × Json} (h : member ∈ alterMember f name members) :
    member ∈ members ∨
      ∃ old ∈ members, old.1 = name ∧ member.1 = name ∧ f old.2 = some member.2 := by
  obtain ⟨old, hold, heq⟩ := List.mem_filterMap.1 h
  -- either the member has the name and `f` made it, or it was kept
  split at heq
  · next hname =>
    obtain ⟨j, hj, rfl⟩ := Option.map_eq_some_iff.1 heq
    exact .inr ⟨old, hold, hname, hname, hj⟩
  · obtain rfl := Option.some.inj heq
    exact .inl hold

theorem names_alterMember {names : List String} (h : ∀ member ∈ members, member.1 ∈ names) :
    ∀ member ∈ alterMember f name members, member.1 ∈ names := by
  intro member hmember
  rcases mem_of_alterMember hmember with hmember | ⟨old, hold, hname, hname', -⟩
  · exact h member hmember
  · rw [hname', ← hname]
    exact h old hold

end AlterMember

/-- What is legible and not nested too deep stays so. -/
theorem alter_fits {new : Option Json}
    (hnew : ∀ j, new = some j → j.Legible ∧ j.depth = 0) :
    ∀ {path : List String} {j j' : Json}, alter new path j = some j' →
      ∀ {depth}, j.Legible ∧ j.depth ≤ depth → j'.Legible ∧ j'.depth ≤ depth
  | [], _, j', h, depth, _ => by
    obtain ⟨hlegible, hdepth⟩ := hnew j' h
    exact ⟨hlegible, by omega⟩
  | name :: path, j, j', h, depth, hfits => by
    cases j with
    | object members =>
      obtain rfl := Option.some.inj h
      -- an object has a depth of one at least, so its members have one less to keep to
      obtain ⟨depth, rfl⟩ : ∃ n, depth = n + 1 := by
        have hdepth := hfits.2
        rw [Json.depth] at hdepth
        exact ⟨depth - 1, by omega⟩
      rw [legible_object, depth_object_le] at hfits ⊢
      -- a member that is there now is an old one, or what the rest of the path made of one
      have hmembers : ∀ member ∈ alterMember (alter new path) name members,
          member.2.Legible ∧ member.2.depth ≤ depth := by
        intro member hmember
        rcases mem_of_alterMember hmember with hmember | ⟨old, hold, -, -, hj⟩
        · exact ⟨hfits.1 member hmember, hfits.2 member hmember⟩
        · exact alter_fits hnew hj ⟨hfits.1 old hold, hfits.2 old hold⟩
      exact ⟨fun member hmember => (hmembers member hmember).1,
        fun member hmember => (hmembers member hmember).2⟩
    | _ =>
      obtain rfl := Option.some.inj h
      exact hfits

end Json

/-! ### Deleting and nullifying -/

/-- What is done to a member. -/
inductive Edit where
  /-- The member is taken out. -/
  | delete
  /-- The value of the member is replaced by null. -/
  | nullify
  deriving DecidableEq

/-- What stands in place of the value. -/
def Edit.new : Edit → Option Json
  | .delete => none
  | .nullify => some .null

theorem Edit.legible_new (edit : Edit) : ∀ j, edit.new = some j → j.Legible ∧ j.depth = 0 := by
  intro j hj
  cases edit with
  | delete => cases hj
  | nullify =>
    cases hj
    exact ⟨Json.legible_null, rfl⟩

/-- The second value is the first with the member at the path edited. The member has to be
there. -/
structure Json.Edited (edit : Edit) (path : List String) (j j' : Json) : Prop where
  ne_nil : path ≠ []
  isSome : (j.at? path).isSome = true
  altered : j.alter edit.new path = some j'

/-- What is edited is an object, before and after. -/
theorem Json.Edited.exists_object {edit : Edit} {path : List String} {j j' : Json}
    (h : j.Edited edit path j') : ∃ name rest members item, path = name :: rest ∧
      j = .object members ∧ members.lookup name = some item ∧ (item.at? rest).isSome = true ∧
      j' = .object (alterMember (alter edit.new rest) name members) := by
  obtain ⟨name, rest, rfl⟩ := List.exists_cons_of_ne_nil h.ne_nil
  obtain ⟨members, item, rfl, hitem, hat⟩ := exists_of_at? h.isSome
  exact ⟨name, rest, members, item, rfl, rfl, hitem, hat, (Option.some.inj h.altered).symm⟩

/-- Whatever is inside an object can be edited. -/
theorem Json.exists_edited (edit : Edit) {name : String} {path : List String} {j : Json}
    (h : (j.at? (name :: path)).isSome = true) :
    ∃ j', j.alter edit.new (name :: path) = some j' ∧ j.Edited edit (name :: path) j' := by
  obtain ⟨members, -, rfl, -, -⟩ := exists_of_at? h
  exact ⟨_, rfl, List.cons_ne_nil _ _, h, rfl⟩

theorem Json.Edited.fits {edit : Edit} {path : List String} {j j' : Json}
    (h : j.Edited edit path j') {depth : Nat} (hlegible : j.Legible) (hdepth : j.depth ≤ depth) :
    j'.Legible ∧ j'.depth ≤ depth :=
  alter_fits edit.legible_new h.altered ⟨hlegible, hdepth⟩

/-- **Null says the same as a missing value,** and nothing inside a value may be missing or null. -/
structure Codec.NullIsAbsent (c : Codec α) : Prop where
  null (mode : Mode) : (c.read mode .null).toOption = c.absent
  inner {a : α} {edit : Edit} {path : List String} {j : Json} (h : (c.write a).Edited edit path j)
    (mode : Mode) : (c.read mode (Raw.ofJson j)).toOption = none

/-! ### Records -/

/-- What a record has for the field when `new` stands in place of the field's member. -/
def Field.take (f : Field) (mode : Mode) : Option Json → Option f.Value
  | some j => (f.codec.read mode (Raw.ofJson j)).toOption
  | none => f.codec.absent

/-- What is written for the value of a field is taken as the value. -/
theorem Field.take_written {f : Field} {shape : Shape} {room : Nat} {a : f.Value}
    (h : f.Reads shape room a) (mode : Mode) :
    f.take mode (if f.codec.omits a then none else some (f.codec.write a)) = some a := by
  rw [Field.Reads] at h
  -- the value is left out and `absent` stands for it, or its own text is read
  split at h
  · next homits =>
    rw [if_pos homits]
    exact h
  · next homits =>
    rw [if_neg homits, Field.take, h.read h.self mode]
    rfl

namespace Record

variable {mode : Mode} {inside : String → Shape} {room : Nat} {new : Json → Option Json}
  {name : String}

/-- The row that is read when the member of a name has been altered, if one is read. -/
def alterRow (mode : Mode) (new : Json → Option Json) (name : String) :
    (fields : List Field) → Row fields → Option (Row fields)
  | [], () => some ()
  | f :: fs, (a, row) =>
    if f.name = name then (f.take mode (new (f.codec.write a))).map fun b => (b, row)
    else (alterRow mode new name fs row).map fun more => (a, more)

/-- The row that is read from members, if one is read. -/
def taken? (mode : Mode) (fields : List Field) (members : List (String × Json)) :
    Option (Row fields) :=
  (steps mode fields (vacant fields) members >>= finish fields).toOption

theorem toOption_read (record : String) {fields : List Field} (members : List (String × Json)) :
    (Record.read record fields mode (.object (Raw.ofMembers members) .closed)).toOption =
      taken? mode fields members := by
  rw [Record.read, readMembers_ofMembers]
  rfl

/-- The first field has what stands in its slot, or what stands for a missing member. -/
theorem toOption_finish_cons {f : Field} {fs : List Field} {slot : Option f.Value}
    {slots : Slots fs} : (finish (f :: fs) (slot, slots)).toOption =
      (slot.or f.codec.absent).bind fun a =>
        (finish fs slots).toOption.map fun row => (a, row) := by
  rw [finish]
  cases slot with
  | some a => rw [settle]; cases finish fs slots <;> rfl
  | none =>
    rw [settle, Option.none_or]
    cases f.codec.absent with
    | none => rfl
    | some a => cases finish fs slots <;> rfl

/-- If none of the members has the name of the first field, its slot stays as it was. -/
theorem toOption_steps_of_ne {f : Field} {fs : List Field} {slot : Option f.Value}
    {members : List (String × Json)} (hname : ∀ member ∈ members, f.name ≠ member.1) :
    (steps mode (f :: fs) (slot, vacant fs) members >>= finish (f :: fs)).toOption =
      (slot.or f.codec.absent).bind fun a => (taken? mode fs members).map fun row => (a, row) := by
  -- the other fields run as if there were no first one
  rw [steps_cons_of_ne hname, taken?]
  cases steps mode fs (vacant fs) members with
  | error fault => cases slot.or f.codec.absent <;> rfl
  | ok slots => exact toOption_finish_cons

/-- The first field takes the member of its name, which may be missing, and leaves the others to the
fields behind it. -/
theorem taken?_cons (f : Field) (fs : List Field) (first : Option Json)
    {members : List (String × Json)} (hname : ∀ member ∈ members, f.name ≠ member.1) :
    taken? mode (f :: fs) ((first.map fun j => (f.name, j)).toList ++ members) =
      (f.take mode first).bind fun a => (taken? mode fs members).map fun row => (a, row) := by
  cases first with
  -- the member is missing: no member has the name of the first field
  | none =>
    show taken? mode (f :: fs) members = _
    rw [taken?, vacant, toOption_steps_of_ne hname, Option.none_or, Field.take]
  -- the member is there, and its slot is the first to be filled
  | some j =>
    show taken? mode (f :: fs) ((f.name, j) :: members) = _
    rw [taken?, vacant, steps_cons, step_cons_of_vacant rfl, Field.take]
    cases f.codec.read mode (Raw.ofJson j) with
    | error fault => rfl
    | ok b =>
      show (steps mode (f :: fs) (some b, vacant fs) members >>= finish (f :: fs)).toOption = _
      rw [toOption_steps_of_ne hname]
      rfl

theorem taken?_write {fields : List Field} {row : Row fields}
    (hnames : (fields.map Field.name).Nodup) (h : Row.Reads inside room fields row) :
    taken? mode fields (write fields row) = some row := by
  obtain ⟨slots, hsteps, hfinish⟩ := steps_kept mode hnames h (self_kept h)
  rw [taken?, hsteps, Fault.ok_bind, hfinish]
  rfl

theorem write_eq_append (f : Field) (fs : List Field) (a : f.Value) (row : Row fs) :
    write (f :: fs) (a, row) = ((if f.codec.omits a then none else some (f.codec.write a)).map
      fun j => (f.name, j)).toList ++ write fs row := by
  rw [write]
  split <;> rfl

/-- **Only the field of the name is read from what stands in place of its member,** and the others
are read as they were written. -/
theorem taken?_alter {fields : List Field} {row : Row fields}
    (hnames : (fields.map Field.name).Nodup) (h : Row.Reads inside room fields row)
    (hwritten : (written? name fields row).isSome = true) :
    taken? mode fields (Json.alterMember new name (write fields row)) =
      alterRow mode new name fields row := by
  -- by induction on the fields; the first one either has the name or is out of the way of the edit
  induction fields with
  | nil => cases hwritten
  | cons f fs ih =>
    obtain ⟨a, row⟩ := row
    obtain ⟨ha, hrow⟩ := h
    rw [List.map_cons, List.nodup_cons] at hnames
    -- a name stands for one field only
    have hother : ∀ {members : List (String × Json)},
        (∀ member ∈ members, member.1 ∈ fs.map Field.name) →
        ∀ member ∈ members, f.name ≠ member.1 :=
      fun hmembers member hmember heq => hnames.1 (heq ▸ hmembers member hmember)
    rw [written?] at hwritten
    rw [write_eq_append, Json.alterMember_append, alterRow]
    by_cases hname : f.name = name
    · subst hname
      rw [if_pos rfl] at hwritten ⊢
      -- the member is there, and no other has the name
      have hkept : f.codec.omits a = false := by
        cases homits : f.codec.omits a with
        | true => rw [homits] at hwritten; cases hwritten
        | false => rfl
      have hfirst : Json.alterMember new f.name [(f.name, f.codec.write a)] =
          ((new (f.codec.write a)).map fun j => (f.name, j)).toList := by
        rw [Json.alterMember_cons]
        exact List.append_nil _
      have hrest : Json.alterMember new f.name (write fs row) = write fs row :=
        Json.alterMember_of_ne fun member hmember => (hother write_names member hmember).symm
      rw [hkept, hrest]
      show taken? mode (f :: fs) (Json.alterMember new f.name [(f.name, f.codec.write a)] ++ _) = _
      rw [hfirst, taken?_cons f fs _ (hother write_names), taken?_write hnames.2 hrow]
      cases f.take mode (new (f.codec.write a)) <;> rfl
    · -- the first field is read as it was written, and the edit is further behind
      rw [if_neg hname] at hwritten ⊢
      have hfirst : ∀ first : Option Json,
          Json.alterMember new name (first.map fun j => (f.name, j)).toList =
            (first.map fun j => (f.name, j)).toList := by
        refine fun first => Json.alterMember_of_ne fun member hmember => ?_
        obtain ⟨j, -, rfl⟩ := Option.map_eq_some_iff.1 (Option.mem_toList.1 hmember)
        exact hname
      rw [hfirst, taken?_cons f fs _ (hother (Json.names_alterMember write_names)),
        Field.take_written ha, ih hnames.2 hrow hwritten]
      rfl

/-- The row with what stands for a missing member in place of the value of a name. -/
def clearRow (name : String) : (fields : List Field) → Row fields → Option (Row fields)
  | [], () => some ()
  | f :: fs, (a, row) =>
    if f.name = name then f.codec.absent.map fun b => (b, row)
    else (clearRow name fs row).map fun more => (a, more)

theorem name_of_lookup {fields : List Field} {row : Row fields} {item : Json}
    (h : (write fields row).lookup name = some item) : name ∈ fields.map Field.name :=
  write_names _ (Json.mem_of_lookup h)

theorem clearRow_eq_none {fields : List Field} (row : Row fields)
    (h : ∀ f ∈ fields, f.codec.absent = none) (hname : name ∈ fields.map Field.name) :
    clearRow name fields row = none := by
  induction fields with
  | nil => cases hname
  | cons f fs ih =>
    obtain ⟨a, row⟩ := row
    rw [List.forall_mem_cons] at h
    rw [clearRow]
    -- a field without a value for a missing member refuses, whether it is the first or behind
    split
    · rw [h.1, Option.map_none]
    · next hne =>
      have hrest := (List.mem_cons.1 hname).resolve_left (Ne.symm hne)
      rw [ih row h.2 hrest, Option.map_none]

theorem alterRow_edit {edit : Edit} {path : List String} {item : Json} {fields : List Field}
    {row : Row fields} (hfield : ∀ f ∈ fields, f.name = name → f.codec.NullIsAbsent)
    (hwritten : written? name fields row = some item) (hat : (item.at? path).isSome = true) :
    alterRow mode (Json.alter edit.new path) name fields row =
      if path = [] then clearRow name fields row else none := by
  -- by induction on the fields, down to the one with the name
  induction fields with
  | nil => cases hwritten
  | cons f fs ih =>
    obtain ⟨a, row⟩ := row
    rw [List.forall_mem_cons] at hfield
    rw [written?] at hwritten
    rw [alterRow, clearRow]
    by_cases hname : f.name = name
    · have hnull := hfield.1 hname
      rw [if_pos hname] at hwritten ⊢
      rw [if_pos hname]
      split at hwritten
      · cases hwritten
      · obtain rfl := Option.some.inj hwritten
        -- the member itself is edited, or something inside it
        cases path with
        | nil =>
          have htake : f.take mode edit.new = f.codec.absent := by
            cases edit with
            | delete => rfl
            | nullify => exact hnull.null mode
          rw [if_pos rfl, Json.alter, htake]
        | cons inside path =>
          obtain ⟨j, hj, hedited⟩ := Json.exists_edited edit hat
          rw [if_neg (List.cons_ne_nil _ _), hj, Field.take, hnull.inner hedited]
          rfl
    · rw [if_neg hname] at hwritten ⊢
      rw [if_neg hname, ih hfield.2 hwritten]
      split <;> rfl

/-- **A record with an edited member is read with what stands for a missing one,** if the member is
its own and not one inside. -/
theorem read_edited {record : String} {fields : List Field} {row : Row fields}
    (hnames : (fields.map Field.name).Nodup) (h : Row.Reads inside room fields row) {edit : Edit}
    {path : List String} {j : Json}
    (hedit : (Json.object (write fields row)).Edited edit (name :: path) j)
    (hfield : ∀ f ∈ fields, f.name = name → f.codec.NullIsAbsent) :
    (Record.read record fields mode (Raw.ofJson j)).toOption =
      if path = [] then clearRow name fields row else none := by
  obtain ⟨_, _, _, item, hpath, hobject, hitem, hat, rfl⟩ := hedit.exists_object
  obtain ⟨rfl, rfl⟩ := List.cons.inj hpath
  obtain rfl := Json.object.inj hobject
  rw [lookup_write hnames] at hitem
  rw [Raw.ofJson, toOption_read, taken?_alter hnames h (by rw [hitem]; rfl),
    alterRow_edit hfield hitem hat]

end Record

/-! ### Codecs -/

namespace Codec.NullIsAbsent

/-- Nothing is inside a value that is not written as an object. -/
theorem ofFlat {c : Codec α} (hnull : ∀ mode, (c.read mode .null).toOption = c.absent)
    (hflat : ∀ a members, c.write a ≠ .object members) : c.NullIsAbsent where
  null := hnull
  inner h := by
    obtain ⟨_, _, members, _, _, hobject, _⟩ := h.exists_object
    exact absurd hobject (hflat _ members)

theorem integer {w : Width} {ofInt : Int → α} {toInt : α → Int} :
    (Codec.integer w ofInt toInt).NullIsAbsent :=
  ofFlat (fun _ => rfl) fun _ _ => Json.noConfusion

theorem real : Codec.real.NullIsAbsent :=
  ofFlat (fun _ => rfl) fun _ _ => Json.noConfusion

theorem text : Codec.text.NullIsAbsent :=
  ofFlat (fun _ => rfl) fun _ _ => Json.noConfusion

theorem sequence (c : Codec α) : (Codec.sequence c).NullIsAbsent :=
  ofFlat (fun _ => rfl) fun _ _ => Json.noConfusion

theorem variant (known : List α) (name : α → String) :
    (Codec.variant known name).NullIsAbsent :=
  ofFlat (fun mode => by cases mode <;> rfl) fun _ _ => Json.noConfusion

/-- A thing that may be missing altogether. -/
theorem optional {c : Codec α} (h : c.NullIsAbsent) : (Codec.optional c).NullIsAbsent where
  null _ := rfl
  inner {a edit path j} hedit mode := by
    obtain ⟨_, _, members, _, _, hobject, _, _, hj⟩ := hedit.exists_object
    -- nothing is written for none, so there is nothing to edit in it
    cases a with
    | none => cases hobject
    | some a =>
      have hinner : (c.read mode (Raw.ofJson j)).toOption = none := h.inner hedit mode
      subst hj
      -- an object is not taken for nothing
      rw [Raw.ofJson] at hinner ⊢
      show ((c.read mode _).map some).toOption = none
      rw [Fault.toOption_map, hinner, Option.map_none]

/-- A record of which nothing may be missing. -/
theorem record {name : String} {fields : List Field} {inside : String → Shape} {room : Nat}
    {ofRow : Row fields → α} {toRow : α → Row fields} (hnames : (fields.map Field.name).Nodup)
    (h : ∀ a, Row.Reads inside room fields (toRow a))
    (hfields : ∀ f ∈ fields, f.codec.NullIsAbsent ∧ f.codec.absent = none) :
    ((Record.codec name fields).map ofRow toRow).NullIsAbsent where
  null _ := rfl
  inner {a edit path j} hedit mode := by
    obtain ⟨field, path, rfl⟩ := List.exists_cons_of_ne_nil hedit.ne_nil
    have hread : (Record.read name fields mode (Raw.ofJson j)).toOption =
        if path = [] then Record.clearRow field fields (toRow a) else none :=
      Record.read_edited hnames (h a) hedit fun f hf _ => (hfields f hf).1
    -- the first name of the path is that of a member that was written, so it is a field
    have hfield : field ∈ fields.map Field.name := by
      obtain ⟨_, _, _, item, hpath, hobject, hitem, -, -⟩ := hedit.exists_object
      obtain ⟨rfl, -⟩ := List.cons.inj hpath
      obtain rfl := Json.object.inj hobject
      exact Record.name_of_lookup hitem
    have hclear := Record.clearRow_eq_none (toRow a) (fun f hf => (hfields f hf).2) hfield
    show ((Record.read name fields mode (Raw.ofJson j)).map ofRow).toOption = none
    rw [Fault.toOption_map, hread, hclear, ite_self, Option.map_none]

end Codec.NullIsAbsent

end Telemetry
