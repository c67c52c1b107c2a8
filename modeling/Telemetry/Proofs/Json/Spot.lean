import Telemetry.Proofs.Json.Record

/-!
# One field of a record

A `Spot` is a field among the fields of a record. It picks the field's value out of a row and its
slot out of the slots, and puts other values there.

A record is read from an object or from an array. In an object one member has the name of the field,
in an array one element has its number. When a record has been read, and then something else is put
into this member or element, the field is read from that, and all other fields have the values that
they had (`Record.read_member`, `Record.readElements_item`). In an object this is so because a full
slot stays as it is, whatever is in it: the members behind are read in the same way
(`Record.readMembers_fill`), and so is the end of the object (`Record.finish_fill`).
-/

namespace Telemetry

/-- A field among the fields of a record. -/
inductive Spot : List Field → Field → Type 1 where
  | first {f : Field} {fs : List Field} : Spot (f :: fs) f
  | later {f g : Field} {fs : List Field} (spot : Spot fs f) : Spot (g :: fs) f

namespace Spot

/-- The field with a number. -/
def nth : (fields : List Field) → (i : Fin fields.length) → Spot fields (fields.get i)
  | _ :: _, ⟨0, _⟩ => .first
  | _ :: fs, ⟨i + 1, h⟩ => .later (nth fs ⟨i, Nat.lt_of_succ_lt_succ h⟩)

variable {fields : List Field} {f : Field}

/-- How many fields there are before it. -/
def index : {fields : List Field} → Spot fields f → Nat
  | _, .first => 0
  | _, .later spot => spot.index + 1

/-- The value of the field. -/
def get : {fields : List Field} → Spot fields f → Row fields → f.Value
  | _, .first, (a, _) => a
  | _, .later spot, (_, row) => spot.get row

/-- The row with another value of the field. -/
def put : {fields : List Field} → Spot fields f → f.Value → Row fields → Row fields
  | _, .first, b, (_, row) => (b, row)
  | _, .later spot, b, (a, row) => (a, spot.put b row)

/-- The slots with the slot of the field full. -/
def fill : {fields : List Field} → Spot fields f → f.Value → Slots fields → Slots fields
  | _, .first, b, (_, slots) => (some b, slots)
  | _, .later spot, b, (slot, slots) => (slot, spot.fill b slots)

theorem name_mem (spot : Spot fields f) : f.name ∈ fields.map Field.name := by
  induction spot with
  | first => exact List.mem_cons_self
  | later spot ih => exact List.mem_cons_of_mem _ ih

@[simp] theorem fill_fill (spot : Spot fields f) (a b : f.Value) (slots : Slots fields) :
    spot.fill b (spot.fill a slots) = spot.fill b slots := by
  induction spot with
  | first => rfl
  | later spot ih => rw [fill, fill, fill, ih]

end Spot

/-! ### Slots -/

namespace Record

open Spot

variable {mode : Mode} {fields : List Field} {f : Field}

/-- A member with the name of a field fills the slot of the field, unless it is full. -/
theorem accept?_spot (spot : Spot fields f) (hnames : (fields.map Field.name).Nodup)
    (slots : Slots fields) :
    (∃ fault, ∀ item, accept? mode f.name item fields slots = some (.error fault)) ∨
      ∀ item, accept? mode f.name item fields slots =
        some ((f.codec.read mode item).map fun b => spot.fill b slots) := by
  -- by induction on the spot: the fields before it have other names and let the member pass
  induction spot with
  | first =>
    obtain ⟨slot, slots⟩ := slots
    cases slot with
    | some b => exact .inl ⟨_, fun item => if_pos rfl⟩ -- the name has come before
    | none => exact .inr fun item => if_pos rfl
  | @later f g fs spot ih =>
    obtain ⟨slot, slots⟩ := slots
    rw [List.map_cons, List.nodup_cons] at hnames
    have hne : g.name ≠ f.name := fun heq => hnames.1 (heq ▸ spot.name_mem)
    -- the field in front has another name, so its slot is only put back
    have hcons : ∀ item, accept? mode f.name item (g :: fs) (slot, slots) =
        (accept? mode f.name item fs slots).map fun r => r.map fun more => (slot, more) :=
      fun item => if_neg hne
    rcases ih hnames.2 slots with ⟨fault, hfault⟩ | hread
    · exact .inl ⟨fault, fun item => by rw [hcons, hfault]; rfl⟩
    · refine .inr fun item => ?_
      rw [hcons, hread]
      cases f.codec.read mode item <;> rfl

/-- The members that come later do not depend on the value in a full slot. -/
theorem accept?_fill (spot : Spot fields f) (name : String) (item : Raw) (a b : f.Value)
    (slots : Slots fields) :
    accept? mode name item fields (spot.fill b slots) =
      (accept? mode name item fields (spot.fill a slots)).map fun r => r.map (spot.fill b) := by
  -- by induction on the spot; the member is for the full slot, for a slot in front or for one
  -- behind
  induction spot with
  | @first f fs =>
    obtain ⟨slot, slots⟩ := slots
    rw [fill, fill, accept?.eq_def, accept?.eq_def]
    simp only
    split
    · rfl -- both slots are full, so the member is refused for its name
    · cases accept? mode name item fs slots with
      | none => rfl
      | some read => cases read <;> rfl
  | @later f g fs spot ih =>
    obtain ⟨slot, slots⟩ := slots
    rw [fill, fill, accept?.eq_def, accept?.eq_def]
    simp only
    split
    · -- the member is for a field in front, and what is behind stays with its full slot
      cases slot with
      | some c => rfl
      | none =>
        cases g.codec.read mode item with
        | error fault => rfl
        | ok c => simp [Except.map, fill]
    · -- the member is passed on
      rw [ih a b slots]
      cases accept? mode name item fs (spot.fill a slots) with
      | none => rfl
      | some read => cases read <;> rfl

/-- A full slot is still full behind a member. -/
theorem full_of_accept? {spot : Spot fields f} {name : String} {item : Raw} {a : f.Value}
    {slots more : Slots fields}
    (h : accept? mode name item fields (spot.fill a slots) = some (.ok more)) :
    more = spot.fill a more := by
  have hself : accept? mode name item fields (spot.fill a slots) =
      (accept? mode name item fields (spot.fill a slots)).map fun r => r.map (spot.fill a) :=
    accept?_fill spot name item a a slots
  rw [h] at hself
  exact Except.ok.inj (Option.some.inj hself)

/-- Neither does what is made of many members. -/
theorem readMembers_fill (spot : Spot fields f) (a b : f.Value) (slots : Slots fields)
    (members : List Raw.Member) :
    readMembers mode fields (spot.fill b slots) members =
      (readMembers mode fields (spot.fill a slots) members).map (spot.fill b) := by
  -- by induction on the members; the slot is full from the first to the last
  induction members generalizing slots with
  | nil => simp [readMembers, Except.map]
  | cons member members ih =>
    obtain ⟨key, item⟩ := member
    rw [readMembers, readMembers]
    cases key with
    | error fault => rfl
    | ok name =>
      simp only [Fault.ok_bind]
      rw [accept?_fill spot name item a b slots]
      cases haccept : accept? mode name item fields (spot.fill a slots) with
      | none =>
        -- a member of no field is passed over on both sides
        cases item.skip with
        | error fault => rfl
        | ok u => exact ih slots
      | some read =>
        cases read with
        | error fault => rfl
        | ok more =>
          -- `more` has the slot still full, so filling it with `a` changes nothing
          show readMembers mode fields (spot.fill b more) members = _
          rw [ih more, ← full_of_accept? haccept]
          rfl

/-- At the end of the object the field has the value that is in the slot. -/
theorem finish_fill (spot : Spot fields f) (a b : f.Value) (slots : Slots fields) :
    finish fields (spot.fill b slots) = (finish fields (spot.fill a slots)).map (spot.put b) := by
  -- every other slot is settled in the same way on both sides
  induction spot with
  | @first f fs =>
    obtain ⟨slot, slots⟩ := slots
    rw [fill, fill, finish, finish, settle, settle]
    cases finish fs slots <;> rfl
  | @later f g fs spot ih =>
    obtain ⟨slot, slots⟩ := slots
    rw [fill, fill, finish, finish, ih a b slots]
    cases settle g slot with
    | error fault => rfl
    | ok c => cases finish fs (spot.fill a slots) <;> rfl

theorem get_of_finish {spot : Spot fields f} {a : f.Value} {slots : Slots fields} {row : Row fields}
    (h : finish fields (spot.fill a slots) = .ok row) : spot.get row = a := by
  induction spot with
  | @first f fs =>
    obtain ⟨slot, slots⟩ := slots
    rw [fill, finish] at h
    obtain ⟨b, hsettle, h⟩ := Fault.bind_eq_ok.1 h
    obtain ⟨rest, -, h⟩ := Fault.bind_eq_ok.1 h
    cases h
    -- a full slot settles to what is in it
    exact (Except.ok.inj hsettle).symm
  | @later f g fs spot ih =>
    obtain ⟨slot, slots⟩ := slots
    rw [fill, finish] at h
    obtain ⟨c, -, h⟩ := Fault.bind_eq_ok.1 h
    obtain ⟨rest, hrest, h⟩ := Fault.bind_eq_ok.1 h
    cases h
    exact ih hrest

/-- A full slot decides its own field, and no other. -/
theorem finish_full {spot : Spot fields f} {a : f.Value} {slots : Slots fields} {row : Row fields}
    (hfull : slots = spot.fill a slots) (h : finish fields slots = .ok row) :
    spot.get row = a ∧ ∀ b, finish fields (spot.fill b slots) = .ok (spot.put b row) := by
  rw [hfull] at h
  refine ⟨get_of_finish h, fun b => ?_⟩
  rw [finish_fill spot a b, h]
  rfl

theorem readMembers_append (slots : Slots fields) (before after : List Raw.Member) :
    readMembers mode fields slots (before ++ after) =
      readMembers mode fields slots before >>= fun slots =>
        readMembers mode fields slots after := by
  -- member by member, and the first fault ends both sides
  induction before generalizing slots with
  | nil => rfl
  | cons member before ih =>
    obtain ⟨key, item⟩ := member
    rw [List.cons_append, readMembers, readMembers]
    cases key with
    | error fault => rfl
    | ok name =>
      simp only [Fault.ok_bind]
      cases accept? mode name item fields slots with
      | none =>
        cases item.skip with
        | error fault => rfl
        | ok u => exact ih slots
      | some read =>
        cases read with
        | error fault => rfl
        | ok more => exact ih more

/-! ### Members and elements -/

/-- A member with the name of the field fills the slot, and `run` goes on with the slots. If a full
slot only matters to itself there, then so does the member. -/
theorem fills_slot (spot : Spot fields f) (hnames : (fields.map Field.name).Nodup)
    {slots : Slots fields} {β : Type} (run : Slots fields → Except Fault β) {put : f.Value → β → β}
    (hfill : ∀ a b slots, run (spot.fill b slots) = (run (spot.fill a slots)).map (put b))
    (read : Raw → Except Fault β)
    (hread : ∀ item step, accept? mode f.name item fields slots = some step →
      read item = step >>= run) {item : Raw} {last : β} (h : read item = .ok last) :
    ∃ a, f.codec.read mode item = .ok a ∧ last = put a last ∧
      ∀ other, read other = (f.codec.read mode other).map fun b => put b last := by
  have hslot : (∃ fault, ∀ item, accept? mode f.name item fields slots = some (.error fault)) ∨
      ∀ item, accept? mode f.name item fields slots =
        some ((f.codec.read mode item).map fun b => spot.fill b slots) :=
    accept?_spot spot hnames slots
  rcases hslot with ⟨fault, hfault⟩ | haccept
  · -- a full slot refuses every member, but this one has been accepted
    rw [hread item _ (hfault item)] at h
    cases h
  · -- the member fills the slot with what is read from it, and `run` goes on
    have hmember : ∀ other, read other =
        f.codec.read mode other >>= fun b => run (spot.fill b slots) := by
      intro other
      rw [hread other _ (haccept other)]
      cases f.codec.read mode other <;> rfl
    rw [hmember] at h
    obtain ⟨a, ha, hrun⟩ := Fault.bind_eq_ok.1 h
    -- what is in the slot changes only its own field
    have hput : ∀ b, run (spot.fill b slots) = .ok (put b last) := by
      intro b
      rw [hfill a b, hrun]
      rfl
    refine ⟨a, ha, Except.ok.inj (hrun.symm.trans (hput a)), fun other => ?_⟩
    rw [hmember]
    cases f.codec.read mode other with
    | error fault => rfl
    | ok b => exact hput b

/-- What the members behind a member are read as does not depend on its value. -/
theorem readMembers_member (spot : Spot fields f) (hnames : (fields.map Field.name).Nodup)
    {slots last : Slots fields} {after : List Raw.Member} {item : Raw}
    (h : readMembers mode fields slots ((.ok f.name, item) :: after) = .ok last) :
    ∃ a, f.codec.read mode item = .ok a ∧ last = spot.fill a last ∧
      ∀ other, readMembers mode fields slots ((.ok f.name, other) :: after) =
        (f.codec.read mode other).map fun b => spot.fill b last := by
  -- one step for the member, then the members behind it
  have hread : ∀ item step, accept? mode f.name item fields slots = some step →
      readMembers mode fields slots ((.ok f.name, item) :: after) =
        step >>= fun slots => readMembers mode fields slots after := by
    intro item step hstep
    rw [readMembers]
    simp only [Fault.ok_bind, hstep]
  exact fills_slot spot hnames _ (fun a b slots => readMembers_fill spot a b slots after) _ hread h

/-- **One member of an object decides one field:** the others have the same values, whatever it
holds. -/
theorem read_member (record : String) {spot : Spot fields f}
    (hnames : (fields.map Field.name).Nodup) {before after : List Raw.Member} {ending : Ending}
    {item : Raw} {row : Row fields}
    (h : Record.read record fields mode
      (.object (before ++ (.ok f.name, item) :: after) ending) = .ok row) :
    f.codec.read mode item = .ok (spot.get row) ∧
      ∀ other, (Record.read record fields mode
        (.object (before ++ (.ok f.name, other) :: after) ending)) =
          (f.codec.read mode other).map fun b => spot.put b row := by
  rw [Record.read, readMembers_append] at h
  -- the object was read: the members before, the member itself, those behind it, the end
  obtain ⟨last, hread, h⟩ := Fault.bind_eq_ok.1 h
  obtain ⟨⟨⟩, hending, hfinish⟩ := Fault.bind_eq_ok.1 h
  obtain ⟨middle, hbefore, hread⟩ := Fault.bind_eq_ok.1 hread
  obtain ⟨a, ha, hfull, hmember⟩ := readMembers_member spot hnames hread
  obtain ⟨rfl, hput⟩ := finish_full hfull hfinish
  refine ⟨ha, fun other => ?_⟩
  -- with another item all is the same up to the member, and behind it too
  rw [Record.read, readMembers_append, hbefore, Fault.ok_bind, hmember, hending]
  cases f.codec.read mode other with
  | error fault => rfl
  | ok b => exact hput b

/-- **One element of an array decides one field:** the others have the same values, whatever it
is. -/
theorem readElements_item {record : String} {size : Nat} {ending : Ending} (spot : Spot fields f)
    {before after : List Raw} (hindex : before.length = spot.index) {item : Raw} {row : Row fields}
    {index : Nat} (h : readElements mode record size ending fields index (before ++ item :: after) =
      .ok row) :
    f.codec.read mode item = .ok (spot.get row) ∧
      ∀ other, readElements mode record size ending fields index (before ++ other :: after) =
        (f.codec.read mode other).map fun b => spot.put b row := by
  -- field and element are both counted from the front, so one goes down with the other
  induction spot generalizing before index with
  | @first f fs =>
    -- the element is the first that is left, and the field the first that is not settled
    obtain rfl := List.length_eq_zero_iff.1 hindex
    rw [List.nil_append, readElements] at h
    obtain ⟨a, ha, h⟩ := Fault.bind_eq_ok.1 h
    obtain ⟨rest, hrest, h⟩ := Fault.bind_eq_ok.1 h
    cases h
    refine ⟨ha, fun other => ?_⟩
    rw [List.nil_append, readElements, hrest]
    cases f.codec.read mode other <;> rfl
  | @later f g fs spot ih =>
    -- an element in front belongs to the field in front
    obtain ⟨first, before, rfl⟩ := List.exists_cons_of_length_eq_add_one hindex
    rw [List.cons_append, readElements] at h
    obtain ⟨c, hc, h⟩ := Fault.bind_eq_ok.1 h
    obtain ⟨rest, hrest, h⟩ := Fault.bind_eq_ok.1 h
    cases h
    obtain ⟨ha, hother⟩ := ih (Nat.succ.inj hindex) hrest
    refine ⟨ha, fun other => ?_⟩
    rw [List.cons_append, readElements, hc, Fault.ok_bind, hother]
    cases f.codec.read mode other <;> rfl

end Record

end Telemetry
