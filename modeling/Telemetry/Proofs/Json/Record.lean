import Telemetry.Json.Record
import Telemetry.Proofs.Json.Relaid

/-!
# Reading records in any order

The reader of a record goes through the members from left to right and fills a slot with each; a
slot that is full stays as it is, and a second member for it is refused. So the order of the members
matters only to what is refused: `Record.step_comm` says that two members can change places whenever
reading them succeeds, and `Record.steps_perm` carries this to every reordering. It is then enough
to read the members in the order of the writer, with what was added behind them
(`Record.steps_kept`, `Record.steps_extras`).

The result is `Record.codec_reads`: a record obeys the law `Codec.Reads` if each of its fields does.
For a field this means `Field.Reads`, where a value that the writer leaves out has to be the one
that the reader takes for a missing member.
-/

namespace Telemetry

/-- The law of a field at a value. -/
def Field.Reads (f : Field) (shape : Shape) (room : Nat) (a : f.Value) : Prop :=
  if f.codec.omits a then f.codec.absent = some a else f.codec.Reads shape room a

/-- The law of the fields at a row, `inside` having the shapes of their values. -/
def Row.Reads (inside : String → Shape) (room : Nat) : (fields : List Field) → Row fields → Prop
  | [], () => True
  | f :: fs, (a, row) => f.Reads (inside f.name) room a ∧ Row.Reads inside room fs row

/-- A field that is always written. -/
theorem Field.Reads.written {name : String} {c : Codec α} {shape : Shape} {room : Nat} {a : α}
    (h : c.Reads shape room a) (homits : c.omits a = false) :
    Field.Reads ⟨name, α, c⟩ shape room a := by
  show if c.omits a then _ else _
  rw [homits]
  exact h

/-- A field that may be left out. -/
theorem Field.Reads.optional {name : String} {c : Codec α} {shape : Shape} {room : Nat}
    {a : Option α} (hnull : ∀ mode b, c.read mode .null ≠ .ok b)
    (h : ∀ b, a = some b → c.Reads shape room b) :
    Field.Reads ⟨name, Option α, .optional c⟩ shape room a := by
  cases a with
  | none => exact rfl
  | some b =>
    have hb := h b rfl
    refine Field.Reads.written
      { self := hb.self, legible := hb.legible, shallow := hb.shallow, read := ?_ } rfl
    intro j hj mode
    have hread := hb.read hj mode
    -- null would be read as an absent thing, but `c` does not read null
    have hsome : (Codec.optional c).read mode (Raw.ofJson j) =
        (c.read mode (Raw.ofJson j)).map some := by
      cases hraw : Raw.ofJson j with
      | null => rw [hraw] at hread; exact absurd hread (hnull mode b)
      | _ => rfl
    rw [hsome, hread]
    rfl

namespace Record

variable {mode : Mode} {name : String}

/-! ### One member -/

/-- The slots after a member. -/
def step (mode : Mode) (fields : List Field) (slots : Slots fields) (member : String × Json) :
    Except Fault (Slots fields) :=
  (accept? mode member.1 (Raw.ofJson member.2) fields slots).getD (.ok slots)

theorem step_cons_of_ne {f : Field} {fs : List Field} {slot : Option f.Value} {slots : Slots fs}
    {member : String × Json} (h : f.name ≠ member.1) :
    step mode (f :: fs) (slot, slots) member =
      (step mode fs slots member).map fun more => (slot, more) := by
  rw [step, step, accept?.eq_def]
  simp only [if_neg h]
  cases accept? mode member.1 (Raw.ofJson member.2) fs slots <;> rfl

theorem step_cons_of_full {f : Field} {fs : List Field} {b : f.Value} {slots : Slots fs}
    {member : String × Json} (h : f.name = member.1) :
    step mode (f :: fs) (some b, slots) member =
      .error (.misfit (.duplicate member.1)) := by
  rw [step, accept?.eq_def]
  simp only [if_pos h]
  rfl

theorem step_cons_of_vacant {f : Field} {fs : List Field} {slots : Slots fs}
    {member : String × Json} (h : f.name = member.1) :
    step mode (f :: fs) (none, slots) member =
      (f.codec.read mode (Raw.ofJson member.2)).map fun a => (some a, slots) := by
  rw [step, accept?.eq_def]
  simp only [if_pos h]
  rfl

/-- What a member does to the slots: it leaves the first slot alone, or fills it. -/
theorem step_cons_eq_ok {f : Field} {fs : List Field} {slot slot' : Option f.Value}
    {slots slots' : Slots fs} {member : String × Json} :
    step mode (f :: fs) (slot, slots) member = .ok (slot', slots') ↔
      (f.name ≠ member.1 ∧ slot' = slot ∧ step mode fs slots member = .ok slots') ∨
      (f.name = member.1 ∧ slot = none ∧ slots' = slots ∧
        ∃ a, f.codec.read mode (Raw.ofJson member.2) = .ok a ∧ slot' = some a) := by
  constructor
  · intro h
    -- the name is that of the first field, or the member is passed on to the others
    by_cases hname : f.name = member.1
    · cases slot with
      | some b => rw [step_cons_of_full hname] at h; cases h
      | none =>
        rw [step_cons_of_vacant hname] at h
        cases hread : f.codec.read mode (Raw.ofJson member.2) with
        | error fault => rw [hread] at h; cases h
        | ok a =>
          rw [hread] at h
          cases h
          exact .inr ⟨hname, rfl, rfl, a, rfl, rfl⟩
    · rw [step_cons_of_ne hname] at h
      cases hstep : step mode fs slots member with
      | error fault => rw [hstep] at h; cases h
      | ok more =>
        rw [hstep] at h
        cases h
        exact .inl ⟨hname, rfl, rfl⟩
  · rintro (⟨hname, rfl, hstep⟩ | ⟨hname, rfl, rfl, a, hread, rfl⟩)
    · rw [step_cons_of_ne hname, hstep]
      rfl
    · rw [step_cons_of_vacant hname, hread]
      rfl

theorem accept?_eq_none {fields : List Field} {slots : Slots fields} {raw : Raw} :
    accept? mode name raw fields slots = none ↔ name ∉ fields.map Field.name := by
  -- the first field of the name takes the member, even if only to refuse it
  induction fields with
  | nil => simp [accept?]
  | cons f fs ih =>
    obtain ⟨slot, slots⟩ := slots
    rw [accept?.eq_def, List.map_cons, List.mem_cons, not_or]
    simp only
    split
    · next h =>
      refine iff_of_false ?_ fun hne => hne.1 h.symm
      cases slot <;> simp
    · next h => rw [Option.map_eq_none_iff, ih, and_iff_right (Ne.symm h)]

/-- A member of another name changes nothing. -/
theorem step_of_not_mem {fields : List Field} {slots : Slots fields} {member : String × Json}
    (h : member.1 ∉ fields.map Field.name) : step mode fields slots member = .ok slots := by
  rw [step, accept?_eq_none.2 h]
  rfl

/-- **Two members can change places** if reading them succeeds. -/
theorem step_comm : ∀ {fields : List Field} {slots middle result : Slots fields}
    {a b : String × Json}, step mode fields slots a = .ok middle →
    step mode fields middle b = .ok result →
    ∃ middle', step mode fields slots b = .ok middle' ∧ step mode fields middle' a = .ok result
  | [], _, _, _, _, _, ha, hb => ⟨_, hb, ha⟩
  | f :: fs, (slot, slots), (slot', slots'), (slot'', slots''), a, b, ha, hb => by
    -- by induction on the fields; for the first of them, each of the two members is its own or not
    rcases step_cons_eq_ok.1 ha with ⟨hna, rfl, ha'⟩ | ⟨hna, rfl, rfl, x, hx, rfl⟩
    · rcases step_cons_eq_ok.1 hb with ⟨hnb, rfl, hb'⟩ | ⟨hnb, rfl, rfl, y, hy, rfl⟩
      · -- neither has the name of the first field
        obtain ⟨more, hb'', ha''⟩ := step_comm ha' hb'
        exact ⟨(_, more), step_cons_eq_ok.2 (.inl ⟨hnb, rfl, hb''⟩),
          step_cons_eq_ok.2 (.inl ⟨hna, rfl, ha''⟩)⟩
      · -- only the second has it
        exact ⟨(_, slots), step_cons_eq_ok.2 (.inr ⟨hnb, rfl, rfl, y, hy, rfl⟩),
          step_cons_eq_ok.2 (.inl ⟨hna, rfl, ha'⟩)⟩
    · rcases step_cons_eq_ok.1 hb with ⟨hnb, rfl, hb'⟩ | ⟨hnb, hfull, -⟩
      · -- only the first has it
        exact ⟨(none, slots''), step_cons_eq_ok.2 (.inl ⟨hnb, rfl, hb'⟩),
          step_cons_eq_ok.2 (.inr ⟨hna, rfl, rfl, x, hx, rfl⟩)⟩
      · -- the slot has just been filled
        exact absurd hfull (by simp)

/-! ### All members -/

/-- The slots after members. -/
def steps (mode : Mode) (fields : List Field) (slots : Slots fields)
    (members : List (String × Json)) : Except Fault (Slots fields) :=
  members.foldlM (step mode fields) slots

theorem readMembers_ofMembers {fields : List Field} {slots : Slots fields}
    {members : List (String × Json)} :
    readMembers mode fields slots (Raw.ofMembers members) = steps mode fields slots members := by
  -- a name of no field is passed over, which never fails for a value that was written
  induction members generalizing slots with
  | nil => rw [Raw.ofMembers, readMembers, steps]; rfl
  | cons member members ih =>
    rw [Raw.ofMembers, readMembers, steps, List.foldlM_cons, step]
    simp only [Except.bind, bind]
    cases accept? mode member.1 (Raw.ofJson member.2) fields slots with
    | none =>
      simp only [Raw.skip_ofJson]
      exact ih
    | some read =>
      cases read with
      | error fault => rfl
      | ok slots => exact ih

theorem steps_append {fields : List Field} {slots : Slots fields}
    {members more : List (String × Json)} :
    steps mode fields slots (members ++ more) =
      (steps mode fields slots members >>= fun slots => steps mode fields slots more) :=
  List.foldlM_append ..

theorem steps_cons {fields : List Field} {slots : Slots fields} {member : String × Json}
    {members : List (String × Json)} :
    steps mode fields slots (member :: members) =
      (step mode fields slots member >>= fun slots => steps mode fields slots members) :=
  List.foldlM_cons

theorem steps_cons_eq_ok {fields : List Field} {slots result : Slots fields}
    {member : String × Json} {members : List (String × Json)} :
    steps mode fields slots (member :: members) = .ok result ↔
      ∃ middle, step mode fields slots member = .ok middle ∧
        steps mode fields middle members = .ok result := by
  rw [steps_cons, Fault.bind_eq_ok]

/-- **The order of the members does not matter** to a reading that succeeds. -/
theorem steps_perm {fields : List Field} {slots result : Slots fields}
    {members members' : List (String × Json)} (hperm : members.Perm members')
    (h : steps mode fields slots members = .ok result) :
    steps mode fields slots members' = .ok result := by
  induction hperm generalizing slots with
  | nil => exact h
  | cons member hperm ih =>
    obtain ⟨middle, hstep, hrest⟩ := steps_cons_eq_ok.1 h
    exact steps_cons_eq_ok.2 ⟨middle, hstep, ih hrest⟩
  | swap a b members =>
    -- two neighbours have changed places
    obtain ⟨middle, hb, hmore⟩ := steps_cons_eq_ok.1 h
    obtain ⟨slots', ha, hrest⟩ := steps_cons_eq_ok.1 hmore
    obtain ⟨middle', ha', hb'⟩ := step_comm hb ha
    exact steps_cons_eq_ok.2 ⟨middle', ha', steps_cons_eq_ok.2 ⟨slots', hb', hrest⟩⟩
  | trans _ _ ih₁ ih₂ => exact ih₂ (ih₁ h)

/-- Members of other names change nothing. -/
theorem steps_extras {fields : List Field} {slots : Slots fields} {extras : List (String × Json)}
    (h : ∀ member ∈ extras, member.1 ∉ fields.map Field.name) :
    steps mode fields slots extras = .ok slots := by
  -- each of them leaves the slots as they are
  induction extras with
  | nil => rfl
  | cons member extras ih =>
    rw [List.forall_mem_cons] at h
    exact steps_cons_eq_ok.2 ⟨slots, step_of_not_mem h.1, ih h.2⟩

/-- Members of other names than the first field do not touch its slot. -/
theorem steps_cons_of_ne {f : Field} {fs : List Field} {slot : Option f.Value} {slots : Slots fs}
    {members : List (String × Json)} (hname : ∀ member ∈ members, f.name ≠ member.1) :
    steps mode (f :: fs) (slot, slots) members =
      (steps mode fs slots members).map fun more => (slot, more) := by
  -- each of them is passed on to the other fields
  induction members generalizing slots with
  | nil => rfl
  | cons member members ih =>
    rw [List.forall_mem_cons] at hname
    rw [steps_cons, step_cons_of_ne hname.1, steps_cons]
    cases step mode fs slots member with
    | error fault => rfl
    | ok middle => exact ih hname.2

theorem steps_of_ne {f : Field} {fs : List Field} {slot : Option f.Value} {slots result : Slots fs}
    {members : List (String × Json)} (hname : ∀ member ∈ members, f.name ≠ member.1)
    (h : steps mode fs slots members = .ok result) :
    steps mode (f :: fs) (slot, slots) members = .ok (slot, result) := by
  rw [steps_cons_of_ne hname, h]
  rfl

/-! ### The members of the writer -/

theorem write_cons_of_omits {f : Field} {fs : List Field} {a : f.Value} {row : Row fs}
    (h : f.codec.omits a = true) : write (f :: fs) (a, row) = write fs row := by
  rw [write, if_pos h]

theorem write_cons {f : Field} {fs : List Field} {a : f.Value} {row : Row fs}
    (h : f.codec.omits a = false) :
    write (f :: fs) (a, row) = (f.name, f.codec.write a) :: write fs row := by
  rw [write, h, if_neg (by simp)]

/-- Members that are laid out anew keep their names. -/
theorem map_fst_relaid {inside : String → Shape} : ∀ {members kept : List (String × Json)},
    Shape.RelaidMembers inside members kept → kept.map Prod.fst = members.map Prod.fst
  | _, _, .nil => rfl
  | _, _, .cons _ hrest => congrArg (_ :: ·) (map_fst_relaid hrest)

theorem write_names {fields : List Field} {row : Row fields} :
    ∀ member ∈ write fields row, member.1 ∈ fields.map Field.name := by
  induction fields with
  | nil => simp [write]
  | cons f fs ih =>
    obtain ⟨a, row⟩ := row
    intro member hmember
    cases homits : f.codec.omits a with
    | true =>
      rw [write_cons_of_omits homits] at hmember
      exact List.mem_cons_of_mem _ (ih member hmember)
    | false =>
      rw [write_cons homits] at hmember
      rcases List.mem_cons.1 hmember with rfl | hmember
      · exact List.mem_cons_self
      · exact List.mem_cons_of_mem _ (ih member hmember)

/-- What is written for a row under a name. -/
def written? (name : String) : (fields : List Field) → Row fields → Option Json
  | [], () => none
  | f :: fs, (a, row) =>
    if f.name = name then if f.codec.omits a then none else some (f.codec.write a)
    else written? name fs row

theorem written?_of_not_mem {fields : List Field} {row : Row fields}
    (h : name ∉ fields.map Field.name) : written? name fields row = none := by
  induction fields with
  | nil => rfl
  | cons f fs ih =>
    rw [List.map_cons, List.mem_cons, not_or] at h
    rw [written?, if_neg (Ne.symm h.1)]
    exact ih h.2

/-- **Under a name stands what is written for the field of that name,** and nothing if it is
omitted. -/
theorem lookup_write {fields : List Field} {row : Row fields}
    (hnames : (fields.map Field.name).Nodup) :
    (write fields row).lookup name = written? name fields row := by
  induction fields with
  | nil => rfl
  | cons f fs ih =>
    obtain ⟨a, row⟩ := row
    rw [List.map_cons, List.nodup_cons] at hnames
    have hrest : (write fs row).lookup name = written? name fs row := ih hnames.2
    rw [written?]
    -- an omitted field has no member, and no other field has its name
    cases homits : f.codec.omits a with
    | true =>
      rw [write_cons_of_omits homits, hrest]
      split
      · next h => exact written?_of_not_mem (h ▸ hnames.1)
      · rfl
    | false =>
      rw [write_cons homits, List.lookup_cons, hrest]
      by_cases h : f.name = name
      · rw [if_pos h, beq_iff_eq.2 h.symm]
        rfl
      · rw [if_neg h, beq_eq_false_iff_ne.2 (Ne.symm h)]

variable {inside : String → Shape} {room : Nat}

/-- What is written for a row, laid out anew, stands under the names of the fields. -/
theorem kept_names {fields : List Field} {row : Row fields} {kept : List (String × Json)}
    (hkept : Shape.RelaidMembers inside (write fields row) kept) :
    ∀ member ∈ kept, member.1 ∈ fields.map Field.name := by
  intro member hmember
  have hname := List.mem_map_of_mem (f := Prod.fst) hmember
  rw [map_fst_relaid hkept] at hname
  obtain ⟨written, hwritten, heq⟩ := List.mem_map.1 hname
  rw [← heq]
  exact write_names written hwritten

/-- What is written for a row, laid out anew, fills the slots with the row. -/
theorem steps_kept (mode : Mode) {fields : List Field} {row : Row fields}
    {kept : List (String × Json)}
    (hnames : (fields.map Field.name).Nodup) (h : Row.Reads inside room fields row)
    (hkept : Shape.RelaidMembers inside (write fields row) kept) :
    ∃ slots, steps mode fields (vacant fields) kept = .ok slots ∧
      finish fields slots = .ok row := by
  -- the slots of the fields behind the first are filled as if it were not there
  induction fields generalizing kept with
  | nil =>
    cases hkept
    exact ⟨(), rfl, rfl⟩
  | cons f fs ih =>
    obtain ⟨a, row⟩ := row
    obtain ⟨ha, hrow⟩ := h
    rw [List.map_cons, List.nodup_cons] at hnames
    -- no other field has the name of the first one, so its members pass the first slot by
    have hother : ∀ {kept}, Shape.RelaidMembers inside (write fs row) kept →
        ∀ member ∈ kept, f.name ≠ member.1 := by
      intro kept hkept member hmember heq
      have hname := kept_names hkept member hmember
      rw [← heq] at hname
      exact hnames.1 hname
    cases homits : f.codec.omits a with
    -- the first field is left out, and its slot stays empty for `absent` to fill
    | true =>
      rw [write_cons_of_omits homits] at hkept
      rw [Field.Reads, homits, if_pos rfl] at ha
      obtain ⟨slots, hsteps, hfinish⟩ := ih hnames.2 hrow hkept
      refine ⟨(none, slots), steps_of_ne (hother hkept) hsteps, ?_⟩
      rw [finish, settle, ha]
      simp only [hfinish]
      rfl
    -- the first field has the first of the members, and its slot is filled by it
    | false =>
      rw [write_cons homits] at hkept
      rw [Field.Reads, homits, if_neg (by simp)] at ha
      cases hkept with
      | @cons _ _ _ j _ rest hj hrest =>
      obtain ⟨slots, hsteps, hfinish⟩ := ih hnames.2 hrow hrest
      refine ⟨(some a, slots), ?_, ?_⟩
      · have hstep : step mode (f :: fs) (vacant (f :: fs)) (f.name, j) =
            .ok (some a, vacant fs) :=
          step_cons_eq_ok.2 (.inr ⟨rfl, rfl, rfl, a, ha.read hj mode, rfl⟩)
        exact steps_cons_eq_ok.2 ⟨_, hstep, steps_of_ne (hother hrest) hsteps⟩
      · rw [finish, settle]
        simp only [hfinish]
        rfl

/-- What is written for a row is legible and not nested too deep, however it is laid out. -/
theorem legible_kept {fields : List Field} {row : Row fields} {kept : List (String × Json)}
    (h : Row.Reads inside room fields row)
    (hkept : Shape.RelaidMembers inside (write fields row) kept) :
    ∀ member ∈ kept, member.2.Legible ∧ member.2.depth ≤ room := by
  -- field by field, as the members are written
  induction fields generalizing kept with
  | nil => cases hkept; simp
  | cons f fs ih =>
    obtain ⟨a, row⟩ := row
    obtain ⟨ha, hrow⟩ := h
    cases homits : f.codec.omits a with
    | true =>
      rw [write_cons_of_omits homits] at hkept
      exact ih hrow hkept
    | false =>
      rw [write_cons homits] at hkept
      rw [Field.Reads, homits, if_neg (by simp)] at ha
      cases hkept with
      | cons hj hrest =>
        exact List.forall_mem_cons.2 ⟨⟨ha.legible hj, ha.shallow hj⟩, ih hrow hrest⟩

/-- What is written for a row is one of its layouts. -/
theorem self_kept {fields : List Field} {row : Row fields} (h : Row.Reads inside room fields row) :
    Shape.RelaidMembers inside (write fields row) (write fields row) := by
  induction fields with
  | nil => exact .nil
  | cons f fs ih =>
    obtain ⟨a, row⟩ := row
    obtain ⟨ha, hrow⟩ := h
    cases homits : f.codec.omits a with
    | true =>
      rw [write_cons_of_omits homits]
      exact ih hrow
    | false =>
      rw [write_cons homits]
      rw [Field.Reads, homits, if_neg (by simp)] at ha
      exact .cons ha.self (ih hrow)

/-- **A record is read in any order of its members,** and with members of other names, if each of
its fields is read in any layout. -/
theorem codec_reads (room : Nat) {name : String} {fields : List Field} {row : Row fields}
    (hnames : (fields.map Field.name).Nodup) (h : Row.Reads inside room fields row)
    (hroom : Json.greatestAdded ≤ room) :
    (Record.codec name fields).Reads (.record (fields.map Field.name) inside) (room + 1) row := by
  refine .ofObject (.ofMembers (self_kept h)) fun {j} hj => ?_
  -- a layout of a record keeps its members, adds others and puts all in some order
  cases hj with
  | @record _ _ _ kept extras members hkept hextras hperm =>
  refine ⟨members, rfl, ?_, ?_⟩
  · intro member hmember
    rcases List.mem_append.1 (hperm.mem_iff.2 hmember) with hmember | hmember
    · exact legible_kept h hkept member hmember
    · have hadded := (hextras member hmember).2
      exact ⟨hadded.legible, Nat.le_trans hadded.shallow hroom⟩
  · intro mode
    obtain ⟨slots, hsteps, hfinish⟩ := steps_kept mode hnames h hkept
    -- in the writer's order, and with the added members last, the row fills the slots
    have hread : steps mode fields (vacant fields) members = .ok slots := by
      refine steps_perm hperm ?_
      rw [steps_append, hsteps]
      exact steps_extras fun member hmember => (hextras member hmember).1
    show Record.read name fields mode (.object (Raw.ofMembers members) .closed) = .ok row
    rw [Record.read, readMembers_ofMembers, hread]
    exact hfinish

end Record

end Telemetry
