import Telemetry.Proofs.Json.Layout

/-!
# Values that say the same

A reader of a record does not mind in which order the members come, nor what else stands among
them. A `Shape` says where in a value there is such freedom: nowhere (`fixed`), in the order of the
members of an object (`map`), or in the order of the members and in what is added under other names
(`record`, which knows its own names and the shapes of what stands under them).
`Shape.Relaid shape j j'` says that `j'` is `j` laid out anew within this freedom, at every level at
once: first the values under the names are laid out, then members of other names are added, and
then all members are put in any order.

What is added is passed over by some readers and put aside by others, and the second are the
stricter: the value has to be legible and must not be nested too deep. `Json.Addable` has room for
a hundred levels.

`Codec.Reads c shape room a` is the law of a codec at a thing: whatever is written for `a`, laid out
anew, is read as `a`, in either mode. Records preserve it (`Record.codec_reads`, in the module on
records); this module has it for numbers, texts, sequences and variants.
-/

namespace Telemetry

namespace Fault

@[simp] theorem ok_bind (a : α) (f : α → Except Fault β) : (Except.ok a >>= f) = f a := rfl

/-- A computation of two steps succeeds if both steps do. -/
theorem bind_eq_ok {x : Except Fault α} {f : α → Except Fault β} {b : β} :
    (x >>= f) = .ok b ↔ ∃ a, x = .ok a ∧ f a = .ok b := by
  constructor
  · intro h
    -- a fault in the first step ends the computation
    cases x with
    | error fault => cases h
    | ok a => exact ⟨a, rfl, h⟩
  · rintro ⟨a, rfl, h⟩
    exact h

theorem map_eq_ok {x : Except Fault α} {f : α → β} {b : β} :
    x.map f = .ok b ↔ ∃ a, x = .ok a ∧ f a = b := by
  cases x with
  | error fault => exact ⟨nofun, nofun⟩
  | ok a =>
    constructor
    · intro h
      exact ⟨a, rfl, Except.ok.inj h⟩
    · rintro ⟨_, ⟨⟩, rfl⟩
      rfl

theorem map_map (x : Except Fault α) (f : α → β) (g : β → γ) :
    (x.map f).map g = x.map fun a => g (f a) := by
  cases x <;> rfl

theorem toOption_map {x : Except Fault α} {f : α → β} : (x.map f).toOption = x.toOption.map f := by
  cases x <;> rfl

end Fault

/-- The reading has failed. -/
def Refused (result : Except ε α) : Prop :=
  ∃ fault, result = .error fault

theorem refused_of_ne_ok {result : Except ε α} (h : ∀ a, result ≠ .ok a) : Refused result := by
  cases result with
  | error fault => exact ⟨fault, rfl⟩
  | ok a => exact absurd rfl (h a)

theorem eq_ok_of_toOption {result : Except ε α} {a : α} (h : result.toOption = some a) :
    result = .ok a := by
  cases result with
  | error fault => cases h
  | ok b => exact congrArg Except.ok (Option.some.inj h)

theorem toOption_eq_some {result : Except ε α} {a : α} :
    result.toOption = some a ↔ result = .ok a :=
  ⟨eq_ok_of_toOption, fun h => h ▸ rfl⟩

theorem refused_of_toOption {result : Except ε α} (h : result.toOption = none) :
    Refused result := by
  cases result with
  | error fault => exact ⟨fault, rfl⟩
  | ok a => cases h

theorem Refused.map {result : Except ε α} (h : Refused result) (f : α → β) :
    Refused (result.map f) := by
  obtain ⟨fault, rfl⟩ := h
  exact ⟨fault, rfl⟩

theorem Refused.mapError {result : Except ε α} (h : Refused result) (f : ε → δ) :
    Refused (result.mapError f) := by
  obtain ⟨fault, rfl⟩ := h
  exact ⟨f fault, rfl⟩

/-! ### Depth -/

namespace Json

mutual

/-- How deep arrays and objects are nested in a value. -/
def depth : Json → Nat
  | .null | .bool _ | .number _ | .text _ => 0
  | .array items => itemsDepth items + 1
  | .object members => membersDepth members + 1

/-- The depth of the deepest item. -/
def itemsDepth : List Json → Nat
  | [] => 0
  | item :: rest => max (depth item) (itemsDepth rest)

/-- The depth of the deepest member. -/
def membersDepth : List (String × Json) → Nat
  | [] => 0
  | (_, item) :: rest => max (depth item) (membersDepth rest)

end

theorem itemsDepth_le {items : List Json} {d : Nat} :
    itemsDepth items ≤ d ↔ ∀ item ∈ items, item.depth ≤ d := by
  -- the depth of the deepest is bounded if that of each is
  induction items with
  | nil => simp [itemsDepth]
  | cons item items ih => rw [itemsDepth, Nat.max_le, List.forall_mem_cons, ih]

theorem membersDepth_le {members : List (String × Json)} {d : Nat} :
    membersDepth members ≤ d ↔ ∀ member ∈ members, member.2.depth ≤ d := by
  induction members with
  | nil => simp [membersDepth]
  | cons member members ih => rw [membersDepth, Nat.max_le, List.forall_mem_cons, ih]

theorem depth_array_le {items : List Json} {d : Nat} :
    (array items).depth ≤ d + 1 ↔ ∀ item ∈ items, item.depth ≤ d := by
  rw [depth, Nat.add_le_add_iff_right, itemsDepth_le]

theorem depth_object_le {members : List (String × Json)} {d : Nat} :
    (object members).depth ≤ d + 1 ↔ ∀ member ∈ members, member.2.depth ≤ d := by
  rw [depth, Nat.add_le_add_iff_right, membersDepth_le]

end Json

/-! ### Values that are passed over or put aside -/

namespace Raw

mutual

/-- A value can be passed over. -/
theorem skip_ofJson : ∀ j : Json, skip (ofJson j) = .ok ()
  | .null | .bool _ | .text _ => by rw [ofJson, skip]
  | .number n => by
    rw [ofJson]
    cases n with
    | int n => rfl
    | real x =>
      -- a double without a numeral is null in the text
      rw [ofNumber]
      split <;> rfl
  | .array items => by
    rw [ofJson, skip, skipItems_ofItems items]
    rfl
  | .object members => by
    rw [ofJson, skip, skipMembers_ofMembers members]
    rfl

theorem skipItems_ofItems : ∀ items : List Json, skipItems (ofItems items) = .ok ()
  | [] => by rw [ofItems, skipItems]
  | item :: items => by
    rw [ofItems, skipItems, skip_ofJson item]
    exact skipItems_ofItems items

theorem skipMembers_ofMembers :
    ∀ members : List (String × Json), skipMembers (ofMembers members) = .ok ()
  | [] => by rw [ofMembers, skipMembers]
  | (key, item) :: members => by
    rw [ofMembers, skipMembers, skip_ofJson item]
    exact skipMembers_ofMembers members

end

mutual

/-- A value that is not nested too deep can be put aside. -/
theorem buffer_ofJson : ∀ (j : Json) {room : Nat}, j.depth ≤ room →
    buffer room (ofJson j) = .ok ()
  | .null, _, _ | .bool _, _, _ | .text _, _, _ => by
    rw [ofJson, buffer]
    try rfl
  | .number n, _, _ => by
    rw [ofJson]
    cases n with
    | int n => rw [ofNumber, buffer]; rfl
    | real x =>
      -- as in `skip_ofJson`: the double, or null in its place
      rw [ofNumber]
      split
      · rw [buffer]; rfl
      · rw [buffer]
  | .array items, room, h => by
    rw [Json.depth] at h
    -- an array is a level deeper than its items, so there is room for it if `room` covers its depth
    rw [ofJson, buffer, if_neg (by omega), bufferItems_ofItems items (by omega)]
    rfl
  | .object members, room, h => by
    rw [Json.depth] at h
    rw [ofJson, buffer, if_neg (by omega), bufferMembers_ofMembers members (by omega)]
    rfl

theorem bufferItems_ofItems : ∀ (items : List Json) {room : Nat}, Json.itemsDepth items ≤ room →
    bufferItems room (ofItems items) = .ok ()
  | [], _, _ => by rw [ofItems, bufferItems]
  | item :: items, room, h => by
    -- the depth of the items bounds the first and the others
    rw [Json.itemsDepth, Nat.max_le] at h
    rw [ofItems, bufferItems, buffer_ofJson item h.1]
    exact bufferItems_ofItems items h.2

theorem bufferMembers_ofMembers : ∀ (members : List (String × Json)) {room : Nat},
    Json.membersDepth members ≤ room → bufferMembers room (ofMembers members) = .ok ()
  | [], _, _ => by rw [ofMembers, bufferMembers]
  | (key, item) :: members, room, h => by
    rw [Json.membersDepth, Nat.max_le] at h
    rw [ofMembers, bufferMembers, buffer_ofJson item h.1]
    exact bufferMembers_ofMembers members h.2

end

end Raw

/-! ### Laying out anew -/

namespace Json

/-- How deep a value that is added may be nested. -/
def greatestAdded : Nat := 100

/-- The value may be added to a record. Null, booleans, texts and integers of 64 bits may, and
arrays and objects of these that are not nested too deep. -/
structure Addable (j : Json) : Prop where
  legible : j.Legible
  shallow : j.depth ≤ greatestAdded

end Json

/-- Where the layout of a value is free. -/
inductive Shape where
  /-- Nowhere. -/
  | fixed
  /-- The members may come in any order. -/
  | map
  /-- The members may come in any order, and among members of other names. -/
  | record (names : List String) (inside : String → Shape)

mutual

/-- The second value is the first one, laid out anew. -/
inductive Shape.Relaid : Shape → Json → Json → Prop where
  | fixed (j : Json) : Relaid .fixed j j
  | map {members members' : List (String × Json)} (h : members.Perm members') :
      Relaid .map (.object members) (.object members')
  | record {names : List String} {inside : String → Shape}
      {members kept extras members' : List (String × Json)}
      (hkept : RelaidMembers inside members kept)
      (hextras : ∀ member ∈ extras, member.1 ∉ names ∧ member.2.Addable)
      (hperm : (kept ++ extras).Perm members') :
      Relaid (.record names inside) (.object members) (.object members')

/-- The members are the same, with their values laid out anew. -/
inductive Shape.RelaidMembers : (String → Shape) → List (String × Json) →
    List (String × Json) → Prop where
  | nil {inside : String → Shape} : RelaidMembers inside [] []
  | cons {inside : String → Shape} {name : String} {j j' : Json}
      {rest rest' : List (String × Json)} (h : Relaid (inside name) j j')
      (hrest : RelaidMembers inside rest rest') :
      RelaidMembers inside ((name, j) :: rest) ((name, j') :: rest')

end

/-- A record may be laid out with no member of another name. -/
theorem Shape.Relaid.ofMembers {names : List String} {inside : String → Shape}
    {members kept : List (String × Json)} (h : RelaidMembers inside members kept) :
    Relaid (.record names inside) (.object members) (.object kept) := by
  -- nothing is added, and the order is kept
  have hnone : ∀ member ∈ ([] : List (String × Json)), member.1 ∉ names ∧ member.2.Addable := by
    simp
  refine .record h hnone ?_
  rw [List.append_nil]

/-- **The law of a codec at a thing:** what is written for it, laid out anew, is read as the
thing. -/
structure Codec.Reads (c : Codec α) (shape : Shape) (room : Nat) (a : α) : Prop where
  self : shape.Relaid (c.write a) (c.write a)
  legible {j : Json} (h : shape.Relaid (c.write a) j) : j.Legible
  shallow {j : Json} (h : shape.Relaid (c.write a) j) : j.depth ≤ room
  read {j : Json} (h : shape.Relaid (c.write a) j) (mode : Mode) :
    c.read mode (Raw.ofJson j) = .ok a

/-- The law of a codec that writes objects, by what it makes of their members. -/
theorem Codec.Reads.ofObject {c : Codec α} {shape : Shape} {room : Nat} {a : α}
    (self : shape.Relaid (c.write a) (c.write a))
    (h : ∀ {j}, shape.Relaid (c.write a) j → ∃ members, j = .object members ∧
      (∀ member ∈ members, member.2.Legible ∧ member.2.depth ≤ room) ∧
      ∀ mode, c.read mode (.object (Raw.ofMembers members) .closed) = .ok a) :
    c.Reads shape (room + 1) a where
  self := self
  legible hj := by
    obtain ⟨members, rfl, hmembers, -⟩ := h hj
    exact Json.legible_object.2 fun member hmember => (hmembers member hmember).1
  shallow hj := by
    obtain ⟨members, rfl, hmembers, -⟩ := h hj
    exact Json.depth_object_le.2 fun member hmember => (hmembers member hmember).2
  -- all three laws look at a layout through its members alone
  read hj mode := by
    obtain ⟨members, rfl, -, hread⟩ := h hj
    rw [Raw.ofJson]
    exact hread mode

/-! ### The integers of a type -/

namespace Width

/-- The integers of the type. -/
@[reducible] def Carrier : Width → Type
  | .u8 => UInt8
  | .u64 => UInt64
  | .i32 => Int32
  | .i64 => Int64

def ofInt : (w : Width) → Int → w.Carrier
  | .u8 => UInt8.ofInt
  | .u64 => UInt64.ofInt
  | .i32 => Int32.ofInt
  | .i64 => Int64.ofInt

def toInt : (w : Width) → w.Carrier → Int
  | .u8 => fun b => b.toNat
  | .u64 => fun n => n.toNat
  | .i32 => Int32.toInt
  | .i64 => Int64.toInt

theorem holds_iff {w : Width} {n : Int} : w.holds n = true ↔ w.least ≤ n ∧ n ≤ w.greatest := by
  simp [holds]

theorem holds_toInt {w : Width} (a : w.Carrier) : w.holds (w.toInt a) = true := by
  rw [holds_iff]
  -- the signed types have the bounds in the library, for the others they are those of `toNat`
  cases w with
  | u8 =>
    have ha := UInt8.toNat_lt a
    simp only [least, greatest, toInt]
    omega
  | u64 =>
    have ha := UInt64.toNat_lt a
    simp only [least, greatest, toInt]
    omega
  | i32 => exact ⟨Int32.le_toInt a, Int.le_of_lt_add_one (Int32.toInt_lt a)⟩
  | i64 => exact ⟨Int64.le_toInt a, Int.le_of_lt_add_one (Int64.toInt_lt a)⟩

theorem ofInt_toInt {w : Width} (a : w.Carrier) : w.ofInt (w.toInt a) = a := by
  cases w with
  | u8 =>
    have ha := UInt8.toNat_lt a
    -- an integer of the type is its own remainder
    have hmod : ((UInt8.toNat a : Int) % (2 ^ 8)).toNat = UInt8.toNat a := by omega
    show UInt8.ofNat ((UInt8.toNat a : Int) % (2 ^ 8)).toNat = a
    rw [hmod]
    exact UInt8.ofNat_toNat
  | u64 =>
    have ha := UInt64.toNat_lt a
    have hmod : ((UInt64.toNat a : Int) % (2 ^ 64)).toNat = UInt64.toNat a := by omega
    show UInt64.ofNat ((UInt64.toNat a : Int) % (2 ^ 64)).toNat = a
    rw [hmod]
    exact UInt64.ofNat_toNat
  | i32 => exact Int32.ofInt_toInt a
  | i64 => exact Int64.ofInt_toInt a

/-- An integer that the type holds is one of its integers. -/
theorem toInt_ofInt {w : Width} {n : Int} (h : w.holds n = true) : w.toInt (w.ofInt n) = n := by
  obtain ⟨hlow, hhigh⟩ := holds_iff.1 h
  cases w with
  | u8 =>
    simp only [least, greatest] at hlow hhigh
    -- between the bounds no remainder is taken
    show ((UInt8.ofNat (n % (2 ^ 8)).toNat).toNat : Int) = n
    rw [UInt8.toNat_ofNat']
    omega
  | u64 =>
    simp only [least, greatest] at hlow hhigh
    show ((UInt64.ofNat (n % (2 ^ 64)).toNat).toNat : Int) = n
    rw [UInt64.toNat_ofNat']
    omega
  | i32 => exact Int32.toInt_ofInt_of_le hlow (Int.lt_of_le_of_lt hhigh (by decide))
  | i64 => exact Int64.toInt_ofInt_of_le hlow (Int.lt_of_le_of_lt hhigh (by decide))

/-- An integer of the type has 64 bits. -/
theorem bounds_of_holds {w : Width} {n : Int} (h : w.holds n = true) :
    -(Numeral.greatestBelowZero : Int) ≤ n ∧ n < (Numeral.words : Int) := by
  obtain ⟨hlow, hhigh⟩ := holds_iff.1 h
  simp only [Numeral.greatestBelowZero, Numeral.words]
  cases w <;> simp only [least, greatest] at hlow hhigh <;> omega

end Width

/-! ### Codecs of values without freedom -/

namespace Codec

theorem Reads.fixed {c : Codec α} {room : Nat} {a : α} (hlegible : (c.write a).Legible)
    (hshallow : (c.write a).depth ≤ room)
    (hread : ∀ mode, c.read mode (Raw.ofJson (c.write a)) = .ok a) : c.Reads .fixed room a where
  -- the only layout of such a value is the value itself
  self := .fixed _
  legible h := by cases h; exact hlegible
  shallow h := by cases h; exact hshallow
  read h := by cases h; exact hread

/-- Things under another description. -/
theorem Reads.map {c : Codec α} {shape : Shape} {room : Nat} {forth : α → β} {back : β → α} {b : β}
    (h : c.Reads shape room (back b)) (hb : forth (back b) = b) :
    (c.map forth back).Reads shape room b where
  self := h.self
  legible := h.legible
  shallow := h.shallow
  read hj mode := by
    show (c.read mode _).map forth = .ok b
    rw [h.read hj mode]
    exact congrArg Except.ok hb

/-- Integers of a type. -/
theorem integer_reads {w : Width} (a : w.Carrier) (room : Nat) :
    (integer w w.ofInt w.toInt).Reads .fixed room a := by
  -- every integer of a type fits the 64 bits of the reader of numerals
  have hlegible : (Number.int (w.toInt a)).Legible := Width.bounds_of_holds (Width.holds_toInt a)
  refine .fixed (Json.legible_number _ hlegible) (Nat.zero_le _) ?_
  intro mode
  show (readInteger w (Raw.ofJson (.number (.int (w.toInt a))))).map w.ofInt = .ok a
  rw [Raw.ofJson, Raw.ofNumber, readInteger, if_pos (Width.holds_toInt a)]
  exact congrArg Except.ok (Width.ofInt_toInt a)

theorem byte_reads (b : UInt8) (room : Nat) : byte.Reads .fixed room b :=
  integer_reads (w := .u8) b room

theorem unsigned64_reads (n : UInt64) (room : Nat) : unsigned64.Reads .fixed room n :=
  integer_reads (w := .u64) n room

theorem signed32_reads (n : Int32) (room : Nat) : signed32.Reads .fixed room n :=
  integer_reads (w := .i32) n room

theorem signed64_reads (n : Int64) (room : Nat) : signed64.Reads .fixed room n :=
  integer_reads (w := .i64) n room

theorem real_reads {room : Nat} {x : Float} (h : Number.Stable x) : real.Reads .fixed room x := by
  refine .fixed (Json.legible_number _ h) (Nat.zero_le _) ?_
  intro mode
  show readReal (Raw.ofJson (.number (.real x))) = .ok x
  rw [Raw.ofJson, Raw.ofNumber, if_pos (by rw [Decimal.isSome_binary?]; exact h.finite), readReal]

theorem text_reads (s : String) (room : Nat) : text.Reads .fixed room s := by
  refine .fixed (Json.legible_text s) (Nat.zero_le _) ?_
  intro mode
  show readText (Raw.ofJson (.text s)) = .ok s
  rw [Raw.ofJson, readText]

theorem readItems_map {c : Codec α} {room : Nat} {as : List α}
    (h : ∀ a ∈ as, c.Reads .fixed room a) (mode : Mode) :
    readItems c mode (Raw.ofItems (as.map c.write)) = .ok as := by
  -- item by item; a sequence has no freedom of its own, so each is read as it was written
  induction as with
  | nil => rw [List.map_nil, Raw.ofItems, readItems]
  | cons a as ih =>
    rw [List.forall_mem_cons] at h
    rw [List.map_cons, Raw.ofItems, readItems, h.1.read h.1.self mode, ih h.2]
    rfl

theorem sequence_reads {c : Codec α} (room : Nat) {as : List α}
    (h : ∀ a ∈ as, c.Reads .fixed room a) : (sequence c).Reads .fixed (room + 1) as := by
  refine .fixed ?_ ?_ ?_
  · -- a sequence is legible if its items are
    refine Json.legible_array.2 ?_
    intro j hj
    obtain ⟨a, ha, rfl⟩ := List.mem_map.1 hj
    exact (h a ha).legible (h a ha).self
  · -- it is one level deeper than its items
    refine Json.depth_array_le.2 ?_
    intro j hj
    obtain ⟨a, ha, rfl⟩ := List.mem_map.1 hj
    exact (h a ha).shallow (h a ha).self
  · intro mode
    show (sequence c).read mode (Raw.ofJson (.array (as.map c.write))) = .ok as
    rw [Raw.ofJson]
    show (readItems c mode (Raw.ofItems (as.map c.write)) >>= fun as => _) = _
    -- all items are read, and the end of the array is closed
    rw [readItems_map h mode]
    rfl

/-- A string is taken for the name of a variant in either mode. -/
theorem read_variant_text {known : List α} {name : α → String} (mode : Mode)
    (s : Except Fault String) :
    (variant known name).read mode (.text s) = s >>= ofName known name := by
  -- what is held has checked the text before, which makes no difference here
  cases mode with
  | direct => rfl
  | held => cases s <;> rfl

/-- Things that are written as their names. -/
theorem variant_reads {known : List α} {name : α → String} {room : Nat} {a : α}
    (h : known.find? (fun b => name b == name a) = some a) :
    (variant known name).Reads .fixed room a := by
  refine .fixed (Json.legible_text (name a)) (Nat.zero_le _) ?_
  intro mode
  -- the name finds the thing again, by hypothesis
  have hname : ofName known name (name a) = .ok a := by rw [ofName, h]
  show (variant known name).read mode (Raw.ofJson (.text (name a))) = .ok a
  rw [Raw.ofJson, read_variant_text]
  exact hname

end Codec

end Telemetry
