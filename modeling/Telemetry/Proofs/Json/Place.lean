import Telemetry.Proofs.Json.Gap
import Telemetry.Proofs.Json.Spot

/-!
# Places where integers stand

A `Place` of a thing is where an integer stands in its JSON value: the path to it, the type of the
integer, and the thing with another integer of the type in its place.

`Place.Exact` is the law of a reader at a place. Given a tree that is read with some number at the
place, every other number can be put there instead. With an integer of the type the tree is read as
the thing with this integer. With anything else it is refused: with an integer that the type does
not hold, with a double, and with a number beyond all doubles. The law is closed under what codecs
are made of, and `Place.Exact.ofText` carries it to texts: an integer of any size is read exactly,
or refused if the type does not hold it.
-/

namespace Telemetry

/-- The integer of the type that a number is. -/
def Width.value? (w : Width) : Except Fault Number → Option w.Carrier
  | .ok (.int n) => if w.holds n then some (w.ofInt n) else none
  | _ => none

theorem Width.value?_eq_some_iff {w : Width} {x : Except Fault Number} {v : w.Carrier} :
    w.value? x = some v ↔ x = .ok (.int (w.toInt v)) := by
  constructor
  · intro h
    -- only an integer that the type holds has a value
    unfold value? at h
    split at h
    · next n =>
      split at h
      · next hholds =>
        obtain rfl := Option.some.inj h
        rw [toInt_ofInt hholds]
      · cases h
    · cases h
  · rintro rfl
    rw [value?, if_pos (holds_toInt v), ofInt_toInt]

/-- An integer is one of the type if it is not less than the least of them and not greater than the
greatest. -/
theorem Width.exists_toInt_iff {w : Width} {n : Int} :
    (∃ v : w.Carrier, w.toInt v = n) ↔ w.least ≤ n ∧ n ≤ w.greatest := by
  rw [← holds_iff]
  constructor
  · rintro ⟨v, rfl⟩
    exact holds_toInt v
  · exact fun h => ⟨w.ofInt n, toInt_ofInt h⟩

/-- A place of a thing where an integer stands. -/
structure Place (α : Type) where
  /-- Where the integer stands in the JSON value of the thing. -/
  path : List Step
  width : Width
  /-- The thing with the integer in this place. -/
  put : width.Carrier → α

namespace Place

/-- The place, in another thing that is made of the thing. -/
def within (f : α → β) (p : Place α) : Place β :=
  ⟨p.path, p.width, fun v => f (p.put v)⟩

/-- The place, in another thing that holds the thing one step down. -/
def under (step : Step) (f : α → β) (p : Place α) : Place β :=
  ⟨step :: p.path, p.width, fun v => f (p.put v)⟩

/-- The places, in another thing that holds the thing one step down. -/
def inside (step : Step) (f : α → β) (ps : List (Place α)) : List (Place β) :=
  ps.map (.under step f)

/-- The place that is all of an integer. -/
def whole (w : Width) : Place w.Carrier :=
  ⟨[], w, id⟩

/-- The places of a thing that may be there. -/
def optional (places : α → List (Place α)) (o : Option α) : List (Place (Option α)) :=
  o.toList.flatMap fun a => (places a).map (.within some)

/-- The places of the items of a sequence. -/
def items (places : α → List (Place α)) (as : List α) : List (Place (List α)) :=
  as.zipIdx.flatMap fun (a, i) => inside ⟨"", i⟩ (fun b => as.set i b) (places a)

/-- **Integers at the place are read exactly or refused.** If a tree is read as `a` with some number
at the place, then with every integer of the type it is read as the thing with this integer, and
with anything else it is refused. -/
structure Exact (p : Place α) (read : Mode → Raw → Except Fault α) (a : α) : Prop where
  fill {around : Raw.Around} {mode : Mode} {m : Except Fault Number} (hat : around.At p.path)
    (hread : read mode (around.fill m) = .ok a) (x : Except Fault Number) :
    (read mode (around.fill x)).toOption = (p.width.value? x).map p.put

/-- All of the places are exact. -/
def AllExact (ps : List (Place α)) (read : Mode → Raw → Except Fault α) (a : α) : Prop :=
  ∀ p ∈ ps, p.Exact read a

/-- What is read at the place is passed on by what is read around it. -/
theorem Exact.passedOn {p : Place α} {path : List Step} {f : α → β}
    {read : Mode → Raw → Except Fault β} {b : β}
    (h : ∀ {around : Raw.Around} {mode : Mode} {m : Except Fault Number}, around.At path →
      read mode (around.fill m) = .ok b →
      ∃ inner : Except Fault Number → Except Fault α,
        (∀ x, (inner x).toOption = (p.width.value? x).map p.put) ∧
          ∀ x, read mode (around.fill x) = (inner x).map f) :
    Exact ⟨path, p.width, fun v => f (p.put v)⟩ read b where
  fill hat hread x := by
    obtain ⟨inner, hinner, hpass⟩ := h hat hread
    rw [hpass, Fault.toOption_map, hinner, Option.map_map]
    rfl

/-! ### Codecs -/

theorem Exact.integer {w : Width} {v : w.Carrier} :
    (whole w).Exact (Codec.integer w w.ofInt w.toInt).read v where
  fill hat _ x := by
    -- the path is empty, so the tree is the number itself
    cases hat
    show ((Codec.readInteger w (.number x)).map w.ofInt).toOption = (w.value? x).map id
    rw [Option.map_id_apply]
    cases x with
    | error fault => rfl
    | ok number =>
      cases number with
      | real y => rfl
      | int n =>
        rw [Codec.readInteger, Width.value?]
        split <;> rfl

theorem Exact.byte {b : UInt8} : (whole .u8).Exact Codec.byte.read b :=
  .integer

theorem Exact.unsigned64 {n : UInt64} : (whole .u64).Exact Codec.unsigned64.read n :=
  .integer

theorem Exact.signed32 {n : Int32} : (whole .i32).Exact Codec.signed32.read n :=
  .integer

theorem Exact.signed64 {n : Int64} : (whole .i64).Exact Codec.signed64.read n :=
  .integer

/-- A number is no null, and nothing with a number in it is. -/
theorem Exact.optional {c : Codec α} {p : Place α} {a : α} {o : Option α} (ha : o = some a)
    (h : p.Exact c.read a) : (p.within some).Exact (Codec.optional c).read o := by
  subst ha
  refine .passedOn fun {around mode m} hat hread => ?_
  have hsome : ∀ x, (Codec.optional c).read mode (around.fill x) =
      (c.read mode (around.fill x)).map some := by
    intro x
    cases around <;> rfl -- a number, an array or an object
  rw [hsome] at hread
  obtain ⟨_, ha, heq⟩ := Fault.map_eq_ok.1 hread
  cases heq
  exact ⟨_, h.fill hat ha, hsome⟩

/-- One item of an array decides one item of the sequence. -/
theorem readItems_item {c : Codec α} {mode : Mode} {before after : List Raw} {item : Raw}
    {as : List α} (h : Codec.readItems c mode (before ++ item :: after) = .ok as) :
    (∃ a, c.read mode item = .ok a ∧ as[before.length]? = some a) ∧
      ∀ other, Codec.readItems c mode (before ++ other :: after) =
        (c.read mode other).map fun b => as.set before.length b := by
  -- by induction on the items in front; these are read the same whatever the item is
  induction before generalizing as with
  | nil =>
    rw [List.nil_append, Codec.readItems] at h
    obtain ⟨a, ha, h⟩ := Fault.bind_eq_ok.1 h
    obtain ⟨rest, hrest, h⟩ := Fault.bind_eq_ok.1 h
    cases h
    refine ⟨⟨a, ha, rfl⟩, fun other => ?_⟩
    rw [List.nil_append, Codec.readItems, hrest]
    cases c.read mode other <;> rfl
  | cons first before ih =>
    rw [List.cons_append, Codec.readItems] at h
    obtain ⟨a, ha, h⟩ := Fault.bind_eq_ok.1 h
    obtain ⟨rest, hrest, h⟩ := Fault.bind_eq_ok.1 h
    cases h
    obtain ⟨hitem, hother⟩ := ih hrest
    refine ⟨hitem, fun other => ?_⟩
    rw [List.cons_append, Codec.readItems, ha, Fault.ok_bind, hother]
    cases c.read mode other <;> rfl

theorem Exact.sequence {c : Codec α} {p : Place α} {name : String} {i : Nat} {a : α} {as : List α}
    (ha : as[i]? = some a) (h : p.Exact c.read a) :
    (p.under ⟨name, i⟩ fun b => as.set i b).Exact (Codec.sequence c).read as := by
  refine .passedOn fun {around mode m} hat hread => ?_
  cases hat with
  -- an object is no sequence
  | member hinner => cases hread
  | @item _ _ inner before after ending hinner hindex =>
    -- the array was read with some number in it: all items were read, and it was closed
    obtain ⟨bs, hitems, hread⟩ := Fault.bind_eq_ok.1 hread
    obtain ⟨u, hending, hread⟩ := Fault.bind_eq_ok.1 hread
    cases hread
    obtain ⟨⟨b, hb, hget⟩, hother⟩ := readItems_item hitems
    obtain rfl : before.length = i := hindex
    obtain rfl := Option.some.inj (ha.symm.trans hget)
    refine ⟨_, h.fill hinner hb, fun x => ?_⟩
    show (Codec.readItems c mode (before ++ inner.fill x :: after) >>= fun as =>
      ending.used >>= fun _ => pure as) = _
    rw [hother, hending]
    cases c.read mode (inner.fill x) <;> rfl

/-- The codec reads things as records, of which each row is one thing. -/
structure Describes (fields : List Field) (toRow : α → Row fields) (ofRow : Row fields → α)
    (c : Codec α) : Prop where
  nodup_names : (fields.map Field.name).Nodup
  toRow_ofRow (row : Row fields) : toRow (ofRow row) = row
  read_eq : ∃ name, ∀ mode raw, c.read mode raw = (Record.read name fields mode raw).map ofRow

theorem Exact.field {fields : List Field} {toRow : α → Row fields} {ofRow : Row fields → α}
    {c : Codec α} {a : α} (hc : Describes fields toRow ofRow c) {f : Field} (spot : Spot fields f)
    {p : Place f.Value} (h : p.Exact f.codec.read (spot.get (toRow a))) :
    (p.under ⟨f.name, spot.index⟩ fun b => ofRow (spot.put b (toRow a))).Exact c.read a := by
  obtain ⟨name, hrecord⟩ := hc.read_eq
  refine .passedOn (p := p) (f := fun b => ofRow (spot.put b (toRow a)))
    fun {around mode m} hat hread => ?_
  rw [hrecord] at hread
  obtain ⟨row, hrow, rfl⟩ := Fault.map_eq_ok.1 hread
  rw [hc.toRow_ofRow] at h ⊢
  -- a record may be written as an array, by position, or as an object, by name
  cases hat with
  | @item _ _ inner before after ending hinner hindex =>
    obtain ⟨hitem, hother⟩ := Record.readElements_item spot hindex hrow
    refine ⟨_, h.fill hinner hitem, fun x => ?_⟩
    rw [← Fault.map_map, ← hother, hrecord]
    rfl
  | @member _ _ inner before after ending hinner =>
    obtain ⟨hitem, hother⟩ := Record.read_member name hc.nodup_names hrow
    refine ⟨_, h.fill hinner hitem, fun x => ?_⟩
    rw [← Fault.map_map, ← hother, hrecord]
    rfl

/-! ### Many places -/

theorem AllExact.whole {w : Width} {read : Mode → Raw → Except Fault w.Carrier} {v : w.Carrier}
    (h : (Place.whole w).Exact read v) : AllExact [Place.whole w] read v :=
  List.forall_mem_singleton.2 h

theorem AllExact.append {read : Mode → Raw → Except Fault α} {a : α} {ps qs : List (Place α)}
    (hp : AllExact ps read a) (hq : AllExact qs read a) : AllExact (ps ++ qs) read a :=
  List.forall_mem_append.2 ⟨hp, hq⟩

theorem AllExact.optional {c : Codec α} {places : α → List (Place α)}
    (h : ∀ a, AllExact (places a) c.read a) (o : Option α) :
    AllExact (Place.optional places o) (Codec.optional c).read o := by
  intro q hq
  obtain ⟨a, ha, hq⟩ := List.mem_flatMap.1 hq
  obtain ⟨p, hp, rfl⟩ := List.mem_map.1 hq
  exact (h a p hp).optional (Option.mem_toList.1 ha)

theorem AllExact.sequence {c : Codec α} {places : α → List (Place α)}
    (h : ∀ a, AllExact (places a) c.read a) (as : List α) :
    AllExact (items places as) (Codec.sequence c).read as := by
  intro q hq
  obtain ⟨⟨a, i⟩, ha, hq⟩ := List.mem_flatMap.1 hq
  obtain ⟨p, hp, rfl⟩ := List.mem_map.1 hq
  exact (h a p hp).sequence (List.mem_zipIdx_iff_getElem?.1 ha)

theorem AllExact.field {fields : List Field} {toRow : α → Row fields} {ofRow : Row fields → α}
    {c : Codec α} {a : α} (hc : Describes fields toRow ofRow c) {f : Field} (spot : Spot fields f)
    {ps : List (Place f.Value)} (h : AllExact ps f.codec.read (spot.get (toRow a))) :
    AllExact (inside ⟨f.name, spot.index⟩ (fun b => ofRow (spot.put b (toRow a))) ps) c.read a :=
  List.forall_mem_map.2 fun p hp => (h p hp).field hc spot

end Place

/-! ### What is put aside -/

namespace Raw

theorem bufferItems_append (room : Nat) (before after : List Raw) :
    bufferItems room (before ++ after) =
      bufferItems room before >>= fun _ => bufferItems room after := by
  -- one item after the other, and the first fault ends it
  induction before with
  | nil => rfl
  | cons item before ih =>
    rw [List.cons_append, bufferItems, bufferItems, ih]
    cases item.buffer room <;> rfl

theorem bufferMembers_append (room : Nat) (before after : List Member) :
    bufferMembers room (before ++ after) =
      bufferMembers room before >>= fun _ => bufferMembers room after := by
  -- as for items, but the name of a member is looked at before its value
  induction before with
  | nil => rfl
  | cons member before ih =>
    obtain ⟨key, item⟩ := member
    rw [List.cons_append, bufferMembers, bufferMembers, ih]
    cases key with
    | error fault => rfl
    | ok name =>
      simp only [Fault.ok_bind]
      cases item.buffer room <;> rfl

/-- **What can be put aside with some number in it, can be put aside with every number** that is not
beyond all doubles. -/
theorem buffer_fill {around : Around} {m : Except Fault Number} {room : Nat}
    (h : (around.fill m).buffer room = .ok ()) (x : Except Fault Number) :
    (around.fill x).buffer room = x.map fun _ => () := by
  -- by induction on the tree around the number, with one level less for each step down; all that is
  -- not the number was put aside before and is put aside again
  induction around generalizing room with
  | here => rfl
  | item before inner after ending ih =>
    rw [Around.fill, buffer] at h ⊢
    split at h
    · cases h
    · next hroom =>
      -- the items before, the one with the number and those behind it, and the end
      obtain ⟨⟨⟩, hitems, hending⟩ := Fault.bind_eq_ok.1 h
      rw [bufferItems_append] at hitems
      obtain ⟨⟨⟩, hbefore, hitems⟩ := Fault.bind_eq_ok.1 hitems
      obtain ⟨⟨⟩, hinner, hafter⟩ := Fault.bind_eq_ok.1 hitems
      rw [if_neg hroom, bufferItems_append, hbefore, Fault.ok_bind, bufferItems, ih hinner]
      cases x with
      | error fault => rfl -- nothing behind the number is looked at
      | ok n => exact Fault.bind_eq_ok.2 ⟨(), hafter, hending⟩
  | member before key inner after ending ih =>
    rw [Around.fill, buffer] at h ⊢
    split at h
    · cases h
    · next hroom =>
      -- the same with the name of the member in front of the number
      obtain ⟨⟨⟩, hmembers, hending⟩ := Fault.bind_eq_ok.1 h
      rw [bufferMembers_append] at hmembers
      obtain ⟨⟨⟩, hbefore, hmembers⟩ := Fault.bind_eq_ok.1 hmembers
      obtain ⟨name, hkey, hmembers⟩ := Fault.bind_eq_ok.1 hmembers
      obtain ⟨⟨⟩, hinner, hafter⟩ := Fault.bind_eq_ok.1 hmembers
      rw [if_neg hroom, bufferMembers_append, hbefore, Fault.ok_bind, bufferMembers, hkey,
        Fault.ok_bind, ih hinner]
      cases x with
      | error fault => rfl
      | ok n => exact Fault.bind_eq_ok.2 ⟨(), hafter, hending⟩

end Raw

/-- A number that is checked for a meaning first, is still read as it is. -/
theorem Place.toOption_checked {w : Width} {x : Except Fault Number} {result : Except Fault α}
    {put : w.Carrier → α} (h : result.toOption = (w.value? x).map put) :
    (x.map (fun _ => ()) >>= fun _ => result).toOption = (w.value? x).map put := by
  cases x with
  | error fault => rfl
  | ok n => exact h

/-! ### Texts -/

/-- **The answer to an integer at the place:** it is accepted if it is not less than the least
integer of the type and not greater than the greatest. Then it is in the place, with all else as it
was. -/
structure Place.Answers (p : Place α) (n : Int) (result : Except ε α) : Prop where
  accepted_iff : (∃ b, result = .ok b) ↔ p.width.least ≤ n ∧ n ≤ p.width.greatest
  exact_of_ok {b : α} (h : result = .ok b) : ∃ v, p.width.toInt v = n ∧ b = p.put v

/-- The answer is the same under other names of faults. -/
theorem Place.Answers.mapError {p : Place α} {n : Int} {result : Except ε α}
    (h : p.Answers n result) (f : ε → δ) : p.Answers n (result.mapError f) := by
  have hok : ∀ b, result.mapError f = .ok b ↔ result = .ok b := by
    intro b
    cases result with
    | error fault => exact ⟨nofun, nofun⟩
    | ok a => exact ⟨fun h => congrArg _ (Except.ok.inj h), fun h => congrArg _ (Except.ok.inj h)⟩
  constructor
  · simp only [hok]
    exact h.accepted_iff
  · exact fun hb => h.exact_of_ok ((hok _).1 hb)

theorem Codec.ofText_eq_ok {c : Codec α} {text : List UInt8} {raw : Raw} {rest : List Token} {a : α}
    (h : Raw.ofTokens (Token.ofText text) = (raw, rest)) :
    c.ofText text = .ok a ↔ c.read .direct raw = .ok a ∧ rest.isEmpty = true := by
  rw [ofText, h]
  constructor
  · intro hread
    obtain ⟨b, hb, hend⟩ := Fault.bind_eq_ok.1 hread
    split at hend
    · next hempty =>
      cases hend
      exact ⟨hb, hempty⟩
    · cases hend
  · rintro ⟨hread, hempty⟩
    exact Fault.bind_eq_ok.2 ⟨a, hread, if_pos hempty⟩

/-- **An integer in the gap of a text is read exactly or refused.** -/
theorem Place.Exact.ofText {c : Codec α} {p : Place α} {a : α} (h : p.Exact c.read a) {t : Gapped}
    (hleads : t.Leads p.path) {m : Int} (ha : c.ofText (t.text m) = .ok a) (n : Int) :
    p.Answers n (c.ofText (t.text n)) := by
  obtain ⟨around, rest, hat, htree⟩ := hleads.exists_around
  -- both texts give the same tree and the same rest, but for the number
  obtain ⟨y, hy, -⟩ := htree m
  obtain ⟨x, hx, hnumber⟩ := htree n
  obtain ⟨hread, hempty⟩ := (Codec.ofText_eq_ok hy).1 ha
  -- the number in the tree is an integer of the type if `n` is
  have hvalue : ∀ v, p.width.value? x = some v ↔ p.width.toInt v = n := by
    intro v
    rw [Width.value?_eq_some_iff, hnumber, and_iff_left_of_imp]
    rintro rfl
    exact Width.bounds_of_holds (Width.holds_toInt v)
  -- what is read from the text is what has `n` in the place, and nothing else
  have hok : ∀ b, c.ofText (t.text n) = .ok b ↔ ∃ v, p.width.toInt v = n ∧ p.put v = b := by
    intro b
    rw [Codec.ofText_eq_ok hx, and_iff_left hempty, ← toOption_eq_some, h.fill hat hread,
      Option.map_eq_some_iff]
    simp only [hvalue]
  refine ⟨?_, fun hb => ?_⟩
  · -- accepted if and only if the type holds the integer
    rw [← Width.exists_toInt_iff]
    constructor
    · rintro ⟨b, hb⟩
      obtain ⟨v, hv, -⟩ := (hok b).1 hb
      exact ⟨v, hv⟩
    · rintro ⟨v, hv⟩
      exact ⟨_, (hok _).2 ⟨v, hv, rfl⟩⟩
  · obtain ⟨v, hv, rfl⟩ := (hok _).1 hb
    exact ⟨v, hv, rfl⟩

end Telemetry
