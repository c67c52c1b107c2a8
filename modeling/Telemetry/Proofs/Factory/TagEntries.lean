import Mathlib.Data.List.Forall2
import Mathlib.Data.List.TakeWhile
import Mathlib.Data.List.ReduceOption
import Telemetry.Factory.Config
import Telemetry.Proofs.Envelope.Tags

/-!
# Tags as they are written

A tags text consists of pieces between commas, and a piece spells a pair or nothing (`Spells`).
There may be blank characters on either side of the key and of the value, and pieces of blank
characters alone anywhere; what is spelled has neither (`Writable`). `Written` puts the pieces
together.

The reader trims a piece before it looks for the first equals sign, and then trims what stands on
either side of it. Since an equals sign is not blank, the first trimming makes no difference to the
other two (`Config.readEntry_trim`). So reading a piece and spelling one are two views of the same
relation (`Config.readEntry_eq_ok_iff`), and `Config.readEntries_eq_ok_iff` carries this to all
pieces by induction. The pairs are then put together into tags, where the last one with a key
counts.
-/

namespace Telemetry.Config

/-! ### Pieces -/

/-- The text is cut into the pieces at every separator. -/
structure Cut (separator : Char) (ps : List (List Char)) (text : List Char) : Prop where
  ne_nil : ps ≠ []
  apart : ∀ piece ∈ ps, separator ∉ piece
  joined : text = [separator].intercalate ps

theorem pieces_eq_splitOn (separator : Char) (text : List Char) :
    pieces separator text = text.splitOn separator := by
  induction text with
  | nil => rfl
  | cons c rest ih =>
    rw [pieces, List.splitOn_cons_eq_if_modifyHead, ih]
    by_cases h : c = separator
    · rw [if_pos h, if_pos (beq_iff_eq.mpr h)]
    · rw [if_neg h, if_neg (by simpa using h)]
      -- the character joins the first piece of the rest, and there is always one
      cases hsplit : rest.splitOn separator with
      | nil => exact absurd hsplit (List.splitOn_ne_nil separator rest)
      | cons piece more => rfl

theorem not_mem_of_mem_pieces {separator : Char} {text piece : List Char}
    (h : piece ∈ pieces separator text) : separator ∉ piece := by
  induction text generalizing piece with
  | nil =>
    obtain rfl := List.mem_singleton.mp h
    exact List.not_mem_nil
  | cons c rest ih =>
    rw [pieces] at h
    -- a separator begins a new piece and belongs to none; another character joins the first piece
    by_cases hc : c = separator
    · rw [if_pos hc] at h
      rcases List.mem_cons.mp h with rfl | h
      · exact List.not_mem_nil
      · exact ih h
    · rw [if_neg hc] at h
      cases hrest : pieces separator rest with
      | nil =>
        rw [hrest] at h
        obtain rfl := List.mem_singleton.mp h
        exact List.not_mem_cons_of_ne_of_not_mem (Ne.symm hc) List.not_mem_nil
      | cons first more =>
        rw [hrest] at h ih
        rcases List.mem_cons.mp h with rfl | h
        · exact List.not_mem_cons_of_ne_of_not_mem (Ne.symm hc) (ih List.mem_cons_self)
        · exact ih (List.mem_cons_of_mem _ h)

/-- **The pieces of a text** are the ones into which it is cut. -/
theorem pieces_eq_iff {separator : Char} {ps : List (List Char)} {text : List Char} :
    pieces separator text = ps ↔ Cut separator ps text := by
  constructor
  · rintro rfl
    refine ⟨?_, fun piece => not_mem_of_mem_pieces, ?_⟩
    · rw [pieces_eq_splitOn]
      exact List.splitOn_ne_nil separator text
    · rw [pieces_eq_splitOn, List.intercalate_splitOn]
  · rintro ⟨hne, hapart, rfl⟩
    -- pieces without separators are found again between them
    rw [pieces_eq_splitOn, List.splitOn_intercalate separator hapart hne]

/-! ### One piece -/

/-- A pair that can be written among tags. The key ends at the first equals sign, so it must hold
none; the value may. -/
structure Writable (pair : String × String) : Prop where
  key_ne_nil : pair.1.toList ≠ []
  key_tight : Text.Tight pair.1.toList
  key_equals : '=' ∉ pair.1.toList
  key_comma : ',' ∉ pair.1.toList
  value_tight : Text.Tight pair.2.toList
  value_comma : ',' ∉ pair.2.toList

theorem writable_iff {pair : String × String} :
    Writable pair ↔ (pair.1.toList ≠ [] ∧ Text.Tight pair.1.toList ∧ '=' ∉ pair.1.toList ∧
      ',' ∉ pair.1.toList) ∧ Text.Tight pair.2.toList ∧ ',' ∉ pair.2.toList :=
  ⟨fun h => ⟨⟨h.key_ne_nil, h.key_tight, h.key_equals, h.key_comma⟩, h.value_tight,
      h.value_comma⟩,
    fun ⟨⟨hne, htight, hequals, hcomma⟩, hvalue, hcomma'⟩ =>
      ⟨hne, htight, hequals, hcomma, hvalue, hcomma'⟩⟩

instance (pair : String × String) : Decidable (Writable pair) :=
  decidable_of_iff _ writable_iff.symm

/-- What a piece spells: nothing if it is blank, and otherwise a pair, with blank characters around
its key and its value. -/
inductive Spells : Option (String × String) → List Char → Prop where
  | nothing {piece : List Char} (h : piece.all Text.isBlank = true) : Spells none piece
  | entry (key value : String) {a b c d : List Char} (ha : a.all Text.isBlank = true)
      (hb : b.all Text.isBlank = true) (hc : c.all Text.isBlank = true)
      (hd : d.all Text.isBlank = true) :
      Spells (some (key, value))
        ((a ++ (key.toList ++ b)) ++ '=' :: (c ++ (value.toList ++ d)))

/-- There may be no blank characters at all. -/
theorem Spells.bare (key value : String) :
    Spells (some (key, value)) (key.toList ++ '=' :: value.toList) := by
  have h := Spells.entry key value (a := []) (b := []) (c := []) (d := []) rfl rfl rfl rfl
  rwa [List.nil_append, List.append_nil, List.nil_append, List.append_nil] at h

theorem isBlank_equals : Text.isBlank '=' = false := by decide

theorem not_mem_of_blank {cs : List Char} (h : cs.all Text.isBlank = true) : '=' ∉ cs := by
  intro hmem
  have hblank := List.all_eq_true.mp h '=' hmem
  rw [isBlank_equals] at hblank
  cases hblank

theorem readEntry_of_not_mem {entry : List Char} (h : '=' ∉ entry) :
    readEntry entry = .error (.tagWithoutEquals (String.ofList entry)) := by
  have hnone : entry.dropWhile (· ≠ '=') = [] := by
    refine List.dropWhile_eq_nil_iff.mpr fun c hc => ?_
    exact decide_eq_true fun heq => h (heq ▸ hc)
  rw [readEntry, hnone]

/-- **Trimming an entry first makes no difference** to what stands on either side of its first
equals sign. -/
theorem readEntry_trim {left right : List Char} (h : '=' ∉ left) :
    readEntry (Text.trim (left ++ '=' :: right)) =
      if Text.trim left = [] then
        .error (.tagWithEmptyKey (String.ofList (Text.trim (left ++ '=' :: right))))
      else .ok (String.ofList (Text.trim left), String.ofList (Text.trim right)) := by
  -- the search for the equals sign passes over all that is left in front of it
  have hbefore : ∀ c ∈ Text.trimStart left, decide (c ≠ '=') = true := fun c hc =>
    decide_eq_true fun heq => h (heq ▸ List.dropWhile_subset _ hc)
  have hbehind : ∀ cs : List Char, ('=' :: cs).dropWhile (· ≠ '=') = '=' :: cs := fun cs =>
    List.dropWhile_cons_of_neg (by decide)
  have hkey : ∀ cs : List Char, ('=' :: cs).takeWhile (· ≠ '=') = [] := fun cs =>
    List.takeWhile_cons_of_neg (by decide)
  rw [Text.trim_append_cons isBlank_equals, readEntry, List.dropWhile_append_of_pos hbefore,
    hbehind, List.takeWhile_append_of_pos hbefore, hkey, List.append_nil]
  simp only [Text.trim_trimStart, Text.trim_trimEnd, List.isEmpty_iff]

theorem trim_padded {before cs after : List Char} (hbefore : before.all Text.isBlank = true)
    (hafter : after.all Text.isBlank = true) (h : Text.Tight cs) :
    Text.trim (before ++ (cs ++ after)) = cs :=
  Text.trim_append hbefore hafter h.head h.last

/-- **A piece is read as a pair** exactly if it spells the pair and the pair can be written. -/
theorem readEntry_eq_ok_iff {piece : List Char} (hcomma : ',' ∉ piece)
    {pair : String × String} :
    readEntry (Text.trim piece) = .ok pair ↔ Spells (some pair) piece ∧ Writable pair := by
  constructor
  · intro h
    by_cases hmem : '=' ∈ piece
    · obtain ⟨left, right, rfl, hleft⟩ := List.eq_append_cons_of_mem hmem
      rw [readEntry_trim hleft] at h
      by_cases hnil : Text.trim left = []
      · rw [if_pos hnil] at h
        cases h
      · rw [if_neg hnil] at h
        cases h
        -- the key and the value are what is left of the two sides without their blank ends
        obtain ⟨a, b, ha, hb, hleftEq, hkey⟩ := Text.exists_padding left
        obtain ⟨c, d, hc, hd, hrightEq, hvalue⟩ := Text.exists_padding right
        refine ⟨?_, ?_⟩
        · have hspells := Spells.entry (String.ofList (Text.trim left))
            (String.ofList (Text.trim right)) ha hb hc hd
          rwa [String.toList_ofList, String.toList_ofList, ← hleftEq, ← hrightEq] at hspells
        · -- what is left of a side is part of it, so it holds no comma, and no equals sign on the
          -- left
          rw [List.mem_append, List.mem_cons, not_or, not_or] at hcomma
          constructor <;> simp only [String.toList_ofList]
          · exact hnil
          · exact hkey
          · exact fun hc => hleft (Text.mem_of_mem_trim hc)
          · exact fun hc => hcomma.1 (Text.mem_of_mem_trim hc)
          · exact hvalue
          · exact fun hc => hcomma.2.2 (Text.mem_of_mem_trim hc)
    · -- without an equals sign nothing is read
      rw [readEntry_of_not_mem fun hc => hmem (Text.mem_of_mem_trim hc)] at h
      cases h
  · rintro ⟨hspells, hwritable⟩
    cases hspells with
    | @entry key value a b c d ha hb hc hd =>
      -- the key holds no equals sign, so the first one is the entry's own
      have hleft : '=' ∉ a ++ (key.toList ++ b) := by
        rw [List.mem_append, List.mem_append, not_or, not_or]
        exact ⟨not_mem_of_blank ha, hwritable.key_equals, not_mem_of_blank hb⟩
      have hkey : Text.trim (a ++ (key.toList ++ b)) = key.toList :=
        trim_padded ha hb hwritable.key_tight
      have hvalue : Text.trim (c ++ (value.toList ++ d)) = value.toList :=
        trim_padded hc hd hwritable.value_tight
      rw [readEntry_trim hleft, hkey, hvalue, if_neg hwritable.key_ne_nil, String.ofList_toList,
        String.ofList_toList]

theorem trim_ne_nil_of_spells {pair : String × String} {piece : List Char}
    (h : Spells (some pair) piece) : Text.trim piece ≠ [] := by
  cases h with
  | entry key value ha hb hc hd =>
    rw [Text.trim_append_cons isBlank_equals]
    exact List.append_ne_nil_of_right_ne_nil _ (List.cons_ne_nil _ _)

/-! ### All pieces -/

/-- The entries of pieces: trimmed, and without the empty ones. -/
def entriesOf (ps : List (List Char)) : List (List Char) :=
  (ps.map Text.trim).filter fun entry => !entry.isEmpty

theorem entriesOf_cons_of_blank {piece : List Char} (h : Text.trim piece = [])
    (ps : List (List Char)) : entriesOf (piece :: ps) = entriesOf ps := by
  rw [entriesOf, List.map_cons, List.filter_cons_of_neg (by rw [h]; decide), entriesOf]

theorem entriesOf_cons {piece : List Char} (h : Text.trim piece ≠ []) (ps : List (List Char)) :
    entriesOf (piece :: ps) = Text.trim piece :: entriesOf ps := by
  rw [entriesOf, List.map_cons, List.filter_cons_of_pos (by simpa using h), entriesOf]

theorem entries_of_cut {ps : List (List Char)} {text : List Char} (h : Cut ',' ps text) :
    entries text = entriesOf ps := by
  rw [entries, pieces_eq_iff.mpr h, entriesOf]

theorem readEntries_cons (entry : List Char) (rest : List (List Char)) :
    readEntries (entry :: rest) =
      (readEntry entry).bind fun pair => (readEntries rest).map fun more => pair :: more := by
  rw [readEntries]
  cases readEntry entry with
  | error fault => rfl
  | ok pair => cases readEntries rest <;> rfl

theorem readEntries_cons_eq_ok {entry : List Char} {rest : List (List Char)}
    {pairs : List (String × String)} :
    readEntries (entry :: rest) = .ok pairs ↔
      ∃ pair more, readEntry entry = .ok pair ∧ readEntries rest = .ok more ∧
        pairs = pair :: more := by
  rw [readEntries_cons]
  constructor
  · intro h
    -- both must be read well, the entry and the rest
    cases hentry : readEntry entry with
    | error fault => rw [hentry] at h; cases h
    | ok pair =>
      rw [hentry] at h
      cases hrest : readEntries rest with
      | error fault => rw [hrest] at h; cases h
      | ok more =>
        rw [hrest] at h
        cases h
        exact ⟨pair, more, rfl, rfl, rfl⟩
  · rintro ⟨pair, more, hentry, hrest, rfl⟩
    rw [hentry, hrest]
    rfl

/-- **The pairs that are read** are the ones that the pieces spell, in their order. -/
theorem readEntries_eq_ok_iff {ps : List (List Char)} (hcomma : ∀ piece ∈ ps, ',' ∉ piece)
    {pairs : List (String × String)} :
    readEntries (entriesOf ps) = .ok pairs ↔
      ∃ slots, List.Forall₂ Spells slots ps ∧ slots.reduceOption = pairs ∧
        ∀ pair ∈ pairs, Writable pair := by
  -- Piece by piece: a blank one spells nothing and is no entry, any other one spells the next pair.
  induction ps generalizing pairs with
  | nil =>
    constructor
    · intro h
      cases h
      exact ⟨[], .nil, rfl, by simp⟩
    · rintro ⟨slots, hslots, rfl, -⟩
      cases hslots
      rfl
  | cons piece ps ih =>
    rw [List.forall_mem_cons] at hcomma
    by_cases hblank : Text.trim piece = []
    · rw [entriesOf_cons_of_blank hblank, ih hcomma.2]
      constructor
      · rintro ⟨slots, hslots, hpairs⟩
        exact ⟨none :: slots, .cons (.nothing (Text.trim_eq_nil_iff.mp hblank)) hslots, hpairs⟩
      · rintro ⟨slots, hslots, hpairs⟩
        cases hslots with
        | @cons slot _ rest _ hslot hslots =>
          cases slot with
          | none => exact ⟨rest, hslots, hpairs⟩
          | some pair => exact absurd hblank (trim_ne_nil_of_spells hslot)
    · rw [entriesOf_cons hblank, readEntries_cons_eq_ok]
      constructor
      · rintro ⟨pair, more, hentry, hrest, rfl⟩
        obtain ⟨hslot, hpair⟩ := (readEntry_eq_ok_iff hcomma.1).mp hentry
        obtain ⟨slots, hslots, rfl, hmore⟩ := (ih hcomma.2).mp hrest
        exact ⟨some pair :: slots, .cons hslot hslots, List.reduceOption_cons_of_some _ _,
          List.forall_mem_cons.mpr ⟨hpair, hmore⟩⟩
      · rintro ⟨slots, hslots, rfl, hpairs⟩
        cases hslots with
        | @cons slot _ rest _ hslot hslots =>
          cases slot with
          | none => -- a blank piece is no entry
            cases hslot with
            | nothing h => exact absurd (Text.trim_eq_nil_iff.mpr h) hblank
          | some pair =>
            rw [List.reduceOption_cons_of_some, List.forall_mem_cons] at hpairs
            exact ⟨pair, rest.reduceOption, (readEntry_eq_ok_iff hcomma.1).mpr ⟨hslot, hpairs.1⟩,
              (ih hcomma.2).mpr ⟨rest, hslots, rfl, hpairs.2⟩,
              List.reduceOption_cons_of_some _ _⟩

/-! ### Texts -/

/-- The text writes the pairs in their order: pieces between commas, of which each spells the next
pair or nothing. -/
def Written (pairs : List (String × String)) (text : String) : Prop :=
  ∃ slots ps, List.Forall₂ Spells slots ps ∧ slots.reduceOption = pairs ∧
    text.toList = [','].intercalate ps

theorem comma_not_mem_of_spells {slot : Option (String × String)} {piece : List Char}
    (h : Spells slot piece) (hslot : ∀ pair ∈ slot, Writable pair) : ',' ∉ piece := by
  have hblank : ∀ {cs : List Char}, cs.all Text.isBlank = true → ',' ∉ cs := by
    intro cs hcs hmem
    have h := List.all_eq_true.mp hcs ',' hmem
    revert h
    decide
  cases h with
  | nothing h => exact hblank h
  | entry key value ha hb hc hd =>
    have hpair := hslot _ rfl -- the pair itself can be written, so it holds no comma
    simp only [List.mem_append, List.mem_cons, not_or]
    exact ⟨⟨hblank ha, hpair.key_comma, hblank hb⟩, by decide, hblank hc, hpair.value_comma,
      hblank hd⟩

/-- Pieces that spell pairs which can be written are the pieces of the text. -/
theorem cut_of_spells {slots : List (Option (String × String))} {ps : List (List Char)}
    (h : List.Forall₂ Spells slots ps) (hslots : ∀ pair ∈ slots.reduceOption, Writable pair)
    (hne : ps ≠ []) : Cut ',' ps ([','].intercalate ps) := by
  refine ⟨hne, fun piece hpiece => ?_, rfl⟩
  -- the piece at a place spells what is in the slot at this place
  obtain ⟨n, hn, rfl⟩ := List.getElem_of_mem hpiece
  have hslot : n < slots.length := by rw [h.length_eq]; exact hn
  refine comma_not_mem_of_spells (h.get hslot hn) fun pair hpair => hslots pair ?_
  rw [List.reduceOption_mem_iff]
  have hmem : slots.get ⟨n, hslot⟩ ∈ slots := List.get_mem slots _
  rwa [Option.mem_def.mp hpair] at hmem

/-- **The pairs of a text** are those that it writes. -/
theorem readEntries_text_iff {text : String} {pairs : List (String × String)} :
    readEntries (entries text.toList) = .ok pairs ↔
      Written pairs text ∧ ∀ pair ∈ pairs, Writable pair := by
  constructor
  · intro h
    -- a text has its own pieces, and each spells what was read of it
    have hcut := pieces_eq_iff.mp (Eq.refl (pieces ',' text.toList))
    rw [entries_of_cut hcut, readEntries_eq_ok_iff hcut.apart] at h
    obtain ⟨slots, hslots, hpairs, hwritable⟩ := h
    exact ⟨⟨slots, _, hslots, hpairs, hcut.joined⟩, hwritable⟩
  · rintro ⟨⟨slots, ps, hslots, rfl, htext⟩, hwritable⟩
    by_cases hne : ps = []
    · -- no piece at all is as good as an empty one
      subst hne
      cases hslots
      rw [htext]
      rfl
    · have hcut := cut_of_spells hslots hwritable hne
      rw [← htext] at hcut
      rw [entries_of_cut hcut, readEntries_eq_ok_iff hcut.apart]
      exact ⟨slots, hslots, rfl, hwritable⟩

/-- **Tags are read** from a text exactly if it writes pairs that can be written, of which they are
the tags. -/
theorem readTags_eq_ok_iff {text : String} {tags : Tags} :
    readTags text = .ok tags ↔
      ∃ pairs, (Written pairs text ∧ ∀ pair ∈ pairs, Writable pair) ∧ Tags.ofList pairs = tags := by
  rw [readTags]
  constructor
  · intro h
    cases hread : readEntries (entries text.toList) with
    | error fault => rw [hread] at h; cases h
    | ok pairs =>
      rw [hread] at h
      exact ⟨pairs, readEntries_text_iff.mp hread, Except.ok.inj h⟩
  · rintro ⟨pairs, hpairs, rfl⟩
    rw [readEntries_text_iff.mpr hpairs]
    rfl

/-- The text of tags: each pair as key, equals sign and value, with commas between. -/
def renderTags (tags : Tags) : String :=
  String.ofList ([','].intercalate (tags.toList.map fun (key, value) =>
    key.toList ++ '=' :: value.toList))

theorem written_renderTags (tags : Tags) : Written tags.toList (renderTags tags) := by
  -- every piece spells a pair, and none is blank
  have hpairs : (tags.toList.map some).reduceOption = tags.toList := by
    rw [List.reduceOption, List.filterMap_map]
    exact List.filterMap_some
  refine ⟨tags.toList.map some, _, ?_, hpairs, String.toList_ofList⟩
  refine List.forall₂_map_left_iff.mpr (List.forall₂_map_right_iff.mpr ?_)
  exact List.forall₂_same.mpr fun (key, value) _ => .bare key value

/-- **A text of tags and the tags that it writes.** The keys and values that are read are trimmed,
no key is empty or holds an equals sign, and neither holds a comma. Tags of such keys and values are
read from every text that writes them, in whatever order and with whatever white space and blank
entries; so they are read back from their own text. Whatever pairs a text writes, the last one with
a key counts, and no text is read that does not write such pairs. -/
theorem tags_text_round_trip :
    (∀ text tags, readTags text = .ok tags →
      (∀ pair ∈ tags.toList, Writable pair) ∧ readTags (renderTags tags) = .ok tags) ∧
    (∀ tags pairs text, (∀ pair ∈ tags.toList, Writable pair) → pairs.Perm tags.toList →
      Written pairs text → readTags text = .ok tags) ∧
    (∀ text pairs, Written pairs text → (∀ pair ∈ pairs, Writable pair) →
      ∃ tags, readTags text = .ok tags ∧
        ∀ key, tags.get? key = (Tags.valuesUnder key pairs).getLast?) ∧
    ∀ text tags, readTags text = .ok tags →
      ∃ pairs, Written pairs text ∧ (∀ pair ∈ pairs, Writable pair) ∧
        ∀ key, tags.get? key = (Tags.valuesUnder key pairs).getLast? := by
  have hback : ∀ (tags : Tags) (pairs : List (String × String)) (text : String),
      (∀ pair ∈ tags.toList, Writable pair) → pairs.Perm tags.toList → Written pairs text →
      readTags text = .ok tags := by
    intro tags pairs text htags hperm hwritten
    exact readTags_eq_ok_iff.mpr ⟨pairs, ⟨hwritten, fun pair hpair =>
      htags pair (hperm.mem_iff.mp hpair)⟩, Tags.ofList_of_perm hperm⟩
  refine ⟨?_, hback, ?_, ?_⟩
  · -- tags have only pairs that have been read, and their own text writes them in order
    intro text tags h
    obtain ⟨pairs, ⟨-, hpairs⟩, rfl⟩ := readTags_eq_ok_iff.mp h
    have htags : ∀ pair ∈ (Tags.ofList pairs).toList, Writable pair := fun pair hpair =>
      hpairs pair (Tags.mem_of_mem_ofList hpair)
    exact ⟨htags, hback _ _ _ htags (.refl _) (written_renderTags _)⟩
  · intro text pairs hwritten hpairs
    -- the tags of the pairs that are written
    exact ⟨Tags.ofList pairs, readTags_eq_ok_iff.mpr ⟨pairs, ⟨hwritten, hpairs⟩, rfl⟩,
      Tags.get?_ofList pairs⟩
  · intro text tags h
    obtain ⟨pairs, ⟨hwritten, hpairs⟩, rfl⟩ := readTags_eq_ok_iff.mp h
    exact ⟨pairs, hwritten, hpairs, Tags.get?_ofList pairs⟩

/-- A text with a blank entry, white space beyond ASCII, a value with an equals sign, an empty value
and a key that comes twice. -/
def untidyText : String := "b=1, ,\u00a0a = 2=3 ,b="

def untidyPairs : List (String × String) := [("b", "1"), ("a", "2=3"), ("b", "")]

theorem written_untidy : Written untidyPairs untidyText := by
  refine ⟨[some ("b", "1"), none, some ("a", "2=3"), some ("b", "")],
    ["b=1".toList, [' '], "\u00a0a = 2=3 ".toList, "b=".toList], ?_, rfl, rfl⟩
  exact .cons (.bare "b" "1") (.cons (.nothing rfl) (.cons (.entry "a" "2=3" (a := ['\u00a0'])
    (b := [' ']) (c := [' ']) (d := [' ']) rfl rfl rfl rfl) (.cons (.bare "b" "") .nil)))

/-- The last value of the key that comes twice counts, and the tags are read back from their own
text and from another, in which they come in another order. -/
theorem tags_text_round_trip_untidy :
    Written untidyPairs untidyText ∧ (∀ pair ∈ untidyPairs, Writable pair) ∧
      ∃ tags, readTags untidyText = .ok tags ∧ tags.get? "a" = some "2=3" ∧
        tags.get? "b" = some "" ∧ readTags (renderTags tags) = .ok tags ∧
        readTags "b=,a=2=3" = .ok tags := by
  obtain ⟨hread, hback, hlast, -⟩ := tags_text_round_trip
  have hwritable : ∀ pair ∈ untidyPairs, Writable pair := by decide
  obtain ⟨tags, htags, hget⟩ := hlast untidyText untidyPairs written_untidy hwritable
  obtain ⟨hall, hrender⟩ := hread untidyText tags htags
  -- of the two values of `b` the later one is kept
  have hpairs : [("b", ""), ("a", "2=3")].Perm tags.toList := by
    obtain rfl : Tags.ofList untidyPairs = tags :=
      Except.ok.inj (Eq.trans (by rfl) htags)
    exact .swap _ _ _
  refine ⟨written_untidy, hwritable, tags, htags, hget "a", hget "b", hrender,
    hback tags _ _ hall hpairs ⟨[some ("b", ""), some ("a", "2=3")],
      ["b=".toList, "a=2=3".toList], .cons (.bare "b" "") (.cons (.bare "a" "2=3") .nil), rfl,
      rfl⟩⟩

end Telemetry.Config
