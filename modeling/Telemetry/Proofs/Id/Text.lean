import Telemetry.Id.Text
import Telemetry.Proofs.Id.Bytes

/-!
# Which texts name an id

`Uuid.Form` is the grammar of the texts that name sixteen bytes: their digits in either case, bare,
hyphenated, hyphenated in braces, or hyphenated behind `urn:uuid:`. The four forms have 32, 36, 38
and 45 bytes, so a reader that goes by the number of bytes cannot take one for another, and
`Uuid.read` accepts exactly these texts (`Uuid.read_eq_ok_iff`).

Hyphenating thirty-two digits and taking the hyphens out again are inverse to each other
(`Uuid.plain?_eq_some_iff`); that is the one place where the groups are counted.

`CorrelationId.parse_by_grammar` says the same of ids, with white space around the text.
-/

namespace Telemetry.Uuid

/-! ### Five groups -/

/-- Thirty-two digits are five groups. -/
theorem exists_groups {digits : List Char} (h : digits.length = 32) :
    ∃ a b c d e : List Char, digits = a ++ (b ++ (c ++ (d ++ e))) ∧ a.length = 8 ∧ b.length = 4 ∧
      c.length = 4 ∧ d.length = 4 ∧ e.length = 12 := by
  refine ⟨digits.take 8, (digits.drop 8).take 4, (digits.drop 12).take 4, (digits.drop 16).take 4,
    digits.drop 20, ?_, ?_, ?_, ?_, ?_, ?_⟩
  · -- each group and what stands behind it are what stands behind the group before
    have hjoin (n : Nat) : (digits.drop n).take 4 ++ digits.drop (n + 4) = digits.drop n := by
      rw [← List.drop_drop, List.take_append_drop]
    rw [hjoin 16, hjoin 12, hjoin 8, List.take_append_drop]
  all_goals simp only [List.length_take, List.length_drop, h] <;> omega

theorem hyphenated_groups {a b c d e : List Char} (ha : a.length = 8) (hb : b.length = 4)
    (hc : c.length = 4) (hd : d.length = 4) :
    hyphenated (a ++ (b ++ (c ++ (d ++ e)))) =
      a ++ '-' :: (b ++ '-' :: (c ++ '-' :: (d ++ '-' :: e))) := by
  -- every cut of the writer falls between two groups
  have hfour : (d ++ e).take 4 = d := List.take_left' hd
  simp (disch := omega) [hyphenated, List.drop_append, List.drop_of_length_le, ha, hb, hc, hfour]

theorem plain?_groups {a b c d e : List Char} (ha : a.length = 8) (hb : b.length = 4)
    (hc : c.length = 4) (hd : d.length = 4) (he : e.length = 12) :
    plain? (a ++ '-' :: (b ++ '-' :: (c ++ '-' :: (d ++ '-' :: e)))) =
      some (a ++ (b ++ (c ++ (d ++ e)))) := by
  simp (disch := omega) [plain?, List.drop_append, List.drop_of_length_le, List.getElem?_append,
    List.getElem?_cons_zero, ha, hb, hc, hd, he]

/-- A text cut at one of its characters. -/
theorem eq_take_cons_drop {text : List Char} {n : Nat} {c : Char} (h : text[n]? = some c) :
    text = text.take n ++ c :: text.drop (n + 1) := by
  obtain ⟨hn, rfl⟩ := List.getElem?_eq_some_iff.mp h
  rw [← List.drop_eq_getElem_cons hn, List.take_append_drop]

/-- A text that has the hyphens is the groups with hyphens between. -/
theorem groups_of_plain? {text digits : List Char} (h : plain? text = some digits) :
    digits.length = 32 ∧ text = hyphenated digits := by
  rw [plain?] at h
  by_cases hshape : text.length = 36 ∧ [8, 13, 18, 23].all (fun i => text[i]? == some '-') = true
  · rw [if_pos hshape, Option.some.injEq] at h
    obtain ⟨hlength, hhyphens⟩ := hshape
    simp only [List.all_cons, List.all_nil, Bool.and_true, Bool.and_eq_true, beq_iff_eq] at hhyphens
    obtain ⟨hfirst, hsecond, hthird, hfourth⟩ := hhyphens
    -- a hyphen of the text is a hyphen of what stands behind the one before
    have hcut₁ := eq_take_cons_drop hfirst
    have hcut₂ : text.drop 9 = (text.drop 9).take 4 ++ '-' :: text.drop 14 := by
      have hcut := eq_take_cons_drop (show (text.drop 9)[4]? = some '-' by
        rw [List.getElem?_drop, hsecond])
      rwa [List.drop_drop] at hcut
    have hcut₃ : text.drop 14 = (text.drop 14).take 4 ++ '-' :: text.drop 19 := by
      have hcut := eq_take_cons_drop (show (text.drop 14)[4]? = some '-' by
        rw [List.getElem?_drop, hthird])
      rwa [List.drop_drop] at hcut
    have hcut₄ : text.drop 19 = (text.drop 19).take 4 ++ '-' :: text.drop 24 := by
      have hcut := eq_take_cons_drop (show (text.drop 19)[4]? = some '-' by
        rw [List.getElem?_drop, hfourth])
      rwa [List.drop_drop] at hcut
    have ha : (text.take 8).length = 8 := by rw [List.length_take, hlength]; rfl
    have hgroup (n : Nat) (hn : n ≤ 32) : ((text.drop n).take 4).length = 4 := by
      rw [List.length_take, List.length_drop, hlength]
      omega
    have hb := hgroup 9 (by decide)
    have hc := hgroup 14 (by decide)
    have hd := hgroup 19 (by decide)
    rw [List.append_assoc, List.append_assoc, List.append_assoc] at h
    subst h
    constructor
    · simp only [List.length_append, ha, hb, hc, hd, List.length_drop, hlength]
    · rw [hyphenated_groups ha hb hc hd, ← hcut₄, ← hcut₃, ← hcut₂, ← hcut₁]
  · rw [if_neg hshape] at h
    cases h

/-- **Taking the hyphens out** gives back the digits that were hyphenated, and works for nothing
else. -/
theorem plain?_eq_some_iff {text digits : List Char} :
    plain? text = some digits ↔ digits.length = 32 ∧ text = hyphenated digits := by
  refine ⟨groups_of_plain?, ?_⟩
  rintro ⟨hlength, rfl⟩
  -- group by group, the hyphens that are put in are those that are taken out
  obtain ⟨a, b, c, d, e, rfl, ha, hb, hc, hd, he⟩ := exists_groups hlength
  rw [hyphenated_groups ha hb hc hd, plain?_groups ha hb hc hd he]

theorem length_hyphenated {digits : List Char} (h : digits.length = 32) :
    (hyphenated digits).length = 36 := by
  obtain ⟨a, b, c, d, e, rfl, ha, hb, hc, hd, he⟩ := exists_groups h
  rw [hyphenated_groups ha hb hc hd]
  simp [ha, hb, hc, hd, he]

theorem mem_hyphenated {digits : List Char} {c : Char} (h : c ∈ hyphenated digits) :
    c = '-' ∨ c ∈ digits := by
  simp only [hyphenated, List.mem_append, List.mem_cons] at h
  grind [List.mem_of_mem_take, List.mem_of_mem_drop]

/-! ### The forms -/

/-- The digits of the bytes, each in either case. -/
def Spells (bytes : Vector UInt8 CorrelationId.size) (digits : List Char) : Prop :=
  digits.map Char.toLower = Hex.ofBytes bytes.toList

/-- **The texts that name sixteen bytes.** -/
inductive Form (bytes : Vector UInt8 CorrelationId.size) : List Char → Prop
  | bare {digits : List Char} (h : Spells bytes digits) : Form bytes digits
  | hyphenated {digits : List Char} (h : Spells bytes digits) : Form bytes (hyphenated digits)
  | braced {digits : List Char} (h : Spells bytes digits) :
    Form bytes ('{' :: (Uuid.hyphenated digits ++ ['}']))
  | named {digits opening : List Char} (h : Spells bytes digits)
    (hopening : opening.map Char.toLower = "urn:uuid:".toList) :
    Form bytes (opening ++ Uuid.hyphenated digits)

variable {bytes : Vector UInt8 CorrelationId.size}

theorem Spells.length {digits : List Char} (h : Spells bytes digits) : digits.length = 32 := by
  have hlength := congrArg List.length h
  rw [List.length_map, Hex.length_ofBytes, Vector.length_toList] at hlength
  exact hlength

/-- Only characters between `0` and `f` spell bytes. -/
theorem Spells.bounds {digits : List Char} (h : Spells bytes digits) {c : Char} (hc : c ∈ digits) :
    0x30 ≤ c.toNat ∧ c.toNat ≤ 0x66 := by
  -- a character in lower case is one of the sixteen digits
  have hmem : c.toLower ∈ Hex.ofBytes bytes.toList := h ▸ List.mem_map_of_mem hc
  obtain ⟨n, hn, hdigit⟩ := Hex.exists_of_mem_ofBytes hmem
  exact Hex.bounds_of_value? (Hex.value?_eq_some_iff.mpr ⟨hn, hdigit⟩)

/-- A hyphenated text takes thirty-six bytes. -/
theorem Spells.length_hyphenated {digits : List Char} (h : Spells bytes digits) :
    Utf8.length (hyphenated digits) = 36 := by
  rw [Utf8.length_of_ascii, Uuid.length_hyphenated h.length]
  -- hyphens and digits take one byte each
  intro c hc
  rcases mem_hyphenated hc with rfl | hmem
  · decide
  · exact Nat.lt_of_le_of_lt (h.bounds hmem).2 (by decide)

theorem exactly?_eq_some_iff {list : List UInt8} :
    CorrelationId.exactly? list = some bytes ↔ list = bytes.toList := by
  constructor
  · intro h
    rw [CorrelationId.exactly?] at h
    -- the bytes are taken as they are if there are sixteen, and otherwise not at all
    split at h
    · cases h
      rfl
    · cases h
  · rintro rfl
    exact CorrelationId.exactly?_toList bytes

theorem ofDigits?_eq_some_iff {digits : List Char} :
    ofDigits? digits = some bytes ↔ Spells bytes digits := by
  simp only [ofDigits?, Option.bind_eq_some_iff, exactly?_eq_some_iff, exists_eq_right]
  exact Hex.bytes?_eq_some_iff

theorem readHyphenated_eq_ok_iff {text : List Char} :
    readHyphenated text = .ok bytes ↔ ∃ digits, Spells bytes digits ∧ text = hyphenated digits := by
  have hread : readHyphenated text = .ok bytes ↔ ofHyphenated? text = some bytes := by
    rw [readHyphenated]
    cases ofHyphenated? text <;> simp
  rw [hread, ofHyphenated?, Option.bind_eq_some_iff]
  refine exists_congr fun digits => ?_
  rw [plain?_eq_some_iff, ofDigits?_eq_some_iff]
  exact ⟨fun ⟨⟨_, htext⟩, hspells⟩ => ⟨hspells, htext⟩,
    fun ⟨hspells, htext⟩ => ⟨⟨hspells.length, htext⟩, hspells⟩⟩

theorem betweenBraces?_eq_some_iff {text part : List Char} :
    betweenBraces? text = some part ↔ text = '{' :: (part ++ ['}']) := by
  rw [betweenBraces?]
  constructor
  · intro h
    by_cases hbraces : text.head? = some '{' ∧ text.getLast? = some '}' ∧ 2 ≤ text.length
    · rw [if_pos hbraces, Option.some.injEq] at h
      obtain ⟨hhead, hlast, hlength⟩ := hbraces
      obtain ⟨tail, rfl⟩ := List.head?_eq_some_iff.mp hhead
      -- the closing brace is not the opening one
      have htail : tail ≠ [] := by
        rintro rfl
        exact absurd hlength (by decide)
      rw [List.getLast?_cons_of_ne_nil htail] at hlast
      obtain ⟨inner, rfl⟩ := List.getLast?_eq_some_iff.mp hlast
      rw [List.tail_cons, List.dropLast_concat] at h
      rw [h]
    · rw [if_neg hbraces] at h
      cases h
  · rintro rfl
    -- what is put between braces has them at its ends, and they are two
    have hlast : ('{' :: (part ++ ['}'])).getLast? = some '}' := by
      rw [← List.cons_append, List.getLast?_concat]
    have hlength : 2 ≤ ('{' :: (part ++ ['}'])).length := by
      rw [List.length_cons, List.length_append]
      exact Nat.le_add_left 2 part.length
    rw [if_pos ⟨rfl, hlast, hlength⟩, List.tail_cons, List.dropLast_concat]

theorem afterUrn?_eq_some_iff {text part : List Char} :
    afterUrn? text = some part ↔
      ∃ opening, opening.map Char.toLower = "urn:uuid:".toList ∧ text = opening ++ part := by
  rw [afterUrn?]
  constructor
  · intro h
    by_cases hurn : (text.take 9).map Char.toLower = urn
    · rw [if_pos hurn, Option.some.injEq] at h
      exact ⟨text.take 9, hurn, by rw [← h, List.take_append_drop]⟩
    · rw [if_neg hurn] at h
      cases h
  · rintro ⟨opening, hopening, rfl⟩
    -- folding the case keeps the number of characters
    have hlength : opening.length = 9 := by
      have hmap := congrArg List.length hopening
      rwa [List.length_map] at hmap
    rw [List.take_left' hlength, List.drop_left' hlength]
    exact if_pos hopening

/-- The bare digits take thirty-two bytes. -/
theorem Spells.length_bare {digits : List Char} (h : Spells bytes digits) :
    Utf8.length digits = 32 := by
  rw [Utf8.length_of_ascii, h.length]
  exact fun c hc => Nat.lt_of_le_of_lt (h.bounds hc).2 (by decide)

/-- With braces there are two bytes more. -/
theorem Spells.length_braced {digits : List Char} (h : Spells bytes digits) :
    Utf8.length ('{' :: (hyphenated digits ++ ['}'])) = 38 := by
  rw [Utf8.length, Utf8.length_append, h.length_hyphenated]
  decide

/-- With the opening there are nine bytes more. -/
theorem Spells.length_named {digits opening : List Char} (h : Spells bytes digits)
    (hopening : opening.map Char.toLower = "urn:uuid:".toList) :
    Utf8.length (opening ++ hyphenated digits) = 45 := by
  -- what is folded to an ASCII letter is ASCII itself
  have hascii : ∀ c ∈ opening, c.toNat < 0x80 := by
    intro c hc
    have hlower : c.toLower ∈ "urn:uuid:".toList := hopening ▸ List.mem_map_of_mem hc
    have hall : "urn:uuid:".toList.all (fun d => d.toNat < 0x80) = true := by decide
    exact Ascii.lt_of_toLower_lt (of_decide_eq_true (List.all_eq_true.mp hall _ hlower))
  have hlength : opening.length = 9 := by
    have hmap := congrArg List.length hopening
    rwa [List.length_map] at hmap
  rw [Utf8.length_append, h.length_hyphenated, Utf8.length_of_ascii hascii, hlength]

theorem Form.length {text : List Char} (h : Form bytes text) :
    Utf8.length text ∈ [32, 36, 38, 45] := by
  cases h with
  | bare hspells =>
    rw [hspells.length_bare]
    decide
  | hyphenated hspells =>
    rw [hspells.length_hyphenated]
    decide
  | braced hspells =>
    rw [hspells.length_braced]
    decide
  | named hspells hopening =>
    rw [hspells.length_named hopening]
    decide

/-- **Reading accepts exactly the forms.** -/
theorem read_eq_ok_iff {text : List Char} : read text = .ok bytes ↔ Form bytes text := by
  constructor
  · intro h
    rw [read] at h
    -- the reader goes by the number of bytes: 36, 38, 45, or any other
    split at h
    · obtain ⟨digits, hspells, rfl⟩ := readHyphenated_eq_ok_iff.mp h
      exact .hyphenated hspells
    · next hpart =>
      obtain ⟨digits, hspells, rfl⟩ := readHyphenated_eq_ok_iff.mp h
      rw [betweenBraces?_eq_some_iff.mp hpart]
      exact .braced hspells
    · next hpart =>
      obtain ⟨digits, hspells, rfl⟩ := readHyphenated_eq_ok_iff.mp h
      obtain ⟨opening, hopening, rfl⟩ := afterUrn?_eq_some_iff.mp hpart
      exact .named hspells hopening
    · cases hdigits : ofDigits? text with
      | some found =>
        rw [hdigits, Except.ok.injEq] at h
        exact .bare (ofDigits?_eq_some_iff.mp (h ▸ hdigits))
      | none =>
        rw [hdigits] at h
        cases h
  · -- each form has a number of bytes of its own
    intro h
    cases h with
    | bare hspells =>
      simp only [read, hspells.length_bare, ofDigits?_eq_some_iff.mpr hspells]
    | hyphenated hspells =>
      simp only [read, hspells.length_hyphenated]
      exact readHyphenated_eq_ok_iff.mpr ⟨_, hspells, rfl⟩
    | braced hspells =>
      simp only [read, hspells.length_braced, betweenBraces?_eq_some_iff.mpr rfl]
      exact readHyphenated_eq_ok_iff.mpr ⟨_, hspells, rfl⟩
    | named hspells hopening =>
      simp only [read, hspells.length_named hopening,
        afterUrn?_eq_some_iff.mpr ⟨_, hopening, rfl⟩]
      exact readHyphenated_eq_ok_iff.mpr ⟨_, hspells, rfl⟩

end Telemetry.Uuid

namespace Telemetry.CorrelationId

/-- A text without white space around it names the id. -/
def Named (id : CorrelationId) (text : List Char) : Prop :=
  Uuid.Form id.toBytes text

theorem parse_of_blank {text : String} (h : Text.isBlankText text) :
    parse text = .error .empty := by
  rw [parse, Text.trim_eq_nil_iff.mpr h]
  rfl

/-- A text that is not blank is read as a UUID. -/
theorem parse_of_not_blank {text : String} (h : Text.isBlankText text = false) :
    parse text =
      match Uuid.read (Text.trim text.toList) with
      | .ok bytes => .ok (ofBytes bytes)
      | .error fault => .error (.uuid fault) := by
  -- something is left of the text
  have htrim : (Text.trim text.toList).isEmpty = false := by
    rw [List.isEmpty_eq_false_iff, Ne, Text.trim_eq_nil_iff]
    exact fun hblank => Bool.noConfusion (h.symm.trans hblank)
  rw [parse, htrim]
  rfl

theorem parse_eq_empty_iff {text : String} :
    parse text = .error .empty ↔ Text.isBlankText text = true := by
  refine ⟨fun h => ?_, parse_of_blank⟩
  -- a text that is not blank is accepted or called malformed, never empty
  cases hblank : Text.isBlankText text with
  | true => rfl
  | false =>
    rw [parse_of_not_blank hblank] at h
    cases hread : Uuid.read (Text.trim text.toList) <;> rw [hread] at h <;> cases h

/-- **Parsing accepts exactly the texts that name an id**, once they are trimmed. -/
theorem parse_eq_ok_iff {text : String} {id : CorrelationId} :
    parse text = .ok id ↔ id.Named (Text.trim text.toList) := by
  cases hblank : Text.isBlankText text with
  | true =>
    -- nothing is left of a blank text, and no form is empty
    rw [parse_of_blank hblank, Text.trim_eq_nil_iff.mpr hblank]
    constructor
    · intro h
      cases h
    · intro h
      exact absurd h.length (by decide)
  | false =>
    rw [parse_of_not_blank hblank, Named, ← Uuid.read_eq_ok_iff]
    cases Uuid.read (Text.trim text.toList) with
    | error fault => exact ⟨(nomatch ·), (nomatch ·)⟩
    | ok bytes => rw [Except.ok.injEq, Except.ok.injEq, ofBytes_eq_iff]

/-- A text that is neither blank nor names an id is no UUID. -/
theorem exists_uuid_fault {text : String} (hblank : Text.isBlankText text = false)
    (hnamed : ∀ id : CorrelationId, ¬ id.Named (Text.trim text.toList)) :
    ∃ fault, parse text = .error (.uuid fault) := by
  have hparse := parse_of_not_blank hblank
  cases hread : Uuid.read (Text.trim text.toList) with
  | error fault =>
    rw [hread] at hparse
    exact ⟨fault, hparse⟩
  | ok bytes =>
    rw [hread] at hparse
    exact absurd (parse_eq_ok_iff.mp hparse) (hnamed _)

/-- Digits are written in lower case, which is one of the ways to spell them. -/
theorem spells_digits (id : CorrelationId) : Uuid.Spells id.toBytes id.digits :=
  Hex.map_toLower_of_bytes? (Hex.bytes?_ofBytes id.byteList)

theorem isBlank_text {id : CorrelationId} {c : Char} (h : c ∈ id.text.toList) :
    Text.isBlank c = false := by
  rw [text, String.toList_ofList] at h
  -- a hyphen or a digit, and no digit is white space
  rcases Uuid.mem_hyphenated h with rfl | hmem
  · rfl
  · obtain ⟨hlow, hhigh⟩ := id.spells_digits.bounds hmem
    simp only [Text.isBlank]
    grind

/-- **An id is read back from its text**, with any white space around it. -/
theorem parse_text (id : CorrelationId) {before after : String}
    (hbefore : Text.isBlankText before = true) (hafter : Text.isBlankText after = true) :
    parse (before ++ id.text ++ after) = .ok id := by
  -- the text of an id begins and ends with characters that are not blank, so trimming stops there
  have htrim : Text.trim (before ++ id.text ++ after).toList = id.text.toList := by
    rw [String.toList_append, String.toList_append, List.append_assoc]
    exact Text.trim_append hbefore hafter
      (fun c hc => isBlank_text (List.mem_of_mem_head? hc))
      (fun c hc => isBlank_text (List.mem_of_mem_getLast? hc))
  rw [parse_eq_ok_iff, htrim, text, String.toList_ofList]
  exact .hyphenated id.spells_digits

/-- **Parsing goes by a grammar.** A text is read as an id exactly if it names it, white space at
its ends aside; any other text is refused, for being empty if it is blank and for being no UUID if
it is not. The text that is written for an id is among those that name it. -/
theorem parse_by_grammar (text : String) :
    (∀ id : CorrelationId, parse text = .ok id ↔ id.Named (Text.trim text.toList)) ∧
      (parse text = .error .empty ↔ Text.isBlankText text = true) ∧
      (Text.isBlankText text = false →
        (∀ id : CorrelationId, ¬ id.Named (Text.trim text.toList)) →
        ∃ fault, parse text = .error (.uuid fault)) ∧
      (∀ actual, parse text ≠ .error (.length actual)) ∧
      ofString text = parse text ∧
      ∀ (id : CorrelationId) (before after : String), Text.isBlankText before = true →
        Text.isBlankText after = true → parse (before ++ id.text ++ after) = .ok id := by
  refine ⟨fun id => parse_eq_ok_iff, parse_eq_empty_iff, exists_uuid_fault, ?_, rfl,
    fun id before after hbefore hafter => id.parse_text hbefore hafter⟩
  intro actual h
  -- the two outcomes that are left have other reasons
  cases hblank : Text.isBlankText text with
  | true =>
    rw [parse_of_blank hblank] at h
    cases h
  | false =>
    rw [parse_of_not_blank hblank] at h
    cases hread : Uuid.read (Text.trim text.toList) <;> rw [hread] at h <;> cases h

/-- Two of the forms, and a text that has none. -/
theorem parse_by_grammar_forms :
    let id : CorrelationId := ⟨0x0001020304050607, 0x08090A0B0C0D0E0F⟩
    let named := "\u3000URN:uuid:00010203-0405-0607-0809-0A0b0C0d0E0f\n"
    parse named = .ok id ∧ (∃ fault, parse "not-a-uuid" = .error (.uuid fault)) ∧
      parse ("\t" ++ id.text ++ " ") = .ok id := by
  intro id named
  obtain ⟨hok, -, -, -, -, htext⟩ := parse_by_grammar named
  obtain ⟨-, -, hfault, -⟩ := parse_by_grammar "not-a-uuid"
  let digits := "000102030405060708090A0b0C0d0E0f".toList
  -- the digits may be of either case, and so may the opening
  have hspells : Uuid.Spells id.toBytes digits := by
    change digits.map Char.toLower = _
    decide +kernel
  have htrim : Text.trim named.toList = "URN:uuid:".toList ++ Uuid.hyphenated digits := by
    decide +kernel
  refine ⟨(hok id).mpr ?_, hfault (by decide) fun id h => absurd h.length (by decide), ?_⟩
  · rw [htrim]
    exact .named hspells (by decide)
  · exact htext id "\t" " " (by decide) (by decide)

end Telemetry.CorrelationId
