import Telemetry.Json.Token

/-!
# Texts between quotes

A character can stand between the quotes of a JSON text in more than one way: as itself, behind a
backslash by its letter, or by the number of its code units in UTF-16, of which a character beyond
U+FFFF has two. `Letter c bytes` says that `bytes` is one of these ways for `c`, and
`Literal cs bytes` that `bytes` spells the characters `cs` one after the other. The grammar is
that of the format; it does not refer to a reader.

Two facts tie it to the writer and the reader:

* `literal_escaped` — what the writer puts between the quotes is a literal of the text;
* `Literal.cutText` — every literal of a text is read as that text, up to the closing quote and no
  further.

The reader works on code units and puts them together later, so `Letter.read` is stated on its two
halves at once: the pieces that the letter is cut into do not depend on what comes behind it, and
they assemble to the bytes of the character whatever they are followed by.
-/

namespace Telemetry

namespace Json

/-! ### The grammar -/

/-- Four hexadecimal digits of either case that spell a code unit. -/
inductive CodeUnit : Nat → List UInt8 → Prop where
  | mk {a b c d : UInt8} {w x y z : Nat} (ha : Token.hexValue? a = some w)
      (hb : Token.hexValue? b = some x) (hc : Token.hexValue? c = some y)
      (hd : Token.hexValue? d = some z) :
      CodeUnit (((w * 16 + x) * 16 + y) * 16 + z) [a, b, c, d]

/-- The ways in which a character may stand between quotes. -/
inductive Letter : Char → List UInt8 → Prop where
  /-- As itself, unless it is a control, the quote or the backslash. -/
  | plain {c : Char} (hlow : 0x20 ≤ c.toNat) (hquote : c ≠ '"') (hback : c ≠ '\\') :
      Letter c (String.utf8EncodeChar c)
  /-- By the letter that stands for it. -/
  | short {b : UInt8} {c : Char} (h : Token.escape? b = some c.toUInt8) (hc : c.toNat < 0x80) :
      Letter c ['\\'.toUInt8, b]
  /-- By the number of its only code unit. -/
  | unit {c : Char} {digits : List UInt8} (h : CodeUnit c.toNat digits) :
      Letter c ('\\'.toUInt8 :: 'u'.toUInt8 :: digits)
  /-- By the numbers of its two code units. -/
  | pair {c : Char} {first second : List UInt8} (hc : 0x10000 ≤ c.toNat)
      (hfirst : CodeUnit (0xD800 + (c.toNat - 0x10000) / 0x400) first)
      (hsecond : CodeUnit (0xDC00 + (c.toNat - 0x10000) % 0x400) second) :
      Letter c ('\\'.toUInt8 :: 'u'.toUInt8 :: (first ++
        '\\'.toUInt8 :: 'u'.toUInt8 :: second))

/-- The ways in which characters may stand between quotes. -/
inductive Literal : List Char → List UInt8 → Prop where
  | nil : Literal [] []
  | cons {c : Char} {cs : List Char} {letter rest : List UInt8} (h : Letter c letter)
      (hrest : Literal cs rest) : Literal (c :: cs) (letter ++ rest)

end Json

/-! ### Cutting a letter into pieces -/

namespace Token

/-- A byte that stands for itself between quotes. -/
def IsOrdinary (b : UInt8) : Prop :=
  b ≠ '"'.toUInt8 ∧ ¬b < 0x20 ∧ b ≠ '\\'.toUInt8

theorem textPieces_ordinary {b : UInt8} (h : IsOrdinary b) (rest : List UInt8) :
    textPieces .plain (b :: rest) =
      (.byte b :: (textPieces .plain rest).1, (textPieces .plain rest).2) := by
  obtain ⟨hquote, hlow, hback⟩ := h
  rw [textPieces, if_neg hquote, if_neg hlow, if_neg hback]

theorem textPieces_ordinaries {bytes : List UInt8} (h : ∀ b ∈ bytes, IsOrdinary b)
    (rest : List UInt8) :
    textPieces .plain (bytes ++ rest) =
      (bytes.map .byte ++ (textPieces .plain rest).1, (textPieces .plain rest).2) := by
  induction bytes with
  | nil => rfl
  | cons b bytes ih =>
    rw [List.cons_append, textPieces_ordinary (h b List.mem_cons_self),
      ih fun x hx => h x (List.mem_cons_of_mem _ hx)]
    rfl

theorem textPieces_backslash (rest : List UInt8) :
    textPieces .plain ('\\'.toUInt8 :: rest) = textPieces .escaped rest := by
  rw [textPieces, if_neg (by decide), if_neg (by decide), if_pos rfl]

theorem textPieces_escape {b s : UInt8} (h : escape? b = some s) (rest : List UInt8) :
    textPieces .plain ('\\'.toUInt8 :: b :: rest) =
      (.byte s :: (textPieces .plain rest).1, (textPieces .plain rest).2) := by
  -- `u` begins a code unit and is no letter that stands for a character
  have hu : b ≠ 'u'.toUInt8 := by
    rintro rfl
    have hnone : escape? 'u'.toUInt8 = none := by decide
    rw [hnone] at h
    exact absurd h (by simp)
  rw [textPieces_backslash, textPieces, if_neg hu, h]

theorem isOrdinary_of_le {b : UInt8} (h : 0x80 ≤ b) : IsOrdinary b := by
  rw [UInt8.le_iff_toNat_le] at h
  -- the quote, the controls and the backslash are all below 0x80
  refine ⟨?_, ?_, ?_⟩
  · rintro rfl
    exact absurd h (by decide)
  · rw [UInt8.lt_iff_toNat_lt]
    exact fun hlt => absurd (Nat.lt_of_le_of_lt h hlt) (by decide)
  · rintro rfl
    exact absurd h (by decide)

theorem isOrdinary_toUInt8 {c : Char} (hascii : c.toNat < 0x80) (hlow : 0x20 ≤ c.toNat)
    (hquote : c ≠ '"') (hback : c ≠ '\\') : IsOrdinary c.toUInt8 := by
  have hbyte := Ascii.toNat_toUInt8 hascii
  have hne : ∀ d : Char, d.toNat < 0x80 → c ≠ d → c.toUInt8 ≠ d.toUInt8 :=
    fun d hd hcd heq => hcd (Ascii.toUInt8_injective hascii hd heq)
  refine ⟨hne '"' (by decide) hquote, ?_, hne '\\' (by decide) hback⟩
  rw [UInt8.lt_iff_toNat_lt, hbyte]
  exact Nat.not_lt.2 hlow

/-- The digits of a code unit are all there, so the reader takes them one by one. -/
theorem textPieces_codeUnit {n : Nat} {digits : List UInt8} (h : Json.CodeUnit n digits)
    (rest : List UInt8) :
    textPieces .plain ('\\'.toUInt8 :: 'u'.toUInt8 :: (digits ++ rest)) =
      (.unit n :: (textPieces .plain rest).1, (textPieces .plain rest).2) := by
  obtain @⟨a, b, c, d, w, x, y, z, ha, hb, hc, hd⟩ := h
  -- the reader looks three bytes ahead before it begins with the digits
  have hall : ([a, b, c, d] ++ rest)[3]?.isSome = true := rfl
  rw [textPieces_backslash, textPieces, if_pos rfl, if_pos hall]
  simp only [List.cons_append, List.nil_append, textPieces, ha, hb, hc, hd, Nat.zero_mul,
    Nat.zero_add]

/-! ### Putting pieces together -/

theorem assemble_bytes (atEnd : Fault) (bytes : List UInt8) (more : List Piece) :
    assemble atEnd none (bytes.map .byte ++ more) =
      (assemble atEnd none more).map (bytes ++ ·) := by
  induction bytes with
  | nil =>
    rw [List.map_nil, List.nil_append]
    cases assemble atEnd none more <;> rfl
  | cons b bytes ih =>
    rw [List.map_cons, List.cons_append, assemble, ih]
    cases assemble atEnd none more <;> rfl

/-- A character is no half of a surrogate pair. -/
theorem not_surrogate (c : Char) : isTrailing c.toNat = false ∧ isLeading c.toNat = false := by
  have hvalid : c.toNat < 0xD800 ∨ (0xDFFF < c.toNat ∧ c.toNat < 0x110000) := c.valid
  simp only [isTrailing, isLeading, Bool.and_eq_false_iff, decide_eq_false_iff_not]
  omega

theorem assemble_unit (atEnd : Fault) (c : Char) (more : List Piece) :
    assemble atEnd none (.unit c.toNat :: more) =
      (assemble atEnd none more).map (String.utf8EncodeChar c ++ ·) := by
  -- so the unit stands for the character and waits for no second one
  obtain ⟨htrailing, hleading⟩ := not_surrogate c
  rw [assemble, htrailing, hleading, Char.ofNat_toNat]
  rfl

theorem assemble_pair (atEnd : Fault) {c : Char} (hc : 0x10000 ≤ c.toNat) (more : List Piece) :
    assemble atEnd none (.unit (0xD800 + (c.toNat - 0x10000) / 0x400) ::
        .unit (0xDC00 + (c.toNat - 0x10000) % 0x400) :: more) =
      (assemble atEnd none more).map (String.utf8EncodeChar c ++ ·) := by
  have hvalid : c.toNat < 0xD800 ∨ (0xDFFF < c.toNat ∧ c.toNat < 0x110000) := c.valid
  -- the upper ten bits give a leading unit, the lower ten a trailing one
  have hfirst : isTrailing (0xD800 + (c.toNat - 0x10000) / 0x400) = false ∧
      isLeading (0xD800 + (c.toNat - 0x10000) / 0x400) = true := by
    simp only [isTrailing, isLeading, Bool.and_eq_false_iff, Bool.and_eq_true,
      decide_eq_false_iff_not, decide_eq_true_eq]
    omega
  have hsecond : isTrailing (0xDC00 + (c.toNat - 0x10000) % 0x400) = true := by
    simp only [isTrailing, Bool.and_eq_true, decide_eq_true_eq]
    omega
  -- joined again they are the number of the character
  have hjoined : joined (0xD800 + (c.toNat - 0x10000) / 0x400)
      (0xDC00 + (c.toNat - 0x10000) % 0x400) = c.toNat := by
    unfold joined
    omega
  rw [assemble, hfirst.1, hfirst.2]
  simp only [Bool.false_eq_true, if_false, if_true]
  rw [assemble, hsecond, hjoined, Char.ofNat_toNat]
  rfl

end Token

/-! ### Reading literals -/

namespace Json

open Token

/-- **A letter is read as its character,** in the two steps of the reader: it is cut into pieces
that depend on nothing behind it, and these assemble to the bytes of the character. -/
theorem Letter.read {c : Char} {letter : List UInt8} (h : Letter c letter) :
    ∃ pieces : List Piece,
      (∀ rest, textPieces .plain (letter ++ rest) =
        (pieces ++ (textPieces .plain rest).1, (textPieces .plain rest).2)) ∧
      ∀ atEnd more, assemble atEnd none (pieces ++ more) =
        (assemble atEnd none more).map (String.utf8EncodeChar c ++ ·) := by
  cases h with
  | plain hlow hquote hback =>
    refine ⟨(String.utf8EncodeChar c).map .byte, textPieces_ordinaries ?_,
      fun atEnd more => assemble_bytes atEnd _ more⟩
    intro b hb
    -- every byte of the character is ordinary, which only ASCII has to show
    rcases Utf8.utf8EncodeChar_cases c with ⟨hascii, hbytes⟩ | ⟨-, hbytes⟩
    · rw [hbytes, List.mem_singleton] at hb
      subst hb
      exact isOrdinary_toUInt8 hascii hlow hquote hback
    · exact isOrdinary_of_le (hbytes b hb)
  | @short b _ h hc =>
    refine ⟨[.byte c.toUInt8], textPieces_escape h, ?_⟩
    intro atEnd more
    -- a letter stands for a character of ASCII only, which is one byte
    rcases Utf8.utf8EncodeChar_cases c with ⟨-, hbytes⟩ | ⟨hbeyond, -⟩
    · rw [hbytes]
      exact assemble_bytes atEnd [c.toUInt8] more
    · omega
  | unit h =>
    exact ⟨[.unit c.toNat], textPieces_codeUnit h, fun atEnd more => assemble_unit atEnd c more⟩
  | pair hc hfirst hsecond =>
    refine ⟨[.unit _, .unit _], ?_, fun atEnd more => assemble_pair atEnd hc more⟩
    intro rest
    rw [List.cons_append, List.cons_append, List.append_assoc, textPieces_codeUnit hfirst,
      List.cons_append, List.cons_append, textPieces_codeUnit hsecond]
    rfl

/-- The pieces of a literal, and what they assemble to. -/
theorem Literal.read {cs : List Char} {body : List UInt8} (h : Literal cs body)
    (rest : List UInt8) :
    ∃ pieces : List Piece,
      textPieces .plain (body ++ '"'.toUInt8 :: rest) = (pieces, .quote rest) ∧
      ∀ atEnd, assemble atEnd none pieces = .ok (Utf8.encode cs) := by
  -- letter by letter; the pieces of a letter do not depend on what follows it
  induction h with
  | nil => exact ⟨[], by rw [List.nil_append, textPieces, if_pos rfl], fun _ => rfl⟩
  | @cons c cs letter body h _ ih =>
    obtain ⟨first, hcut, hassemble⟩ := h.read
    obtain ⟨pieces, hpieces, hok⟩ := ih
    refine ⟨first ++ pieces, ?_, ?_⟩
    · rw [List.append_assoc, hcut, hpieces]
    · intro atEnd
      rw [hassemble, hok]
      rfl

/-- **A literal is read as its text,** up to the closing quote and no further. -/
theorem Literal.cutText {s : String} {body : List UInt8} (h : Literal s.toList body)
    (rest : List UInt8) :
    Token.cutText (body ++ '"'.toUInt8 :: rest) = (.text (.ok s), rest) := by
  obtain ⟨pieces, hpieces, hassemble⟩ := h.read rest
  have hspelled : spelled pieces = .ok s := by
    rw [spelled, hassemble]
    simp only
    rw [show Utf8.string? (Utf8.encode s.toList) = some s from Utf8.string?_ofString s]
  rw [Token.cutText, hpieces]
  simp only [hspelled]

/-! ### Writing literals -/

theorem hexValue?_digit {n : Nat} (h : n < 16) :
    Token.hexValue? (Hex.digit n).toUInt8 = some n := by
  revert n
  decide

/-- A control is written by its number, of which the upper half is zero. -/
theorem codeUnit_control {c : Char} (h : c.toNat < 0x20) :
    CodeUnit c.toNat ('0'.toUInt8 :: '0'.toUInt8 :: (Hex.ofByte c.toUInt8).map Char.toUInt8) := by
  have hbyte := Ascii.toNat_toUInt8 (c := c) (by omega)
  have hzero : Token.hexValue? '0'.toUInt8 = some 0 := by decide
  -- the upper digits are zero, and the lower two are those of the byte
  have hunit := CodeUnit.mk hzero hzero (hexValue?_digit (n := c.toNat / 16) (by omega))
    (hexValue?_digit (n := c.toNat % 16) (by omega))
  rw [show ((0 * 16 + 0) * 16 + c.toNat / 16) * 16 + c.toNat % 16 = c.toNat by omega] at hunit
  rw [Hex.ofByte, hbyte]
  exact hunit

/-- A character of ASCII is escaped as one of its letters. -/
theorem letter_escaped {c : Char} (hascii : c.toNat < 0x80) : Letter c (escaped c.toUInt8) := by
  -- a byte that is told apart by the writer is the byte of one character only
  have hshort : ∀ (d : Char) (b : UInt8), d.toNat < 0x80 → escape? b = some d.toUInt8 →
      c.toUInt8 = d.toUInt8 → Letter c ['\\'.toUInt8, b] := by
    intro d b hd hb heq
    rw [← heq] at hb
    exact .short hb hascii
  unfold escaped
  split
  · next h =>
    -- the quote and the backslash stand for themselves behind a backslash
    rcases h with h | h <;> rw [h]
    · exact hshort '"' _ (by decide) (by decide) h
    · exact hshort '\\' _ (by decide) (by decide) h
  split
  · next h => exact hshort '\x08' _ (by decide) (by decide) h
  split
  · next h => exact hshort '\t' _ (by decide) (by decide) h
  split
  · next h => exact hshort '\n' _ (by decide) (by decide) h
  split
  · next h => exact hshort '\x0c' _ (by decide) (by decide) h
  split
  · next h => exact hshort '\r' _ (by decide) (by decide) h
  split
  · next h =>
    -- the other controls
    rw [UInt8.lt_iff_toNat_lt, Ascii.toNat_toUInt8 hascii] at h
    exact .unit (codeUnit_control h)
  · next hquote _ _ _ _ _ h =>
    rw [UInt8.lt_iff_toNat_lt, Ascii.toNat_toUInt8 hascii] at h
    -- what is left is no control, no quote and no backslash
    have hplain : Letter c (String.utf8EncodeChar c) := by
      refine .plain (Nat.not_lt.1 h) ?_ ?_ <;> rintro rfl <;> exact hquote (by decide)
    rcases Utf8.utf8EncodeChar_cases c with ⟨-, hbytes⟩ | ⟨hbeyond, -⟩
    · rw [← hbytes]
      exact hplain
    · omega

/-- A byte beyond ASCII is not escaped. -/
theorem escaped_of_le {b : UInt8} (h : 0x80 ≤ b) : escaped b = [b] := by
  obtain ⟨hquote, hlow, hback⟩ := Token.isOrdinary_of_le h
  have hcontrol : ∀ x : UInt8, x < 0x20 → b ≠ x := by
    rintro x hx rfl
    exact hlow hx
  rw [escaped, if_neg (by simp only [hquote, hback, or_self, not_false_iff]),
    if_neg (hcontrol _ (by decide)), if_neg (hcontrol _ (by decide)),
    if_neg (hcontrol _ (by decide)), if_neg (hcontrol _ (by decide)),
    if_neg (hcontrol _ (by decide)), if_neg hlow]

theorem flatMap_escaped_of_le {bytes : List UInt8} (h : ∀ b ∈ bytes, 0x80 ≤ b) :
    bytes.flatMap escaped = bytes := by
  induction bytes with
  | nil => rfl
  | cons b bytes ih =>
    rw [List.flatMap_cons, escaped_of_le (h b List.mem_cons_self),
      ih fun x hx => h x (List.mem_cons_of_mem _ hx)]
    rfl

/-- **What the writer puts between the quotes is a literal of the text.** -/
theorem literal_escaped (cs : List Char) : Literal cs ((Utf8.encode cs).flatMap escaped) := by
  induction cs with
  | nil => exact .nil
  | cons c cs ih =>
    rw [Utf8.encode, List.flatMap_cons, List.flatMap_append]
    refine .cons ?_ ih
    -- a character of ASCII is one byte and may be escaped; the bytes of any other stay as they are
    rcases Utf8.utf8EncodeChar_cases c with ⟨hascii, hbytes⟩ | ⟨hbeyond, hbytes⟩
    · rw [hbytes, List.flatMap_cons, List.flatMap_nil, List.append_nil]
      exact letter_escaped hascii
    · rw [flatMap_escaped_of_le hbytes]
      refine .plain (by omega) ?_ ?_ <;> rintro rfl <;> exact absurd hbeyond (by decide)

end Json

end Telemetry
