/-!
# UTF-8

Bytes are decoded by a machine that reads one byte at a time. Between two bytes of a character it
holds a `Pending`: how many continuation bytes are still to come, the range that the next of them
must lie in, and the bits read so far. A byte outside that range ends the character that was begun
as one `stray` piece and is then read afresh, so a malformed sequence never swallows the byte that
shows it to be malformed. The pieces of a text are thus its characters and its maximal ill-formed
subparts, in order.

* `decode?` reads text that must be well formed: there is no stray piece.
* `decodeLossy` reads any bytes: each stray piece becomes one U+FFFD.
* `encode` writes characters as bytes.

The ranges of the second byte (after E0, ED, F0 and F4) are what keeps out overlong forms,
surrogates and values above U+10FFFF.
-/

namespace Telemetry.Utf8

/-- A character of which some bytes have been read. -/
structure Pending where
  /-- How many bytes come after the next one. -/
  more : Nat
  /-- The least value of the next byte. -/
  low : Nat
  /-- The greatest value of the next byte. -/
  high : Nat
  /-- The bits read so far. -/
  value : Nat

/-- What a stretch of bytes decodes to: a character, or a maximal ill-formed subpart. -/
inductive Piece where
  | char (c : Char)
  | stray
  deriving DecidableEq

/-- Reads a byte where a character may begin. -/
def first (b : Nat) : List Piece × Option Pending :=
  if b < 0x80 then ([.char (Char.ofNat b)], none)
  -- a continuation byte, or the start of an overlong form
  else if b < 0xC2 then ([.stray], none)
  else if b < 0xE0 then ([], some ⟨0, 0x80, 0xBF, b - 0xC0⟩)
  -- three bytes: not overlong, not a surrogate
  else if b = 0xE0 then ([], some ⟨1, 0xA0, 0xBF, 0⟩)
  else if b = 0xED then ([], some ⟨1, 0x80, 0x9F, 13⟩)
  else if b < 0xF0 then ([], some ⟨1, 0x80, 0xBF, b - 0xE0⟩)
  -- four bytes: not overlong, not above U+10FFFF
  else if b = 0xF0 then ([], some ⟨2, 0x90, 0xBF, 0⟩)
  else if b < 0xF4 then ([], some ⟨2, 0x80, 0xBF, b - 0xF0⟩)
  else if b = 0xF4 then ([], some ⟨2, 0x80, 0x8F, 4⟩)
  else ([.stray], none)

/-- Reads one byte: a continuation where one is due, otherwise the start of a character. -/
def feed : Option Pending → Nat → List Piece × Option Pending
  | none, b => first b
  | some p, b =>
    if p.low ≤ b ∧ b ≤ p.high then
      let value := p.value * 64 + (b - 0x80)
      match p.more with
      | 0 => ([.char (Char.ofNat value)], none)
      | more + 1 => ([], some ⟨more, 0x80, 0xBF, value⟩)
    else
      (.stray :: (first b).1, (first b).2)

/-- The pieces of the bytes, read on from a character that may be begun. -/
def run : Option Pending → List UInt8 → List Piece
  | none, [] => []
  | some _, [] => [.stray]
  | p, b :: rest => (feed p b.toNat).1 ++ run (feed p b.toNat).2 rest

/-- The characters and the maximal ill-formed subparts of a text, in order. -/
def pieces (bytes : List UInt8) : List Piece :=
  run none bytes

namespace Piece

def char? : Piece → Option Char
  | .char c => some c
  | .stray => none

/-- The character of a piece, with U+FFFD in place of ill-formed bytes. -/
def lossy : Piece → Char
  | .char c => c
  | .stray => Char.ofNat 0xFFFD

end Piece

/-- The characters of a text, if all of it is well formed. -/
def decode? (bytes : List UInt8) : Option (List Char) :=
  (pieces bytes).mapM Piece.char?

/-- The characters of a text, each maximal ill-formed subpart replaced by one U+FFFD. -/
def decodeLossy (bytes : List UInt8) : List Char :=
  (pieces bytes).map Piece.lossy

def encode (cs : List Char) : List UInt8 :=
  cs.flatMap String.utf8EncodeChar

/-- The text that the bytes spell, if they are well formed. -/
def string? (bytes : List UInt8) : Option String :=
  (decode? bytes).map String.ofList

/-- The text that the bytes spell, with U+FFFD for what is ill formed. -/
def stringLossy (bytes : List UInt8) : String :=
  String.ofList (decodeLossy bytes)

def ofString (text : String) : List UInt8 :=
  encode text.toList

/-- How many bytes the characters take. -/
def length : List Char → Nat
  | [] => 0
  | c :: rest => c.utf8Size + length rest

@[simp] theorem pieces_nil : pieces [] = [] := rfl

@[simp] theorem encode_nil : encode [] = [] := rfl

@[simp] theorem encode_append (a b : List Char) : encode (a ++ b) = encode a ++ encode b := by
  simp [encode]

theorem encode_cons (c : Char) (cs : List Char) :
    encode (c :: cs) = String.utf8EncodeChar c ++ encode cs :=
  List.flatMap_cons

/-- `length` counts the bytes that `encode` writes. -/
theorem length_encode (cs : List Char) : (encode cs).length = length cs := by
  induction cs with
  | nil => rfl
  | cons c rest ih =>
    simp only [encode, List.flatMap_cons, List.length_append] at ih ⊢
    rw [ih, String.length_utf8EncodeChar, length]

@[simp] theorem length_append (a b : List Char) : length (a ++ b) = length a + length b := by
  rw [← length_encode, ← length_encode, ← length_encode, encode_append, List.length_append]

/-- Characters of ASCII take one byte each. -/
theorem length_of_ascii {cs : List Char} (h : ∀ c ∈ cs, c.toNat < 0x80) :
    length cs = cs.length := by
  induction cs with
  | nil => rfl
  | cons c rest ih =>
    have hle : c.val ≤ 0x7F :=
      UInt32.le_iff_toNat_le.mpr (Nat.le_of_lt_succ (h c List.mem_cons_self))
    have hsize : c.utf8Size = 1 := if_pos hle
    rw [length, hsize, ih fun d hd => h d (List.mem_cons_of_mem c hd), List.length_cons,
      Nat.add_comm]

/-- A character of ASCII is one byte, and every byte of another character is beyond ASCII. -/
theorem utf8EncodeChar_cases (c : Char) :
    (c.toNat < 0x80 ∧ String.utf8EncodeChar c = [c.toUInt8]) ∨
      (0x80 ≤ c.toNat ∧ ∀ b ∈ String.utf8EncodeChar c, 0x80 ≤ b) := by
  have hvalid : c.val.toNat < 0xD800 ∨ (0xDFFF < c.val.toNat ∧ c.val.toNat < 0x110000) := c.valid
  have hbyte : ∀ n, 0x80 ≤ n → n < 0x100 → (0x80 : UInt8) ≤ UInt8.ofNat n := by
    intro n hlow hhigh
    rw [UInt8.le_iff_toNat_le, UInt8.toNat_ofNat_of_lt' hhigh]
    exact hlow
  unfold String.utf8EncodeChar
  simp only [Char.toNat]
  split
  · next h => exact .inl ⟨by omega, rfl⟩
  · refine .inr ⟨by omega, ?_⟩
    split
    · simp only [List.mem_cons, List.not_mem_nil, or_false, forall_eq_or_imp, forall_eq]
      exact ⟨hbyte _ (by omega) (by omega), hbyte _ (by omega) (by omega)⟩
    · split
      · simp only [List.mem_cons, List.not_mem_nil, or_false, forall_eq_or_imp, forall_eq]
        exact ⟨hbyte _ (by omega) (by omega), hbyte _ (by omega) (by omega),
          hbyte _ (by omega) (by omega)⟩
      · simp only [List.mem_cons, List.not_mem_nil, or_false, forall_eq_or_imp, forall_eq]
        exact ⟨hbyte _ (by omega) (by omega), hbyte _ (by omega) (by omega),
          hbyte _ (by omega) (by omega), hbyte _ (by omega) (by omega)⟩

/-! ### Reading back what was written -/

/-- A byte in its range completes or continues a character, to which it adds six bits. -/
theorem run_within {p : Pending} {b : UInt8} (h : p.low ≤ b.toNat ∧ b.toNat ≤ p.high)
    (rest : List UInt8) :
    run (some p) (b :: rest) =
      match p.more with
      | 0 => .char (Char.ofNat (p.value * 64 + (b.toNat - 0x80))) :: run none rest
      | more + 1 => run (some ⟨more, 0x80, 0xBF, p.value * 64 + (b.toNat - 0x80)⟩) rest := by
  rw [run, feed, if_pos h]
  cases p.more <;> rfl

/-- The same for the byte that carries a digit to the base 64. -/
theorem run_continuation {p : Pending} {n : Nat} (hn : n < 64) (hlow : p.low ≤ n + 128)
    (hhigh : n + 128 ≤ p.high) (rest : List UInt8) :
    run (some p) (UInt8.ofNat (n + 128) :: rest) =
      match p.more with
      | 0 => .char (Char.ofNat (p.value * 64 + n)) :: run none rest
      | more + 1 => run (some ⟨more, 0x80, 0xBF, p.value * 64 + n⟩) rest := by
  have hb : (UInt8.ofNat (n + 128)).toNat = n + 128 := by simp; omega
  rw [run_within (hb.symm ▸ ⟨hlow, hhigh⟩), hb, Nat.add_sub_cancel]

/-- The first byte of a character of several bytes leaves the machine waiting for the others. -/
theorem run_lead {n : Nat} {p : Pending} (hn : n < 256) (h : first n = ([], some p))
    (rest : List UInt8) : run none (UInt8.ofNat n :: rest) = run (some p) rest := by
  have hb : (UInt8.ofNat n).toNat = n := by simp; omega
  rw [run, hb, feed, h]
  rfl

/-- The first of three bytes. The range it sets for the second holds the second byte of every
character that is not a surrogate. -/
theorem first_of_three {v : Nat} (hlow : 0x800 ≤ v) (hhigh : v ≤ 0xFFFF)
    (hvalid : v < 0xD800 ∨ 0xDFFF < v) :
    ∃ p : Pending, first (v / 4096 % 16 + 224) = ([], some p) ∧ p.more = 1 ∧
      p.value = v / 4096 ∧ p.low ≤ v / 64 % 64 + 128 ∧ v / 64 % 64 + 128 ≤ p.high := by
  -- two first bytes narrow the range of the second, against long forms and surrogates
  by_cases h0 : v / 4096 = 0
  · refine ⟨⟨1, 0xA0, 0xBF, 0⟩, ?_, rfl, by simp [h0], by simp; omega, by simp; omega⟩
    rw [h0]
    rfl
  · by_cases hd : v / 4096 = 13
    · refine ⟨⟨1, 0x80, 0x9F, 13⟩, ?_, rfl, by simp; omega, by simp, by simp; omega⟩
      rw [hd]
      rfl
    · refine ⟨⟨1, 0x80, 0xBF, v / 4096 % 16⟩, ?_, rfl, by simp; omega, by simp, by simp; omega⟩
      unfold first
      rw [if_neg (by omega), if_neg (by omega), if_neg (by omega), if_neg (by omega),
        if_neg (by omega), if_pos (by omega)]
      simp

/-- The first of four bytes. -/
theorem first_of_four {v : Nat} (hlow : 0x10000 ≤ v) (hhigh : v < 0x110000) :
    ∃ p : Pending, first (v / 262144 % 8 + 240) = ([], some p) ∧ p.more = 2 ∧
      p.value = v / 262144 ∧ p.low ≤ v / 4096 % 64 + 128 ∧ v / 4096 % 64 + 128 ≤ p.high := by
  -- two first bytes narrow the range of the second, against long forms and too great values
  by_cases h0 : v / 262144 = 0
  · refine ⟨⟨2, 0x90, 0xBF, 0⟩, ?_, rfl, by simp; omega, by simp; omega, by simp; omega⟩
    rw [h0]
    rfl
  · by_cases hd : v / 262144 = 4
    · refine ⟨⟨2, 0x80, 0x8F, 4⟩, ?_, rfl, by simp; omega, by simp, by simp; omega⟩
      rw [hd]
      rfl
    · refine ⟨⟨2, 0x80, 0xBF, v / 262144 % 8⟩, ?_, rfl, by simp; omega, by simp, by simp; omega⟩
      unfold first
      rw [if_neg (by omega), if_neg (by omega), if_neg (by omega), if_neg (by omega),
        if_neg (by omega), if_neg (by omega), if_neg (by omega), if_pos (by omega)]
      simp

/-- **The bytes of a character are read as that character,** whatever comes behind them. -/
theorem run_utf8EncodeChar (c : Char) (rest : List UInt8) :
    run none (String.utf8EncodeChar c ++ rest) = .char c :: run none rest := by
  obtain ⟨v, hv⟩ : ∃ v, v = c.val.toNat := ⟨_, rfl⟩
  have hc : Char.ofNat v = c := by rw [hv]; exact Char.ofNat_toNat c
  have hvalid : v < 0xD800 ∨ (0xDFFF < v ∧ v < 0x110000) := hv ▸ c.valid
  unfold String.utf8EncodeChar
  simp only [← hv]
  split
  · next h =>
    have hb : (UInt8.ofNat v).toNat = v := by simp; omega
    rw [List.cons_append, run, hb, feed, first, if_pos (by omega), hc]
    rfl
  · split
    · next h0 h =>
      have hfirst : first (v / 64 % 32 + 192) = ([], some ⟨0, 0x80, 0xBF, v / 64⟩) := by
        unfold first
        rw [if_neg (by omega), if_neg (by omega), if_pos (by omega)]
        simp
        omega
      rw [List.cons_append, run_lead (by omega) hfirst, List.cons_append,
        run_continuation (by omega) (by simp) (by simp; omega), List.nil_append]
      simp only
      rw [show v / 64 * 64 + v % 64 = v by omega, hc]
    · split
      · next h0 h1 h =>
        obtain ⟨p, hfirst, hmore, hvalue, hl, hh⟩ :=
          first_of_three (v := v) (by omega) (by omega) (by omega)
        rw [List.cons_append, run_lead (by omega) hfirst, List.cons_append,
          run_continuation (by omega) hl hh, hmore, hvalue]
        simp only
        rw [List.cons_append, run_continuation (by omega) (by simp) (by simp; omega),
          List.nil_append]
        simp only
        rw [show (v / 4096 * 64 + v / 64 % 64) * 64 + v % 64 = v by omega, hc]
      · next h0 h1 h2 =>
        obtain ⟨p, hfirst, hmore, hvalue, hl, hh⟩ :=
          first_of_four (v := v) (by omega) (by omega)
        rw [List.cons_append, run_lead (by omega) hfirst, List.cons_append,
          run_continuation (by omega) hl hh, hmore, hvalue]
        simp only
        rw [List.cons_append, run_continuation (by omega) (by simp) (by simp; omega)]
        simp only
        rw [List.cons_append, run_continuation (by omega) (by simp) (by simp; omega),
          List.nil_append]
        simp only
        rw [show ((v / 262144 * 64 + v / 4096 % 64) * 64 + v / 64 % 64) * 64 + v % 64 = v by omega,
          hc]

/-- The pieces of well-formed bytes are the characters that they encode. -/
theorem pieces_encode (cs : List Char) : pieces (encode cs) = cs.map .char := by
  induction cs with
  | nil => rfl
  | cons c rest ih =>
    rw [pieces, encode, List.flatMap_cons, run_utf8EncodeChar, List.map_cons]
    exact congrArg _ ih

/-- **Decoding gives back what was encoded.** -/
theorem decode?_encode (cs : List Char) : decode? (encode cs) = some cs := by
  rw [decode?, pieces_encode]
  induction cs with
  | nil => rfl
  | cons c rest ih => simp [Piece.char?, ih]

/-- Lossy decoding changes nothing that is well formed. -/
theorem decodeLossy_encode (cs : List Char) : decodeLossy (encode cs) = cs := by
  simp [decodeLossy, pieces_encode, Function.comp_def, Piece.lossy]

theorem string?_ofString (s : String) : string? (ofString s) = some s := by
  simp [string?, ofString, decode?_encode]

end Telemetry.Utf8
