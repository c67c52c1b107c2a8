import Mathlib.Data.List.Induction
import Mathlib.Data.Nat.Find
import Telemetry.Text.Utf8

/-!
# Characters and ill-formed subparts

Bytes that need not be UTF-8 are cut into characters and ill-formed subparts. `Segmented` says how,
without a machine: where a character begins, it is the next piece; where none begins, the next piece
is the longest stretch that is the beginning of some character, or one byte if no stretch is
(`IsSubpart`).

The machine of `Utf8.run` reads byte by byte and never looks ahead. That it cuts in the same way
(`segmented_iff`) rests on `Begun`, which ties what the machine holds to the bytes that it has read
of a character. The two facts about it say that the machine goes on exactly as long as it should:
the bytes of a character do not stop it before their end (`begun_of_bytes`), and a byte that does
not stop it leaves the beginning of a character behind (`Begun.opens`).

With U+FFFD in the place of each subpart, a text shows the bytes as well as it can: `Utf8.Shows`.
-/

namespace Telemetry.Utf8

/-! ### One byte at a time -/

/-- A byte out of place is a piece of its own with what was begun, and is then read afresh. -/
theorem run_without {p : Pending} {b : UInt8} (h : ¬ (p.low ≤ b.toNat ∧ b.toNat ≤ p.high))
    (rest : List UInt8) : run (some p) (b :: rest) = .stray :: run none (b :: rest) := by
  rw [run, feed, if_neg h]
  rfl

/-- The machine gives out a piece or holds a character. -/
theorem feed_fst_ne_nil {state : Option Pending} {b : Nat} (h : (feed state b).2 = none) :
    (feed state b).1 ≠ [] := by
  have hfirst : (first b).2 = none → (first b).1 ≠ [] := by
    unfold first
    grind
  cases state with
  | none => exact hfirst h
  | some p =>
    unfold feed at h ⊢
    grind

/-- Nothing comes out only of nothing. -/
theorem run_eq_nil_iff {state : Option Pending} {bytes : List UInt8} :
    run state bytes = [] ↔ state = none ∧ bytes = [] := by
  -- a byte that gives out nothing is held, and what is held comes out later
  induction bytes generalizing state with
  | nil => cases state <;> simp [run]
  | cons b rest ih =>
    rw [run, List.append_eq_nil_iff, ih]
    constructor
    · rintro ⟨hpieces, hstate, -⟩
      exact absurd hpieces (feed_fst_ne_nil hstate)
    · rintro ⟨-, h⟩
      cases h

/-- A byte where a character may begin is a character, stands for nothing, or begins one. -/
theorem first_cases (b : Nat) :
    (b < 0x80 ∧ first b = ([.char (Char.ofNat b)], none)) ∨ first b = ([.stray], none) ∨
      ∃ p, first b = ([], some p) := by
  unfold first
  grind

/-- What the first byte `b` of a character leaves to be read. The number `n` that the first two
bytes write is neither too small for the length of the character, nor too great, nor that of a
surrogate. -/
theorem bounds_of_first {b : Nat} {p : Pending} (h : first b = ([], some p)) {x n : Nat}
    (hx : p.low ≤ x ∧ x ≤ p.high) (hn : n = p.value * 64 + (x - 0x80)) :
    0x80 ≤ x ∧ x ≤ 0xBF ∧
      ((p.more = 0 ∧ b = p.value + 0xC0 ∧ 0x80 ≤ n ∧ n < 0x800) ∨
        (p.more = 1 ∧ b = p.value + 0xE0 ∧ 0x20 ≤ n ∧ n < 0x400 ∧ (n < 0x360 ∨ 0x37F < n)) ∨
        (p.more = 2 ∧ b = p.value + 0xF0 ∧ 0x10 ≤ n ∧ n < 0x110)) := by
  obtain ⟨more, low, high, value⟩ := p
  -- the seven kinds of first bytes; four of them bound the second byte more closely than others
  have hlead : (0xC2 ≤ b ∧ b < 0xE0 ∧ more = 0 ∧ low = 0x80 ∧ high = 0xBF ∧ value = b - 0xC0) ∨
      (b = 0xE0 ∧ more = 1 ∧ low = 0xA0 ∧ high = 0xBF ∧ value = 0) ∨
      (b = 0xED ∧ more = 1 ∧ low = 0x80 ∧ high = 0x9F ∧ value = 13) ∨
      (0xE0 < b ∧ b < 0xF0 ∧ b ≠ 0xED ∧ more = 1 ∧ low = 0x80 ∧ high = 0xBF ∧ value = b - 0xE0) ∨
      (b = 0xF0 ∧ more = 2 ∧ low = 0x90 ∧ high = 0xBF ∧ value = 0) ∨
      (0xF0 < b ∧ b < 0xF4 ∧ more = 2 ∧ low = 0x80 ∧ high = 0xBF ∧ value = b - 0xF0) ∨
      (b = 0xF4 ∧ more = 2 ∧ low = 0x80 ∧ high = 0x8F ∧ value = 4) := by
    rw [first] at h
    grind
  dsimp only at hx hn ⊢
  rcases hlead with hlead | hlead | hlead | hlead | hlead | hlead | hlead <;> omega

/-! ### Characters that have been begun -/

/-- The bytes are the beginning of a character, or all of it. -/
def Opens (bytes : List UInt8) : Prop :=
  ∃ c, bytes <+: String.utf8EncodeChar c

/-- The bytes that have been read of a character, and what is held of it. -/
inductive Begun : List UInt8 → Pending → Prop
  | first {b : UInt8} {p : Pending} (h : first b.toNat = ([], some p)) : Begun [b] p
  | next {part : List UInt8} {p : Pending} {b : UInt8} {more : Nat} (h : Begun part p)
    (hmore : p.more = more + 1) (hb : p.low ≤ b.toNat ∧ b.toNat ≤ p.high) :
    Begun (part ++ [b]) ⟨more, 0x80, 0xBF, p.value * 64 + (b.toNat - 0x80)⟩

theorem Begun.run {part : List UInt8} {p : Pending} (h : Begun part p) (rest : List UInt8) :
    run none (part ++ rest) = run (some p) rest := by
  -- no byte of a beginning gives out a piece
  induction h generalizing rest with
  | first h =>
    rw [List.singleton_append, Utf8.run, feed, h]
    rfl
  | next h hmore hb ih =>
    rw [List.append_assoc, ih, List.singleton_append, run_within hb, hmore]

/-- At most two bytes come after the next one. -/
theorem Begun.more_le {part : List UInt8} {p : Pending} (h : Begun part p) : p.more ≤ 2 := by
  induction h with
  | first h =>
    rw [Utf8.first] at h
    grind
  | next h hmore hb ih => dsimp only; omega

/-- **The bytes of a character keep the machine reading** until its last byte. -/
theorem begun_of_bytes {c : Char} {part rest : List UInt8} (hpart : part ≠ []) (hrest : rest ≠ [])
    (h : part ++ rest = String.utf8EncodeChar c) : ∃ p, Begun part p := by
  have hrun : run none (part ++ rest) = [.char c] := by
    rw [h, ← List.append_nil (String.utf8EncodeChar c), run_utf8EncodeChar]
    rfl
  clear h
  -- something always comes out behind `part`, so nothing may come out before: the induction takes
  -- bytes from `rest` into `part`
  have hlast : run none rest ≠ [] := fun hnil => hrest (run_eq_nil_iff.mp hnil).2
  induction part using List.reverseRecOn generalizing rest with
  | nil => exact absurd rfl hpart
  | append_singleton part b ih =>
    rw [List.append_assoc, List.singleton_append] at hrun
    by_cases hnil : part = []
    · subst hnil
      rw [List.nil_append, run, feed] at hrun
      rcases first_cases b.toNat with ⟨-, hfirst⟩ | hfirst | ⟨p, hfirst⟩
      · -- one character is all that may come out, so `rest` would be empty
        rw [hfirst] at hrun
        exact absurd (List.cons.inj hrun).2 hlast
      · -- and it is no stray piece
        rw [hfirst] at hrun
        exact Piece.noConfusion (List.cons.inj hrun).1
      · exact ⟨p, .first hfirst⟩
    · obtain ⟨p, hp⟩ := ih hnil (List.cons_ne_nil b rest) hrun
        fun hempty => List.cons_ne_nil b rest (run_eq_nil_iff.mp hempty).2
      rw [hp.run] at hrun
      by_cases hb : p.low ≤ b.toNat ∧ b.toNat ≤ p.high
      · rw [run_within hb] at hrun
        cases hmore : p.more with
        | zero =>
          rw [hmore] at hrun
          exact absurd (List.cons.inj hrun).2 hlast
        | succ more => exact ⟨_, hp.next hmore hb⟩
      · rw [run_without hb] at hrun
        exact Piece.noConfusion (List.cons.inj hrun).1

/-- A number that is neither a surrogate nor too great is the code of its character. -/
theorem toNat_val_ofNat {n : Nat} (h : n < 0xD800 ∨ (0xDFFF < n ∧ n < 0x110000)) :
    (Char.ofNat n).val.toNat = n := by
  rw [Char.ofNat, dif_pos h]
  rfl

theorem ofNat_eq {n : Nat} {b : UInt8} (h : n = b.toNat) : UInt8.ofNat n = b := by
  rw [h, UInt8.ofNat_toNat]

/-- The byte that completes a character makes its encoding whole. -/
theorem Begun.encode {part : List UInt8} {p : Pending} {b : UInt8} (h : Begun part p)
    (hmore : p.more = 0) (hb : p.low ≤ b.toNat ∧ b.toNat ≤ p.high) :
    String.utf8EncodeChar (Char.ofNat (p.value * 64 + (b.toNat - 0x80))) = part ++ [b] := by
  unfold String.utf8EncodeChar
  -- a character has as many bytes as its first byte says
  cases h with
  -- two bytes: the first and this one
  | first hfirst =>
    obtain ⟨hlow, hhigh, hbounds⟩ := bounds_of_first hfirst hb rfl
    rw [toNat_val_ofNat (by omega), if_neg (by omega), if_pos (by omega)]
    simp only [List.cons_append, List.nil_append, List.cons.injEq, and_true]
    exact ⟨ofNat_eq (by omega), ofNat_eq (by omega)⟩
  | @next _ _ b₁ _ h hmore₁ hb₁ =>
    dsimp only at hmore hb ⊢
    subst hmore
    cases h with
    | first hfirst =>
      -- three bytes
      obtain ⟨hlow, hhigh, hbounds⟩ := bounds_of_first hfirst hb₁ rfl
      rw [toNat_val_ofNat (by omega), if_neg (by omega), if_neg (by omega), if_pos (by omega)]
      simp only [List.cons_append, List.nil_append, List.cons.injEq, and_true]
      exact ⟨ofNat_eq (by omega), ofNat_eq (by omega), ofNat_eq (by omega)⟩
    | @next _ _ b₂ _ h hmore₂ hb₂ =>
      dsimp only at hmore₁ hb₁ ⊢
      subst hmore₁
      cases h with
      | first hfirst =>
        -- four bytes
        obtain ⟨hlow, hhigh, hbounds⟩ := bounds_of_first hfirst hb₂ rfl
        rw [toNat_val_ofNat (by omega), if_neg (by omega), if_neg (by omega), if_neg (by omega)]
        simp only [List.cons_append, List.nil_append, List.cons.injEq, and_true]
        exact ⟨ofNat_eq (by omega), ofNat_eq (by omega), ofNat_eq (by omega), ofNat_eq (by omega)⟩
      | next h hmore₃ hb₃ =>
        -- no character has five bytes
        have hle := h.more_le
        dsimp only at hmore₂
        omega

/-- **A byte that the machine goes on with** is one more byte of some character. -/
theorem Begun.opens {part : List UInt8} {p : Pending} {b : UInt8} (h : Begun part p)
    (hb : p.low ≤ b.toNat ∧ b.toNat ≤ p.high) : Opens (part ++ [b]) := by
  -- by induction on the number of bytes that are missing behind this one
  induction hmore : p.more generalizing part p b with
  | zero => exact ⟨_, [], (List.append_nil _).trans (h.encode hmore hb).symm⟩
  | succ more ih =>
    -- the least continuation bytes complete the character
    obtain ⟨c, hc⟩ := ih (h.next hmore hb) (b := 0x80) ⟨Nat.le_refl 0x80, by simp⟩ rfl
    exact ⟨c, (List.prefix_append _ _).trans hc⟩

/-! ### Ill-formed subparts -/

/-- **A maximal ill-formed subpart**, with the bytes behind it: no character begins where it begins,
and it is the longest beginning of a character there, or one byte. -/
structure IsSubpart (part rest : List UInt8) : Prop where
  ne_nil : part ≠ []
  unconvertible : ∀ c, ¬ String.utf8EncodeChar c <+: part ++ rest
  opens : part.length = 1 ∨ Opens part
  longest : ∀ longer, longer <+: part ++ rest → Opens longer → longer.length ≤ part.length

/-- **The pieces of a text:** its characters and its maximal ill-formed subparts, in order. -/
inductive Segmented : List UInt8 → List Piece → Prop
  | nil : Segmented [] []
  | char (c : Char) {rest : List UInt8} {ps : List Piece} (h : Segmented rest ps) :
    Segmented (String.utf8EncodeChar c ++ rest) (.char c :: ps)
  | stray {part rest : List UInt8} {ps : List Piece} (hpart : IsSubpart part rest)
    (h : Segmented rest ps) : Segmented (part ++ rest) (.stray :: ps)

theorem utf8EncodeChar_of_lt {b : UInt8} (h : b.toNat < 0x80) :
    String.utf8EncodeChar (Char.ofNat b.toNat) = [b] := by
  unfold String.utf8EncodeChar
  rw [toNat_val_ofNat (by omega), if_pos (by omega), UInt8.ofNat_toNat]

/-- A subpart is one byte that begins nothing, or it begins a character. -/
theorem IsSubpart.stray_or_begun {part rest : List UInt8} (h : IsSubpart part rest) :
    run none (part ++ rest) = .stray :: run none rest ∨ ∃ p, Begun part p := by
  rcases h.opens with hlength | ⟨c, tail, hc⟩
  · obtain ⟨b, rfl⟩ := List.length_eq_one_iff.mp hlength
    -- one byte: no character by itself, so it is stray or begins one
    rcases first_cases b.toNat with ⟨hb, -⟩ | hfirst | ⟨p, hfirst⟩
    · refine absurd ?_ (h.unconvertible (Char.ofNat b.toNat))
      rw [utf8EncodeChar_of_lt hb]
      exact List.prefix_append _ _
    · left
      rw [List.singleton_append, run, feed, hfirst]
      rfl
    · exact .inr ⟨p, .first hfirst⟩
  · -- the beginning of a character, without the last bytes of it
    refine .inr (begun_of_bytes h.ne_nil ?_ hc)
    -- a character that is there as a whole would not be ill formed
    rintro rfl
    rw [List.append_nil] at hc
    exact h.unconvertible c (hc ▸ List.prefix_append _ _)

/-- The machine makes one piece of a subpart. -/
theorem IsSubpart.run {part rest : List UInt8} (h : IsSubpart part rest) :
    run none (part ++ rest) = .stray :: run none rest := by
  rcases h.stray_or_begun with hstray | ⟨p, hp⟩
  · exact hstray
  · rw [hp.run]
    cases rest with
    | nil => rfl
    | cons b rest =>
      refine run_without (fun hb => ?_) rest
      -- otherwise the subpart would be longer by this byte
      have hprefix : part ++ [b] <+: part ++ b :: rest :=
        (List.prefix_append_right_inj part).mpr (List.prefix_append [b] rest)
      have hle := h.longest _ hprefix (hp.opens hb)
      rw [List.length_append, List.length_singleton] at hle
      omega

theorem pieces_of_segmented {bytes : List UInt8} {ps : List Piece} (h : Segmented bytes ps) :
    pieces bytes = ps := by
  -- piece by piece; a character and a subpart each leave the machine with nothing in hand
  induction h with
  | nil => rfl
  | char c h ih => rw [pieces, run_utf8EncodeChar, ← ih, pieces]
  | stray hpart h ih => rw [pieces, hpart.run, ← ih, pieces]

open Classical in
/-- Where no character begins, a subpart does. -/
theorem exists_subpart {bytes : List UInt8} (hne : bytes ≠ [])
    (h : ∀ c, ¬ String.utf8EncodeChar c <+: bytes) :
    ∃ part rest, bytes = part ++ rest ∧ IsSubpart part rest := by
  have hpos : 1 ≤ bytes.length := List.length_pos_iff.mpr hne
  let Fits (n : Nat) : Prop := n = 1 ∨ Opens (bytes.take n)
  -- the longest stretch that is the beginning of a character, or one byte
  obtain ⟨n, hn⟩ : ∃ n, n = Nat.findGreatest Fits bytes.length := ⟨_, rfl⟩
  have hone : 1 ≤ n := hn ▸ Nat.le_findGreatest hpos (.inl rfl)
  have hle : n ≤ bytes.length := hn ▸ Nat.findGreatest_le bytes.length
  have hfits : Fits n := hn ▸ Nat.findGreatest_spec hpos (.inl rfl)
  have hlength : (bytes.take n).length = n := List.length_take_of_le hle
  have hjoin : bytes.take n ++ bytes.drop n = bytes := List.take_append_drop n bytes
  refine ⟨bytes.take n, bytes.drop n, hjoin.symm, ?_, ?_, ?_, ?_⟩
  · refine List.ne_nil_of_length_pos ?_
    omega
  · rwa [hjoin]
  · rwa [hlength]
  · -- a longer one would have been found in its stead
    intro longer hprefix hopens
    rw [hjoin] at hprefix
    have htake : bytes.take longer.length = longer := (List.prefix_iff_eq_take.mp hprefix).symm
    rw [hlength, hn]
    exact Nat.le_findGreatest hprefix.length_le (.inr (htake.symm ▸ hopens))

/-- All bytes are characters and ill-formed subparts. -/
theorem exists_segmented (bytes : List UInt8) : ∃ ps, Segmented bytes ps := by
  induction hlength : bytes.length using Nat.strong_induction_on generalizing bytes with
  | _ length ih =>
    -- every piece takes a byte at least, which makes what is left shorter
    by_cases hne : bytes = []
    · exact ⟨[], hne ▸ .nil⟩
    by_cases hchar : ∃ c, String.utf8EncodeChar c <+: bytes
    · obtain ⟨c, rest, rfl⟩ := hchar
      have hpos := List.length_pos_iff.mpr (String.utf8EncodeChar_ne_nil (c := c))
      rw [List.length_append] at hlength
      obtain ⟨ps, hps⟩ := ih rest.length (by omega) rest rfl
      exact ⟨_, .char c hps⟩
    · -- no character begins here, so a subpart does
      obtain ⟨part, rest, rfl, hpart⟩ := exists_subpart hne (not_exists.mp hchar)
      have hpos := List.length_pos_iff.mpr hpart.ne_nil
      rw [List.length_append] at hlength
      obtain ⟨ps, hps⟩ := ih rest.length (by omega) rest rfl
      exact ⟨_, .stray hpart hps⟩

/-- **The machine cuts a text into its pieces,** and into nothing else. -/
theorem segmented_iff {bytes : List UInt8} {ps : List Piece} :
    Segmented bytes ps ↔ ps = pieces bytes := by
  constructor
  · intro h
    exact (pieces_of_segmented h).symm
  · rintro rfl
    obtain ⟨ps, hps⟩ := exists_segmented bytes
    rwa [pieces_of_segmented hps]

/-- Three bytes of four and two bytes of three are one subpart each; a byte that can only continue
is one by itself. -/
example :
    pieces [0x61, 0xF1, 0x80, 0x80, 0xE1, 0x80, 0xC2, 0x62, 0x80, 0x63, 0x80, 0xBF, 0x64] =
      [.char 'a', .stray, .stray, .stray, .char 'b', .stray, .char 'c', .stray, .stray,
        .char 'd'] := by
  decide

/-! ### What is shown of bytes -/

/-- The ASCII bytes, in order. -/
def asciiPart (bytes : List UInt8) : List UInt8 :=
  bytes.filter (· < 0x80)

@[simp] theorem asciiPart_append (a b : List UInt8) :
    asciiPart (a ++ b) = asciiPart a ++ asciiPart b :=
  List.filter_append ..

theorem asciiPart_eq_nil {bytes : List UInt8} (h : ∀ b ∈ bytes, 0x80 ≤ b) :
    asciiPart bytes = [] :=
  List.filter_eq_nil_iff.mpr fun b hb => by simpa using h b hb

/-- A subpart holds no byte of ASCII, which would be a character by itself. -/
theorem IsSubpart.asciiPart {part rest : List UInt8} (h : IsSubpart part rest) :
    asciiPart part = [] := by
  refine asciiPart_eq_nil fun b hb => ?_
  by_contra hlt
  have hascii : b.toNat < 0x80 := by
    rw [UInt8.not_le] at hlt
    exact hlt
  have hchar := utf8EncodeChar_of_lt hascii
  -- a byte of ASCII would be the whole subpart, and then a character, or a later byte of one
  rcases h.opens with hlength | ⟨c, hc⟩
  · obtain ⟨d, rfl⟩ := List.length_eq_one_iff.mp hlength
    rw [List.mem_singleton.mp hb] at hchar
    refine h.unconvertible (Char.ofNat d.toNat) ?_
    rw [hchar]
    exact List.prefix_append _ _
  · rcases utf8EncodeChar_cases c with ⟨-, hsingle⟩ | ⟨-, hbeyond⟩
    · -- a character of one byte has no other beginning than itself
      have hpart : part = String.utf8EncodeChar c := by
        refine hc.eq_of_length_le ?_
        rw [hsingle]
        exact List.length_pos_iff.mpr h.ne_nil
      exact h.unconvertible c (hpart ▸ List.prefix_append _ _)
    · exact hlt (hbeyond b (hc.subset hb))

theorem Segmented.asciiPart_encode {bytes : List UInt8} {ps : List Piece}
    (h : Segmented bytes ps) :
    asciiPart (encode (ps.map Piece.lossy)) = Utf8.asciiPart bytes := by
  induction h with
  | nil => rfl
  | char c h ih => rw [List.map_cons, encode_cons, asciiPart_append, asciiPart_append, ih]; rfl
  | stray hpart h ih =>
    -- U+FFFD is beyond ASCII, too
    have hreplacement : Utf8.asciiPart (String.utf8EncodeChar (Piece.lossy .stray)) = [] := by
      decide
    rw [List.map_cons, encode_cons, asciiPart_append, asciiPart_append, ih, hpart.asciiPart,
      hreplacement]

/-- **The text shows the bytes.** If they are UTF-8, it is the text that they encode. Otherwise it
has their characters in order, and one U+FFFD for each maximal ill-formed subpart. So it has all
their ASCII, it is empty only if they are none, and reading its own bytes does not change it. -/
structure Shows (bytes : List UInt8) (text : String) : Prop where
  exact : ∀ other, ofString other = bytes → text = other
  pieces : ∃ ps, Segmented bytes ps ∧ text = String.ofList (ps.map Piece.lossy)
  unique : ∀ ps others, Segmented bytes ps → Segmented bytes others → ps = others
  ascii : asciiPart (ofString text) = asciiPart bytes
  ne_empty : bytes ≠ [] → text ≠ ""
  again : stringLossy (ofString text) = text

theorem stringLossy_ofString (text : String) : stringLossy (ofString text) = text := by
  rw [stringLossy, ofString, decodeLossy_encode, String.ofList_toList]

/-- **Lossy decoding shows the bytes.** -/
theorem shows_stringLossy (bytes : List UInt8) : Shows bytes (stringLossy bytes) where
  exact other h := by rw [← h, stringLossy_ofString]
  pieces := ⟨Utf8.pieces bytes, segmented_iff.mpr rfl, rfl⟩
  unique ps others h h' := (segmented_iff.mp h).trans (segmented_iff.mp h').symm
  ascii := by
    have hsegmented : Segmented bytes (Utf8.pieces bytes) := segmented_iff.mpr rfl
    rw [ofString, stringLossy, String.toList_ofList, decodeLossy, hsegmented.asciiPart_encode]
  ne_empty hne hempty := by
    -- each piece shows as a character, so no character means no piece
    have hnil : decodeLossy bytes = [] := by
      rw [← String.toList_ofList (l := decodeLossy bytes), ← stringLossy, hempty]
      rfl
    exact hne (run_eq_nil_iff.mp (List.map_eq_nil_iff.mp hnil)).2
  again := stringLossy_ofString _

end Telemetry.Utf8
