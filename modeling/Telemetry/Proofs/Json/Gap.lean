import Telemetry.Proofs.Json.Around

/-!
# Integers in a gap of a text

A text with a gap becomes a text when something is put into the gap. Here these are integers, of any
size. Where the gap is can be said without a reader of records: `Gapped.Leads` asks that the gap is
between tokens, that what is behind it cannot prolong a numeral, and that a path leads to it.

The text is then cut into the same tokens around the gap and gathered into the same tree for every
integer (`Gapped.Leads.exists_around`). What differs is the number: an integer of 64 bits is there
as it was written, and of one that is greater all that matters is that no integer is there
(`Token.cut_ofInt`). Every text of a value, in any layout, has a gap for each of its integers
(`Gapped.exists_leads`).

A text is cut into at most as many tokens as it has bytes, since every token has a byte of its own
(`Token.length_cut`). That is why the number of tokens that `Token.ofText` allows for never matters
(`Token.upTo_eq_ofText`), and the tokens behind a part of a text are those of the rest.
-/

namespace Telemetry

/-! ### Tokens and bytes -/

namespace Token

/-- What is behind the closing quote of a text is a rest of the bytes. -/
theorem length_of_quote {state : TextState} {bytes rest : List UInt8} {pieces : List Piece}
    (h : textPieces state bytes = (pieces, .quote rest)) : rest.length < bytes.length := by
  -- by induction on the bytes, for each of the three states the reader can be in
  induction bytes generalizing state pieces with
  | nil => cases state <;> cases h
  | cons b bytes ih =>
    -- whatever the byte is, it is gone before the rest is looked at
    have hmore : ∀ {state'}, (textPieces state' bytes).2 = .quote rest →
        rest.length < (b :: bytes).length :=
      fun h => Nat.lt_succ_of_lt (ih (Prod.ext rfl h))
    have hstop : (textPieces state (b :: bytes)).2 = .quote rest := by rw [h]
    cases state with
    -- the quote ends the text here; anything else is read on
    | plain =>
      rw [textPieces] at hstop
      split at hstop
      · obtain rfl := Stop.quote.inj hstop
        exact Nat.lt_succ_self _
      · split at hstop
        · cases hstop
        · split at hstop
          · exact hmore hstop
          · exact hmore hstop
    -- a letter behind a backslash, or the beginning of a code unit
    | escaped =>
      rw [textPieces] at hstop
      split at hstop
      · split at hstop
        · exact hmore hstop
        · cases hstop
      · split at hstop
        · cases hstop
        · exact hmore hstop
    -- a digit of a code unit, the last of them or not
    | digits more value =>
      rw [textPieces.eq_def] at hstop
      simp only at hstop
      split at hstop
      · cases hstop
      · exact hmore hstop
      · exact hmore hstop

theorem length_cutText (bytes : List UInt8) : (cutText bytes).2.length ≤ bytes.length := by
  rw [cutText]
  split
  · next h => exact Nat.le_of_lt (length_of_quote h)
  · exact Nat.zero_le _

theorem length_cutWord (t : Token) (word bytes : List UInt8) :
    (cutWord t word bytes).2.length ≤ bytes.length := by
  -- the word is compared byte by byte
  induction word generalizing bytes with
  | nil => exact Nat.le_refl _
  | cons w word ih =>
    cases bytes with
    | nil => exact Nat.le_refl _
    | cons b bytes =>
      rw [cutWord]
      split
      · exact Nat.le_succ_of_le (ih bytes)
      · exact Nat.zero_le _

theorem length_cutNumber (negative : Bool) (bytes : List UInt8) :
    (cutNumber negative bytes).2.length ≤ bytes.length - 1 := by
  rw [cutNumber]
  split
  · next numeral rest h =>
    obtain ⟨-, bytes₁, bytes₂, hwhole, hfraction, hexponent⟩ := Numeral.scan_eq_ok.1 h
    obtain ⟨hdigits, hne, -⟩ := Numeral.scanWhole_eq_ok.1 hwhole
    -- a numeral begins with a digit, so it cannot be cut without using up a byte
    have hpos : 0 < numeral.whole.length := List.length_pos_iff.2 hne
    have htaken : numeral.whole.length + bytes₁.length = bytes.length := by
      rw [Numeral.takeDigits, Prod.mk.injEq] at hdigits
      rw [← hdigits.1, ← hdigits.2, List.length_map, ← List.length_append,
        List.takeWhile_append_dropWhile]
    have hrest := (Numeral.scanExponent_suffix hexponent).1.length_le
    have hmiddle := (Numeral.scanFraction_suffix hfraction).1.length_le
    show rest.length ≤ bytes.length - 1
    omega
  · exact Nat.zero_le _

/-- A token has one byte at least. -/
theorem length_cut (b : UInt8) (rest : List UInt8) : (cut b rest).2.length ≤ rest.length := by
  refine cut_cases (motive := fun cut => cut.2.length ≤ rest.length) ?_ ?_ ?_ ?_ ?_ ?_
  · exact fun t _ => Nat.le_refl _
  · exact length_cutText rest
  · exact fun _ => Nat.le_trans (length_cutNumber true rest) (Nat.sub_le _ _)
  · exact fun _ => length_cutNumber false (b :: rest) -- the first digit is `b` itself
  · exact fun t word _ => length_cutWord t word rest
  · exact Nat.zero_le _

/-- What is left behind a token is shorter than the text. -/
theorem length_next? {bytes rest : List UInt8} {t : Token} (h : next? bytes = some (t, rest)) :
    rest.length < bytes.length := by
  -- white space in front can only make the rest shorter
  have hdrop := (List.dropWhile_suffix (l := bytes) isSpace).length_le
  rw [next?] at h
  split at h
  · cases h
  · next b tail heq =>
    have hcut := length_cut b tail
    rw [Option.some.inj h] at hcut
    rw [heq] at hdrop
    exact Nat.lt_of_lt_of_le (Nat.lt_succ_of_le hcut) hdrop

/-- **There are no more tokens than bytes,** so a greater bound on their number changes nothing. -/
theorem upTo_eq_ofText {bytes : List UInt8} {count : Nat} (h : bytes.length ≤ count) :
    upTo count bytes = ofText bytes := by
  -- two bounds that both allow for all bytes give the same; each token uses up one of either
  have hbound : ∀ {count bound : Nat} {bytes : List UInt8}, bytes.length ≤ count →
      bytes.length ≤ bound → upTo count bytes = upTo bound bytes := by
    intro count
    induction count with
    | zero =>
      intro bound bytes hcount _
      obtain rfl := List.length_eq_zero_iff.1 (Nat.le_zero.1 hcount)
      cases bound <;> rfl
    | succ count ih =>
      intro bound bytes hcount hbound
      cases bound with
      | zero =>
        obtain rfl := List.length_eq_zero_iff.1 (Nat.le_zero.1 hbound)
        rfl
      | succ bound =>
        rw [upTo, upTo]
        cases hnext : next? bytes with
        | none => rfl
        | some cut =>
          -- a token has been cut off, and the rest is shorter
          obtain ⟨t, rest⟩ := cut
          have hrest := length_next? hnext
          simp only [ih (Nat.le_of_lt_succ (Nat.lt_of_lt_of_le hrest hcount))
            (Nat.le_of_lt_succ (Nat.lt_of_lt_of_le hrest hbound))]
  exact hbound h (Nat.le_refl _)

theorem ofText_of_next? {bytes rest : List UInt8} {t : Token} (h : next? bytes = some (t, rest)) :
    ofText bytes = t :: ofText rest := by
  have hlength := length_next? h
  rw [← upTo_eq_ofText (Nat.le_succ bytes.length), upTo, h]
  simp only [upTo_eq_ofText (Nat.le_of_lt hlength)]

theorem ofText_of_next?_none {bytes : List UInt8} (h : next? bytes = none) : ofText bytes = [] := by
  rw [ofText]
  cases bytes.length with
  | zero => rfl
  | succ count => rw [upTo, h]

theorem ofText_space {space : List UInt8} (h : space.all isSpace = true) (bytes : List UInt8) :
    ofText (space ++ bytes) = ofText bytes := by
  have hnext : next? (space ++ bytes) = next? bytes := by rw [next?, next?, dropWhile_isSpace h]
  cases hbytes : next? bytes with
  | none => rw [ofText_of_next?_none hbytes, ofText_of_next?_none (hnext.trans hbytes)]
  | some cut =>
    obtain ⟨t, rest⟩ := cut
    rw [ofText_of_next? hbytes, ofText_of_next? (hnext.trans hbytes)]

/-- **What is in front of a number is cut into its own tokens,** whatever there is in the place of
the number. -/
theorem Spaced.ofText_append {ts ts' : List Token} {n : Except Fault Number} {text : List UInt8}
    (h : Spaced ts text) (hseparated : Separated (ts ++ .number n :: ts'))
    (hlegible : ∀ t ∈ ts, t.Legible) (bytes : List UInt8) :
    ofText (text ++ bytes) = ts ++ ofText bytes := by
  -- by induction on the text in front of the gap; each token is cut off as it was written
  induction h with
  | nil hspace => exact ofText_space hspace bytes
  | @cons t ts space lexeme rest hspace hlexeme hrest ih =>
    rw [List.forall_mem_cons] at hlegible
    have hends : t.isNumber = true → Numeral.Ends (rest ++ bytes) := by
      intro ht
      have hapart : Apart (ts ++ .number n :: ts') := hseparated.1 ht
      cases hrest with
      -- two numbers never stand side by side, so this one is not the last in front of the gap
      | nil => exact absurd (hapart _ rfl) (by simp [isNumber])
      -- what follows is the next token, which is no number
      | @cons u us space lexeme rest hspace hlexeme hrest =>
        rw [List.append_assoc, List.append_assoc]
        exact ends_append hspace (hlexeme.ends (hapart u rfl) _)
    have hnext : next? (space ++ (lexeme ++ rest) ++ bytes) = some (t, rest ++ bytes) := by
      rw [List.append_assoc, List.append_assoc]
      exact (hlexeme.cutAs hlegible.1).next? hspace hends
    rw [ofText_of_next? hnext, ih hseparated.2 hlegible.2]
    rfl

theorem separated_of_append {ts ts' : List Token} (h : Separated (ts ++ ts')) : Separated ts' := by
  induction ts with
  | nil => exact h
  | cons t ts ih => exact ih h.2

theorem Spaced.append {ts ts' : List Token} {a b : List UInt8} (ha : Spaced ts a)
    (hb : Spaced ts' b) : Spaced (ts ++ ts') (a ++ b) := by
  induction ha with
  | nil hspace => exact Json.spaced_of_space hspace hb
  | cons hspace hlexeme hrest ih =>
    rw [List.append_assoc, List.append_assoc]
    exact .cons hspace hlexeme ih

/-- A text of many tokens falls into those of the first ones, of one in the middle and of the last
ones. -/
theorem Spaced.split {ts ts' : List Token} {t : Token} {text : List UInt8}
    (h : Spaced (ts ++ t :: ts') text) : ∃ before lexeme after, text = before ++ (lexeme ++ after) ∧
      Spaced ts before ∧ Lexeme t lexeme ∧ Spaced ts' after := by
  -- the tokens in front are taken off one by one, with the white space before each
  induction ts generalizing text with
  | nil =>
    cases h with
    | cons hspace hlexeme hrest => exact ⟨_, _, _, rfl, .nil hspace, hlexeme, hrest⟩
  | cons u ts ih =>
    cases h with
    | @cons _ _ space lexeme rest hspace hu hrest =>
      obtain ⟨before, lexeme', after, rfl, hbefore, hlexeme, hafter⟩ := ih hrest
      refine ⟨space ++ (lexeme ++ before), lexeme', after, ?_, .cons hspace hu hbefore, hlexeme,
        hafter⟩
      simp only [List.append_assoc]

end Token

/-! ### Gaps -/

/-- A text with a gap. -/
structure Gapped where
  before : List UInt8
  after : List UInt8

namespace Gapped

variable {t : Gapped} {path : List Step}

/-- The text with the integer in the gap, in decimal. -/
def text (t : Gapped) (n : Int) : List UInt8 :=
  t.before ++ ((Decimal.ofInt n).map Char.toUInt8 ++ t.after)

/-- The path leads to the gap. -/
structure Leads (t : Gapped) (path : List Step) : Prop where
  /-- What is before the gap is made up of whole tokens, and whatever integer is in the gap is the
  value at the end of the path. -/
  place : ∃ ts, (∀ bytes, Token.ofText (t.before ++ bytes) = ts ++ Token.ofText bytes) ∧
    ∀ n : Int, (Raw.ofTokens (ts ++ .number (.ok (.int n)) :: Token.ofText t.after)).1.at? path =
      some (.number (.ok (.int n)))
  /-- What is behind the gap does not prolong a numeral. -/
  ends : Numeral.Ends t.after

/-- **Every text of a value has a gap for each of its integers.** The integer is the token behind
the first `count` tokens. With another integer in the gap, the text is one of the value with this
integer. -/
theorem exists_leads {j : Int → Json} (path : List Step) (count : Nat)
    (htokens : ∀ n, (j n).tokens =
      (j 0).tokens.take count ++ .number (.ok (.int n)) :: (j 0).tokens.drop (count + 1))
    (hpath : ∀ n, (Raw.ofJson (j n)).at? path = some (.number (.ok (.int n)))) {m : Int}
    {text : List UInt8} (htext : Token.Spaced (j m).tokens text) (hlegible : (j m).Legible) :
    ∃ t : Gapped, t.text m = text ∧ t.Leads path ∧ ∀ n, Token.Spaced (j n).tokens (t.text n) := by
  -- of the tokens only the one in the middle depends on the integer
  have hseparated := (j m).separated_tokens
  rw [htokens] at htext hseparated
  rw [Json.Legible, htokens] at hlegible
  obtain ⟨before, lexeme, after, rfl, hbefore, hlexeme, hafter⟩ := htext.split
  cases hlexeme -- `m` in decimal
  have hbehind := Token.separated_of_append hseparated
  -- behind the gap are the tokens behind the integer
  have hrest : Token.ofText after = (j 0).tokens.drop (count + 1) :=
    Token.ofText_spaced hafter hbehind.2 fun t ht => hlegible t (by simp [ht])
  -- with any integer these are the tokens of its value, and they gather to its tree
  have hplace : ∀ n, (Raw.ofTokens ((j 0).tokens.take count ++
      .number (.ok (.int n)) :: Token.ofText after)).1.at? path =
        some (.number (.ok (.int n))) := by
    intro n
    rw [hrest, ← htokens, (j n).ofTokens_tokens]
    exact hpath n
  refine ⟨⟨before, after⟩, rfl, ⟨⟨_, fun bytes => ?_, hplace⟩, hafter.ends (hbehind.1 rfl)⟩,
    fun n => ?_⟩
  · exact hbefore.ofText_append hseparated (fun t ht => hlegible t (by simp [ht])) bytes
  · rw [htokens n]
    exact hbefore.append (Json.spaced_cons (.number (.int n)) hafter)

/-- **A text is read as a tree around what stands in the gap,** which is the integer if it has
64 bits, and no integer otherwise. -/
theorem Leads.exists_around (h : t.Leads path) :
    ∃ (around : Raw.Around) (rest : List Token), around.At path ∧
      ∀ n, ∃ x, Raw.ofTokens (Token.ofText (t.text n)) = (around.fill x, rest) ∧
        ∀ k, x = .ok (.int k) ↔
          k = n ∧ -(Numeral.greatestBelowZero : Int) ≤ n ∧ n < (Numeral.words : Int) := by
  obtain ⟨ts, hbefore, hplace⟩ := h.place
  obtain ⟨around, rest, hat, hfill⟩ := Raw.exists_around hplace
  refine ⟨around, rest, hat, fun n => ?_⟩
  -- whatever the integer is, its digits are cut off as one number `x`
  obtain ⟨b, tail, x, hbytes, hspace, hcut, hvalue⟩ := Token.cut_ofInt n
  have hnext : Token.next? (b :: tail ++ t.after) = some (.number x, t.after) := by
    rw [Token.next?, List.cons_append, List.dropWhile_cons, hspace]
    exact congrArg some (hcut t.after h.ends)
  have htokens : Token.ofText (t.text n) = ts ++ .number x :: Token.ofText t.after := by
    rw [text, hbefore, hbytes, Token.ofText_of_next? hnext]
  exact ⟨x, htokens ▸ hfill x, hvalue⟩

end Gapped

end Telemetry
