import Telemetry.Proofs.Json.Literal
import Telemetry.Proofs.Json.Numeral

/-!
# The texts of a JSON value

A value has many texts. `Json.tokens j` is what they have in common, the tokens of the value in
their order; `Token.Lexeme t bytes` says how a token may be written, and `Token.Spaced ts text` that
`text` writes the tokens `ts` one after the other with white space before, between and behind them
as one likes. So `Token.Spaced j.tokens text` says that `text` is a text of `j`, and none of this
refers to a reader.

The main statement is `Codec.ofText_of_spaced`: every text of `j` is read as the tree of `j`,
whatever codec reads it. Behind it are the two stages of the reader. `Token.ofText_spaced` cuts the
text back into the tokens; the only thing to watch is that a number ends where it should, which it
does since no token of a value that follows a number begins like the rest of one
(`Json.separated_tokens`). `Json.ofTokens_tokens` gathers the tokens of a value into its tree.

`Json.spaced_render` says that the writer's text is one of these texts, the one without any white
space.

A number has to mean something to be read back: an integer has to fit 64 bits, and a double has to
survive its own text. `Json.Legible` asks this of every number in a value.
-/

namespace Telemetry

/-! ### Tokens and their spelling -/

namespace Token

/-- The token of a number; what is not finite is written as null. -/
def ofNumber : Number → Token
  | .int n => .number (.ok (.int n))
  | .real x => if (Decimal.binary? x).isSome then .number (.ok (.real x)) else .null

/-- The ways in which a token may be written. -/
inductive Lexeme : Token → List UInt8 → Prop where
  | openArray : Lexeme .openArray ['['.toUInt8]
  | closeArray : Lexeme .closeArray [']'.toUInt8]
  | openObject : Lexeme .openObject ['\x7b'.toUInt8]
  | closeObject : Lexeme .closeObject ['\x7d'.toUInt8]
  | comma : Lexeme .comma [','.toUInt8]
  | colon : Lexeme .colon [':'.toUInt8]
  | nullWord : Lexeme .null (Ascii.bytes "null")
  | trueWord : Lexeme (.bool true) (Ascii.bytes "true")
  | falseWord : Lexeme (.bool false) (Ascii.bytes "false")
  | number (n : Number) : Lexeme (.number (.ok n)) (n.text.map Char.toUInt8)
  | text {s : String} {body : List UInt8} (h : Json.Literal s.toList body) :
      Lexeme (.text (.ok s)) ('"'.toUInt8 :: (body ++ ['"'.toUInt8]))

/-- The text writes the tokens in their order, with white space around them. -/
inductive Spaced : List Token → List UInt8 → Prop where
  | nil {space : List UInt8} (hspace : space.all isSpace = true) : Spaced [] space
  | cons {t : Token} {ts : List Token} {space lexeme rest : List UInt8}
      (hspace : space.all isSpace = true) (h : Lexeme t lexeme) (hrest : Spaced ts rest) :
      Spaced (t :: ts) (space ++ (lexeme ++ rest))

/-- The token is a number. -/
def isNumber : Token → Bool
  | .number _ => true
  | _ => false

/-- The tokens do not begin with a number. -/
def Apart (ts : List Token) : Prop :=
  ∀ t, ts.head? = some t → t.isNumber = false

/-- No two numbers stand side by side. -/
def Separated : List Token → Prop
  | [] => True
  | t :: rest => (t.isNumber = true → Apart rest) ∧ Separated rest

end Token

/-- The number is read back from its text. -/
def Number.Legible : Number → Prop
  | .int n => -(Numeral.greatestBelowZero : Int) ≤ n ∧ n < (Numeral.words : Int)
  | .real x => Number.Stable x

/-- The token is no number that would not be read back. -/
def Token.Legible (t : Token) : Prop :=
  ∀ n, t = .number (.ok n) → n.Legible

namespace Json

mutual

/-- The tokens of a value. -/
def tokens : Json → List Token
  | .null => [.null]
  | .bool b => [.bool b]
  | .number n => [.ofNumber n]
  | .text s => [.text (.ok s)]
  | .array [] => [.openArray, .closeArray]
  | .array (item :: rest) => .openArray :: (tokens item ++ itemTokens rest)
  | .object [] => [.openObject, .closeObject]
  | .object ((key, value) :: rest) =>
    .openObject :: .text (.ok key) :: .colon :: (tokens value ++ memberTokens rest)

/-- The tokens of the items behind the first, and of the end of the array. -/
def itemTokens : List Json → List Token
  | [] => [.closeArray]
  | item :: rest => .comma :: (tokens item ++ itemTokens rest)

/-- The tokens of the members behind the first, and of the end of the object. -/
def memberTokens : List (String × Json) → List Token
  | [] => [.closeObject]
  | (key, value) :: rest =>
    .comma :: .text (.ok key) :: .colon :: (tokens value ++ memberTokens rest)

end

/-- All numbers in the value are read back from their texts. -/
def Legible (j : Json) : Prop :=
  ∀ t ∈ j.tokens, t.Legible

end Json

/-! ### Cutting a text into its tokens -/

namespace Token

theorem dropWhile_isSpace {space : List UInt8} (h : space.all isSpace = true)
    (rest : List UInt8) : (space ++ rest).dropWhile isSpace = rest.dropWhile isSpace :=
  List.dropWhile_append_of_pos (List.all_eq_true.1 h)

/-- What is written for a token other than a number does not prolong a numeral. -/
theorem Lexeme.ends {t : Token} {lexeme : List UInt8} (h : Lexeme t lexeme)
    (hnumber : t.isNumber = false) (rest : List UInt8) : Numeral.Ends (lexeme ++ rest) := by
  -- every other token begins with a byte that does not go on with a numeral
  cases h with
  | number n => exact absurd hnumber (by simp [isNumber])
  | text h =>
    intro b hb
    obtain rfl : '"'.toUInt8 = b := Option.some.inj hb
    decide
  | _ =>
    intro b hb
    obtain rfl := Option.some.inj hb
    decide

theorem ends_space {b : UInt8} (h : isSpace b = true) :
    Ascii.isDigit b = false ∧ b ≠ '.'.toUInt8 ∧ b ≠ 'e'.toUInt8 ∧ b ≠ 'E'.toUInt8 := by
  simp only [isSpace, Bool.or_eq_true, decide_eq_true_eq] at h
  rcases h with ((rfl | rfl) | rfl) | rfl <;> decide

/-- White space ends a number, so only what comes behind it could prolong one. -/
theorem ends_append {space rest : List UInt8} (hspace : space.all isSpace = true)
    (hrest : Numeral.Ends rest) : Numeral.Ends (space ++ rest) := by
  -- the first byte of the whole is that of the white space, if there is any
  cases space with
  | nil => exact hrest
  | cons b space =>
    intro c hc
    obtain rfl : b = c := Option.some.inj hc
    exact ends_space (List.all_eq_true.1 hspace b List.mem_cons_self)

/-- A text that does not begin with a number does not prolong one. -/
theorem Spaced.ends {ts : List Token} {text : List UInt8} (h : Spaced ts text) (hapart : Apart ts) :
    Numeral.Ends text := by
  cases h with
  | nil hspace =>
    rw [← List.append_nil text]
    exact ends_append hspace Numeral.ends_nil
  | @cons t ts space lexeme rest hspace hlexeme hrest =>
    exact ends_append hspace (hlexeme.ends (hapart t rfl) rest)

theorem cutsNumber_of_legible {n : Number} (h : n.Legible) :
    CutsNumber (n.text.map Char.toUInt8) n := by
  cases n with
  | int n => exact cut_int h.1 h.2
  | real x => exact cut_real h

/-- What is written for the token is cut off as `t'`, white space before it aside, in front of
anything that does not prolong it. -/
structure CutAs (t : Token) (lexeme : List UInt8) (t' : Token) : Prop where
  length_pos : 0 < lexeme.length
  next? {space rest : List UInt8} (hspace : space.all isSpace = true)
    (hends : t.isNumber = true → Numeral.Ends rest) :
    Token.next? (space ++ (lexeme ++ rest)) = some (t', rest)

/-- Only a number depends on what comes behind it. -/
theorem cutAs_of_cut {t t' : Token} {b : UInt8} {tail : List UInt8} (hb : isSpace b = false)
    (h : ∀ rest, (t.isNumber = true → Numeral.Ends rest) → cut b (tail ++ rest) = (t', rest)) :
    CutAs t (b :: tail) t' where
  length_pos := Nat.succ_pos _
  next? hspace hends := by
    rw [Token.next?, dropWhile_isSpace hspace, List.cons_append, List.dropWhile_cons, hb]
    simp only [Bool.false_eq_true, if_false, h _ hends]

/-- **A token is cut off as it was written.** -/
theorem Lexeme.cutAs {t : Token} {lexeme : List UInt8} (h : Lexeme t lexeme)
    (hlegible : t.Legible) : CutAs t lexeme t := by
  cases h with
  -- here the end matters: the digits go on as long as they can
  | number n =>
    obtain ⟨b, tail, hbytes, hb, hcut⟩ := cutsNumber_of_legible (hlegible n rfl)
    rw [hbytes]
    exact cutAs_of_cut hb fun rest hends => hcut rest (hends rfl)
  | @text s body h =>
    refine cutAs_of_cut (by decide) fun rest _ => ?_
    rw [List.append_assoc]
    exact h.cutText rest
  -- brackets, separators and words are told by their bytes
  | _ => exact cutAs_of_cut (by decide) fun rest _ => rfl

/-- If what is written for a token is cut off as one with the same image under `f`, then so is a
whole text. -/
theorem Spaced.map_upTo {f : Token → α} {ts : List Token} {text : List UInt8} (h : Spaced ts text)
    (hseparated : Separated ts)
    (hcut : ∀ t ∈ ts, ∀ lexeme, Lexeme t lexeme → ∃ t', f t' = f t ∧ CutAs t lexeme t') :
    ts.length ≤ text.length ∧
      ∀ count, ts.length ≤ count → (Token.upTo count text).map f = ts.map f := by
  -- by induction on the text; the bound on the number of tokens is carried along since the reader
  -- counts by bytes
  induction h with
  | @nil space hspace =>
    refine ⟨Nat.zero_le _, ?_⟩
    intro count _
    -- behind white space there is no token
    have hnone : Token.next? space = none := by
      have hdrop := dropWhile_isSpace hspace []
      rw [List.append_nil] at hdrop
      rw [Token.next?, hdrop]
      rfl
    cases count with
    | zero => rfl
    | succ count => rw [Token.upTo, hnone]
  | @cons t ts space lexeme rest hspace hlexeme hrest ih =>
    obtain ⟨t', ht', hcutAs⟩ := hcut t List.mem_cons_self lexeme hlexeme
    obtain ⟨hlength, hupTo⟩ := ih hseparated.2 fun x hx => hcut x (List.mem_cons_of_mem _ hx)
    -- no lexeme is empty, so there are as many bytes as tokens at least
    have hpos := hcutAs.length_pos
    refine ⟨by simp only [List.length_cons, List.length_append]; omega, ?_⟩
    intro count hcount
    cases count with
    | zero => exact absurd hcount (by simp)
    | succ count =>
      have hnext := hcutAs.next? hspace fun hn => hrest.ends (hseparated.1 hn)
      rw [Token.upTo, hnext]
      simp only [List.map_cons, ht', hupTo count (by simpa using hcount)]

theorem map_ofText_spaced {f : Token → α} {ts : List Token} {text : List UInt8}
    (h : Spaced ts text) (hseparated : Separated ts)
    (hcut : ∀ t ∈ ts, ∀ lexeme, Lexeme t lexeme → ∃ t', f t' = f t ∧ CutAs t lexeme t') :
    (ofText text).map f = ts.map f :=
  let ⟨hlength, hupTo⟩ := h.map_upTo hseparated hcut
  hupTo text.length hlength

/-- **A text is cut into the tokens that it writes.** -/
theorem ofText_spaced {ts : List Token} {text : List UInt8} (h : Spaced ts text)
    (hseparated : Separated ts) (hlegible : ∀ t ∈ ts, t.Legible) : ofText text = ts := by
  have hmap := map_ofText_spaced (f := id) h hseparated fun t ht lexeme hlexeme =>
    ⟨t, rfl, hlexeme.cutAs (hlegible t ht)⟩
  rwa [List.map_id, List.map_id] at hmap

end Token

/-! ### Gathering behind a value -/

namespace Raw

/-- The items of an array from `item` on, where `item` has been read and the tokens are left. -/
def itemsFrom (fuel : Nat) (item : Raw) : List Token → List Raw × Ending × List Token
  | [] => ([item], .broken .truncated, [])
  | .closeArray :: rest => ([item], .closed, rest)
  | .comma :: [] => ([item], .dangling .truncated, [])
  | .comma :: .closeArray :: rest => ([item], .dangling .malformed, rest)
  | .comma :: rest =>
    let (more, ending, rest) := items fuel rest
    (item :: more, ending, rest)
  | _ :: rest => ([item], .broken .malformed, rest)

/-- The members of an object from `member` on, where `member` has been read and the tokens are
left. -/
def membersFrom (fuel : Nat) (member : Member) : List Token → List Member × Ending × List Token
  | [] => ([member], .broken .truncated, [])
  | .closeObject :: rest => ([member], .closed, rest)
  | .comma :: [] => ([member], .dangling .truncated, [])
  | .comma :: .tornText tear :: rest => ([member], .dangling tear, rest)
  | .comma :: .text next :: rest =>
    let (more, ending, rest) := members fuel next rest
    (member :: more, ending, rest)
  | .comma :: rest => ([member], .dangling .malformed, rest)
  | _ :: rest => ([member], .broken .malformed, rest)

theorem items_eq {fuel : Nat} {tokens rest : List Token} {item : Raw}
    (h : value fuel tokens = (item, rest)) :
    items (fuel + 1) tokens = itemsFrom fuel item rest := by
  rw [items, h]
  exact (itemsFrom.eq_def fuel item rest).symm

theorem members_eq {fuel : Nat} {key : Except Fault String} {tokens rest : List Token} {item : Raw}
    (h : value fuel tokens = (item, rest)) :
    members (fuel + 1) key (.colon :: tokens) = membersFrom fuel (key, item) rest := by
  rw [members, h]
  exact (membersFrom.eq_def fuel (key, item) rest).symm

/-- A comma that no closing bracket follows is followed by more items. -/
theorem itemsFrom_comma {t : Token} (ht : t ≠ .closeArray) (fuel : Nat) (item : Raw)
    (rest : List Token) : itemsFrom fuel item (.comma :: t :: rest) =
      (item :: (items fuel (t :: rest)).1, (items fuel (t :: rest)).2) := by
  cases t <;> first | rfl | exact absurd rfl ht

end Raw

namespace Json

/-! ### The tokens of a value -/

theorem ofNumber_eq (n : Number) :
    Token.ofNumber n = .number (.ok n) ∨ Token.ofNumber n = .null := by
  cases n with
  | int n => exact .inl rfl
  | real x =>
    rw [Token.ofNumber]
    split
    · exact .inl rfl
    · exact .inr rfl

/-- The tokens of a value begin with one that may begin a value. -/
theorem tokens_eq_cons (j : Json) : ∃ t ts, j.tokens = t :: ts ∧ t ≠ .closeArray := by
  -- no value begins with the bracket that closes an array
  match j with
  | .null => exact ⟨_, _, by rw [tokens], by simp⟩
  | .bool b => exact ⟨_, _, by rw [tokens], by simp⟩
  | .number n =>
    refine ⟨_, _, by rw [tokens], ?_⟩
    rcases ofNumber_eq n with h | h <;> rw [h] <;> simp
  | .text s => exact ⟨_, _, by rw [tokens], by simp⟩
  | .array [] => exact ⟨_, _, by rw [tokens], by simp⟩
  | .array (item :: rest) => exact ⟨_, _, by rw [tokens], by simp⟩
  | .object [] => exact ⟨_, _, by rw [tokens], by simp⟩
  | .object ((key, item) :: rest) => exact ⟨_, _, by rw [tokens], by simp⟩

theorem apart_itemTokens (items : List Json) (rest : List Token) :
    Token.Apart (itemTokens items ++ rest) := by
  intro t ht
  cases items with
  | nil =>
    rw [itemTokens] at ht
    obtain rfl := Option.some.inj ht
    rfl
  | cons item items =>
    rw [itemTokens] at ht
    obtain rfl := Option.some.inj ht
    rfl

theorem apart_memberTokens (members : List (String × Json)) (rest : List Token) :
    Token.Apart (memberTokens members ++ rest) := by
  intro t ht
  match members with
  | [] =>
    rw [memberTokens] at ht
    obtain rfl := Option.some.inj ht
    rfl
  | (key, item) :: members =>
    rw [memberTokens] at ht
    obtain rfl := Option.some.inj ht
    rfl

theorem separated_cons {t : Token} {ts : List Token} (ht : t.isNumber = false)
    (h : Token.Separated ts) : Token.Separated (t :: ts) := by
  refine ⟨?_, h⟩
  intro hnumber
  rw [ht] at hnumber
  exact Bool.noConfusion hnumber

mutual

/-- A number in a value is followed by a comma or a bracket. -/
theorem separated_append : ∀ (j : Json) {rest : List Token}, Token.Apart rest →
    Token.Separated rest → Token.Separated (j.tokens ++ rest)
  | .null, _, _, hrest | .bool _, _, _, hrest | .text _, _, _, hrest => by
    rw [tokens]
    exact separated_cons rfl hrest
  -- the only place where what follows matters
  | .number _, _, hapart, hrest => by
    rw [tokens]
    exact ⟨fun _ => hapart, hrest⟩
  | .array [], _, _, hrest | .object [], _, _, hrest => by
    rw [tokens]
    exact separated_cons rfl (separated_cons rfl hrest)
  | .array (item :: items), _, _, hrest => by
    rw [tokens, List.cons_append, List.append_assoc]
    exact separated_cons rfl
      (separated_append item (apart_itemTokens items _) (separated_items items hrest))
  | .object ((key, item) :: members), _, _, hrest => by
    rw [tokens, List.cons_append, List.cons_append, List.cons_append, List.append_assoc]
    exact separated_cons rfl (separated_cons rfl (separated_cons rfl
      (separated_append item (apart_memberTokens members _) (separated_members members hrest))))

theorem separated_items : ∀ (items : List Json) {rest : List Token}, Token.Separated rest →
    Token.Separated (itemTokens items ++ rest)
  | [], _, hrest => by
    rw [itemTokens]
    exact separated_cons rfl hrest
  | item :: items, _, hrest => by
    rw [itemTokens, List.cons_append, List.append_assoc]
    exact separated_cons rfl
      (separated_append item (apart_itemTokens items _) (separated_items items hrest))

theorem separated_members : ∀ (members : List (String × Json)) {rest : List Token},
    Token.Separated rest → Token.Separated (memberTokens members ++ rest)
  | [], _, hrest => by
    rw [memberTokens]
    exact separated_cons rfl hrest
  | (key, item) :: members, _, hrest => by
    rw [memberTokens, List.cons_append, List.cons_append, List.cons_append, List.append_assoc]
    exact separated_cons rfl (separated_cons rfl (separated_cons rfl
      (separated_append item (apart_memberTokens members _) (separated_members members hrest))))

end

theorem separated_tokens (j : Json) : Token.Separated j.tokens := by
  -- nothing follows the value, so no number does
  have hapart : Token.Apart [] := fun _ ht => absurd ht (by simp)
  have h := separated_append j hapart trivial
  rwa [List.append_nil] at h

/-! ### Gathering the tokens into the tree -/

/-- An array whose bracket is not closed at once has items. -/
theorem value_openArray {t : Token} (ht : t ≠ .closeArray) (fuel : Nat) (ts : List Token) :
    Raw.value (fuel + 1) (.openArray :: t :: ts) =
      (.array (Raw.items fuel (t :: ts)).1 (Raw.items fuel (t :: ts)).2.1,
        (Raw.items fuel (t :: ts)).2.2) := by
  unfold Raw.value
  simp only
  -- the other two patterns of `value` are an array cut off and an empty one
  split
  · next heq => exact absurd heq (by simp)
  · next heq => exact absurd (List.cons.inj heq).1 ht
  · rfl

/-- A comma that no closing bracket follows is followed by more items. -/
theorem items_comma {t : Token} (ht : t ≠ .closeArray) {fuel : Nat} {tokens ts : List Token}
    {item : Raw} (h : Raw.value fuel tokens = (item, .comma :: t :: ts)) :
    Raw.items (fuel + 1) tokens =
      (item :: (Raw.items fuel (t :: ts)).1, (Raw.items fuel (t :: ts)).2) :=
  (Raw.items_eq h).trans (Raw.itemsFrom_comma ht ..)

mutual

/-- The tokens of a value are gathered into its tree, with as many calls as there are tokens. -/
theorem value_tokens : ∀ (j : Json) (fuel : Nat) (rest : List Token), j.tokens.length ≤ fuel →
    Raw.value fuel (j.tokens ++ rest) = (Raw.ofJson j, rest)
  | .null, fuel + 1, rest, _ => by rw [tokens, Raw.ofJson]; rfl
  | .bool b, fuel + 1, rest, _ => by rw [tokens, Raw.ofJson]; rfl
  | .number n, fuel + 1, rest, _ => by
    rw [tokens, Raw.ofJson]
    cases n with
    | int n => rfl
    | real x =>
      rw [Token.ofNumber, Raw.ofNumber]
      split <;> rfl
  | .text s, fuel + 1, rest, _ => by rw [tokens, Raw.ofJson]; rfl
  | .array [], fuel + 1, rest, _ => by rw [tokens, Raw.ofJson]; rfl
  | .array (item :: items), fuel + 1, rest, hfuel => by
    rw [tokens, List.length_cons] at hfuel
    rw [tokens, List.cons_append, List.append_assoc, Raw.ofJson]
    -- the bracket takes one call, and the items have the rest
    have hitems := items_tokens item items fuel rest (by omega)
    obtain ⟨t, ts, ht, hne⟩ := tokens_eq_cons item
    rw [ht, List.cons_append] at hitems ⊢
    rw [value_openArray hne, hitems]
  | .object [], fuel + 1, rest, _ => by rw [tokens, Raw.ofJson]; rfl
  | .object ((key, item) :: members), fuel + 1, rest, hfuel => by
    rw [tokens, List.length_cons, List.length_cons, List.length_cons] at hfuel
    rw [tokens, List.cons_append, List.cons_append, List.cons_append, List.append_assoc, Raw.ofJson]
    -- the bracket takes one call, and the members have the rest
    have hmembers := members_tokens key item members fuel rest (by omega)
    rw [Raw.value]
    simp only [hmembers]
  -- there is a token in any value
  | .null, 0, _, hfuel | .bool _, 0, _, hfuel | .number _, 0, _, hfuel | .text _, 0, _, hfuel
  | .array [], 0, _, hfuel | .array (_ :: _), 0, _, hfuel | .object [], 0, _, hfuel
  | .object ((_, _) :: _), 0, _, hfuel => by
    rw [tokens] at hfuel
    exact absurd hfuel (by simp)

theorem items_tokens : ∀ (item : Json) (items : List Json) (fuel : Nat) (rest : List Token),
    (item.tokens ++ itemTokens items).length ≤ fuel →
    Raw.items fuel (item.tokens ++ (itemTokens items ++ rest)) =
      (Raw.ofItems (item :: items), .closed, rest)
  | item, [], fuel + 1, rest, hfuel => by
    rw [itemTokens, List.length_append] at hfuel
    -- the last item: the bracket behind it is left by the reader of values
    have hvalue := value_tokens item fuel (.closeArray :: rest) (by
      simp only [List.length_cons, List.length_nil] at hfuel
      omega)
    rw [Raw.items, itemTokens, List.cons_append, List.nil_append, hvalue, Raw.ofItems, Raw.ofItems]
  | item, next :: items, fuel + 1, rest, hfuel => by
    rw [itemTokens, List.length_append, List.length_cons] at hfuel
    have hvalue := value_tokens item fuel
      (.comma :: (next.tokens ++ (itemTokens items ++ rest))) (by omega)
    have hitems := items_tokens next items fuel rest (by omega)
    -- no value begins with a closing bracket
    obtain ⟨t, ts, ht, hne⟩ := tokens_eq_cons next
    have hall : Raw.ofItems (item :: next :: items) =
        Raw.ofJson item :: Raw.ofItems (next :: items) := by rw [Raw.ofItems]
    rw [ht, List.cons_append] at hvalue hitems
    rw [itemTokens, List.cons_append, List.append_assoc, ht, List.cons_append,
      items_comma hne hvalue, hitems, hall]
  | item, items, 0, rest, hfuel => by
    obtain ⟨t, ts, ht, -⟩ := tokens_eq_cons item
    rw [ht] at hfuel
    exact absurd hfuel (by simp)

theorem members_tokens : ∀ (key : String) (item : Json) (members : List (String × Json))
    (fuel : Nat) (rest : List Token), (item.tokens ++ memberTokens members).length < fuel →
    Raw.members fuel (.ok key) (.colon :: (item.tokens ++ (memberTokens members ++ rest))) =
      (Raw.ofMembers ((key, item) :: members), .closed, rest)
  | key, item, [], fuel + 1, rest, hfuel => by
    rw [memberTokens, List.length_append] at hfuel
    -- the last member
    have hvalue := value_tokens item fuel (.closeObject :: rest) (by omega)
    rw [Raw.members, memberTokens, List.cons_append, List.nil_append, hvalue, Raw.ofMembers,
      Raw.ofMembers]
  | key, item, (next, value) :: members, fuel + 1, rest, hfuel => by
    rw [memberTokens, List.length_append, List.length_cons, List.length_cons,
      List.length_cons] at hfuel
    -- a member is followed by a comma and the name of the next
    have hvalue := value_tokens item fuel
      (.comma :: .text (.ok next) :: .colon ::
        (value.tokens ++ (memberTokens members ++ rest))) (by omega)
    have hmembers := members_tokens next value members fuel rest (by omega)
    rw [Raw.members, memberTokens, List.cons_append, List.cons_append, List.cons_append,
      List.append_assoc, hvalue, Raw.ofMembers]
    simp only [hmembers]
  | _, _, _, 0, _, hfuel => absurd hfuel (Nat.not_lt_zero _)

end

theorem ofTokens_tokens (j : Json) : Raw.ofTokens j.tokens = (Raw.ofJson j, []) := by
  have h := value_tokens j (2 * j.tokens.length + 2) [] (by omega)
  rwa [List.append_nil] at h

/-! ### The text of the writer -/

theorem lexeme_ofNumber (n : Number) :
    Token.Lexeme (.ofNumber n) (n.text.map Char.toUInt8) := by
  cases n with
  | int n => exact .number (.int n)
  | real x =>
    rw [Token.ofNumber]
    split
    · exact .number (.real x)
    · next h =>
      -- the writer has no numeral for it either
      have hnone : Decimal.binary? x = none := by simpa using h
      have htext : Number.text (.real x) = "null".toList := by
        rw [Number.text, Number.realText, hnone]
      rw [htext]
      exact .nullWord

theorem lexeme_quoted (s : String) : Token.Lexeme (.text (.ok s)) (quoted s) :=
  .text (literal_escaped s.toList)

theorem spaced_cons {t : Token} {ts : List Token} {lexeme rest : List UInt8}
    (h : Token.Lexeme t lexeme) (hrest : Token.Spaced ts rest) :
    Token.Spaced (t :: ts) (lexeme ++ rest) := by
  have hspace : [].all Token.isSpace = true := rfl
  exact .cons hspace h hrest

theorem spaced_of_space {ts : List Token} {space text : List UInt8}
    (hspace : space.all Token.isSpace = true) (h : Token.Spaced ts text) :
    Token.Spaced ts (space ++ text) := by
  -- there is white space in front of any text, if only none
  cases h with
  | nil h => exact .nil (by rw [List.all_append, hspace, h]; rfl)
  | cons h hlexeme hrest =>
    rw [← List.append_assoc]
    exact .cons (by rw [List.all_append, hspace, h]; rfl) hlexeme hrest

mutual

theorem spaced_append : ∀ (j : Json) {ts : List Token} {rest : List UInt8},
    Token.Spaced ts rest → Token.Spaced (j.tokens ++ ts) (j.render ++ rest)
  | .null, _, _, hrest => by rw [tokens, render]; exact spaced_cons .nullWord hrest
  | .bool true, _, _, hrest => by rw [tokens, render]; exact spaced_cons .trueWord hrest
  | .bool false, _, _, hrest => by rw [tokens, render]; exact spaced_cons .falseWord hrest
  | .number n, _, _, hrest => by rw [tokens, render]; exact spaced_cons (lexeme_ofNumber n) hrest
  | .text s, _, _, hrest => by rw [tokens, render]; exact spaced_cons (lexeme_quoted s) hrest
  | .array [], _, _, hrest => by
    rw [tokens, render]
    show Token.Spaced _ (['['.toUInt8] ++ ([']'.toUInt8] ++ _))
    exact spaced_cons .openArray (spaced_cons .closeArray hrest)
  | .array (item :: items), _, _, hrest => by
    rw [tokens, render, List.cons_append, List.cons_append, List.append_assoc, List.append_assoc]
    exact spaced_cons .openArray (spaced_append item (spaced_items items hrest))
  | .object [], _, _, hrest => by
    rw [tokens, render]
    show Token.Spaced _ (['\x7b'.toUInt8] ++ (['\x7d'.toUInt8] ++ _))
    exact spaced_cons .openObject (spaced_cons .closeObject hrest)
  | .object ((key, item) :: members), _, _, hrest => by
    rw [tokens, render]
    simp only [List.cons_append, List.append_assoc]
    exact spaced_cons .openObject (spaced_cons (lexeme_quoted key) (spaced_cons .colon
      (spaced_append item (spaced_members members hrest))))

theorem spaced_items : ∀ (items : List Json) {ts : List Token} {rest : List UInt8},
    Token.Spaced ts rest → Token.Spaced (itemTokens items ++ ts) (renderItems items ++ rest)
  | [], _, _, hrest => by rw [itemTokens, renderItems]; exact spaced_cons .closeArray hrest
  | item :: items, _, _, hrest => by
    rw [itemTokens, renderItems]
    simp only [List.cons_append, List.append_assoc]
    exact spaced_cons .comma (spaced_append item (spaced_items items hrest))

theorem spaced_members : ∀ (members : List (String × Json)) {ts : List Token}
    {rest : List UInt8}, Token.Spaced ts rest →
    Token.Spaced (memberTokens members ++ ts) (renderMembers members ++ rest)
  | [], _, _, hrest => by rw [memberTokens, renderMembers]; exact spaced_cons .closeObject hrest
  | (key, item) :: members, _, _, hrest => by
    rw [memberTokens, renderMembers]
    simp only [List.cons_append, List.append_assoc]
    exact spaced_cons .comma (spaced_cons (lexeme_quoted key) (spaced_cons .colon
      (spaced_append item (spaced_members members hrest))))

end

/-- The writer's text of a value is a text of it. -/
theorem spaced_render (j : Json) : Token.Spaced j.tokens j.render := by
  have hnil : Token.Spaced [] [] := .nil rfl
  have h := spaced_append j hnil
  rwa [List.append_nil, List.append_nil] at h

/-! ### Legible values -/

theorem legible_number (n : Number) (h : n.Legible) : (Json.number n).Legible := by
  intro t ht
  rw [tokens, List.mem_singleton] at ht
  subst ht
  intro m hm
  -- the token is the number, or null if there is no numeral for it
  rcases ofNumber_eq n with hn | hn
  · rw [hn] at hm
    cases hm
    exact h
  · rw [hn] at hm
    cases hm

theorem legible_of_not_isNumber {t : Token} (h : t.isNumber = false) : t.Legible := by
  intro n ht
  rw [ht] at h
  exact absurd h (by simp [Token.isNumber])

theorem legible_null : Json.null.Legible := by
  intro t ht
  rw [tokens] at ht
  rw [List.mem_singleton.1 ht]
  exact legible_of_not_isNumber rfl

theorem legible_text (s : String) : (Json.text s).Legible := by
  intro t ht
  rw [tokens] at ht
  rw [List.mem_singleton.1 ht]
  exact legible_of_not_isNumber rfl

theorem forall_mem_itemTokens (items : List Json) :
    (∀ t ∈ itemTokens items, t.Legible) ↔ ∀ item ∈ items, item.Legible := by
  -- commas and brackets are legible, so only the items count
  induction items with
  | nil =>
    rw [itemTokens]
    exact iff_of_true (List.forall_mem_singleton.2 (legible_of_not_isNumber rfl)) (by simp)
  | cons item items ih =>
    rw [itemTokens, List.forall_mem_cons, List.forall_mem_append, List.forall_mem_cons, ih]
    exact and_iff_right (legible_of_not_isNumber rfl)

theorem forall_mem_memberTokens (members : List (String × Json)) :
    (∀ t ∈ memberTokens members, t.Legible) ↔ ∀ member ∈ members, member.2.Legible := by
  induction members with
  | nil =>
    rw [memberTokens]
    exact iff_of_true (List.forall_mem_singleton.2 (legible_of_not_isNumber rfl)) (by simp)
  | cons member members ih =>
    rw [memberTokens, List.forall_mem_cons, List.forall_mem_cons, List.forall_mem_cons,
      List.forall_mem_append, List.forall_mem_cons, ih,
      and_iff_right (legible_of_not_isNumber rfl), and_iff_right (legible_of_not_isNumber rfl),
      and_iff_right (legible_of_not_isNumber rfl)]
    rfl

theorem legible_array {items : List Json} :
    (Json.array items).Legible ↔ ∀ item ∈ items, item.Legible := by
  rw [← forall_mem_itemTokens, Legible]
  cases items with
  | nil =>
    rw [tokens, itemTokens, List.forall_mem_cons]
    exact and_iff_right (legible_of_not_isNumber rfl)
  | cons item items =>
    rw [tokens, itemTokens, List.forall_mem_cons, List.forall_mem_cons,
      and_iff_right (legible_of_not_isNumber rfl), and_iff_right (legible_of_not_isNumber rfl)]

theorem legible_object {members : List (String × Json)} :
    (Json.object members).Legible ↔ ∀ member ∈ members, member.2.Legible := by
  rw [← forall_mem_memberTokens, Legible]
  match members with
  | [] =>
    rw [tokens, memberTokens, List.forall_mem_cons]
    exact and_iff_right (legible_of_not_isNumber rfl)
  | (key, item) :: members =>
    rw [tokens, memberTokens]
    simp only [List.forall_mem_cons]
    exact and_congr_left' (iff_of_true (legible_of_not_isNumber rfl) (legible_of_not_isNumber rfl))

end Json

/-- **Every text of a value is read as the value,** whatever codec reads it. -/
theorem Codec.ofText_of_spaced (c : Codec α) {j : Json} {text : List UInt8}
    (hlegible : j.Legible) (htext : Token.Spaced j.tokens text) :
    c.ofText text = c.read .direct (Raw.ofJson j) := by
  rw [Codec.ofText, Token.ofText_spaced htext j.separated_tokens hlegible, j.ofTokens_tokens]
  show (c.read .direct (Raw.ofJson j) >>= fun a => pure a) = _
  exact bind_pure _

end Telemetry
