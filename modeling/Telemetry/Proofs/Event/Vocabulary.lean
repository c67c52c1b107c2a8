import Telemetry.Proofs.Event.Codec
import Telemetry.Proofs.Text.LetterCase
import Telemetry.Text.Blank

/-!
# What the closed vocabularies accept

Methods, peer types and message types are known by name, and there are two readers of each, which
differ on purpose. The reader of JSON accepts the names alone. The reader of a text from outside
first changes the text and then looks for a value whose name is the changed text, so that it
accepts whatever is changed into a name: it writes the underscores of a method as hyphens, and the
letters of a peer type or message type in the case of the names.

* `byName_eq_ok_iff` — a search by name ends with the value of the name. All that has to be known
  of a vocabulary is that each of its values is the first of its name.
* `Method.spells_iff` — which texts are changed into the token of a method. One without hyphens
  comes from itself alone, and the two tokens that have a hyphen have one each, which was a hyphen
  or an underscore before.
* `ParsesExactly.of_fold` — the other two fold the text to the case of their names, so they accept
  the variants of the names (`Ascii.CaseVariant`).

What JSON has for a value is made from its identifier, and is what is shown of it; so the codecs
read what is shown (`Method.readsNames` and its like).

No name has white space in it or a character beyond ASCII, and neither change takes any away, so a
text with either is refused (`ParsesExactly.foreign`). `vocabularies_exact` has all of this for the
three vocabularies.
-/

namespace Telemetry

/-! ### The search by name -/

/-- The value of the name, or a refusal if there is none. -/
def byName (known : List α) (name : α → String) (refusal : ε) (s : String) : Except ε α :=
  match known.find? fun a => name a == s with
  | some a => .ok a
  | none => .error refusal

/-- A search among two values tries one after the other. -/
theorem byName_pair {a b : α} {name : α → String} {refusal : ε} {s : String} :
    byName [a, b] name refusal s =
      if name a = s then .ok a else if name b = s then .ok b else .error refusal := by
  rw [byName, List.find?_cons, List.find?_cons]
  by_cases ha : name a = s
  · rw [if_pos ha, beq_iff_eq.mpr ha]
  · rw [if_neg ha, beq_eq_false_iff_ne.mpr ha]
    by_cases hb : name b = s
    · rw [if_pos hb, beq_iff_eq.mpr hb]
    · rw [if_neg hb, beq_eq_false_iff_ne.mpr hb]
      rfl

section

variable {known : List α} {name : α → String}
  (hfind : ∀ a, (known.find? fun b => name b == name a) = some a)
include hfind

theorem find?_eq_some_iff_name {s : String} {a : α} :
    (known.find? fun b => name b == s) = some a ↔ name a = s := by
  constructor
  · intro h
    have hname := List.find?_some h
    exact beq_iff_eq.mp hname
  · rintro rfl
    exact hfind a

/-- **The search ends with the value of the name.** -/
theorem byName_eq_ok_iff {s : String} {refusal : ε} {a : α} :
    byName known name refusal s = .ok a ↔ name a = s := by
  rw [← find?_eq_some_iff_name hfind, byName]
  -- what the search has found is handed on, and nothing else is accepted
  cases known.find? fun b => name b == s with
  | none => exact ⟨nofun, nofun⟩
  | some b => simp only [Except.ok.injEq, Option.some.injEq]

theorem byName_of_unknown {s : String} {refusal : ε} (h : ∀ a, name a ≠ s) :
    byName known name refusal s = .error refusal := by
  have hnone : (known.find? fun b => name b == s) = none :=
    Option.eq_none_iff_forall_ne_some.mpr fun a ha =>
      h a ((find?_eq_some_iff_name hfind).mp ha)
  rw [byName, hnone]

end

/-! ### JSON strings -/

namespace Codec

/-- Among JSON strings, the codec reads the names of things and nothing else. -/
structure ReadsNames (c : Codec α) (known : List α) (name : α → String) : Prop where
  /-- A text of a string is read as the thing of this name, whatever way its characters are
  written and whatever white space is around it. -/
  ofText : ∀ (s : String) (text : List UInt8), Token.Spaced (Json.text s).tokens text →
    ∀ a, c.ofText text = .ok a ↔ s = name a
  /-- So is a string inside another value, read straight from the text or put aside before. What
  stands between quotes and is no string is not read. -/
  read : ∀ (mode : Mode) (s : Except Fault String) (a : α),
    c.read mode (.text s) = .ok a ↔ s = .ok (name a)
  /-- The refusal of another string says what it is and which names are known. -/
  unknown : ∀ (mode : Mode) (s : String), (∀ a, s ≠ name a) →
    c.read mode (.text (.ok s)) = .error (.misfit (.unknownVariant s (known.map name)))

variable {known : List α} {name : α → String}

theorem ofName_eq (s : String) :
    ofName known name s = byName known name (.misfit (.unknownVariant s (known.map name))) s := rfl

theorem variant_readsNames (hfind : ∀ a, (known.find? fun b => name b == name a) = some a) :
    (variant known name).ReadsNames known name := by
  have hread : ∀ (mode : Mode) (s : Except Fault String) (a : α),
      (variant known name).read mode (.text s) = .ok a ↔ s = .ok (name a) := by
    intro mode s a
    rw [read_variant_text]
    -- a fault between the quotes is passed on, and a string is looked up
    cases s with
    | error fault => exact ⟨nofun, nofun⟩
    | ok s =>
      rw [Fault.ok_bind, ofName_eq, byName_eq_ok_iff hfind, Except.ok.injEq, eq_comm]
  refine ⟨fun s text htext a => ?_, hread, fun mode s hs => ?_⟩
  · rw [ofText_of_spaced _ (Json.legible_text s) htext, Raw.ofJson, hread, Except.ok.injEq]
  · rw [read_variant_text, Fault.ok_bind, ofName_eq]
    exact byName_of_unknown hfind fun a => (hs a).symm

end Codec

/-! ### Texts from outside -/

/-- A reader of texts accepts exactly the texts that spell something. -/
structure ParsesExactly [ToString α] (parse : String → Except EventError α)
    (refusal : String → EventError) (Spells : String → α → Prop) : Prop where
  /-- A text is read as what it spells. -/
  accepts : ∀ text a, parse text = .ok a ↔ Spells text a
  /-- A text that spells nothing is refused, and the refusal has it as it is. -/
  refuses : ∀ text, (∀ a, ¬Spells text a) → parse text = .error (refusal text)
  /-- So is every text with white space or a character beyond ASCII in it. -/
  foreign : ∀ text, (∃ c ∈ text.toList, Text.isBlank c = true ∨ 0x80 ≤ c.toNat) →
    parse text = .error (refusal text)
  /-- What is shown is read back. -/
  shown : ∀ a, parse (toString a) = .ok a

namespace Ascii

/-- The character is one of ASCII and leaves a mark. -/
def isGraphic (c : Char) : Bool :=
  0x20 < c.toNat && c.toNat < 0x7F

theorem isGraphic_iff {c : Char} : isGraphic c = true ↔ 0x20 < c.toNat ∧ c.toNat < 0x7F := by
  rw [isGraphic, Bool.and_eq_true, decide_eq_true_eq, decide_eq_true_eq]

theorem not_foreign_of_isGraphic {c : Char} (h : isGraphic c = true) :
    ¬(Text.isBlank c = true ∨ 0x80 ≤ c.toNat) := by
  obtain ⟨hlow, hhigh⟩ := isGraphic_iff.mp h
  -- white space in ASCII stands below the graphic characters, the rest of it beyond ASCII
  simp only [Text.isBlank, Bool.or_eq_true, Bool.and_eq_true, decide_eq_true_eq, beq_iff_eq]
  omega

/-- The forms of a letter are all graphic. -/
theorem isGraphic_of_sameLetter {c d : Char} (h : isGraphic d = true) (hsame : SameLetter c d) :
    isGraphic c = true := by
  rw [isGraphic_iff] at h ⊢
  -- the two forms of a letter both stand among the graphic characters
  rcases hsame with rfl | hcapital | hsmall
  · exact h
  · have := isCapitalOf_iff.mp hcapital
    omega
  · have := isCapitalOf_iff.mp hsmall
    omega

end Ascii

/-- **A reader that searches by name** for the changed text accepts what is changed into a name. -/
theorem ParsesExactly.of_search [ToString α] {known : List α} {change : String → String}
    {parse : String → Except EventError α} {refusal : String → EventError}
    {Spells : String → α → Prop}
    (hparse : ∀ text, parse text = byName known toString (refusal text) (change text))
    (hfind : ∀ a, (known.find? fun b => toString b == toString a) = some a)
    (hspells : ∀ {text a}, Spells text a ↔ toString a = change text)
    (hgraphic : ∀ {text a}, Spells text a → text.toList.all Ascii.isGraphic = true)
    (hshown : ∀ a, Spells (toString a) a) : ParsesExactly parse refusal Spells := by
  have haccepts : ∀ text a, parse text = .ok a ↔ Spells text a := by
    intro text a
    rw [hparse, hspells]
    exact byName_eq_ok_iff hfind
  have hrefuses : ∀ text, (∀ a, ¬Spells text a) → parse text = .error (refusal text) := by
    intro text h
    rw [hparse]
    exact byName_of_unknown hfind fun a => mt hspells.mpr (h a)
  refine ⟨haccepts, hrefuses, ?_, fun a => (haccepts _ a).mpr (hshown a)⟩
  -- a text that spelled something would have graphic characters only
  rintro text ⟨c, hc, hforeign⟩
  refine hrefuses text fun a hspelled => ?_
  have hc := List.all_eq_true.mp (hgraphic hspelled) c hc
  exact Ascii.not_foreign_of_isGraphic hc hforeign

/-! ### Methods -/

namespace Method

/-- The texts for a method: its token, and for two methods the token with an underscore. -/
inductive Spells : String → Method → Prop where
  | token (m : Method) : Spells m.token m
  | baselineControl : Spells "BASELINE_CONTROL" .baselineControl
  | versionControl : Spells "VERSION_CONTROL" .versionControl

/-- A text whose hyphenated form has no hyphen is that form. -/
theorem eq_of_hyphenated {cs plain : List Char}
    (h : (cs.map fun c => if c = '_' then '-' else c) = plain) (hplain : '-' ∉ plain) :
    cs = plain := by
  subst h
  refine ((List.map_congr_left fun c hc => ?_).trans (List.map_id cs)).symm
  -- an underscore would have left a hyphen
  refine if_neg fun hunderscore => hplain ?_
  exact List.mem_map.mpr ⟨c, hc, if_pos hunderscore⟩

/-- In place of a single hyphen there was a hyphen or an underscore. -/
theorem eq_or_eq_of_hyphenated {cs : List Char} (before after : List Char)
    (hbefore : '-' ∉ before) (hafter : '-' ∉ after)
    (h : (cs.map fun c => if c = '_' then '-' else c) = before ++ '-' :: after) :
    cs = before ++ '-' :: after ∨ cs = before ++ '_' :: after := by
  -- the text falls apart where its hyphenated form does
  obtain ⟨front, back, rfl, hfront, hback⟩ := List.map_eq_append_iff.mp h
  obtain ⟨c, rest, rfl, hc, hrest⟩ := List.map_eq_cons_iff.mp hback
  obtain rfl := eq_of_hyphenated hfront hbefore
  obtain rfl := eq_of_hyphenated hrest hafter
  by_cases hunderscore : c = '_'
  · exact .inr (by rw [hunderscore])
  · rw [if_neg hunderscore] at hc
    exact .inl (by rw [hc])

theorem hyphenated_token (m : Method) : hyphenated m.token = m.token := by
  cases m <;> rfl

theorem hyphen_mem_token {m : Method} (h : '-' ∈ m.token.toList) :
    m = .baselineControl ∨ m = .versionControl := by
  revert h
  cases m <;> decide

/-- **A text spells a method** if its hyphenated form is the token, and only then. -/
theorem spells_iff {text : String} {m : Method} : Spells text m ↔ m.token = hyphenated text := by
  constructor
  · -- a token is its own hyphenated form, and the other two texts can be computed
    rintro (_ | _ | _)
    · exact (hyphenated_token m).symm
    · decide
    · decide
  · intro h
    have hmap : (text.toList.map fun c => if c = '_' then '-' else c) = m.token.toList := by
      rw [h, toList_hyphenated]
    -- a token has no hyphen, or it is one of two that have one each
    by_cases hhyphen : '-' ∈ m.token.toList
    · -- the words before and behind the hyphen have none, so only the hyphen itself is in doubt
      rcases hyphen_mem_token hhyphen with rfl | rfl
      · rcases eq_or_eq_of_hyphenated "BASELINE".toList "CONTROL".toList (by decide) (by decide)
          hmap with htext | htext
        · obtain rfl : text = "BASELINE-CONTROL" := String.toList_inj.mp htext
          exact .token .baselineControl
        · obtain rfl : text = "BASELINE_CONTROL" := String.toList_inj.mp htext
          exact .baselineControl
      · rcases eq_or_eq_of_hyphenated "VERSION".toList "CONTROL".toList (by decide) (by decide)
          hmap with htext | htext
        · obtain rfl : text = "VERSION-CONTROL" := String.toList_inj.mp htext
          exact .token .versionControl
        · obtain rfl : text = "VERSION_CONTROL" := String.toList_inj.mp htext
          exact .versionControl
    · -- without a hyphen there is nothing that an underscore could have been
      rw [String.toList_inj.mp (eq_of_hyphenated hmap hhyphen)]
      exact .token m

theorem Spells.isGraphic {text : String} {m : Method} (h : Spells text m) :
    text.toList.all Ascii.isGraphic = true := by
  rcases h with _ | _ | _
  · cases m <;> decide
  · decide
  · decide

theorem parse_eq (text : String) :
    parse text = byName all toString (.unknownMethod text) (hyphenated text) := by
  rw [parse, byName]
  cases all.find? fun m => m.token == hyphenated text <;> rfl

theorem parses : ParsesExactly parse .unknownMethod Spells :=
  .of_search parse_eq find?_token spells_iff Spells.isGraphic .token

/-- The texts that spell a method. -/
theorem exists_spells_iff {text : String} :
    (∃ m, Spells text m) ↔
      text ∈ all.map toString ∨ text = "BASELINE_CONTROL" ∨ text = "VERSION_CONTROL" := by
  constructor
  · rintro ⟨m, _ | _ | _⟩
    · exact .inl (List.mem_map_of_mem m.mem_all)
    · exact .inr (.inl rfl)
    · exact .inr (.inr rfl)
  · rintro (h | rfl | rfl)
    · obtain ⟨m, -, rfl⟩ := List.mem_map.mp h
      exact ⟨m, .token m⟩
    · exact ⟨_, .baselineControl⟩
    · exact ⟨_, .versionControl⟩

end Method

/-! ### Peer types and message types -/

/-- The text is the name of the value in any case. -/
def SpelledAnyCase [ToString α] (text : String) (a : α) : Prop :=
  Ascii.CaseVariant text (toString a)

theorem SpelledAnyCase.isGraphic [ToString α]
    (hname : ∀ a : α, (toString a).toList.all Ascii.isGraphic = true) {text : String} {a : α}
    (h : SpelledAnyCase text a) : text.toList.all Ascii.isGraphic = true := by
  rw [List.all_eq_true]
  intro c hc
  obtain ⟨d, hd, hsame⟩ := h.exists_sameLetter hc
  exact Ascii.isGraphic_of_sameLetter (List.all_eq_true.mp (hname a) d hd) hsame

/-- The texts that spell a value of a vocabulary. -/
theorem exists_spelledAnyCase_iff [ToString α] {known : List α} (hknown : ∀ a, a ∈ known)
    {text : String} :
    (∃ a : α, SpelledAnyCase text a) ↔
      ∃ name ∈ known.map toString, Ascii.CaseVariant text name := by
  constructor
  · rintro ⟨a, h⟩
    exact ⟨toString a, List.mem_map_of_mem (hknown a), h⟩
  · rintro ⟨name, hname, h⟩
    obtain ⟨a, -, rfl⟩ := List.mem_map.mp hname
    exact ⟨a, h⟩

/-- **A reader that folds the text** accepts the names in any case, if the fold leaves them as they
are. -/
theorem ParsesExactly.of_fold [ToString α] {known : List α} {fold : String → String}
    {parse : String → Except EventError α} {refusal : String → EventError}
    (hfold : ∀ {text name}, Ascii.CaseVariant text name ↔ fold text = fold name)
    (hparse : ∀ text, parse text = byName known toString (refusal text) (fold text))
    (hfind : ∀ a, (known.find? fun b => toString b == toString a) = some a)
    (hname : ∀ a : α, fold (toString a) = toString a)
    (hgraphic : ∀ a : α, (toString a).toList.all Ascii.isGraphic = true) :
    ParsesExactly parse refusal SpelledAnyCase := by
  -- the name folds to itself, so the folded text is looked for as it is
  have hspells : ∀ {text : String} {a : α}, SpelledAnyCase text a ↔ toString a = fold text := by
    intro text a
    rw [SpelledAnyCase, hfold, hname, eq_comm]
  exact .of_search hparse hfind hspells (SpelledAnyCase.isGraphic hgraphic) fun _ => .refl _

theorem PeerType.parse_eq (text : String) :
    parse text = byName all toString (.unknownPeerType text) (Ascii.lowered text) := by
  rw [parse, all, byName_pair]
  -- the two patterns of the reader are the names of the two values
  split
  · next h =>
    rw [h]
    rfl
  · next h =>
    rw [h]
    rfl
  · next hclient hserver =>
    exact ((if_neg (Ne.symm hclient)).trans (if_neg (Ne.symm hserver))).symm

theorem PeerType.parses : ParsesExactly parse .unknownPeerType SpelledAnyCase :=
  .of_fold Ascii.caseVariant_iff_lowered parse_eq find?_name (fun t => by cases t <;> decide)
    fun t => by cases t <;> decide

theorem MessageType.parse_eq (text : String) :
    parse text = byName all toString (.unknownMessageType text) (Ascii.raised text) := by
  rw [parse, all, byName_pair]
  split
  · next h =>
    rw [h]
    rfl
  · next h =>
    rw [h]
    rfl
  · next hout herr =>
    exact ((if_neg (Ne.symm hout)).trans (if_neg (Ne.symm herr))).symm

theorem MessageType.parses : ParsesExactly parse .unknownMessageType SpelledAnyCase :=
  .of_fold Ascii.caseVariant_iff_raised parse_eq find?_name (fun t => by cases t <;> decide)
    fun t => by cases t <;> decide

/-! ### The two readers side by side -/

/-- Both readers of a vocabulary accept exactly what they should. -/
structure ReadExactly [ToString α] (known : List α) (codec : Codec α)
    (parse : String → Except EventError α) (refusal : String → EventError)
    (Spells : String → α → Prop) : Prop where
  texts : ParsesExactly parse refusal Spells
  strings : codec.ReadsNames known toString
  /-- What spells a value in another way than it is shown is accepted from outside, but refused as
  a JSON string. -/
  aliases : ∀ text a, Spells text a → text ≠ toString a →
    ∀ mode, Refused (codec.read mode (.text (.ok text)))

theorem ReadExactly.of_parts [ToString α] {known : List α} {codec : Codec α}
    {parse : String → Except EventError α} {refusal : String → EventError}
    {Spells : String → α → Prop} (htexts : ParsesExactly parse refusal Spells)
    (hstrings : codec.ReadsNames known toString) :
    ReadExactly known codec parse refusal Spells := by
  refine ⟨htexts, hstrings, fun text a hspelled hne mode => ?_⟩
  refine ⟨_, hstrings.unknown mode text fun b hb => ?_⟩
  -- if it were the name of a value, that would have to be the one it spells
  have hparsed := htexts.shown b
  rw [← hb, (htexts.accepts text a).mpr hspelled] at hparsed
  obtain rfl := Except.ok.inj hparsed
  exact hne hb

theorem Method.readsNames : codec.ReadsNames all toString := by
  rw [codec_eq]
  exact Codec.variant_readsNames find?_token

theorem PeerType.readsNames : codec.ReadsNames all toString := by
  rw [codec_eq]
  exact Codec.variant_readsNames find?_name

theorem MessageType.readsNames : codec.ReadsNames all toString := by
  rw [codec_eq]
  exact Codec.variant_readsNames find?_name

/-- **The vocabularies accept exactly their spellings.** A text from outside is read as a method if
it is one of the forty-four tokens, which are all different, or one of two with an underscore for
the hyphen; as a peer type or message type if it is the name in any case of its letters. Every
other text is refused by an error that has it as it is, and what is shown is read back. As JSON
strings the names alone are accepted. -/
theorem vocabularies_exact :
    (ReadExactly Method.all Method.codec Method.parse .unknownMethod Method.Spells ∧
      Method.all.length = 44 ∧ (Method.all.map toString).Nodup ∧
      (∀ text, (∃ m, Method.parse text = .ok m) ↔ text ∈ Method.all.map toString ∨
        text = "BASELINE_CONTROL" ∨ text = "VERSION_CONTROL") ∧
      ∀ text m, Method.parse text = .ok m →
        (toString m).toList = text.toList.map fun c => if c = '_' then '-' else c) ∧
    (ReadExactly PeerType.all PeerType.codec PeerType.parse .unknownPeerType SpelledAnyCase ∧
      ∀ text, (∃ t, PeerType.parse text = .ok t) ↔
        ∃ name ∈ ["client", "server"], Ascii.CaseVariant text name) ∧
    (ReadExactly MessageType.all MessageType.codec MessageType.parse .unknownMessageType
        SpelledAnyCase ∧
      ∀ text, (∃ t, MessageType.parse text = .ok t) ↔
        ∃ name ∈ ["OUT", "ERR"], Ascii.CaseVariant text name) := by
  refine ⟨⟨.of_parts Method.parses Method.readsNames, rfl, by decide +kernel,
      fun text => ?tokens, fun text m h => ?hyphens⟩,
    ⟨.of_parts PeerType.parses PeerType.readsNames, fun text => ?peers⟩,
    ⟨.of_parts MessageType.parses MessageType.readsNames, fun text => ?messages⟩⟩
  case tokens =>
    simp only [Method.parses.accepts]
    exact Method.exists_spells_iff
  case hyphens =>
    have htoken := Method.spells_iff.mp ((Method.parses.accepts text m).mp h)
    rw [← Method.toList_hyphenated, ← htoken]
    rfl
  case peers =>
    simp only [PeerType.parses.accepts]
    exact exists_spelledAnyCase_iff PeerType.mem_all
  case messages =>
    simp only [MessageType.parses.accepts]
    exact exists_spelledAnyCase_iff MessageType.mem_all

/-- An underscore and small letters are taken from outside, white space and a long s are not. A JSON
string can have its letters in another spelling, but they are capitals and hyphens. -/
theorem vocabularies_exact_samples :
    Method.parse "VERSION_CONTROL" = .ok .versionControl ∧
    Method.parse "get" = .error (.unknownMethod "get") ∧
    PeerType.parse "sErVeR" = .ok .server ∧
    PeerType.parse "server " = .error (.unknownPeerType "server ") ∧
    PeerType.parse "\u017ferver" = .error (.unknownPeerType "\u017ferver") ∧
    MessageType.parse "err" = .ok .err ∧
    Method.codec.ofText (Ascii.bytes " \"\\u0047ET\"") = .ok .get ∧
    Refused (Method.codec.read .direct (.text (.ok "VERSION_CONTROL"))) := by
  obtain ⟨⟨hmethod, -, -, hmethods, -⟩, ⟨hpeer, -⟩, hmessage, -⟩ := vocabularies_exact
  -- the first letter by the number of its code unit, behind a space
  have hget : Token.Spaced (Json.text "GET").tokens (Ascii.bytes " \"\\u0047ET\"") := by
    have hunit : Json.CodeUnit 'G'.toNat (Ascii.bytes "0047") :=
      .mk (w := 0) (x := 0) (y := 4) (z := 7) rfl rfl rfl rfl
    have hplain : Json.Literal ['E', 'T'] (Ascii.bytes "ET") :=
      .cons (.plain (c := 'E') (by decide) (by decide) (by decide))
        (.cons (.plain (c := 'T') (by decide) (by decide) (by decide)) .nil)
    have hletters : Json.Literal "GET".toList (Ascii.bytes "\\u0047ET") :=
      .cons (.unit hunit) hplain
    have hspace : [0x20].all Token.isSpace = true := rfl
    have hend : Token.Spaced [] [] := .nil rfl
    exact .cons hspace (.text hletters) hend
  refine ⟨(hmethod.texts.accepts _ _).mpr .versionControl, hmethod.texts.refuses _ fun m hm => ?_,
    (hpeer.texts.accepts _ _).mpr (Ascii.caseVariant_iff_lowered.mpr (by decide)),
    hpeer.texts.foreign _ ⟨' ', by decide, by decide⟩,
    hpeer.texts.foreign _ ⟨'\u017f', by decide, by decide⟩,
    (hmessage.texts.accepts _ _).mpr (Ascii.caseVariant_iff_raised.mpr (by decide)),
    (hmethod.strings.ofText _ _ hget _).mpr rfl,
    hmethod.aliases _ _ .versionControl (by decide) .direct⟩
  -- the texts that spell a method are listed, and this one is not among them
  have hlisted := (hmethods "get").mp ⟨m, (hmethod.texts.accepts _ m).mpr hm⟩
  exact absurd hlisted (by decide +kernel)

end Telemetry
