import Telemetry.Proofs.Json.Layout
import Telemetry.Proofs.Json.RealText

/-!
# What a text says apart from its numbers

The outline of a tree is the tree with null for its numbers. Which names the objects of a text have,
which texts stand in it and how it is nested can be seen from the outline, and the outline is known
even where a number is not read back: what is written for a double is always cut off as a number
(`Token.cutsNumeral_text`), and gathering tokens into a tree does not look into a number
(`Raw.outline_value`). So the tree of a text has the outline of the value that was written
(`Json.outline_ofText`), without any condition on the doubles in it.
-/

namespace Telemetry

/-- The token, with null for a number. -/
def Token.outline : Token → Token
  | .number _ => .null
  | t => t

namespace Raw

mutual

/-- The tree, with null for its numbers. -/
def outline : Raw → Raw
  | .number _ => .null
  | .array items ending => .array (outlineItems items) ending
  | .object members ending => .object (outlineMembers members) ending
  | .null => .null
  | .bool b => .bool b
  | .text s => .text s
  | .torn place => .torn place

def outlineItems : List Raw → List Raw
  | [] => []
  | item :: rest => outline item :: outlineItems rest

def outlineMembers : List (Except Fault String × Raw) → List (Except Fault String × Raw)
  | [] => []
  | (key, item) :: rest => (key, outline item) :: outlineMembers rest

end

/-! ### Gathering -/

section Gathering

variable {fuel : Nat}
  (hvalue : ∀ ts, value fuel (ts.map Token.outline) =
    ((value fuel ts).1.outline, (value fuel ts).2.map Token.outline))
  (hitems : ∀ ts, items fuel (ts.map Token.outline) =
    (outlineItems (items fuel ts).1, (items fuel ts).2.1,
      (items fuel ts).2.2.map Token.outline))
  (hmembers : ∀ key ts, members fuel key (ts.map Token.outline) =
    (outlineMembers (members fuel key ts).1, (members fuel key ts).2.1,
      (members fuel key ts).2.2.map Token.outline))

include hitems hmembers in
theorem outline_value_succ (ts : List Token) :
    value (fuel + 1) (ts.map Token.outline) =
      ((value (fuel + 1) ts).1.outline, (value (fuel + 1) ts).2.map Token.outline) := by
  -- the first token decides what is read, and its outline decides the same
  cases ts with
  | nil => rfl
  | cons head ts =>
    cases head with
    | openArray =>
      cases ts with
      | nil => rfl
      | cons t rest =>
        have h := hitems (t :: rest)
        -- a bracket that closes the array is told from anything that begins an item
        cases t <;> first
          | rfl
          | simp only [List.map_cons, Token.outline] at h ⊢
            simp only [value, h, outline]
    | openObject =>
      cases ts with
      | nil => rfl
      | cons t rest =>
        cases t with
        -- only a name is followed by members
        | text key =>
          have h := hmembers key rest
          simp only [List.map_cons, Token.outline, value, h, outline]
        | _ => rfl
    | _ => rfl

include hvalue hitems in
theorem outline_items_succ (ts : List Token) :
    items (fuel + 1) (ts.map Token.outline) =
      (outlineItems (items (fuel + 1) ts).1, (items (fuel + 1) ts).2.1,
        (items (fuel + 1) ts).2.2.map Token.outline) := by
  -- the first item has its outline by hypothesis; then a comma, a bracket or neither follows
  rw [items, hvalue ts, items]
  generalize value fuel ts = read
  obtain ⟨item, rest⟩ := read
  simp only
  cases rest with
  | nil => rfl
  | cons head rest =>
    cases head with
    | comma =>
      cases rest with
      | nil => rfl
      | cons t rest =>
        have h := hitems (t :: rest)
        -- a bracket behind the comma leaves it dangling, and anything else begins an item
        cases t <;> first
          | rfl
          | simp only [List.map_cons, Token.outline] at h ⊢
            simp only [h, outlineItems]
    | _ => rfl

include hvalue hmembers in
theorem outline_members_succ (key : Except Fault String) (ts : List Token) :
    members (fuel + 1) key (ts.map Token.outline) =
      (outlineMembers (members (fuel + 1) key ts).1, (members (fuel + 1) key ts).2.1,
        (members (fuel + 1) key ts).2.2.map Token.outline) := by
  cases ts with
  | nil => rfl
  | cons head ts =>
    cases head with
    | colon =>
      -- a colon is its own outline, so the item behind it is read by hypothesis
      have hcolon : (Token.colon :: ts).map Token.outline = .colon :: ts.map Token.outline := rfl
      rw [hcolon, members, hvalue ts, members]
      generalize value fuel ts = read
      obtain ⟨item, rest⟩ := read
      simp only
      cases rest with
      | nil => rfl
      | cons head rest =>
        cases head with
        | comma =>
          cases rest with
          | nil => rfl
          | cons t rest =>
            cases t with
            | text next =>
              have h := hmembers next rest
              simp only [List.map_cons, Token.outline, h, outlineMembers]
            | _ => rfl
        | _ => rfl
    | _ => rfl

end Gathering

/-- **Gathering tokens does not look into a number.** -/
theorem outline_value (fuel : Nat) :
    (∀ ts, value fuel (ts.map Token.outline) =
      ((value fuel ts).1.outline, (value fuel ts).2.map Token.outline)) ∧
    (∀ ts, items fuel (ts.map Token.outline) =
      (outlineItems (items fuel ts).1, (items fuel ts).2.1,
        (items fuel ts).2.2.map Token.outline)) ∧
    ∀ key ts, members fuel key (ts.map Token.outline) =
      (outlineMembers (members fuel key ts).1, (members fuel key ts).2.1,
        (members fuel key ts).2.2.map Token.outline) := by
  -- the three functions call each other with one call less to spend, so they go together
  induction fuel with
  | zero => exact ⟨fun _ => rfl, fun _ => rfl, fun _ _ => rfl⟩
  | succ fuel ih =>
    obtain ⟨hvalue, hitems, hmembers⟩ := ih
    exact ⟨outline_value_succ hitems hmembers, outline_items_succ hvalue hitems,
      outline_members_succ hvalue hmembers⟩

theorem outline_ofTokens {ts ts' : List Token} (h : ts.map Token.outline = ts'.map Token.outline) :
    (ofTokens ts).1.outline = (ofTokens ts').1.outline ∧
      (ofTokens ts).2.map Token.outline = (ofTokens ts').2.map Token.outline := by
  -- there are as many tokens, so as many calls are allowed for
  have hlength : ts.length = ts'.length := by
    rw [← List.length_map Token.outline, h, List.length_map]
  have hvalue := (outline_value (2 * ts.length + 2)).1 ts
  rw [h, (outline_value _).1 ts', hlength] at hvalue
  rw [ofTokens, ofTokens, hlength]
  exact (Prod.mk.inj hvalue).imp Eq.symm Eq.symm

/-! ### Trees with the outline of a value -/

/-- The tree differs from that of the value in numbers at most. -/
def Outlines (raw : Raw) (j : Json) : Prop :=
  raw.outline = (ofJson j).outline

theorem outlineMembers_eq_map (raws : List Raw.Member) :
    outlineMembers raws = raws.map fun member => (member.1, member.2.outline) := by
  induction raws with
  | nil => rfl
  | cons member raws ih => rw [outlineMembers, ih, List.map_cons]

theorem ofMembers_eq_map (members : List (String × Json)) :
    ofMembers members = members.map fun member => (.ok member.1, ofJson member.2) := by
  induction members with
  | nil => rfl
  | cons member members ih => rw [ofMembers, ih, List.map_cons]

/-- **The tree of an object is an object,** whose members have the names and the outlines of the
members that were written. -/
theorem Outlines.object {raw : Raw} {members : List (String × Json)}
    (h : raw.Outlines (.object members)) :
    ∃ raws, raw = .object raws .closed ∧ ∀ key item, (key, item) ∈ raws →
      ∃ member ∈ members, key = .ok member.1 ∧ item.Outlines member.2 := by
  unfold Outlines at h
  rw [ofJson, outline, outlineMembers_eq_map, ofMembers_eq_map, List.map_map] at h
  -- only an object has the outline of an object
  cases raw with
  | object raws ending =>
    rw [outline, outlineMembers_eq_map] at h
    obtain ⟨hraws, rfl⟩ := Raw.object.inj h
    refine ⟨raws, rfl, fun key item hitem => ?_⟩
    -- a member of the tree has its outline among those of the members that were written
    have hmem := List.mem_map_of_mem (f := fun member => (member.1, member.2.outline)) hitem
    rw [hraws] at hmem
    obtain ⟨member, hmember, heq⟩ := List.mem_map.1 hmem
    obtain ⟨hkey, hvalue⟩ := Prod.mk.inj heq
    exact ⟨member, hmember, hkey.symm, hvalue.symm⟩
  | _ => rw [outline] at h; cases h

/-- The tree of a text is the text. -/
theorem Outlines.text {raw : Raw} {s : String} (h : raw.Outlines (.text s)) :
    raw = .text (.ok s) := by
  unfold Outlines at h
  rw [ofJson, outline] at h
  -- a text is its own outline, and nothing else has it
  cases raw with
  | text s => rwa [outline] at h
  | _ => rw [outline] at h; cases h

end Raw

/-! ### Texts -/

/-- The token is no double without a numeral. -/
def Token.Finite (t : Token) : Prop :=
  ∀ x, t = .number (.ok (.real x)) → x.isFinite = true

namespace Token

theorem finite_of_not_isNumber {t : Token} (h : t.isNumber = false) : t.Finite := by
  rintro x rfl
  exact Bool.noConfusion h

/-- What is written for a token has the token's outline when it is cut off. -/
theorem Lexeme.outline {t : Token} {lexeme : List UInt8} (h : Lexeme t lexeme)
    (hfinite : t.Finite) : ∃ t' : Token, t'.outline = t.outline ∧ CutAs t lexeme t' := by
  cases hnumber : t.isNumber with
  -- anything but a number is cut off as it was written
  | false => exact ⟨t, rfl, h.cutAs (Json.legible_of_not_isNumber hnumber)⟩
  -- a number is cut off as some number, and all of them have the outline null
  | true =>
    cases h with
    | number n =>
      have hcuts : CutsNumeral (n.text.map Char.toUInt8) :=
        cutsNumeral_text fun x hx => hfinite x (congrArg _ (congrArg _ hx))
      obtain ⟨b, tail, value, hbytes, hb, hcut⟩ := hcuts
      rw [hbytes]
      exact ⟨.number value, rfl, cutAs_of_cut hb fun rest hends => hcut rest (hends rfl)⟩
    | _ => exact Bool.noConfusion hnumber

end Token

namespace Json

mutual

/-- A double in a value has a numeral, since the others are written as null. -/
theorem finite_tokens : ∀ j : Json, ∀ t ∈ j.tokens, t.Finite
  | .null | .bool _ | .text _ => by
    rw [tokens]
    exact List.forall_mem_singleton.2 (Token.finite_of_not_isNumber rfl)
  | .number n => by
    rw [tokens]
    refine List.forall_mem_singleton.2 ?_
    cases n with
    | int n => exact fun x hx => nomatch hx
    | real x =>
      intro y hy
      rw [Token.ofNumber] at hy
      -- a finite double has a numeral, and another is written as null
      split at hy
      · next hfinite =>
        cases hy
        rwa [← Decimal.isSome_binary?]
      · cases hy
  | .array [] | .object [] => by
    rw [tokens]
    simp only [List.forall_mem_cons]
    exact ⟨Token.finite_of_not_isNumber rfl, Token.finite_of_not_isNumber rfl, by simp⟩
  | .array (item :: items) => by
    rw [tokens]
    simp only [List.forall_mem_cons, List.forall_mem_append]
    exact ⟨Token.finite_of_not_isNumber rfl, finite_tokens item, finite_items items⟩
  | .object ((key, item) :: members) => by
    rw [tokens]
    simp only [List.forall_mem_cons, List.forall_mem_append]
    exact ⟨Token.finite_of_not_isNumber rfl, Token.finite_of_not_isNumber rfl,
      Token.finite_of_not_isNumber rfl, finite_tokens item, finite_members members⟩

theorem finite_items : ∀ items : List Json, ∀ t ∈ itemTokens items, t.Finite
  | [] => by
    rw [itemTokens]
    exact List.forall_mem_singleton.2 (Token.finite_of_not_isNumber rfl)
  | item :: items => by
    rw [itemTokens]
    simp only [List.forall_mem_cons, List.forall_mem_append]
    exact ⟨Token.finite_of_not_isNumber rfl, finite_tokens item, finite_items items⟩

theorem finite_members : ∀ members : List (String × Json), ∀ t ∈ memberTokens members, t.Finite
  | [] => by
    rw [memberTokens]
    exact List.forall_mem_singleton.2 (Token.finite_of_not_isNumber rfl)
  | (key, item) :: members => by
    rw [memberTokens]
    simp only [List.forall_mem_cons, List.forall_mem_append]
    exact ⟨Token.finite_of_not_isNumber rfl, Token.finite_of_not_isNumber rfl,
      Token.finite_of_not_isNumber rfl, finite_tokens item, finite_members members⟩

end

/-- **The tree of a text has the outline of the value that was written,** and every codec reads the
text as this tree. -/
theorem outline_ofText {j : Json} {text : List UInt8} (h : Token.Spaced j.tokens text) :
    ∃ raw : Raw, raw.Outlines j ∧
      ∀ {α : Type} (c : Codec α), c.ofText text = c.read .direct raw := by
  have htokens : (Token.ofText text).map Token.outline = j.tokens.map Token.outline :=
    Token.map_ofText_spaced h j.separated_tokens fun t ht lexeme hlexeme =>
      hlexeme.outline (j.finite_tokens t ht)
  obtain ⟨hraw, hrest⟩ := Raw.outline_ofTokens htokens
  rw [j.ofTokens_tokens] at hraw hrest
  refine ⟨(Raw.ofTokens (Token.ofText text)).1, hraw, fun c => ?_⟩
  -- there is nothing behind the value
  have hnil : (Raw.ofTokens (Token.ofText text)).2 = [] := List.map_eq_nil_iff.1 hrest
  rw [Codec.ofText]
  simp only [hnil]
  exact bind_pure _

end Json

end Telemetry
