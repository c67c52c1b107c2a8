import Telemetry.Http.Target

/-!
# What is kept of a request target

A target is put together from `Target.Parts`: a scheme, user information, a host, a path, a query
and a fragment. `Parts.ofBytes?_bytes` says what taking it apart gives back: the host, to the
letter, and the path, to the letter; of the other parts nothing. A target that is a path has a
`Target.Tail` only (`Tail.ofBytes?_bytes`).

`Parts.Proper` is the grammar of the parts. User information may hold any bytes but those that end
an authority, `@` and `:` among them, and so the host is what stands behind the last `@` and not the
first. Only in one place could the same text be put together in two ways, `a://b` being a scheme
and a host or else a host `a:` with a path `//b`; it is read in the first way, and the second is
ruled out.

The proofs follow the reader. An accepted authority is ASCII and holds no byte that could end it
(`Authority.isValid_bytes`), which is what makes its text the text of its parts
(`Parts.host_of_string?`). Everything else is a matter of where a byte occurs for the first time
(`takeWhile_append_of_stop`).
-/

namespace Telemetry

/-- A search that passes over all of `l` and stops at the head of `r`, if there is one. -/
theorem takeWhile_append_of_stop {α : Type} {p : α → Bool} {l r : List α} (hl : ∀ a ∈ l, p a = true)
    (hr : ∀ a, r.head? = some a → p a = false) :
    (l ++ r).takeWhile p = l ∧ (l ++ r).dropWhile p = r := by
  rw [List.takeWhile_append_of_pos hl, List.dropWhile_append_of_pos hl]
  cases r with
  | nil => simp
  | cons a r => simp [hr a rfl]

/-- What holds of all numbers below 256 holds of all bytes. -/
theorem forall_byte {p : UInt8 → Prop} (h : ∀ n, n < 256 → p (UInt8.ofNat n)) (b : UInt8) :
    p b := by
  have hb := h b.toNat b.toNat_lt
  rwa [UInt8.ofNat_toNat] at hb

namespace Utf8

theorem eq_empty_of_ofString {s : String} (h : ofString s = []) : s = "" := by
  have hs := string?_ofString s
  rw [h] at hs
  exact (Option.some.inj hs).symm

/-- An ASCII byte stands in the bytes of a text where its character stands in the text. -/
theorem mem_encode {c : Char} (hc : c.toNat < 0x80) {cs : List Char} :
    c.toUInt8 ∈ encode cs ↔ c ∈ cs := by
  rw [encode, List.mem_flatMap]
  constructor
  · rintro ⟨d, hd, hmem⟩
    -- a character beyond ASCII has no byte of ASCII
    rcases utf8EncodeChar_cases d with ⟨hascii, heq⟩ | ⟨-, hbeyond⟩
    · rw [heq, List.mem_singleton] at hmem
      rwa [Ascii.toUInt8_injective hc hascii hmem]
    · have hle := hbeyond _ hmem
      rw [UInt8.le_iff_toNat_le, Ascii.toNat_toUInt8 hc] at hle
      exact absurd (Nat.lt_of_lt_of_le hc hle) (Nat.lt_irrefl _)
  · intro hmem
    refine ⟨c, hmem, ?_⟩
    -- the character is ASCII, so its one byte is this one
    rcases utf8EncodeChar_cases c with ⟨-, heq⟩ | ⟨hbeyond, -⟩
    · rw [heq]
      exact List.mem_singleton.2 rfl
    · exact absurd (Nat.lt_of_lt_of_le hc hbeyond) (Nat.lt_irrefl _)

/-- The bytes of a text begin with an ASCII byte if the text begins with its character. -/
theorem head?_encode {c : Char} (hc : c.toNat < 0x80) {cs : List Char}
    (h : (encode cs).head? = some c.toUInt8) : cs.head? = some c := by
  -- no characters, no bytes; otherwise it is the first character that decides
  cases cs with
  | nil => exact absurd h (by simp)
  | cons d cs =>
    rw [encode, List.flatMap_cons] at h
    rcases utf8EncodeChar_cases d with ⟨hascii, heq⟩ | ⟨-, hbeyond⟩
    · rw [heq] at h
      have hd := Option.some.inj h
      rw [List.head?_cons, Ascii.toUInt8_injective hascii hc hd]
    · -- a character beyond ASCII does not begin with a byte of ASCII
      have hmem : c.toUInt8 ∈ String.utf8EncodeChar d := by
        cases hbytes : String.utf8EncodeChar d with
        | nil => exact absurd hbytes (String.utf8EncodeChar_ne_nil)
        | cons b bytes =>
          rw [hbytes] at h
          rw [← Option.some.inj h]
          exact List.mem_cons_self
      have hle := hbeyond _ hmem
      rw [UInt8.le_iff_toNat_le, Ascii.toNat_toUInt8 hc] at hle
      exact absurd (Nat.lt_of_lt_of_le hc hle) (Nat.lt_irrefl _)

/-- The bytes of a text end with an ASCII byte only if the text ends with its character. -/
theorem getLast?_encode {c : Char} (hc : c.toNat < 0x80) {cs : List Char}
    (h : (encode cs).getLast? = some c.toUInt8) : cs.getLast? = some c := by
  rcases List.eq_nil_or_concat cs with rfl | ⟨ds, d, rfl⟩
  · exact absurd h (by simp)
  · rw [List.concat_eq_append, encode_append, List.getLast?_append] at h
    rw [List.concat_eq_append, List.getLast?_concat]
    cases hlast : (encode [d]).getLast? with
    | none =>
      have hd : String.utf8EncodeChar d ++ [] = [] := List.getLast?_eq_none_iff.1 hlast
      exact absurd (List.append_eq_nil_iff.1 hd).1 String.utf8EncodeChar_ne_nil
    | some b =>
      rw [hlast, Option.some_or] at h
      -- the one character with this byte is its own
      have hmem := List.mem_of_getLast? (hlast.trans h)
      rw [List.mem_singleton.1 ((mem_encode hc).1 hmem)]

/-- ASCII bytes are the bytes of a text. -/
theorem exists_encode {bytes : List UInt8} (h : ∀ b ∈ bytes, b < 0x80) :
    ∃ cs, bytes = encode cs := by
  -- Each byte below 128 is the one byte of the character with its number.
  induction bytes with
  | nil => exact ⟨[], rfl⟩
  | cons b bytes ih =>
    rw [List.forall_mem_cons] at h
    obtain ⟨cs, rfl⟩ := ih h.2
    refine ⟨Char.ofNat b.toNat :: cs, ?_⟩
    have hb : b.toNat < 0x80 := UInt8.lt_iff_toNat_lt.1 h.1
    -- numbers below 128 are no surrogates
    have hvalid : (Char.ofNat b.toNat).toNat = b.toNat := by
      rw [Char.ofNat, dif_pos (.inl (Nat.lt_trans hb (by decide)))]
      rfl
    show b :: encode cs = String.utf8EncodeChar (Char.ofNat b.toNat) ++ encode cs
    rcases utf8EncodeChar_cases (Char.ofNat b.toNat) with ⟨hascii, heq⟩ | ⟨hbeyond, -⟩
    · rw [heq]
      have hbyte : (Char.ofNat b.toNat).toUInt8 = b := by
        refine UInt8.toNat_inj.1 ?_
        rw [Ascii.toNat_toUInt8 hascii, hvalid]
      rw [hbyte]
      rfl
    · rw [hvalid] at hbeyond
      exact absurd (Nat.lt_of_lt_of_le hb hbeyond) (Nat.lt_irrefl _)

end Utf8

namespace Authority

/-- The bytes of an authority are ASCII, and none of them could end it. -/
theorem step_byte {p q : Progress} {b : UInt8} (h : step p b = some q) :
    Target.endsAuthority b = false ∧ b < 0x80 := by
  have hplain : ∀ b, isPlain b = true → Target.endsAuthority b = false ∧ b < 0x80 :=
    forall_byte (by decide +kernel)
  unfold step at h
  -- five bytes that are counted or remembered, and the plain ones
  split at h
  · next hb => subst hb; decide
  split at h
  · next hb => subst hb; decide
  split at h
  · next hb => subst hb; decide
  split at h
  · next hb => subst hb; decide
  split at h
  · next hb => subst hb; decide
  split at h
  · next hb => exact hplain b hb
  · cases h

theorem foldlM_bytes {bytes : List UInt8} {p q : Progress} (h : bytes.foldlM step p = some q) :
    ∀ b ∈ bytes, Target.endsAuthority b = false ∧ b < 0x80 := by
  -- The progress varies: whatever has been counted, a byte is looked at in the same way.
  induction bytes generalizing p with
  | nil => simp
  | cons b bytes ih =>
    rw [List.foldlM_cons] at h
    obtain ⟨p', hstep, hrest⟩ := Option.bind_eq_some_iff.1 h
    exact List.forall_mem_cons.2 ⟨step_byte hstep, ih hrest⟩

theorem isValid_bytes {bytes : List UInt8} (h : isValid bytes = true) :
    ∀ b ∈ bytes, Target.endsAuthority b = false ∧ b < 0x80 := by
  rw [isValid, Bool.and_eq_true] at h
  cases hq : bytes.foldlM step {} with
  | none => rw [hq] at h; exact absurd h.2 (by simp)
  | some q => exact foldlM_bytes hq

/-- User information is taken off up to the last `@`. -/
theorem withoutUser_append {user host : List Char} (h : '@' ∉ host) :
    withoutUser (user ++ '@' :: host) = host := by
  -- read backwards, the host comes first and ends at the last `@`
  have hstop := takeWhile_append_of_stop (p := fun c => decide (c ≠ '@')) (l := host.reverse)
    (r := '@' :: user.reverse)
    (fun c hc => decide_eq_true fun heq => h (heq ▸ List.mem_reverse.1 hc))
    (fun c hc => by rw [← Option.some.inj hc]; rfl)
  rw [withoutUser, List.reverse_append, List.reverse_cons, List.append_assoc]
  show (List.takeWhile _ (host.reverse ++ '@' :: user.reverse)).reverse = host
  rw [hstop.1, List.reverse_reverse]

/-- Where there is no user information, there is none to take off. -/
theorem withoutUser_of_not_mem {host : List Char} (h : '@' ∉ host) : withoutUser host = host := by
  have hall := takeWhile_append_of_stop (p := fun c => decide (c ≠ '@')) (l := host.reverse)
    (r := []) (fun c hc => decide_eq_true fun heq => h (heq ▸ List.mem_reverse.1 hc)) (by simp)
  rw [List.append_nil] at hall
  rw [withoutUser, hall.1, List.reverse_reverse]

end Authority

namespace Target

/-! ### The parts of a target -/

/-- What may stand behind an authority. -/
structure Tail where
  path : String
  query : Option (List UInt8)
  fragment : Option (List UInt8)

/-- What a target with an authority is put together from. -/
structure Parts extends Tail where
  scheme : Option (List UInt8)
  user : Option (List UInt8)
  /-- The host, with its port. -/
  host : String

namespace Tail

/-- The query, with its question mark. -/
def queryBytes (t : Tail) : List UInt8 :=
  t.query.elim [] fun query => '?'.toUInt8 :: query

/-- The fragment, with its number sign. -/
def fragmentBytes (t : Tail) : List UInt8 :=
  t.fragment.elim [] fun fragment => '#'.toUInt8 :: fragment

/-- The bytes of the path, the query and the fragment. -/
def bytes (t : Tail) : List UInt8 :=
  Utf8.ofString t.path ++ (t.queryBytes ++ t.fragmentBytes)

/-- The path ends at the query, and the query at the fragment. -/
structure Proper (t : Tail) : Prop where
  path : ∀ c ∈ t.path.toList, c ≠ '?' ∧ c ≠ '#'
  query : ∀ query ∈ t.query, '#'.toUInt8 ∉ query

instance (t : Tail) : Decidable t.Proper :=
  decidable_of_iff ((t.path.toList.all fun c => c ≠ '?' ∧ c ≠ '#') = true ∧
    ∀ query ∈ t.query, '#'.toUInt8 ∉ query)
    ⟨fun ⟨hpath, hquery⟩ => ⟨by simpa only [List.all_eq_true, decide_eq_true_eq] using hpath,
      hquery⟩,
    fun h => ⟨by simpa only [List.all_eq_true, decide_eq_true_eq] using h.path, h.query⟩⟩

theorem head?_queryBytes {t : Tail} {b : UInt8}
    (h : (t.queryBytes ++ t.fragmentBytes).head? = some b) :
    b = '?'.toUInt8 ∨ b = '#'.toUInt8 := by
  rw [queryBytes, fragmentBytes] at h
  -- the first of the two that is there begins with its mark
  cases hquery : t.query with
  | some query => rw [hquery] at h; exact .inl (Option.some.inj h).symm
  | none =>
    cases hfragment : t.fragment with
    | some fragment => rw [hquery, hfragment] at h; exact .inr (Option.some.inj h).symm
    | none => rw [hquery, hfragment] at h; exact absurd h (by simp)

/-- A slash in front of a query or a fragment is a slash of the path. -/
theorem exists_of_slash {t : Tail} {cs : List Char} {rest : List UInt8}
    (h : Utf8.encode cs ++ (t.queryBytes ++ t.fragmentBytes) = '/'.toUInt8 :: rest) :
    ∃ cs', cs = '/' :: cs' ∧ Utf8.encode cs' ++ (t.queryBytes ++ t.fragmentBytes) = rest := by
  cases cs with
  | nil =>
    have hhead : (t.queryBytes ++ t.fragmentBytes).head? = some '/'.toUInt8 := congrArg List.head? h
    -- behind an empty path stands a question mark or a number sign
    rcases head?_queryBytes hhead with hb | hb <;> exact absurd hb (by decide)
  | cons c cs =>
    have hhead : (Utf8.encode (c :: cs)).head? = some '/'.toUInt8 := by
      cases hbytes : Utf8.encode (c :: cs) with
      | nil =>
        have hc := (List.append_eq_nil_iff.1 hbytes).1
        exact absurd hc String.utf8EncodeChar_ne_nil
      | cons b bytes =>
        rw [hbytes] at h
        exact congrArg some (List.cons.inj h).1
    obtain rfl : c = '/' := Option.some.inj (Utf8.head?_encode (by decide) hhead)
    exact ⟨cs, rfl, (List.cons.inj h).2⟩

/-- A path does not hold the byte of an ASCII character that it does not hold. -/
theorem ne_of_not_mem_path {t : Tail} {c : Char} (hc : c.toNat < 0x80) (h : c ∉ t.path.toList) :
    ∀ b ∈ Utf8.ofString t.path, b ≠ c.toUInt8 := by
  rintro b hb rfl
  exact h ((Utf8.mem_encode hc).1 hb)

theorem beforeFragment_bytes {t : Tail} (ht : t.Proper) :
    beforeFragment t.bytes = Utf8.ofString t.path ++ t.queryBytes := by
  rw [beforeFragment, bytes, ← List.append_assoc]
  refine (takeWhile_append_of_stop ?_ ?_).1
  -- there is no number sign in the path or in the query
  · intro b hb
    refine decide_eq_true ?_
    rcases List.mem_append.1 hb with hb | hb
    · exact ne_of_not_mem_path (by decide) (fun hmem => (ht.path _ hmem).2 rfl) b hb
    · rw [queryBytes] at hb
      cases hquery : t.query with
      | none => rw [hquery] at hb; cases hb
      | some query =>
        rw [hquery] at hb
        rcases List.mem_cons.1 hb with rfl | hb
        · decide
        · rintro rfl
          exact ht.query query hquery hb
  · intro b hb
    -- and the fragment begins with one
    rw [fragmentBytes] at hb
    cases hfragment : t.fragment with
    | none => rw [hfragment] at hb; cases hb
    | some fragment =>
      rw [hfragment] at hb
      rw [← Option.some.inj hb]
      decide

theorem beforeQuery_path {t : Tail} (ht : t.Proper) :
    beforeQuery (Utf8.ofString t.path ++ t.queryBytes) = Utf8.ofString t.path := by
  refine (takeWhile_append_of_stop ?_ ?_).1
  · intro b hb
    -- there is no question mark in the path, and the query begins with one
    refine decide_eq_true ?_
    exact ne_of_not_mem_path (by decide) (fun hmem => (ht.path _ hmem).1 rfl) b hb
  · intro b hb
    rw [queryBytes] at hb
    cases hquery : t.query with
    | none => rw [hquery] at hb; cases hb
    | some query =>
      rw [hquery] at hb
      rw [← Option.some.inj hb]
      decide

/-- **The path is kept to the letter,** less the query and the fragment; an empty one is `/`. -/
theorem path?_bytes {t : Tail} (ht : t.Proper) {path : String}
    (h : path? t.bytes = some path) :
    path = if t.path = "" then "/" else t.path := by
  rw [path?, beforeFragment_bytes ht, beforeQuery_path ht, Utf8.string?_ofString] at h
  -- the two checks pass, and the text is that of the path
  obtain ⟨-, -, h⟩ := Option.bind_eq_some_iff.1 h
  obtain ⟨-, -, h⟩ := Option.bind_eq_some_iff.1 h
  obtain ⟨text, htext, h⟩ := Option.bind_eq_some_iff.1 h
  rw [← Option.some.inj h, ← Option.some.inj htext]
  simp only [String.isEmpty_iff]

/-- **A target that is a path** names no host, and its path is kept to the letter. -/
theorem ofBytes?_bytes {t : Tail} (ht : t.Proper) (hslash : t.path.toList.head? = some '/')
    {target : Target} (h : ofBytes? t.bytes = some target) : target = ⟨none, t.path⟩ := by
  obtain ⟨cs, hcs⟩ := List.head?_eq_some_iff.1 hslash
  have hbytes : t.bytes =
      '/'.toUInt8 :: (Utf8.encode cs ++ (t.queryBytes ++ t.fragmentBytes)) := by
    rw [bytes, Utf8.ofString, hcs]
    rfl
  have hne : t.path ≠ "" := by
    intro hempty
    rw [hempty] at hcs
    exact absurd hcs (by simp)
  rw [hbytes] at h
  -- the text begins with a slash, so it is not taken for an authority
  unfold ofBytes? at h
  split at h
  · exact absurd h (by simp)
  · have hpath : (path? t.bytes).map (fun path => (⟨none, path⟩ : Target)) = some target := by
      rw [hbytes]
      exact h
    obtain ⟨path, hread, rfl⟩ := Option.map_eq_some_iff.1 hpath
    rw [path?_bytes ht hread, if_neg hne]

end Tail

namespace Parts

/-- User information and host. -/
def authority (t : Parts) : List UInt8 :=
  (t.user.elim [] fun user => user ++ ['@'.toUInt8]) ++ Utf8.ofString t.host

/-- The bytes of the target. -/
def bytes (t : Parts) : List UInt8 :=
  (t.scheme.elim [] fun scheme => scheme ++ Ascii.bytes "://") ++ (t.authority ++ t.toTail.bytes)

/-- The parts that a target with an authority may have. -/
structure Proper (t : Parts) : Prop extends Tail.Proper t.toTail where
  scheme : ∀ scheme ∈ t.scheme, ':'.toUInt8 ∉ scheme ∧ '/'.toUInt8 ∉ scheme
  user : ∀ user ∈ t.user, ∀ b ∈ user, endsAuthority b = false
  host_ne_empty : t.host ≠ ""
  host : ∀ c ∈ t.host.toList, c ≠ '@' ∧ c ≠ '/' ∧ c ≠ '?' ∧ c ≠ '#'
  path_start : t.path = "" ∨ t.path.toList.head? = some '/'
  /-- A text that can be read with a scheme is read with it, and what else begins like this is no
  target at all: an authority has no slash. -/
  noScheme : t.scheme = none → t.host.toList.getLast? = some ':' → ¬ ['/', '/'] <+: t.path.toList

instance (t : Parts) : Decidable t.Proper :=
  decidable_of_iff (t.toTail.Proper ∧
    (∀ scheme ∈ t.scheme, ':'.toUInt8 ∉ scheme ∧ '/'.toUInt8 ∉ scheme) ∧
    (∀ user ∈ t.user, (user.all fun b => !endsAuthority b) = true) ∧ t.host ≠ "" ∧
    (t.host.toList.all fun c => c ≠ '@' ∧ c ≠ '/' ∧ c ≠ '?' ∧ c ≠ '#') = true ∧
    (t.path = "" ∨ t.path.toList.head? = some '/') ∧
    (t.scheme = none → t.host.toList.getLast? = some ':' → ¬ ['/', '/'] <+: t.path.toList)) <| by
    simp only [List.all_eq_true, decide_eq_true_eq, Bool.not_eq_true']
    exact ⟨fun ⟨htail, hscheme, huser, hempty, hhost, hstart, hnone⟩ =>
      ⟨htail, hscheme, huser, hempty, hhost, hstart, hnone⟩,
    fun h => ⟨h.toProper, h.scheme, h.user, h.host_ne_empty, h.host, h.path_start, h.noScheme⟩⟩

/-- The bytes of an authority do not end it. -/
theorem authority_bytes {t : Parts} (ht : t.Proper) :
    ∀ b ∈ t.authority, endsAuthority b = false := by
  intro b hb
  rw [authority] at hb
  rcases List.mem_append.1 hb with hb | hb
  · -- user information may hold any bytes but those, and it ends with `@`
    cases huser : t.user with
    | none => rw [huser] at hb; exact absurd hb (by simp)
    | some user =>
      rw [huser] at hb
      rcases List.mem_append.1 hb with hb | hb
      · exact ht.user user huser b hb
      · rw [List.mem_singleton.1 hb]
        decide
  · -- the ASCII bytes of the host are characters of the host
    have hother : ∀ c : Char, c.toNat < 0x80 → c ∉ t.host.toList → b ≠ c.toUInt8 := by
      rintro c hc hmem rfl
      exact hmem ((Utf8.mem_encode hc).1 hb)
    have hslash := hother '/' (by decide) fun hmem => (ht.host _ hmem).2.1 rfl
    have hquestion := hother '?' (by decide) fun hmem => (ht.host _ hmem).2.2.1 rfl
    have hnumber := hother '#' (by decide) fun hmem => (ht.host _ hmem).2.2.2 rfl
    simp [endsAuthority, hslash, hquestion, hnumber]

theorem authority_ne_nil {t : Parts} (ht : t.Proper) : t.authority ≠ [] := by
  intro h
  exact ht.host_ne_empty (Utf8.eq_empty_of_ofString (List.append_eq_nil_iff.1 h).2)

theorem split_authority {t : Parts} (ht : t.Proper) :
    (t.authority ++ t.toTail.bytes).takeWhile (fun b => !endsAuthority b) = t.authority ∧
      (t.authority ++ t.toTail.bytes).dropWhile (fun b => !endsAuthority b) =
        t.toTail.bytes := by
  refine takeWhile_append_of_stop (fun b hb => by rw [authority_bytes ht b hb]; rfl) ?_
  intro b hb
  -- the path, the query and the fragment each begin with a byte that ends the authority
  have hends : b = '/'.toUInt8 ∨ b = '?'.toUInt8 ∨ b = '#'.toUInt8 := by
    rcases ht.path_start with hpath | hpath
    · rw [Tail.bytes, hpath] at hb
      exact .inr (Tail.head?_queryBytes hb)
    · obtain ⟨cs, hcs⟩ := List.head?_eq_some_iff.1 hpath
      rw [Tail.bytes, Utf8.ofString, hcs] at hb
      exact .inl (Option.some.inj hb).symm
  rcases hends with rfl | rfl | rfl <;> decide

/-- The text of an accepted authority is user information, if there is any, and the host. -/
theorem host_of_string? {t : Parts} (ht : t.Proper) (hvalid : Authority.isValid t.authority = true)
    {text : String} (h : Utf8.string? t.authority = some text) :
    Authority.host text = t.host := by
  have hat : '@' ∉ t.host.toList := fun hmem => (ht.host _ hmem).1 rfl
  have hbytes := Authority.isValid_bytes hvalid
  rw [authority] at h hbytes
  rw [Authority.host]
  cases huser : t.user with
  -- without user information the authority is the host, and it has no `@`
  | none =>
    rw [huser, Option.elim_none, List.nil_append, Utf8.string?_ofString] at h
    obtain rfl := Option.some.inj h
    rw [Authority.withoutUser_of_not_mem hat, String.ofList_toList]
  | some user =>
    rw [huser, Option.elim_some] at h hbytes
    -- the authority was accepted, so the user information is ASCII and has a text
    obtain ⟨cs, rfl⟩ := Utf8.exists_encode fun b hb =>
      (hbytes b (List.mem_append_left _ (List.mem_append_left _ hb))).2
    have hwhole : Utf8.encode cs ++ ['@'.toUInt8] ++ Utf8.ofString t.host =
        Utf8.ofString (String.ofList (cs ++ '@' :: t.host.toList)) := by
      rw [Utf8.ofString, Utf8.ofString, String.toList_ofList, Utf8.encode_append, List.append_assoc]
      rfl
    rw [hwhole, Utf8.string?_ofString] at h
    obtain rfl := Option.some.inj h
    rw [String.toList_ofList, Authority.withoutUser_append hat, String.ofList_toList]

/-- What stands behind a scheme gives back the host and the path. -/
theorem ofHierarchy?_parts {t : Parts} (ht : t.Proper) {target : Target}
    (h : ofHierarchy? (t.authority ++ t.toTail.bytes) = some target) :
    ∃ text, target.authority = some text ∧ Authority.host text = t.host ∧
      target.path = if t.path = "" then "/" else t.path := by
  obtain ⟨htake, hdrop⟩ := split_authority ht
  rw [ofHierarchy?, htake, hdrop] at h
  -- An authority that is not accepted makes no target; one that is has the text of its parts.
  cases hvalid : Authority.isValid t.authority with
  | false => rw [hvalid] at h; cases h
  | true =>
    obtain ⟨-, -, h⟩ := Option.bind_eq_some_iff.1 h
    obtain ⟨text, htext, h⟩ := Option.bind_eq_some_iff.1 h
    obtain ⟨path, hpath, h⟩ := Option.bind_eq_some_iff.1 h
    obtain rfl := Option.some.inj h
    exact ⟨text, rfl, host_of_string? ht hvalid htext, Tail.path?_bytes ht.toProper hpath⟩

/-- A target that is nothing but an authority gives back the host, and its path is empty. -/
theorem ofAuthority?_parts {t : Parts} (ht : t.Proper) {target : Target}
    (h : ofAuthority? (t.authority ++ t.toTail.bytes) = some target) :
    t.path = "" ∧ ∃ text, target.authority = some text ∧ Authority.host text = t.host ∧
      target.path = "" := by
  rw [ofAuthority?] at h
  split at h
  · next hvalid =>
    obtain ⟨text, htext, rfl⟩ := Option.map_eq_some_iff.1 h
    -- nothing in an authority could end it, so nothing follows it
    have hnone : t.toTail.bytes = [] := by
      have hall := takeWhile_append_of_stop (p := fun b => !endsAuthority b) (r := [])
        (fun b hb => by rw [(Authority.isValid_bytes hvalid b hb).1]; rfl) (by simp)
      rw [List.append_nil] at hall
      rw [← (split_authority ht).2, hall.2]
    rw [hnone, List.append_nil] at hvalid htext
    have hpath : t.path = "" := Utf8.eq_empty_of_ofString (List.append_eq_nil_iff.1 hnone).1
    exact ⟨hpath, text, rfl, host_of_string? ht hvalid htext, rfl⟩
  · exact absurd h (by simp)

/-- Behind a scheme stands what the scheme was put before. -/
theorem behindScheme?_of_scheme {scheme rest : List UInt8} (hcolon : ':'.toUInt8 ∉ scheme) :
    behindScheme? (scheme ++ (Ascii.bytes "://" ++ rest)) =
      if scheme.all isScheme then some (scheme.length, rest) else none := by
  rw [behindScheme?]
  by_cases hall : scheme.all isScheme = true
  · obtain ⟨htake, hdrop⟩ := takeWhile_append_of_stop (p := isScheme)
      (r := Ascii.bytes "://" ++ rest) (List.all_eq_true.1 hall) fun b hb => by
        rw [← Option.some.inj hb]
        decide
    rw [htake, hdrop, if_pos hall]
    exact if_pos rfl
  · rw [if_neg hall]
    -- the scheme breaks off at a byte that is no colon
    cases hrest : scheme.dropWhile isScheme with
    | nil =>
      have hsame := List.takeWhile_append_dropWhile (p := isScheme) (l := scheme)
      rw [hrest, List.append_nil] at hsame
      rw [← hsame] at hall
      exact absurd (List.all_takeWhile) hall
    | cons b more =>
      refine if_neg ?_
      intro hbehind
      rw [List.dropWhile_append, hrest] at hbehind
      have hb : b = ':'.toUInt8 := (List.cons.inj hbehind).1
      have hmem : b ∈ scheme :=
        (List.dropWhile_suffix isScheme).subset (hrest ▸ List.mem_cons_self)
      exact hcolon (hb ▸ hmem)

theorem isScheme_bytes : ∀ b, isScheme b = true → endsAuthority b = false :=
  forall_byte (by decide +kernel)

/-- In a text that is read with a scheme, the authority that it would have without one ends with
`:`, and `//` follows. -/
theorem tail_of_behindScheme? {t : Parts} (ht : t.Proper) {n : Nat} {rest : List UInt8}
    (h : behindScheme? (t.authority ++ t.toTail.bytes) = some (n, rest)) :
    t.authority.getLast? = some ':'.toUInt8 ∧ t.toTail.bytes = Ascii.bytes "//" ++ rest := by
  obtain ⟨bytes, hbytes⟩ : ∃ bytes, bytes = t.authority ++ t.toTail.bytes := ⟨_, rfl⟩
  obtain ⟨hauthority, htail⟩ := split_authority ht
  rw [← hbytes] at hauthority htail
  rw [← hbytes, behindScheme?] at h
  split at h
  · next htake =>
    obtain ⟨-, hrest⟩ := Prod.mk.inj (Option.some.inj h)
    -- the scheme with its colon stops where `//` begins, so it is all of the authority
    have hwhole : (bytes.takeWhile isScheme ++ [':'.toUInt8]) ++ (Ascii.bytes "//" ++ rest) =
        bytes := by
      conv => rhs; rw [← List.takeWhile_append_dropWhile (p := isScheme) (l := bytes),
        ← List.take_append_drop 3 (bytes.dropWhile isScheme), htake, hrest]
      rw [List.append_assoc]
      rfl
    have hstop := takeWhile_append_of_stop (p := fun b => !endsAuthority b)
      (l := bytes.takeWhile isScheme ++ [':'.toUInt8]) (r := Ascii.bytes "//" ++ rest)
      (fun b hb => ?_) fun b hb => ?_
    · rw [hwhole, hauthority, htail] at hstop
      rw [hstop.1, List.getLast?_concat]
      exact ⟨rfl, hstop.2⟩
    · rcases List.mem_append.1 hb with hb | hb
      · rw [isScheme_bytes b (List.all_eq_true.1 List.all_takeWhile b hb)]
        rfl
      · rw [List.mem_singleton.1 hb]
        rfl
    · rw [← Option.some.inj hb]
      rfl
  · exact absurd h (by simp)

/-- The last byte of the authority is that of the host. -/
theorem getLast?_host {t : Parts} (ht : t.Proper)
    (h : t.authority.getLast? = some ':'.toUInt8) : t.host.toList.getLast? = some ':' := by
  rw [authority, List.getLast?_append] at h
  -- the host is not empty, so its last byte is that of the authority
  cases hbytes : (Utf8.ofString t.host).getLast? with
  | none =>
    have hempty := Utf8.eq_empty_of_ofString (List.getLast?_eq_none_iff.1 hbytes)
    exact absurd hempty ht.host_ne_empty
  | some b =>
    rw [hbytes, Option.some_or] at h
    exact Utf8.getLast?_encode (by decide) (hbytes.trans h)

/-- Without a scheme of its own, a text is not read with one. -/
theorem behindScheme?_of_noScheme {t : Parts} (ht : t.Proper) (hscheme : t.scheme = none) :
    behindScheme? (t.authority ++ t.toTail.bytes) = none := by
  cases h : behindScheme? (t.authority ++ t.toTail.bytes) with
  | none => rfl
  | some behind =>
    exfalso
    obtain ⟨hcolon, hslashes⟩ := tail_of_behindScheme? ht h
    rw [Tail.bytes, Utf8.ofString] at hslashes
    -- both slashes are slashes of the path
    obtain ⟨cs, hcs, hrest⟩ := Tail.exists_of_slash hslashes
    obtain ⟨cs', rfl, -⟩ := Tail.exists_of_slash hrest
    refine ht.noScheme hscheme (getLast?_host ht hcolon) ?_
    rw [hcs]
    exact ⟨cs', rfl⟩

/-- A target that is neither `*` nor a path has an authority. -/
theorem ofBytes?_of_head {bytes : List UInt8} (hstar : bytes ≠ Ascii.bytes "*")
    (hslash : bytes.head? ≠ some '/'.toUInt8) {target : Target} (h : ofBytes? bytes = some target) :
    (match behindScheme? bytes with
      | some (length, rest) => if length ≤ greatestScheme then ofHierarchy? rest else none
      | none => ofAuthority? bytes) = some target := by
  -- of the branches of the reader only the last is left: not too long, not empty, not `*`, not a
  -- path
  unfold ofBytes? at h
  split at h
  · exact absurd h (by simp)
  · split at h
    · exact absurd h (by simp)
    · next b rest =>
      split at h
      · next hb => rw [hb.1, hb.2] at hstar; exact absurd rfl hstar
      · split at h
        · next hb => rw [hb] at hslash; exact absurd rfl hslash
        · exact h

/-- An authority has no slash. -/
theorem ofAuthority?_of_slash {bytes : List UInt8} (h : '/'.toUInt8 ∈ bytes) :
    ofAuthority? bytes = none := by
  rw [ofAuthority?, if_neg]
  -- the bytes of an accepted authority do not end one, and a slash does
  intro hvalid
  have hslash := (Authority.isValid_bytes hvalid _ h).1
  exact absurd hslash (by decide)

theorem bytes_of_scheme {t : Parts} {scheme : List UInt8} (h : t.scheme = some scheme) :
    t.bytes = scheme ++ (Ascii.bytes "://" ++ (t.authority ++ t.toTail.bytes)) := by
  rw [bytes, h, Option.elim_some, List.append_assoc]

theorem bytes_of_noScheme {t : Parts} (h : t.scheme = none) :
    t.bytes = t.authority ++ t.toTail.bytes := by
  rw [bytes, h]
  rfl

/-- A target with an authority does not begin like a path. -/
theorem head?_ne_slash {t : Parts} (ht : t.Proper) : t.bytes.head? ≠ some '/'.toUInt8 := by
  intro heq
  -- neither an authority nor a scheme has a slash
  cases hscheme : t.scheme with
  | none =>
    cases hauthority : t.authority with
    | nil => exact authority_ne_nil ht hauthority
    | cons b more =>
      rw [bytes_of_noScheme hscheme, hauthority] at heq
      have hb := authority_bytes ht b (by rw [hauthority]; exact List.mem_cons_self)
      rw [Option.some.inj heq] at hb
      exact absurd hb (by decide)
  | some scheme =>
    rw [bytes_of_scheme hscheme] at heq
    cases scheme with
    | nil => exact absurd (Option.some.inj heq) (by decide)
    | cons b more =>
      have hslash := (ht.scheme _ hscheme).2
      rw [← Option.some.inj heq] at hslash
      exact hslash List.mem_cons_self

/-- **Taking a target apart** gives back its host and its path to the letter. An empty path is `/`
behind a scheme and stays empty without one. -/
theorem ofBytes?_bytes {t : Parts} (ht : t.Proper) (hstar : t.bytes ≠ Ascii.bytes "*")
    {target : Target} (h : ofBytes? t.bytes = some target) :
    ∃ text, target.authority = some text ∧ Authority.host text = t.host ∧
      target.path = if t.path = "" ∧ t.scheme.isSome then "/" else t.path := by
  have hread := ofBytes?_of_head hstar (head?_ne_slash ht) h
  cases hscheme : t.scheme with
  -- without a scheme the target is an authority and nothing else
  | none =>
    rw [bytes_of_noScheme hscheme, behindScheme?_of_noScheme ht hscheme] at hread
    obtain ⟨hpath, text, htext, hhost, htarget⟩ := ofAuthority?_parts ht hread
    exact ⟨text, htext, hhost, by simp [htarget, hpath]⟩
  | some scheme =>
    rw [bytes_of_scheme hscheme, behindScheme?_of_scheme (ht.scheme scheme hscheme).1] at hread
    by_cases hall : scheme.all isScheme = true
    · -- behind a scheme that is not too long stands an authority with its tail
      rw [if_pos hall] at hread
      simp only at hread
      split at hread
      · obtain ⟨text, htext, hhost, hpath⟩ := ofHierarchy?_parts ht hread
        exact ⟨text, htext, hhost, by simp [hpath]⟩
      · cases hread
    · -- what is no scheme is taken for an authority, but it has slashes behind it
      rw [if_neg hall] at hread
      simp only at hread
      rw [ofAuthority?_of_slash (by simp [Ascii.bytes])] at hread
      cases hread

end Parts

end Target

end Telemetry
