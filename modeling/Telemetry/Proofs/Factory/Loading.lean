import Telemetry.Proofs.Factory.TagEntries
import Telemetry.Proofs.Factory.Wrapping

/-!
# When a configuration cannot be loaded

Two things can go wrong. The origin may be blank, and the tags may have a piece that spells neither
nothing nor a pair (`Malformed`). The origin is looked at first, and of the pieces the leftmost one
that is malformed is reported, trimmed and with its own defect (`FirstMalformed`). The other
variables cannot fail: what is blank there counts as missing.

The loader does not look at blank tags at all, which makes no difference, since the pieces of a
blank text are blank (`Config.readTags_of_blank`). `Config.load_by_variables` has the whole outcome.
-/

namespace Telemetry.Config

/-! ### Malformed tags -/

/-- A piece that spells neither nothing nor a pair, and what is reported of it: there is something
in it but no equals sign, or nothing before the first equals sign but white space. -/
inductive Malformed : List Char → ConfigFault → Prop where
  | withoutEquals {piece : List Char} (hfilled : piece.all Text.isBlank = false)
      (h : '=' ∉ piece) :
      Malformed piece (.tagWithoutEquals (String.ofList (Text.trim piece)))
  | withEmptyKey (before after : List Char) (h : before.all Text.isBlank = true) :
      Malformed (before ++ '=' :: after)
        (.tagWithEmptyKey (String.ofList (Text.trim (before ++ '=' :: after))))

/-- The fault is that of the leftmost malformed piece of the text. -/
def FirstMalformed (text : String) (fault : ConfigFault) : Prop :=
  ∃ left piece right, Cut ',' (left ++ piece :: right) text.toList ∧
    (∀ earlier ∈ left, ∀ other, ¬ Malformed earlier other) ∧ Malformed piece fault

theorem trim_ne_nil_of_equals {left right : List Char} :
    Text.trim (left ++ '=' :: right) ≠ [] := by
  rw [Text.trim_append_cons isBlank_equals]
  exact List.append_ne_nil_of_right_ne_nil _ (List.cons_ne_nil _ _)

/-- **A piece is refused** exactly if it is malformed. -/
theorem malformed_iff {piece : List Char} {fault : ConfigFault} :
    Malformed piece fault ↔
      Text.trim piece ≠ [] ∧ readEntry (Text.trim piece) = .error fault := by
  constructor
  · intro h
    cases h with
    | withoutEquals hfilled hmem =>
      -- trimming takes away no equals sign and adds none
      refine ⟨fun hnil => ?_, readEntry_of_not_mem fun hc => hmem (Text.mem_of_mem_trim hc)⟩
      rw [Text.trim_eq_nil_iff.mp hnil] at hfilled
      cases hfilled
    | withEmptyKey before after hblank =>
      refine ⟨trim_ne_nil_of_equals, ?_⟩
      rw [readEntry_trim (not_mem_of_blank hblank), if_pos (Text.trim_eq_nil_iff.mpr hblank)]
  · rintro ⟨hne, hread⟩
    by_cases hmem : '=' ∈ piece
    · -- there is a first equals sign, so only the key in front of it can be at fault
      obtain ⟨left, right, rfl, hleft⟩ := List.eq_append_cons_of_mem hmem
      rw [readEntry_trim hleft] at hread
      by_cases hnil : Text.trim left = []
      · rw [if_pos hnil] at hread
        cases hread
        exact .withEmptyKey _ _ (Text.trim_eq_nil_iff.mp hnil)
      · rw [if_neg hnil] at hread
        cases hread
    · rw [readEntry_of_not_mem fun hc => hmem (Text.mem_of_mem_trim hc)] at hread
      cases hread
      exact .withoutEquals (Bool.eq_false_iff.mpr fun h => hne (Text.trim_eq_nil_iff.mpr h)) hmem

theorem readEntries_cons_eq_error {entry : List Char} {rest : List (List Char)}
    {fault : ConfigFault} :
    readEntries (entry :: rest) = .error fault ↔
      readEntry entry = .error fault ∨
        (∃ pair, readEntry entry = .ok pair) ∧ readEntries rest = .error fault := by
  rw [readEntries_cons]
  cases readEntry entry with
  | error other => simp [Except.bind]
  | ok pair => cases readEntries rest <;> simp [Except.bind, Except.map]

/-- **The leftmost malformed piece is reported,** and nothing is reported without one. -/
theorem readEntries_eq_error_iff {ps : List (List Char)} {fault : ConfigFault} :
    readEntries (entriesOf ps) = .error fault ↔
      ∃ left piece right, ps = left ++ piece :: right ∧
        (∀ earlier ∈ left, ∀ other, ¬ Malformed earlier other) ∧ Malformed piece fault := by
  induction ps with
  -- no pieces, no fault
  | nil =>
    constructor
    · intro h
      cases h
    · rintro ⟨left, piece, right, hps, -⟩
      exact absurd hps.symm (by simp)
  | cons first ps ih =>
    -- the leftmost malformed piece is the first one, or the first one is well formed
    have hsplit : (∃ left piece right, first :: ps = left ++ piece :: right ∧
        (∀ earlier ∈ left, ∀ other, ¬ Malformed earlier other) ∧ Malformed piece fault) ↔
        Malformed first fault ∨ (∀ other, ¬ Malformed first other) ∧
          readEntries (entriesOf ps) = .error fault := by
      rw [ih]
      constructor
      · rintro ⟨left, piece, right, hps, hleft, hpiece⟩
        cases left with
        | nil =>
          obtain ⟨rfl, -⟩ := List.cons.inj hps
          exact .inl hpiece
        | cons earlier left =>
          obtain ⟨rfl, rfl⟩ := List.cons.inj hps
          rw [List.forall_mem_cons] at hleft
          exact .inr ⟨hleft.1, left, piece, right, rfl, hleft.2, hpiece⟩
      · rintro (hfirst | ⟨hfirst, left, piece, right, rfl, hleft, hpiece⟩)
        · exact ⟨[], first, ps, rfl, by simp, hfirst⟩
        · exact ⟨first :: left, piece, right, rfl, List.forall_mem_cons.mpr ⟨hfirst, hleft⟩,
            hpiece⟩
    rw [hsplit]
    simp only [malformed_iff]
    -- a blank piece is not among the entries, and is not malformed either
    by_cases hblank : Text.trim first = []
    · rw [entriesOf_cons_of_blank hblank]
      simp [hblank]
    · rw [entriesOf_cons hblank, readEntries_cons_eq_error]
      cases readEntry (Text.trim first) <;> simp [hblank]

/-- **Tags are refused** for the leftmost malformed piece of their text, and for nothing else. -/
theorem readTags_eq_error_iff {text : String} {fault : ConfigFault} :
    readTags text = .error fault ↔ FirstMalformed text fault := by
  have hread : readTags text = .error fault ↔
      readEntries (entriesOf (pieces ',' text.toList)) = .error fault := by
    rw [readTags, show entries text.toList = entriesOf (pieces ',' text.toList) from rfl]
    cases readEntries (entriesOf (pieces ',' text.toList)) <;> simp [Except.map]
  rw [hread, readEntries_eq_error_iff]
  refine exists_congr fun left => exists_congr fun piece => exists_congr fun right => ?_
  rw [pieces_eq_iff]

/-- A text without anything but white space writes no tags. -/
theorem readTags_of_blank {text : String} (h : Text.isBlankText text = true) :
    readTags text = .ok Tags.empty := by
  refine readTags_eq_ok_iff.mpr ⟨[], ⟨⟨[none], [text.toList], ?_, rfl, ?_⟩, by simp⟩, rfl⟩
  · exact .cons (.nothing h) .nil
  · rw [List.intercalate_singleton]

theorem FirstMalformed.exists_piece {text : String} {fault : ConfigFault}
    (h : FirstMalformed text fault) :
    ∃ ps, Cut ',' ps text.toList ∧ ∃ piece ∈ ps, Malformed piece fault := by
  obtain ⟨left, piece, right, hcut, -, hpiece⟩ := h
  exact ⟨_, hcut, piece, List.mem_append_right _ List.mem_cons_self, hpiece⟩

/-- If some piece is malformed, one of them is the leftmost. -/
theorem exists_firstMalformed {text : String} {ps : List (List Char)}
    (hcut : Cut ',' ps text.toList) {piece : List Char} (hpiece : piece ∈ ps)
    {fault : ConfigFault} (h : Malformed piece fault) : ∃ first, FirstMalformed text first := by
  have hfirst : ∃ first left piece right, ps = left ++ piece :: right ∧
      (∀ earlier ∈ left, ∀ other, ¬ Malformed earlier other) ∧ Malformed piece first := by
    clear hcut -- the induction is on the pieces alone, whatever text they come from
    induction ps with
    | nil => cases hpiece
    | cons head ps ih =>
      -- the first piece is the leftmost if it is malformed, and otherwise there is one behind it
      by_cases hhead : ∃ other, Malformed head other
      · obtain ⟨other, hother⟩ := hhead
        exact ⟨other, [], head, ps, rfl, by simp, hother⟩
      · have hmem : piece ∈ ps := (List.mem_cons.mp hpiece).resolve_left fun heq =>
          hhead ⟨fault, heq ▸ h⟩
        obtain ⟨first, left, leftmost, right, rfl, hleft, hleftmost⟩ := ih hmem
        exact ⟨first, head :: left, leftmost, right, rfl,
          List.forall_mem_cons.mpr ⟨not_exists.mp hhead, hleft⟩, hleftmost⟩
  obtain ⟨first, left, leftmost, right, rfl, hleft, hleftmost⟩ := hfirst
  exact ⟨first, left, leftmost, right, hcut, hleft, hleftmost⟩

/-! ### Loading -/

/-- The origin is there and blank. -/
def BlankOrigin (lookup : Lookup) : Prop :=
  ∃ origin, lookup "SONDE_ORIGIN" = some origin ∧ Text.isBlankText origin = true

/-- The configuration has what the variables hold: values as they are, unless they are blank. -/
structure HoldsVariables (lookup : Lookup) (config : Config) : Prop where
  origin : config.origin = (lookup "SONDE_ORIGIN").getD "sonde"
  deployment : config.deployment =
    (lookup "SONDE_DEPLOYMENT").filter fun value => !Text.isBlankText value
  job : config.job = (lookup "SONDE_JOB").filter fun value => !Text.isBlankText value
  index : config.index = (lookup "SONDE_INDEX").filter fun value => !Text.isBlankText value
  ip : config.ip = (lookup "SONDE_IP").filter fun value => !Text.isBlankText value
  tags : ∀ text, lookup "SONDE_TAGS" = some text → readTags text = .ok config.tags
  noTags : lookup "SONDE_TAGS" = none → config.tags = Tags.empty

theorem readOrigin_of_blank {lookup : Lookup} (h : BlankOrigin lookup) :
    readOrigin (lookup originVariable) = .error .emptyOrigin := by
  obtain ⟨origin, horigin, hblank⟩ := h
  rw [show lookup originVariable = some origin from horigin, readOrigin, if_pos hblank]

theorem readOrigin_of_not_blank {lookup : Lookup} (h : ¬ BlankOrigin lookup) :
    readOrigin (lookup originVariable) = .ok ((lookup "SONDE_ORIGIN").getD "sonde") := by
  show readOrigin (lookup "SONDE_ORIGIN") = _
  cases horigin : lookup "SONDE_ORIGIN" with
  | none => rfl
  | some origin =>
    have hblank : ¬ Text.isBlankText origin = true := fun hblank => h ⟨origin, horigin, hblank⟩
    rw [readOrigin, if_neg hblank, Option.getD_some]

/-- The tags of the variables are those of the text; a blank text has none either way. -/
theorem loadTags_eq (lookup : Lookup) :
    loadTags lookup = ((lookup "SONDE_TAGS").map readTags).getD (.ok Tags.empty) := by
  rw [loadTags, filled]
  show (((lookup "SONDE_TAGS").filter _).map readTags).getD _ = _
  cases lookup "SONDE_TAGS" with
  | none => rfl
  | some text =>
    rw [Option.filter_some]
    -- a blank text is passed over here and has no tags there
    cases hblank : Text.isBlankText text with
    | true => exact (readTags_of_blank hblank).symm
    | false => rfl

theorem loadTags_eq_error_iff {lookup : Lookup} {fault : ConfigFault} :
    loadTags lookup = .error fault ↔
      ∃ text, lookup "SONDE_TAGS" = some text ∧ FirstMalformed text fault := by
  rw [loadTags_eq]
  cases lookup "SONDE_TAGS" with
  | none => simp
  | some text =>
    rw [Option.map_some, Option.getD_some, readTags_eq_error_iff]
    simp

theorem load_of_blank {lookup : Lookup} (h : BlankOrigin lookup) :
    load lookup = .error .emptyOrigin := by
  rw [load_eq, readOrigin_of_blank h]
  rfl

/-- With an origin, only the tags can fail. -/
theorem load_eq_error_iff {lookup : Lookup} (h : ¬ BlankOrigin lookup) {fault : ConfigFault} :
    load lookup = .error fault ↔
      ∃ text, lookup "SONDE_TAGS" = some text ∧ FirstMalformed text fault := by
  rw [← loadTags_eq_error_iff, load_eq, readOrigin_of_not_blank h]
  -- the origin is read well, and the four optional values are read without fail
  cases loadTags lookup <;> simp [Except.bind, Except.map]

theorem holdsVariables_of_load {lookup : Lookup} {config : Config} (h : load lookup = .ok config) :
    ¬ BlankOrigin lookup ∧ HoldsVariables lookup config := by
  have hblank : ¬ BlankOrigin lookup := fun hblank => by
    rw [load_of_blank hblank] at h
    cases h
  rw [load_eq, readOrigin_of_not_blank hblank] at h
  cases htags : loadTags lookup with
  | error fault => rw [htags] at h; cases h
  | ok tags =>
    rw [htags] at h
    cases h
    rw [loadTags_eq] at htags
    refine ⟨hblank, rfl, rfl, rfl, rfl, rfl, fun text htext => ?_, fun hnone => ?_⟩
    · -- with a text the tags are those that were read from it, and without one there are none
      rwa [htext] at htags
    · rw [hnone] at htags
      exact (Except.ok.inj htags).symm

theorem tags_ne_emptyOrigin {piece : List Char} {fault : ConfigFault} (h : Malformed piece fault) :
    fault ≠ .emptyOrigin := by
  cases h <;> exact ConfigFault.noConfusion

/-- A value that is blank is not kept. -/
theorem not_blank_of_filter {value? : Option String} {value : String}
    (h : value?.filter (fun value => !Text.isBlankText value) = some value) :
    Text.isBlankText value = false := by
  have hkept := (Option.filter_eq_some_iff.mp h).2
  simpa using hkept

theorem not_blank_of_load {lookup : Lookup} {config : Config} (h : load lookup = .ok config) :
    Text.isBlankText config.origin = false ∧
      ∀ field ∈ [config.deployment, config.job, config.index, config.ip], ∀ value,
        field = some value → Text.isBlankText value = false := by
  obtain ⟨hblank, hholds⟩ := holdsVariables_of_load h
  refine ⟨?_, ?_⟩
  · rw [hholds.origin]
    -- the default is not blank, and a blank origin would not have been loaded
    cases horigin : lookup "SONDE_ORIGIN" with
    | none => decide
    | some origin => exact Bool.eq_false_iff.mpr fun h => hblank ⟨origin, horigin, h⟩
  · -- the four optional fields are filled in the same way
    simp only [List.forall_mem_cons, hholds.deployment, hholds.job, hholds.index, hholds.ip]
    exact ⟨fun _ => not_blank_of_filter, fun _ => not_blank_of_filter,
      fun _ => not_blank_of_filter, fun _ => not_blank_of_filter, by simp⟩

theorem load_congr {lookup other : Lookup} (h : ∀ name ∈ variableNames, other name = lookup name) :
    load other = load lookup := by
  simp only [variableNames, List.forall_mem_cons] at h
  obtain ⟨horigin, hdeployment, hjob, hindex, hip, htags, -⟩ := h
  simp only [load, filled, horigin, hdeployment, hjob, hindex, hip, htags]

/-- **Loading fails exactly when it must.** A blank origin is refused, whatever else is there. With
an origin, loading fails if and only if some piece of the tags is malformed, and then for the
leftmost one. Otherwise there is a configuration, and it holds what the variables hold. No loaded
configuration has a blank origin or another blank value, and only the six variables count. -/
theorem load_by_variables (lookup : Lookup) :
    (load lookup = .error .emptyOrigin ↔ BlankOrigin lookup) ∧
    (¬ BlankOrigin lookup →
      ((∃ fault, load lookup = .error fault) ↔
        ∃ text ps, lookup "SONDE_TAGS" = some text ∧ Cut ',' ps text.toList ∧
          ∃ piece ∈ ps, ∃ fault, Malformed piece fault) ∧
      (∀ fault, load lookup = .error fault ↔
        ∃ text, lookup "SONDE_TAGS" = some text ∧ FirstMalformed text fault) ∧
      ((∀ text fault, lookup "SONDE_TAGS" = some text → ¬ FirstMalformed text fault) →
        ∃ config, load lookup = .ok config ∧ HoldsVariables lookup config)) ∧
    (∀ config, load lookup = .ok config →
      Text.isBlankText config.origin = false ∧
        ∀ field ∈ [config.deployment, config.job, config.index, config.ip], ∀ value,
          field = some value → Text.isBlankText value = false) ∧
    (∀ other : Lookup,
      (∀ name ∈ ["SONDE_ORIGIN", "SONDE_DEPLOYMENT", "SONDE_JOB", "SONDE_INDEX", "SONDE_IP",
        "SONDE_TAGS"], other name = lookup name) → load other = load lookup) ∧
    ConfigFault.emptyOrigin.message = "SONDE_ORIGIN cannot be empty" ∧
    ∀ entry, (ConfigFault.tagWithoutEquals entry).message =
        "SONDE_TAGS entry '" ++ entry ++ "' must be key=value" ∧
      (ConfigFault.tagWithEmptyKey entry).message =
        "SONDE_TAGS entry '" ++ entry ++ "' has an empty key" := by
  refine ⟨⟨fun h => ?_, load_of_blank⟩, fun horigin => ⟨⟨?_, ?_⟩, ?_, ?_⟩,
    fun config => not_blank_of_load, fun other h => load_congr h, rfl, fun entry => ⟨rfl, rfl⟩⟩
  · -- no fault of the tags is that of the origin
    by_contra hblank
    obtain ⟨text, -, hfirst⟩ := (load_eq_error_iff hblank).mp h
    obtain ⟨ps, -, piece, -, hpiece⟩ := hfirst.exists_piece
    exact tags_ne_emptyOrigin hpiece rfl
  · rintro ⟨fault, h⟩
    obtain ⟨text, htext, hfirst⟩ := (load_eq_error_iff horigin).mp h
    obtain ⟨ps, hcut, piece, hmem, hpiece⟩ := hfirst.exists_piece
    exact ⟨text, ps, htext, hcut, piece, hmem, fault, hpiece⟩
  · rintro ⟨text, ps, htext, hcut, piece, hmem, fault, hpiece⟩
    -- where some piece is malformed, one is the leftmost, and it is reported
    obtain ⟨first, hfirst⟩ := exists_firstMalformed hcut hmem hpiece
    exact ⟨first, (load_eq_error_iff horigin).mpr ⟨text, htext, hfirst⟩⟩
  · exact fun fault => load_eq_error_iff horigin
  · intro hnone
    -- a failure would be that of a malformed piece
    cases hload : load lookup with
    | error fault =>
      obtain ⟨text, htext, hfirst⟩ := (load_eq_error_iff horigin).mp hload
      exact absurd hfirst (hnone text fault htext)
    | ok config => exact ⟨config, rfl, (holdsVariables_of_load hload).2⟩

/-- Variables with two malformed pieces among their tags, and with a blank job. -/
def faultyVariables : Lookup
  | "SONDE_ORIGIN" => some " router "
  | "SONDE_JOB" => some "\u3000"
  | "SONDE_TAGS" => some "a=1, =x ,b"
  | _ => none

theorem not_blankOrigin_faulty : ¬ BlankOrigin faultyVariables := by
  rintro ⟨origin, horigin, hblank⟩
  obtain rfl : " router " = origin := Option.some.inj horigin
  exact absurd hblank (by decide)

theorem firstMalformed_faulty : FirstMalformed "a=1, =x ,b" (.tagWithEmptyKey "=x") := by
  refine ⟨["a=1".toList], " =x ".toList, ["b".toList], ⟨by simp, by decide, rfl⟩, ?_,
    .withEmptyKey [' '] "x ".toList rfl⟩
  -- the piece in front of it spells a pair
  intro earlier hearlier other hmalformed
  obtain rfl := List.mem_singleton.mp hearlier
  have hread : readEntry (Text.trim "a=1".toList) = .error other :=
    (malformed_iff.mp hmalformed).2
  cases hread

/-- The first of the malformed pieces is reported, unless the origin is blank; without tags the
configuration is loaded, and a variable of another name does not matter. -/
theorem load_by_variables_faulty :
    load faultyVariables = .error (.tagWithEmptyKey "=x") ∧
      load (fun name => if name = "SONDE_ORIGIN" then some "" else faultyVariables name) =
        .error .emptyOrigin ∧
      (∃ config, load (fun name => if name = "SONDE_TAGS" then none else faultyVariables name) =
        .ok config ∧ config.origin = " router " ∧ config.job = none ∧
          Text.isBlankText config.origin = false) ∧
      load (fun name => if name = "SONDE_HOST" then some "h" else faultyVariables name) =
        load faultyVariables := by
  obtain ⟨-, hfails, -, hothers, -⟩ := load_by_variables faultyVariables
  obtain ⟨-, htags, -⟩ := hfails not_blankOrigin_faulty
  refine ⟨(htags _).mpr ⟨_, rfl, firstMalformed_faulty⟩, ?_, ?_, hothers _ (by decide)⟩
  · exact (load_by_variables _).1.mpr ⟨"", rfl, by decide⟩
  · obtain ⟨-, hfails, hfilled, -⟩ :=
      load_by_variables fun name => if name = "SONDE_TAGS" then none else faultyVariables name
    -- taking the tags away does not touch the origin
    have horigin : ¬ BlankOrigin fun name =>
        if name = "SONDE_TAGS" then none else faultyVariables name := by
      rintro ⟨origin, horigin, hblank⟩
      exact not_blankOrigin_faulty ⟨origin, horigin, hblank⟩
    obtain ⟨config, hload, hholds⟩ := (hfails horigin).2.2 fun text fault htext =>
      absurd htext (by simp)
    exact ⟨config, hload, hholds.origin, hholds.job, (hfilled config hload).1⟩

end Telemetry.Config
