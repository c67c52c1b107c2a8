import Mathlib.Data.List.Forall2
import Telemetry.Factory.HeaderFields
import Telemetry.Proofs.Id.Text

/-!
# The rules for headers do not meet

All four rules have one shape: a rule looks its header up, reads the value, and either fills its
field or leaves a note (`HeaderRule.apply_eq`). It leaves the fields of the other rules alone
(`HeaderRule.field_apply_of_ne`), and what it reads and notes does not depend on what the fields
hold. So, by induction over the rules that are applied, a field is what its own rule makes of its
own header, and the notes are those of the rules one by one.

`HeaderRule.Refuses` says when and why a value does not fill a field. A header that is there fills
its field or is noted, never both and never neither: `HeaderFields.extract_by_rule`.
-/

namespace Telemetry

namespace HeaderRule

/-! ### One rule -/

/-- What the field of the rule holds. -/
abbrev Value : HeaderRule → Type
  | .applicationId => CorrelationId
  | .instanceIndex => Int32
  | .instanceId | .userAgent => String

/-- The field that the rule fills. -/
def field : (rule : HeaderRule) → HeaderFields → Option rule.Value
  | .applicationId, fields => fields.applicationId
  | .instanceIndex, fields => fields.instanceIndex
  | .instanceId, fields => fields.instanceId
  | .userAgent, fields => fields.userAgent

/-- What the rule reads from the value of its header. -/
def read : (rule : HeaderRule) → String → Except HeaderFault rule.Value
  | .applicationId, value => readApplicationId value
  | .instanceIndex, value => readInstanceIndex value
  | .instanceId, value => readInstanceId value
  | .userAgent, value => .ok value

/-- The fields with that of the rule filled. -/
def set : (rule : HeaderRule) → rule.Value → HeaderFields → HeaderFields
  | .applicationId, id, fields => { fields with applicationId := some id }
  | .instanceIndex, index, fields => { fields with instanceIndex := some index }
  | .instanceId, id, fields => { fields with instanceId := some id }
  | .userAgent, agent, fields => { fields with userAgent := some agent }

@[simp] theorem field_empty (rule : HeaderRule) : rule.field {} = none := by
  cases rule <;> rfl

@[simp] theorem field_set_self (rule : HeaderRule) (a : rule.Value) (fields : HeaderFields) :
    rule.field (rule.set a fields) = some a := by
  cases rule <;> rfl

theorem field_set_of_ne {rule other : HeaderRule} (h : other ≠ rule) (a : rule.Value)
    (fields : HeaderFields) : other.field (rule.set a fields) = other.field fields := by
  cases rule <;> cases other <;> first | exact absurd rfl h | rfl

/-- The four fields are all there is. -/
theorem eq_of_field {a b : HeaderFields} (h : ∀ rule : HeaderRule, rule.field a = rule.field b) :
    a = b := by
  obtain ⟨id, index, instanceId, agent⟩ := a
  obtain ⟨id', index', instanceId', agent'⟩ := b
  -- a rule for each of the four
  rw [HeaderFields.mk.injEq]
  exact ⟨h .applicationId, h .instanceIndex, h .instanceId, h .userAgent⟩

/-- Each rule reads a value and fills its field with what it has read. -/
theorem fill_eq (rule : HeaderRule) (value : String) (fields : HeaderFields) :
    rule.fill value fields = (rule.read value).map fun a => rule.set a fields := by
  cases rule <;> rfl

/-- What the rule reads from a request; nothing if the header is missing or malformed. -/
def found? (rule : HeaderRule) (request : RequestInfo) : Option rule.Value :=
  (request.header rule.header).bind fun value => (rule.read value).toOption

/-- The note of a header that is there and malformed. -/
def note? (rule : HeaderRule) (request : RequestInfo) : Option LogRecord :=
  (request.header rule.header).bind fun value =>
    match rule.read value with
    | .ok _ => none
    | .error reason => some (.malformedHeader rule.header value reason)

/-- **One rule**, as a whole: what it has found goes into its field, what it has not is noted. -/
theorem apply_eq (rule : HeaderRule) (request : RequestInfo) (fields : HeaderFields) :
    rule.apply request fields =
      ((rule.found? request).elim fields fun a => rule.set a fields,
        (rule.note? request).toList) := by
  rw [apply, found?, note?]
  -- A header that is missing fills nothing and leaves no note.
  cases request.header rule.header with
  | none => rfl
  | some value =>
    simp only [fill_eq, Option.bind_some]
    cases rule.read value with
    | ok a => rfl
    | error reason => rfl

theorem field_apply_self (rule : HeaderRule) (request : RequestInfo) (fields : HeaderFields) :
    rule.field (rule.apply request fields).1 = (rule.found? request).or (rule.field fields) := by
  rw [apply_eq]
  cases rule.found? request with
  | none => rfl
  | some a => exact field_set_self rule a fields

theorem field_apply_of_ne {rule other : HeaderRule} (h : other ≠ rule) (request : RequestInfo)
    (fields : HeaderFields) :
    other.field (rule.apply request fields).1 = other.field fields := by
  rw [apply_eq]
  cases rule.found? request with
  | none => rfl
  | some a => exact field_set_of_ne h a fields

/-! ### Several rules -/

variable (request : RequestInfo)

theorem field_applyAll_of_not_mem {rule : HeaderRule} {rules : List HeaderRule}
    (h : rule ∉ rules) (fields : HeaderFields) :
    rule.field (applyAll request rules fields).1 = rule.field fields := by
  -- The fields vary, each rule being given those that the rules before it have left.
  induction rules generalizing fields with
  | nil => rfl
  | cons first rules ih =>
    rw [List.mem_cons, not_or] at h
    exact (ih h.2 _).trans (field_apply_of_ne h.1 request fields)

/-- A field is what its own rule has found, wherever that rule stands among the others. -/
theorem field_applyAll_of_mem {rule : HeaderRule} {rules : List HeaderRule} (h : rule ∈ rules)
    (hnodup : rules.Nodup) (fields : HeaderFields) :
    rule.field (applyAll request rules fields).1 =
      (rule.found? request).or (rule.field fields) := by
  induction rules generalizing fields with
  | nil => cases h
  | cons first rules ih =>
    rw [List.nodup_cons] at hnodup
    rcases List.mem_cons.mp h with rfl | hmem
    · -- no rule that comes later touches the field again
      exact (field_applyAll_of_not_mem request hnodup.1 _).trans
        (field_apply_self rule request fields)
    · -- the first rule leaves the field as it was
      have hne : rule ≠ first := fun heq => hnodup.1 (heq ▸ hmem)
      have hrest := ih hmem hnodup.2 (first.apply request fields).1
      rw [field_apply_of_ne hne] at hrest
      exact hrest

/-- The notes are those of the rules, in their order, whatever the fields hold. -/
theorem notes_applyAll (rules : List HeaderRule) (fields : HeaderFields) :
    (applyAll request rules fields).2 = rules.filterMap fun rule => rule.note? request := by
  induction rules generalizing fields with
  | nil => rfl
  | cons first rules ih =>
    have hfirst : (first.apply request fields).2 = (first.note? request).toList := by
      rw [apply_eq]
    rw [List.filterMap_cons]
    -- the fields that the first rule leaves do not show in the notes of the others
    change (first.apply request fields).2 ++ (applyAll request rules _).2 = _
    rw [hfirst, ih]
    cases first.note? request <;> rfl

theorem nodup_all : all.Nodup := by decide

/-- The fields do not depend on the order of the rules. -/
theorem fst_applyAll_of_perm {rules : List HeaderRule} (h : rules.Perm all) :
    (applyAll request rules {}).1 = (HeaderFields.extract request).1 := by
  -- field by field: either way it is what its own rule has found
  refine eq_of_field fun rule => ?_
  rw [HeaderFields.extract, field_applyAll_of_mem request (h.mem_iff.mpr rule.mem_all)
    (h.nodup_iff.mpr nodup_all), field_applyAll_of_mem request rule.mem_all nodup_all]

theorem field_extract (rule : HeaderRule) :
    rule.field (HeaderFields.extract request).1 = rule.found? request := by
  rw [HeaderFields.extract, field_applyAll_of_mem request rule.mem_all nodup_all, field_empty,
    Option.or_none]

theorem found?_eq_some_iff {rule : HeaderRule} {a : rule.Value} :
    rule.found? request = some a ↔
      ∃ value, request.header rule.header = some value ∧ rule.read value = .ok a := by
  rw [found?, Option.bind_eq_some_iff]
  refine exists_congr fun value => and_congr_right fun _ => ?_
  -- what was read well is kept, and a fault is no value
  cases rule.read value with
  | ok b => exact ⟨fun h => congrArg _ (Option.some.inj h), fun h => congrArg _ (Except.ok.inj h)⟩
  | error reason => exact ⟨(nomatch ·), (nomatch ·)⟩

/-- **The field of a rule** holds what the rule reads from the value of its header. -/
theorem field_extract_eq_some_iff (rule : HeaderRule) (a : rule.Value) :
    rule.field (HeaderFields.extract request).1 = some a ↔
      ∃ value, request.header rule.header = some value ∧ rule.read value = .ok a := by
  rw [field_extract, found?_eq_some_iff]

/-! ### Headers that are passed over -/

/-- The value does not fill the field of the rule, for the reason given. A user agent is never
refused. -/
inductive Refuses : HeaderRule → String → HeaderFault → Prop
  | blankId {value : String} (h : Text.isBlankText value) :
    Refuses .applicationId value .emptyValue
  | malformedId {value : String} {error : IdError} (h : CorrelationId.parse value = .error error)
    (hblank : Text.isBlankText value = false) : Refuses .applicationId value (.id error)
  | malformedIndex {value : String} {fault : Decimal.Signed.Fault}
    (h : Decimal.Signed.read value.toList = .error fault) :
    Refuses .instanceIndex value (.number fault)
  | emptyId : Refuses .instanceId "" .emptyValue

theorem read_of_refuses {rule : HeaderRule} {value : String} {reason : HeaderFault}
    (h : rule.Refuses value reason) : rule.read value = .error reason := by
  cases h with
  | blankId hblank =>
    change readApplicationId value = _
    rw [readApplicationId, CorrelationId.parse_of_blank hblank]
  | @malformedId value error hparse hblank =>
    change readApplicationId value = _
    rw [readApplicationId, hparse]
    cases error with
    | empty =>
      -- only a blank text is an empty id
      exact Bool.noConfusion (hblank.symm.trans (CorrelationId.parse_eq_empty_iff.mp hparse))
    | length actual => rfl
    | uuid fault => rfl
  | malformedIndex hread =>
    change readInstanceIndex value = _
    rw [readInstanceIndex, hread]
    rfl
  | emptyId => rfl

theorem refuses_of_parse {value : String} {error : IdError}
    (h : CorrelationId.parse value = .error error) (hne : error ≠ .empty) :
    Refuses .applicationId value (.id error) := by
  refine .malformedId h (Bool.eq_false_iff.mpr fun hblank => hne ?_)
  exact Except.error.inj (h.symm.trans (CorrelationId.parse_of_blank hblank))

theorem refuses_of_read {rule : HeaderRule} {value : String} {reason : HeaderFault}
    (h : rule.read value = .error reason) : rule.Refuses value reason := by
  cases rule with
  -- parsing fails in three ways, and that of a blank text has a reason of its own
  | applicationId =>
    change readApplicationId value = _ at h
    rw [readApplicationId] at h
    cases hparse : CorrelationId.parse value with
    | ok id =>
      rw [hparse] at h
      cases h
    | error error =>
      rw [hparse] at h
      cases error with
      | empty =>
        cases h
        exact .blankId (CorrelationId.parse_eq_empty_iff.mp hparse)
      | length actual =>
        cases h
        exact refuses_of_parse hparse (by simp)
      | uuid fault =>
        cases h
        exact refuses_of_parse hparse (by simp)
  | instanceIndex =>
    change readInstanceIndex value = _ at h
    rw [readInstanceIndex] at h
    cases hread : Decimal.Signed.read value.toList with
    | ok index =>
      rw [hread] at h
      cases h
    | error fault =>
      rw [hread] at h
      cases h
      exact .malformedIndex hread
  | instanceId =>
    change readInstanceId value = _ at h
    rw [readInstanceId] at h
    -- only the empty text is refused, so a blank one is not
    by_cases hempty : value.isEmpty
    · rw [if_pos hempty] at h
      cases h
      rw [String.isEmpty_iff.mp hempty]
      exact .emptyId
    · rw [if_neg hempty] at h
      cases h
  -- a user agent is read as it is
  | userAgent => cases h

/-- **A rule refuses** exactly the values that it cannot read. -/
theorem refuses_iff {rule : HeaderRule} {value : String} {reason : HeaderFault} :
    rule.Refuses value reason ↔ rule.read value = .error reason :=
  ⟨read_of_refuses, refuses_of_read⟩

theorem head?_append {a b : String} {c : Char} (h : a.toList.head? = some c) :
    (a ++ b).toList.head? = some c := by
  rw [String.toList_append, List.head?_append, h]
  rfl

/-- The texts of other reasons begin with other letters. -/
theorem head?_message_id (error : IdError) : error.message.toList.head? ≠ some 'e' := by
  -- The reason itself begins with `e`, and those of an id that is there with `i`.
  cases error with
  | empty => decide +kernel
  | length actual =>
    have hhead : (IdError.length actual).message.toList.head? = some 'i' :=
      head?_append (head?_append (head?_append (by decide +kernel)))
    rw [hhead]
    decide
  | uuid fault =>
    have hhead : (IdError.uuid fault).message.toList.head? = some 'i' :=
      head?_append (by decide +kernel)
    rw [hhead]
    decide

theorem message_eq_empty_iff {reason : HeaderFault} :
    reason.message = "empty value" ↔ reason = .emptyValue := by
  constructor
  · intro h
    have hhead : reason.message.toList.head? = some 'e' := by
      rw [h]
      decide +kernel
    cases reason with
    | emptyValue => rfl
    | id error => exact absurd hhead (head?_message_id error)
    | number fault => cases fault <;> exact absurd hhead (by decide +kernel)
  · rintro rfl
    rfl

/-- A value is called empty if it is a blank application id or an empty instance id. -/
theorem Refuses.message_eq_empty_iff {rule : HeaderRule} {value : String} {reason : HeaderFault}
    (h : rule.Refuses value reason) :
    reason.message = "empty value" ↔
      (rule = .applicationId ∧ Text.isBlankText value = true) ∨
        (rule = .instanceId ∧ value = "") := by
  rw [HeaderRule.message_eq_empty_iff]
  -- There are four refusals, and two of them have this reason.
  cases h with
  | blankId hblank => simp [hblank]
  | malformedId hparse hblank => simp [hblank]
  | malformedIndex hread => simp
  | emptyId => simp

/-! ### The records -/

/-- The record of a header that was passed over: which one, what it held and why. -/
structure NotedAs (rule : HeaderRule) (value : String) (reason : HeaderFault)
    (record : LogRecord) : Prop where
  level : record.level = .debug
  message : record.message = "ignoring malformed header"
  fields : record.fields = [("header", rule.header), ("value", value), ("reason", reason.message)]

/-- The header is there, but it has not filled its field. -/
def passedOver (request : RequestInfo) (fields : HeaderFields) (rule : HeaderRule) : Bool :=
  (request.header rule.header).isSome && (rule.field fields).isNone

/-- The record tells that the header was passed over, with the reason for which it was. -/
def Explains (rule : HeaderRule) (record : LogRecord) : Prop :=
  ∃ value reason, request.header rule.header = some value ∧ rule.Refuses value reason ∧
    rule.NotedAs value reason record

/-- A header that is there fills its field or is noted. -/
theorem note?_cases (rule : HeaderRule) :
    if passedOver request (HeaderFields.extract request).1 rule then
      ∃ record, rule.note? request = some record ∧ rule.Explains request record
    else rule.note? request = none := by
  rw [passedOver, field_extract, found?, note?]
  -- The header is missing, or its value is read, or it is refused; only then is the field empty and
  -- the header there.
  cases hheader : request.header rule.header with
  | none => rfl
  | some value =>
    simp only [Option.bind_some]
    cases hread : rule.read value with
    | ok a => rfl
    | error reason =>
      exact ⟨_, rfl, value, reason, hheader, refuses_iff.mpr hread, rfl, rfl, rfl⟩

theorem forall₂_filter_filterMap {α β : Type} {R : α → β → Prop} {p : α → Bool} {f : α → Option β}
    (h : ∀ a, if p a then ∃ b, f a = some b ∧ R a b else f a = none) (as : List α) :
    List.Forall₂ R (as.filter p) (as.filterMap f) := by
  induction as with
  | nil => exact .nil
  | cons a as ih =>
    have ha := h a
    -- either both lists take the element, or neither
    by_cases hp : p a
    · rw [if_pos hp] at ha
      obtain ⟨b, hb, hR⟩ := ha
      rw [List.filter_cons_of_pos hp, List.filterMap_cons_some hb]
      exact .cons hR ih
    · rw [if_neg hp] at ha
      rw [List.filter_cons_of_neg hp, List.filterMap_cons_none ha]
      exact ih

/-- **The log** holds one record of each header that was passed over, in the order of the rules. -/
theorem explains_notes :
    List.Forall₂ (fun rule record => rule.Explains request record)
      (all.filter (passedOver request (HeaderFields.extract request).1))
      (HeaderFields.extract request).2 := by
  have hnotes := notes_applyAll request all {}
  rw [HeaderFields.extract] at *
  rw [hnotes]
  exact forall₂_filter_filterMap (note?_cases request) all

end HeaderRule

namespace HeaderFields

open HeaderRule

theorem readApplicationId_eq_ok_iff {value : String} {id : CorrelationId} :
    readApplicationId value = .ok id ↔ CorrelationId.parse value = .ok id := by
  rw [readApplicationId]
  rcases CorrelationId.parse value with (_ | _ | _) | found <;> simp

theorem readInstanceIndex_eq_ok_iff {value : String} {index : Int32} :
    readInstanceIndex value = .ok index ↔ Decimal.Signed.read value.toList = .ok index := by
  rw [readInstanceIndex]
  cases Decimal.Signed.read value.toList <;> simp [Except.mapError]

theorem readInstanceId_eq_ok_iff {value id : String} :
    readInstanceId value = .ok id ↔ value = id ∧ id ≠ "" := by
  rw [readInstanceId]
  -- the empty text is refused, and every other text is its own reading
  by_cases hempty : value.isEmpty
  · rw [if_pos hempty, String.isEmpty_iff.mp hempty]
    constructor
    · intro h
      cases h
    · rintro ⟨rfl, hne⟩
      exact absurd rfl hne
  · rw [if_neg hempty, Except.ok.injEq]
    rw [String.isEmpty_iff] at hempty
    constructor
    · rintro rfl
      exact ⟨rfl, hempty⟩
    · exact And.left

/-! ### The four fields -/

section

variable (request : RequestInfo)

theorem applicationId_eq_some_iff {id : CorrelationId} :
    (extract request).1.applicationId = some id ↔
      ∃ value, request.header "X-CF-ApplicationID" = some value ∧
        CorrelationId.parse value = .ok id := by
  refine (field_extract_eq_some_iff request .applicationId id).trans ?_
  exact exists_congr fun value => and_congr_right fun _ => readApplicationId_eq_ok_iff

theorem instanceIndex_eq_some_iff {index : Int32} :
    (extract request).1.instanceIndex = some index ↔
      ∃ value, request.header "X-CF-InstanceIndex" = some value ∧
        Decimal.Signed.read value.toList = .ok index := by
  refine (field_extract_eq_some_iff request .instanceIndex index).trans ?_
  exact exists_congr fun value => and_congr_right fun _ => readInstanceIndex_eq_ok_iff

theorem instanceId_eq_some_iff {id : String} :
    (extract request).1.instanceId = some id ↔
      request.header "X-CF-InstanceID" = some id ∧ id ≠ "" := by
  refine (field_extract_eq_some_iff request .instanceId id).trans ?_
  -- the value that is read is the value of the header
  constructor
  · rintro ⟨value, hvalue, hread⟩
    obtain ⟨rfl, hne⟩ := readInstanceId_eq_ok_iff.mp hread
    exact ⟨hvalue, hne⟩
  · rintro ⟨hvalue, hne⟩
    exact ⟨id, hvalue, readInstanceId_eq_ok_iff.mpr ⟨rfl, hne⟩⟩

theorem userAgent_eq_some_iff {agent : String} :
    (extract request).1.userAgent = some agent ↔ request.header "User-Agent" = some agent := by
  refine (field_extract_eq_some_iff request .userAgent agent).trans ?_
  constructor
  · rintro ⟨value, hvalue, hread⟩
    cases hread
    exact hvalue
  · intro hvalue
    exact ⟨agent, hvalue, rfl⟩

end

/-- **Headers fill fields by rules that do not meet.** Each field is what its own rule reads from
its own header, untrimmed unless it is an id; no other header has a part in it, and neither has the
order of the rules. The log holds one record of each header that is there and has not filled its
field, in the order of the rules and with the reason; `empty value` is the reason exactly of a blank
application id and of an empty instance id. -/
theorem extract_by_rule (request : RequestInfo) :
    let fields := (extract request).1
    (∀ id, fields.applicationId = some id ↔
      ∃ value, request.header "X-CF-ApplicationID" = some value ∧
        CorrelationId.parse value = .ok id) ∧
    (∀ index, fields.instanceIndex = some index ↔
      ∃ value, request.header "X-CF-InstanceIndex" = some value ∧
        Decimal.Signed.read value.toList = .ok index) ∧
    (∀ id, fields.instanceId = some id ↔ request.header "X-CF-InstanceID" = some id ∧ id ≠ "") ∧
    (∀ agent, fields.userAgent = some agent ↔ request.header "User-Agent" = some agent) ∧
    (∀ (rule : HeaderRule) (other : RequestInfo),
      other.header rule.header = request.header rule.header →
      rule.field (extract other).1 = rule.field fields) ∧
    (∀ rules : List HeaderRule, rules.Perm all → (applyAll request rules {}).1 = fields) ∧
    List.Forall₂ (fun rule record => rule.Explains request record)
      (all.filter (passedOver request fields)) (extract request).2 ∧
    ∀ rule value reason, Refuses rule value reason →
      (reason.message = "empty value" ↔
        (rule = .applicationId ∧ Text.isBlankText value = true) ∨
          (rule = .instanceId ∧ value = "")) := by
  refine ⟨fun id => applicationId_eq_some_iff request,
    fun index => instanceIndex_eq_some_iff request, fun id => instanceId_eq_some_iff request,
    fun agent => userAgent_eq_some_iff request, ?_, fun rules h => fst_applyAll_of_perm request h,
    explains_notes request, fun rule value reason h => h.message_eq_empty_iff⟩
  intro rule other hheader
  -- of the request a rule sees the value of its own header
  rw [field_extract, field_extract, found?, found?, hheader]

/-- A request with a blank application id, an index, an empty instance id and an empty user
agent. -/
def sparseRequest : RequestInfo :=
  .ofHeaders "GET" "host" "/" "peer"
    [⟨"user-agent", []⟩, ⟨"X-CF-InstanceID", []⟩, ⟨"X-CF-InstanceIndex", Ascii.bytes "+07"⟩,
      ⟨"X-CF-ApplicationID", Ascii.bytes " "⟩]

/-- Two of its headers fill their fields and two are noted, in any order of the rules; without the
others its index is the same. -/
theorem extract_by_rule_sparse :
    let fields := (extract sparseRequest).1
    let other : RequestInfo :=
      .ofHeaders "PUT" "" "" "" [⟨"x-cf-instanceindex", Ascii.bytes "+07"⟩]
    fields.instanceIndex = some 7 ∧ fields.userAgent = some "" ∧ fields.applicationId = none ∧
      (applyAll sparseRequest all.reverse {}).1 = fields ∧
      HeaderRule.field .instanceIndex (extract other).1 = some 7 ∧
      (extract sparseRequest).2.length = 2 ∧
      HeaderFault.emptyValue.message = "empty value" := by
  intro fields other
  obtain ⟨hid, hindex, -, hagent, hother, horder, hnotes, hreason⟩ := extract_by_rule sparseRequest
  have hseven : fields.instanceIndex = some 7 :=
    (hindex 7).mpr ⟨"+07", by decide +kernel, by rfl⟩
  have hempty : fields.userAgent = some "" := (hagent "").mpr (by decide +kernel)
  have hnone : fields.applicationId = none := by
    -- its value would have to be the text of an id, and it is blank
    rw [Option.eq_none_iff_forall_ne_some]
    intro id h
    obtain ⟨value, hvalue, hparse⟩ := (hid id).mp h
    obtain rfl : " " = value :=
      Option.some.inj (Eq.trans (by decide +kernel) hvalue)
    rw [CorrelationId.parse_of_blank (by decide)] at hparse
    cases hparse
  have hpassed : (all.filter (passedOver sparseRequest fields)).length = 2 := by decide +kernel
  refine ⟨hseven, hempty, hnone, horder _ all.reverse_perm,
    (hother .instanceIndex other (by decide +kernel)).trans hseven,
    hnotes.length_eq.symm.trans hpassed, ?_⟩
  exact (hreason .applicationId " " .emptyValue (.blankId (by decide))).mpr (.inl ⟨rfl, by decide⟩)

end HeaderFields

end Telemetry
