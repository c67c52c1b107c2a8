import Telemetry.Proofs.Decimal.Signed
import Telemetry.Proofs.Factory.HeaderRules

/-!
# The index of an instance

The index is the one field from a header that is a number. It is filled with the integer that the
value of its header denotes, if that is one of 32 bits, however long the value is; and otherwise
the log has one record about the header, whose reason is that of the refusal
(`HeaderFields.instance_index_exact`). The reading itself is the business of `Decimal.Signed`; here
it is brought to the fields and the log, of which `HeaderFields.notes_about` says that the records
about a header are the note of its rule.
-/

namespace Telemetry.HeaderFields

open HeaderRule Decimal.Signed

/-- The record is about the header of the rule. -/
def isAbout (rule : HeaderRule) (record : LogRecord) : Bool :=
  ("header", rule.header) ∈ record.fields

theorem header_injective {rule other : HeaderRule} (h : rule.header = other.header) :
    rule = other := by
  cases rule <;> cases other <;> first | rfl | exact absurd h (by decide)

/-- The note of a rule is about its own header. -/
theorem isAbout_note {rule other : HeaderRule} {request : RequestInfo} {record : LogRecord}
    (h : other.note? request = some record) : isAbout rule record = decide (other = rule) := by
  rw [note?, Option.bind_eq_some_iff] at h
  obtain ⟨value, -, hnote⟩ := h
  cases hread : other.read value with
  | ok a => rw [hread] at hnote; cases hnote
  | error reason =>
    rw [hread] at hnote
    cases hnote
    -- a record names one header, and no two rules have the same one
    refine decide_eq_decide.mpr ⟨fun hmem => ?_, ?_⟩
    · have hheader : rule.header = other.header := by simpa [LogRecord.fields] using hmem
      exact (header_injective hheader).symm
    · rintro rfl
      exact List.mem_cons_self

/-- **The records about a header** are the note of its rule, if it has left one. -/
theorem notes_about (request : RequestInfo) (rule : HeaderRule) :
    (extract request).2.filter (isAbout rule) = (rule.note? request).toList := by
  -- rule by rule, a note stays if its rule is the one that is asked about
  have hfilter : ∀ rules : List HeaderRule,
      (rules.filterMap fun other => other.note? request).filter (isAbout rule) =
        rules.filterMap fun other => if other = rule then other.note? request else none := by
    intro rules
    induction rules with
    | nil => rfl
    | cons other rules ih =>
      rw [List.filterMap_cons, List.filterMap_cons]
      cases hnote : other.note? request with
      | none =>
        rw [ite_self]
        exact ih
      | some record =>
        simp only [List.filter_cons, isAbout_note hnote, decide_eq_true_eq, ih]
        split <;> rfl
  rw [extract, notes_applyAll, hfilter]
  -- and each rule is applied once
  cases rule <;> simp [all, List.filterMap_cons] <;> cases note? _ request <;> rfl

theorem note?_instanceIndex {request : RequestInfo} {value : String}
    (h : request.header "X-CF-InstanceIndex" = some value) {fault : Decimal.Signed.Fault}
    (hrefused : Refused value.toList fault) :
    note? .instanceIndex request =
      some (.malformedHeader "X-CF-InstanceIndex" value (.number fault)) := by
  have hread : HeaderRule.read .instanceIndex value = .error (.number fault) :=
    read_of_refuses (.malformedIndex (read_eq_error_iff.mpr hrefused))
  show (request.header "X-CF-InstanceIndex").bind _ = _
  rw [h, Option.bind_some, hread]
  rfl

/-- A text is refused or denotes an integer of 32 bits. -/
theorem refused_or_denotes (text : List Char) :
    (∃ fault, Refused text fault) ∨ ∃ n : Int32, Decimal.Signed.read text = .ok n := by
  cases hread : Decimal.Signed.read text with
  | ok n => exact .inr ⟨n, rfl⟩
  | error fault => exact .inl ⟨fault, read_eq_error_iff.mp hread⟩

theorem instanceIndex_eq_some_iff_of_header {request : RequestInfo} {value : String}
    (h : request.header "X-CF-InstanceIndex" = some value) {n : Int32} :
    (extract request).1.instanceIndex = some n ↔ Denotes value.toList n.toInt := by
  rw [instanceIndex_eq_some_iff, ← read_eq_ok_iff]
  constructor
  · rintro ⟨other, hother, hread⟩
    obtain rfl := Option.some.inj (h.symm.trans hother)
    exact hread
  · exact fun hread => ⟨value, h, hread⟩

/-- The field is filled with the integers of 32 bits that the value denotes. -/
theorem exists_index_iff {request : RequestInfo} {value : String}
    (h : request.header "X-CF-InstanceIndex" = some value) {k : Int} :
    (∃ n : Int32, (extract request).1.instanceIndex = some n ∧ n.toInt = k) ↔
      Denotes value.toList k ∧ -2147483648 ≤ k ∧ k ≤ 2147483647 := by
  constructor
  · rintro ⟨n, hn, rfl⟩
    exact ⟨(instanceIndex_eq_some_iff_of_header h).mp hn, n.le_toInt,
      Int.le_of_lt_add_one n.toInt_lt⟩
  · rintro ⟨hdenotes, hlow, hhigh⟩
    -- an integer in the range is the integer of a number of 32 bits
    have hk : (Int32.ofInt k).toInt = k :=
      Int32.toInt_ofInt_of_le hlow (Int.lt_of_le_of_lt hhigh (by decide))
    exact ⟨Int32.ofInt k, (instanceIndex_eq_some_iff_of_header h).mpr (hk.symm ▸ hdenotes), hk⟩

/-- The field is empty if the value is refused, and only then. -/
theorem index_eq_none_iff {request : RequestInfo} {value : String}
    (h : request.header "X-CF-InstanceIndex" = some value) :
    (extract request).1.instanceIndex = none ↔ ∃ fault, Refused value.toList fault := by
  constructor
  · intro hnone
    -- if nothing is refused, an integer is denoted, and then the field is filled
    refine (refused_or_denotes value.toList).resolve_right ?_
    rintro ⟨n, hread⟩
    have hsome := (instanceIndex_eq_some_iff_of_header h).mpr (read_eq_ok_iff.mp hread)
    rw [hnone] at hsome
    cases hsome
  · rintro ⟨fault, hrefused⟩
    rw [Option.eq_none_iff_forall_ne_some]
    intro n hn
    have hread := read_eq_ok_iff.mpr ((instanceIndex_eq_some_iff_of_header h).mp hn)
    rw [read_eq_error_iff.mpr hrefused] at hread
    cases hread

/-- The reason of a refusal is that of the one record about the header. -/
theorem refused_iff_noted {request : RequestInfo} {value : String}
    (h : request.header "X-CF-InstanceIndex" = some value) {fault : Decimal.Signed.Fault} :
    Refused value.toList fault ↔
      ∃ record, (extract request).2.filter (isAbout .instanceIndex) = [record] ∧
        NotedAs .instanceIndex value (.number fault) record := by
  constructor
  · intro hrefused
    -- the record that the rule leaves is the only one about its header
    refine ⟨.malformedHeader "X-CF-InstanceIndex" value (.number fault), ?_, rfl, rfl, rfl⟩
    rw [notes_about, note?_instanceIndex h hrefused]
    rfl
  · rintro ⟨record, hrecord, hnoted⟩
    rw [notes_about] at hrecord
    rcases refused_or_denotes value.toList with ⟨other, hother⟩ | ⟨n, hread⟩
    · -- the record has the reason of the refusal that there is
      rw [note?_instanceIndex h hother] at hrecord
      obtain rfl : LogRecord.malformedHeader _ value (.number other) = record :=
        (List.cons.inj hrecord).1
      have hmessage : other.message = fault.message := by
        have hfields := hnoted.fields
        simp only [LogRecord.fields, List.cons.injEq, Prod.mk.injEq, true_and, and_true]
          at hfields
        exact hfields.2
      exact Decimal.Signed.Fault.message_injective hmessage ▸ hother
    · -- a header that fills its field is not noted
      have hfound : HeaderRule.read .instanceIndex value = .ok n :=
        readInstanceIndex_eq_ok_iff.mpr hread
      have hnone : note? .instanceIndex request = none := by
        show (request.header "X-CF-InstanceIndex").bind _ = _
        rw [h, Option.bind_some, hfound]
      rw [hnone] at hrecord
      cases hrecord

/-- **The index of an instance is read exactly or refused.** It is the integer that the value of the
header denotes, if that is one of 32 bits. Otherwise the field is empty, and the one record about
the header has the reason: there is nothing, there is a character that is no digit or no digit at
all, or the digits leave the range before that. -/
theorem instance_index_exact (request : RequestInfo) (value : String)
    (h : request.header "X-CF-InstanceIndex" = some value) :
    let index := (extract request).1.instanceIndex
    (∀ k : Int, (∃ n : Int32, index = some n ∧ n.toInt = k) ↔
      Denotes value.toList k ∧ -2147483648 ≤ k ∧ k ≤ 2147483647) ∧
    (index = none ↔ ∃ fault, Refused value.toList fault) ∧
    (∀ fault, Refused value.toList fault ↔
      ∃ record, (extract request).2.filter (isAbout .instanceIndex) = [record] ∧
        NotedAs .instanceIndex value (.number fault) record) ∧
    Decimal.Signed.Fault.empty.message = "cannot parse integer from empty string" ∧
    Decimal.Signed.Fault.invalidDigit.message = "invalid digit found in string" ∧
    Decimal.Signed.Fault.tooLarge.message = "number too large to fit in target type" ∧
    Decimal.Signed.Fault.tooSmall.message = "number too small to fit in target type" := by
  refine ⟨fun k => ?filled, ?empty, fun fault => ?noted, rfl, rfl, rfl, rfl⟩
  case filled => exact exists_index_iff h
  case empty => exact index_eq_none_iff h
  case noted => exact refused_iff_noted h

/-- A request whose header for the index has the value. -/
def indexRequest (value : String) : RequestInfo :=
  .ofHeaders "GET" "host" "/" "peer" [⟨"x-cf-instanceindex", Ascii.bytes value⟩]

/-- The least number of 32 bits is read behind zeros. One digit past the greatest the digits leave
the range before the letter is met, but with the greatest itself it is the letter that is refused.
A sign needs a digit. -/
theorem instance_index_exact_limits :
    (∃ n, (extract (indexRequest "-0002147483648")).1.instanceIndex = some n ∧
      n.toInt = -2147483648) ∧
    (extract (indexRequest "2147483648x")).1.instanceIndex = none ∧
    (∃ record ∈ (extract (indexRequest "2147483648x")).2,
      NotedAs .instanceIndex "2147483648x" (.number .tooLarge) record) ∧
    (∃ record ∈ (extract (indexRequest "2147483647x")).2,
      NotedAs .instanceIndex "2147483647x" (.number .invalidDigit) record) ∧
    ∃ record ∈ (extract (indexRequest "+")).2,
      NotedAs .instanceIndex "+" (.number .invalidDigit) record := by
  -- Each value is the only header, and the claim about the log is the same for all of them.
  have hnoted : ∀ (value : String) (fault : Decimal.Signed.Fault),
      (indexRequest value).header "X-CF-InstanceIndex" = some value →
      Refused value.toList fault → ∃ record ∈ (extract (indexRequest value)).2,
        NotedAs .instanceIndex value (.number fault) record := by
    intro value fault hheader hrefused
    obtain ⟨-, -, hlog, -⟩ := instance_index_exact (indexRequest value) value hheader
    obtain ⟨record, hrecord, hnoted⟩ := (hlog fault).mp hrefused
    have hmem : record ∈ (extract (indexRequest value)).2.filter (isAbout .instanceIndex) := by
      rw [hrecord]
      exact List.mem_cons_self
    exact ⟨record, List.mem_of_mem_filter hmem, hnoted⟩
  have hlarge : Refused "2147483648x".toList .tooLarge :=
    read_eq_error_iff.mp (by rfl)
  have hdenotes : Denotes "-0002147483648".toList (-2147483648 : Int32).toInt :=
    read_eq_ok_iff.mp (by rfl)
  obtain ⟨hleast, -⟩ := instance_index_exact (indexRequest "-0002147483648") "-0002147483648"
    (by decide +kernel)
  obtain ⟨-, hnone, -⟩ := instance_index_exact (indexRequest "2147483648x") "2147483648x"
    (by decide +kernel)
  exact ⟨(hleast (-2147483648)).mpr ⟨hdenotes, by decide, by decide⟩, hnone.mpr ⟨_, hlarge⟩,
    hnoted "2147483648x" _ (by decide +kernel) hlarge,
    hnoted "2147483647x" _ (by decide +kernel) (read_eq_error_iff.mp (by rfl)),
    hnoted "+" _ (by decide +kernel) (.signAlone (.plus []))⟩

end Telemetry.HeaderFields
