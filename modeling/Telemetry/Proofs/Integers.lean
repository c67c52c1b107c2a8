import Telemetry.Proofs.Event.Integers
import Telemetry.Proofs.RoundTrip

/-!
# Integers are read exactly or refused

In any text that is read, put another integer into the place of one. If the type of the place holds
it, the text is read with this integer and nothing else changed. If not, the text is refused; no
integer is wrapped, cut off, or rounded on the way. `integers_exact` says so for every integer of a
payload, whether the payload is read by itself, in an event in either order, or in an envelope, and
for the stamp of an envelope.

An envelope takes its metadata as it comes, so the stamp is as in any record
(`Envelope.read_member`). The members of its event are put aside, which happens once more to the
payload if it comes first. A number that has a meaning survives being put aside as often as needed,
and one that has none is refused there (`Envelope.read_content`, `Envelope.exact_event`).
-/

namespace Telemetry

open Place (whole)

namespace Envelope

/-! ### Members of an envelope -/

theorem readMembers_append (slots : Slots fields) (before after : List Raw.Member) :
    readMembers slots (before ++ after) = readMembers slots before >>= fun result =>
      (readMembers result.1 after).map fun more => (more.1, result.2 ++ more.2) := by
  -- The slots vary: each member in front is taken into a slot, or put aside, before the next is
  -- read.
  induction before generalizing slots with
  | nil =>
    show readMembers slots after = (readMembers slots after).map fun more => (more.1, more.2)
    cases readMembers slots after <;> rfl
  | cons member before ih =>
    obtain ⟨key, item⟩ := member
    rw [List.cons_append, readMembers, readMembers]
    cases key with
    | error fault => rfl
    | ok name =>
      simp only [Fault.ok_bind]
      cases Record.accept? .direct name item fields slots with
      | some read =>
        cases read with
        | error fault => rfl
        | ok more => exact ih more
      -- the member is put aside in front of all that is put aside behind it
      | none =>
        simp only [ih]
        cases item.buffer Raw.roomInside with
        | error fault => rfl
        | ok u =>
          simp only [Fault.ok_bind]
          cases readMembers slots before with
          | error fault => rfl
          | ok result =>
            show _ = (readMembers result.1 after).map fun more =>
              (more.1, (.ok name, item) :: result.2 ++ more.2)
            rw [Fault.ok_bind]
            cases readMembers result.1 after <;> rfl

theorem readMembers_fill {f : Field} (spot : Spot fields f) (a b : f.Value) (slots : Slots fields)
    (members : List Raw.Member) :
    readMembers (spot.fill b slots) members =
      (readMembers (spot.fill a slots) members).map fun result =>
        (spot.fill b result.1, result.2) := by
  induction members generalizing slots with
  | nil => simp [readMembers, Except.map]
  | cons member members ih =>
    obtain ⟨key, item⟩ := member
    rw [readMembers, readMembers]
    cases key with
    | error fault => rfl
    | ok name =>
      simp only [Fault.ok_bind]
      rw [Record.accept?_fill spot name item a b slots]
      cases haccept : Record.accept? .direct name item fields (spot.fill a slots) with
      -- the member belongs to the event, and no slot is touched
      | none =>
        simp only [Option.map_none, ih slots]
        cases item.buffer Raw.roomInside with
        | error fault => rfl
        | ok u =>
          simp only [Fault.ok_bind]
          cases readMembers (spot.fill a slots) members <;> rfl
      | some read =>
        cases read with
        | error fault => rfl
        | ok more =>
          -- `more` has the slot still full, so filling it with `a` changes nothing
          show readMembers (spot.fill b more) members = _
          rw [ih more, ← Record.full_of_accept? haccept]
          rfl

/-- **A member that is the content of the event decides the event,** and nothing else. -/
theorem read_content {before after : List Raw.Member} {ending : Ending} {item : Raw} {e : Envelope}
    (h : read (.object (before ++ (.ok Event.contentName, item) :: after) ending) = .ok e) :
    item.buffer Raw.roomInside = .ok () ∧ ∃ held₁ held₂,
      Event.readMembers .held .closed (held₁ ++ (.ok Event.contentName, item) :: held₂) =
        .ok e.event ∧
      ∀ other, read (.object (before ++ (.ok Event.contentName, other) :: after) ending) =
        other.buffer Raw.roomInside >>= fun _ =>
          (Event.readMembers .held .closed
            (held₁ ++ (.ok Event.contentName, other) :: held₂)).map fun event =>
              { e with event := event } := by
  have hmember : ∀ slots other, readMembers slots ((.ok Event.contentName, other) :: after) =
      other.buffer Raw.roomInside >>= fun _ => (readMembers slots after).map fun result =>
        (result.1, (.ok Event.contentName, other) :: result.2) := by
    intro slots other
    -- no metadata has this name, so the member is put aside for the event
    have hnone : Record.accept? .direct Event.contentName other fields slots = none :=
      Record.accept?_eq_none.2 (by decide)
    rw [readMembers]
    simp only [Fault.ok_bind, hnone]
    cases readMembers slots after <;> rfl
  rw [read, readMembers_append] at h
  -- The run that has succeeded is opened step by step, so that each step can be repeated with
  -- another value in place of the member.
  obtain ⟨⟨slots, held⟩, hread, h⟩ := Fault.bind_eq_ok.1 h
  obtain ⟨⟨⟩, hending, h⟩ := Fault.bind_eq_ok.1 h
  obtain ⟨row, hfinish, h⟩ := Fault.bind_eq_ok.1 h
  obtain ⟨event, hevent, h⟩ := Fault.bind_eq_ok.1 h
  cases h
  obtain ⟨⟨middle, held₁⟩, hbefore, hread⟩ := Fault.bind_eq_ok.1 hread
  rw [hmember] at hread
  obtain ⟨result, hresult, heq⟩ := Fault.map_eq_ok.1 hread
  obtain ⟨⟨⟩, hbuffer, hresult⟩ := Fault.bind_eq_ok.1 hresult
  obtain ⟨⟨last, held₂⟩, hafter, rfl⟩ := Fault.map_eq_ok.1 hresult
  cases heq
  refine ⟨hbuffer, held₁, held₂, hevent, fun other => ?_⟩
  -- in front of the member and behind it everything goes as before
  rw [read, readMembers_append, hbefore, Fault.ok_bind, hmember, hafter]
  cases other.buffer Raw.roomInside with
  | error fault => rfl
  | ok u =>
    show (ending.used >>= fun _ => Record.finish fields last >>= fun row =>
      Event.readMembers .held .closed (held₁ ++ (.ok Event.contentName, other) :: held₂) >>=
        fun event => .ok (ofRow event row)) = _
    rw [hending, Fault.ok_bind, hfinish, Fault.ok_bind, Fault.ok_bind]
    cases Event.readMembers .held .closed (held₁ ++ (.ok Event.contentName, other) :: held₂) <;> rfl

/-- What the members behind a member of the metadata are read as does not depend on its value. -/
theorem readMembers_member {f : Field} (spot : Spot fields f) {slots : Slots fields}
    {after : List Raw.Member} {item : Raw} {result : Slots fields × List Raw.Member}
    (h : readMembers slots ((.ok f.name, item) :: after) = .ok result) :
    ∃ a, f.codec.read .direct item = .ok a ∧ result = (spot.fill a result.1, result.2) ∧
      ∀ other, readMembers slots ((.ok f.name, other) :: after) =
        (f.codec.read .direct other).map fun b => (spot.fill b result.1, result.2) := by
  have hread : ∀ item step, Record.accept? .direct f.name item fields slots = some step →
      readMembers slots ((.ok f.name, item) :: after) =
        step >>= fun slots => readMembers slots after := by
    intro item step hstep
    rw [readMembers]
    simp only [Fault.ok_bind, hstep]
  exact Record.fills_slot spot (by decide) (fun slots => readMembers slots after)
    (fun a b slots => readMembers_fill spot a b slots after) _ hread h

/-- **A member of the metadata decides one field,** and nothing else. -/
theorem read_member {f : Field} (spot : Spot fields f) {before after : List Raw.Member}
    {ending : Ending} {item : Raw} {e : Envelope}
    (h : read (.object (before ++ (.ok f.name, item) :: after) ending) = .ok e) :
    f.codec.read .direct item = .ok (spot.get e.toRow) ∧
      ∀ other, read (.object (before ++ (.ok f.name, other) :: after) ending) =
        (f.codec.read .direct other).map fun b => ofRow e.event (spot.put b e.toRow) := by
  rw [read, readMembers_append] at h
  -- As before the successful run is opened; here the member ends in a slot.
  obtain ⟨⟨slots, held⟩, hread, h⟩ := Fault.bind_eq_ok.1 h
  obtain ⟨⟨⟩, hending, h⟩ := Fault.bind_eq_ok.1 h
  obtain ⟨row, hfinish, h⟩ := Fault.bind_eq_ok.1 h
  obtain ⟨event, hevent, h⟩ := Fault.bind_eq_ok.1 h
  cases h
  obtain ⟨⟨middle, held₁⟩, hbefore, hread⟩ := Fault.bind_eq_ok.1 hread
  obtain ⟨⟨last, held₂⟩, hmiddle, heq⟩ := Fault.map_eq_ok.1 hread
  cases heq
  obtain ⟨a, ha, hfull, hmember⟩ := readMembers_member spot hmiddle
  obtain ⟨rfl, hput⟩ := Record.finish_full (congrArg Prod.fst hfull) hfinish
  refine ⟨ha, fun other => ?_⟩
  -- with another value only this slot is different
  rw [read, readMembers_append, hbefore, Fault.ok_bind, hmember]
  cases f.codec.read .direct other with
  | error fault => rfl
  | ok b =>
    show (ending.used >>= fun _ => Record.finish fields (spot.fill b last) >>= fun row =>
      Event.readMembers .held .closed (held₁ ++ held₂) >>= fun event => .ok (ofRow event row)) = _
    rw [hending, Fault.ok_bind, hput, Fault.ok_bind, hevent]
    rfl

/-! ### Integers of an envelope -/

variable {e : Envelope}

theorem exact_field {f : Field} (spot : Spot fields f) {p : Place f.Value}
    (h : p.Exact f.codec.read (spot.get e.toRow)) :
    (p.under ⟨f.name, spot.index⟩ fun b => ofRow e.event (spot.put b e.toRow)).Exact
      codec.read e := by
  refine .passedOn (p := p) (f := fun b => ofRow e.event (spot.put b e.toRow))
    fun {around mode m} hat hread => ?_
  cases hat with
  | item hinner hindex => cases hread -- an array is no envelope
  | member hinner =>
    obtain ⟨hitem, hother⟩ := read_member spot hread
    exact ⟨_, h.fill hinner hitem, fun x => hother _⟩

/-- The time at which the envelope was stamped. -/
def stamp (e : Envelope) : Place Envelope :=
  (whole .i64).under ⟨"timestamp", 1⟩ fun n => { e with timestamp := n }

theorem exact_stamp : e.stamp.Exact codec.read e :=
  exact_field (.nth fields 1) .signed64

/-- **What is exact in an event, is exact in an envelope.** -/
theorem exact_event {p : Place α} {f : α → Event}
    (h : (p.under Event.contentStep f).Exact Event.read e.event) :
    (p.under Event.contentStep fun a => { e with event := f a }).Exact codec.read e where
  fill hat hread x := by
    cases hat with
    -- an array is no envelope
    | item hinner hindex => cases hread
    | @member _ _ inner before after ending hinner =>
      obtain ⟨hbuffer, held₁, held₂, hevent, hother⟩ := read_content hread
      -- the event is read from an object of its own, with what was put aside around the place
      have hat : (Raw.Around.member held₁ (.ok Event.contentStep.name) inner held₂ .closed).At
          (Event.contentStep :: p.path) := .member hinner
      have hread : (Event.readMembers .held .closed
          (held₁ ++ (.ok Event.contentName, inner.fill x) :: held₂)).toOption =
            (p.width.value? x).map fun n => f (p.put n) := h.fill hat hevent x
      refine (congrArg _ (hother _)).trans ?_
      rw [Raw.buffer_fill hbuffer]
      refine Place.toOption_checked ?_
      rw [Fault.toOption_map, hread, Option.map_map]
      rfl

end Envelope

/-- **Integers are read exactly or refused.** The integers of each type are those from its least to
its greatest. If a text with a gap is read with some integer `m` in the gap, and the gap is a place
of what has been read, then every integer `n` gets its answer there: from the reader of the payload,
from that of the event, and from that of the envelope. So it is with the stamp of an envelope. -/
theorem integers_exact :
    (∀ (w : Width) (n : Int), (∃ v : w.Carrier, w.toInt v = n) ↔ w.least ≤ n ∧ n ≤ w.greatest) ∧
    (∀ (kind : EventType) (v : kind.Payload), ∀ p ∈ kind.integers v, ∀ (t : Gapped) (m n : Int),
      (t.Leads p.path → kind.payloadCodec.ofText (t.text m) = .ok v →
        p.Answers n (kind.payloadCodec.ofText (t.text n))) ∧
      (t.Leads (Event.contentStep :: p.path) → Event.codec.ofText (t.text m) = .ok (kind.wrap v) →
        (p.under Event.contentStep kind.wrap).Answers n (Event.codec.ofText (t.text n))) ∧
      ∀ e : Envelope, e.event = kind.wrap v → t.Leads (Event.contentStep :: p.path) →
        Envelope.ofText (t.text m) = .ok e →
        (p.under Event.contentStep fun b => { e with event := kind.wrap b }).Answers n
          (Envelope.ofText (t.text n))) ∧
    ∀ (e : Envelope) (t : Gapped) (m n : Int), t.Leads e.stamp.path →
      Envelope.ofText (t.text m) = .ok e → e.stamp.Answers n (Envelope.ofText (t.text n)) := by
  -- the faults of an envelope's text have names of their own
  have hcodec : ∀ {text e}, Envelope.ofText text = .ok e → Envelope.codec.ofText text = .ok e := by
    intro text e h
    rw [Envelope.ofText] at h
    cases hread : Envelope.codec.ofText text with
    | error fault =>
      rw [hread] at h
      cases h
    | ok a =>
      rw [hread] at h
      cases h
      rfl
  refine ⟨fun w n => Width.exists_toInt_iff, fun kind v p hp t m n => ⟨?_, ?_, ?_⟩, ?_⟩
  · exact fun hleads hread => (kind.exact_integers v p hp).ofText hleads hread n
  · intro hleads hread
    exact (EventType.exact_event (kind.exact_integers v p hp)).ofText hleads hread n
  · intro e he hleads hread
    -- the place is exact in the event, and so in the envelope
    have hevent := EventType.exact_event (kind.exact_integers v p hp)
    rw [← he] at hevent
    exact ((Envelope.exact_event hevent).ofText hleads (hcodec hread) n).mapError _
  · exact fun e t m n hleads hread =>
      (Envelope.exact_stamp.ofText hleads (hcodec hread) n).mapError _

/-! ### One line -/

namespace LogMessage

/-- A line of a single byte. -/
def line : LogMessage :=
  ⟨[0], .out, 0, "app", "web", none⟩

/-- The JSON value of the line, with `n` for its byte. -/
def lineOf (n : Int) : Json :=
  .object [("message", .array [.number (.int n)]), ("message_type", .text "OUT"),
    ("timestamp", .number (.int 0)), ("app_id", .text "app"), ("source_type", .text "web")]

theorem read_line {text : List UInt8} (h : Token.Spaced (lineOf 0).tokens text) :
    codec.ofText text = .ok line :=
  Codec.ofText_of_reads line.codec_reads line.codec_reads.self h

theorem legible_line : (lineOf 0).Legible :=
  line.codec_reads.legible line.codec_reads.self

end LogMessage

namespace Event

/-- The JSON value of the line's event, the payload first. -/
def lineOf (n : Int) : Json :=
  .object [("event", LogMessage.lineOf n), ("event_type", .text "log_message")]

theorem relaid_line : (shape .logMessage).Relaid (codec.write (.logMessage .line)) (lineOf 0) :=
  .record (.cons (.fixed _) (.cons LogMessage.line.codec_reads.self .nil)) (List.forall_mem_nil _)
    (.swap ..)

theorem read_line {text : List UInt8} (h : Token.Spaced (lineOf 0).tokens text) :
    codec.ofText text = .ok (.logMessage .line) :=
  Codec.ofText_of_reads (codec_reads (e := .logMessage .line) trivial) relaid_line h

theorem legible_line : (lineOf 0).Legible :=
  (codec_reads (e := .logMessage .line) trivial).legible relaid_line

end Event

namespace Envelope

/-- The line in an envelope. -/
def line : Envelope :=
  ⟨"router", 0, none, none, none, none, .empty, .logMessage .line⟩

/-- The JSON value of the envelope, with another stamp and another byte of the line. -/
def lineOf (stamp n : Int) : Json :=
  .object [("origin", .text "router"), ("timestamp", .number (.int stamp)),
    ("event_type", .text "log_message"), ("event", LogMessage.lineOf n)]

theorem read_line {text : List UInt8} (h : Token.Spaced (lineOf 0 0).tokens text) :
    ofText text = .ok line := by
  have hreads := codec_reads (e := line) trivial
  rw [ofText, Codec.ofText_of_reads hreads hreads.self h]
  rfl

theorem legible_line : (lineOf 0 0).Legible :=
  have hreads := codec_reads (e := line) trivial
  hreads.legible hreads.self

end Envelope

/-- In a text of the line, its byte can be replaced by 255 and not by 256; in its event, not by an
integer beyond all words; in its envelope, not by one below zero. The stamp of the envelope can be
replaced by the greatest of its type and by no greater one. -/
theorem integers_exact_line :
    (∃ t : Gapped, (∀ n, Token.Spaced (LogMessage.lineOf n).tokens (t.text n)) ∧
      (∃ e, LogMessage.codec.ofText (t.text 255) = .ok e) ∧
      ¬ ∃ e, LogMessage.codec.ofText (t.text 256) = .ok e) ∧
    (∃ t : Gapped, (∀ n, Token.Spaced (Event.lineOf n).tokens (t.text n)) ∧
      (∃ e, Event.codec.ofText (t.text 255) = .ok e) ∧
      ¬ ∃ e, Event.codec.ofText (t.text 18446744073709551616) = .ok e) ∧
    (∃ t : Gapped, (∀ n, Token.Spaced (Envelope.lineOf 0 n).tokens (t.text n)) ∧
      (∃ e, Envelope.ofText (t.text 255) = .ok e) ∧ ¬ ∃ e, Envelope.ofText (t.text (-1)) = .ok e) ∧
    ∃ t : Gapped, (∀ n, Token.Spaced (Envelope.lineOf n 0).tokens (t.text n)) ∧
      (∃ e, Envelope.ofText (t.text 9223372036854775807) = .ok e) ∧
      ¬ ∃ e, Envelope.ofText (t.text 9223372036854775808) = .ok e := by
  obtain ⟨-, hpayload, hstamp⟩ := integers_exact
  -- the one byte of the line is a place of the payload
  have hbyte : ⟨[⟨"message", 0⟩, ⟨"", 0⟩], .u8, fun b => { LogMessage.line with message := [b] }⟩ ∈
      EventType.logMessage.integers .line := .head _
  have hline := fun t n => hpayload .logMessage .line _ hbyte t 0 n
  refine ⟨?payload, ?event, ?envelope, ?stamp⟩
  case payload =>
    obtain ⟨t, -, hleads, htext⟩ := Gapped.exists_leads (j := LogMessage.lineOf)
      [⟨"message", 0⟩, ⟨"", 0⟩] 4 (fun _ => rfl) (fun _ => rfl) (Json.spaced_render _)
      LogMessage.legible_line
    have hanswers := fun n => (hline t n).1 hleads (LogMessage.read_line (htext 0))
    exact ⟨t, htext, (hanswers 255).accepted_iff.2 (by decide),
      mt (hanswers 256).accepted_iff.1 (by decide)⟩
  case event =>
    obtain ⟨t, -, hleads, htext⟩ := Gapped.exists_leads (j := Event.lineOf)
      [Event.contentStep, ⟨"message", 0⟩, ⟨"", 0⟩] 7 (fun _ => rfl) (fun _ => rfl)
      (Json.spaced_render _) Event.legible_line
    have hanswers := fun n => (hline t n).2.1 hleads (Event.read_line (htext 0))
    exact ⟨t, htext, (hanswers 255).accepted_iff.2 (by decide),
      mt (hanswers _).accepted_iff.1 (by decide)⟩
  case envelope =>
    obtain ⟨t, -, hleads, htext⟩ := Gapped.exists_leads (j := Envelope.lineOf 0)
      [Event.contentStep, ⟨"message", 0⟩, ⟨"", 0⟩] 19 (fun _ => rfl) (fun _ => rfl)
      (Json.spaced_render _) Envelope.legible_line
    have hanswers := fun n => (hline t n).2.2 .line rfl hleads (Envelope.read_line (htext 0))
    exact ⟨t, htext, (hanswers 255).accepted_iff.2 (by decide),
      mt (hanswers _).accepted_iff.1 (by decide)⟩
  case stamp =>
    obtain ⟨t, -, hleads, htext⟩ := Gapped.exists_leads (j := fun n => Envelope.lineOf n 0)
      [⟨"timestamp", 1⟩] 7 (fun _ => rfl) (fun _ => rfl) (Json.spaced_render _)
      Envelope.legible_line
    have hanswers := fun n => hstamp .line t 0 n hleads (Envelope.read_line (htext 0))
    exact ⟨t, htext, (hanswers _).accepted_iff.2 (by decide),
      mt (hanswers _).accepted_iff.1 (by decide)⟩

end Telemetry
