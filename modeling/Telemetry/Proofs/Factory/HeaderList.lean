import Telemetry.Proofs.Factory.HeaderRules
import Telemetry.Proofs.Factory.Privacy
import Telemetry.Proofs.Http.Header
import Telemetry.Proofs.Text.Subparts

/-!
# From a list of headers to an event

A request brings its headers as a list of names and bytes. Two questions about the way from there
into an event are answered here.

What becomes of the bytes? The user agent and the instance id are copied from the first header of
their name, and the text in the field shows the bytes of that header: bytes that are UTF-8 are shown
exactly, and in others U+FFFD stands for what is not a character, once for each maximal ill-formed
subpart (`InboundRequest.verbatim_fields`).

What does the list matter? A request is asked for five headers, by name: those of the four rules,
and `Host` if its target names no host. Whatever rearranges the list and keeps the first header of
each of these names (`Header.Rearranged`) keeps the host, the fields and the records, and so every
report on the request (`InboundRequest.headers_rearranged`).
-/

namespace Telemetry.InboundRequest

variable {request : InboundRequest} {value : List UInt8}

/-! ### The bytes of a header -/

/-- A request answers for a header with the text that shows the first value under its name. -/
theorem header_of_isFirst {name : String} (h : Header.IsFirst request.headers name value) :
    request.info.header name = some (Utf8.stringLossy value) := by
  rw [header_info, Header.text?, Header.find?_eq_some_iff.mpr h, Option.map_some]

/-- **User agent and instance id are copied.** The field of a header that is there has the text
that shows its bytes, with the one exception of an instance id without any. -/
theorem verbatim_fields (request : InboundRequest) (value : List UInt8) :
    let fields := (HeaderFields.extract request.info).1
    (Header.IsFirst request.headers "User-Agent" value →
      ∃ text, fields.userAgent = some text ∧ Utf8.Shows value text) ∧
    (Header.IsFirst request.headers "X-CF-InstanceID" value → value ≠ [] →
      ∃ text, fields.instanceId = some text ∧ Utf8.Shows value text) := by
  intro fields
  have hshows : Utf8.Shows value (Utf8.stringLossy value) := Utf8.shows_stringLossy value
  refine ⟨fun hfirst => ?_, fun hfirst hne => ?_⟩
  · -- a user agent is copied whatever it holds
    have hheader := header_of_isFirst hfirst
    exact ⟨_, (HeaderFields.userAgent_eq_some_iff request.info).mpr hheader, hshows⟩
  · have hheader := header_of_isFirst hfirst
    -- bytes that are there are shown by a text that is not empty
    have hempty : Utf8.stringLossy value ≠ "" := hshows.ne_empty hne
    exact ⟨_, (HeaderFields.instanceId_eq_some_iff request.info).mpr ⟨hheader, hempty⟩, hshows⟩

/-- A request with two user agents, of which the first holds a letter, three bytes of a character of
four, a letter, and a byte that begins nothing; its instance id is UTF-8. -/
def strayRequest : InboundRequest where
  method := "GET"
  target := ⟨some "host", "/"⟩
  headers := [⟨"Accept", []⟩, ⟨"user-agent", [0x61, 0xF0, 0x9F, 0x98, 0x41, 0xFF]⟩,
    ⟨"X-CF-InstanceID", Utf8.ofString "inst-é"⟩, ⟨"User-Agent", Ascii.bytes "later"⟩]
  remoteAddress := "peer"

/-- The three bytes are one subpart, and the letter behind them stays. -/
theorem verbatim_fields_stray :
    let fields := (HeaderFields.extract strayRequest.info).1
    Header.IsFirst strayRequest.headers "User-Agent" [0x61, 0xF0, 0x9F, 0x98, 0x41, 0xFF] ∧
      Header.IsFirst strayRequest.headers "X-CF-InstanceID" (Utf8.ofString "inst-é") ∧
      fields.userAgent = some "a\uFFFDA\uFFFD" ∧ fields.instanceId = some "inst-é" := by
  intro fields
  have hagent : Header.IsFirst strayRequest.headers "User-Agent"
      [0x61, 0xF0, 0x9F, 0x98, 0x41, 0xFF] :=
    Header.find?_eq_some_iff.mp (by decide +kernel)
  have hid : Header.IsFirst strayRequest.headers "X-CF-InstanceID" (Utf8.ofString "inst-é") :=
    Header.find?_eq_some_iff.mp (by decide +kernel)
  obtain ⟨agent, hagentField, hagentShows⟩ := (verbatim_fields strayRequest _).1 hagent
  obtain ⟨id, hidField, hidShows⟩ := (verbatim_fields strayRequest _).2 hid (by decide)
  -- there is one way to take the bytes apart
  obtain ⟨ps, hps, hagentText⟩ := hagentShows.pieces
  have hpieces : ps = [.char 'a', .stray, .char 'A', .stray] :=
    (Utf8.segmented_iff.mp hps).trans (by decide +kernel)
  refine ⟨hagent, hid, ?_, ?_⟩
  · rw [hagentField, hagentText, hpieces]
    rfl
  · rw [hidField, hidShows.exact "inst-é" rfl]

/-! ### The list of headers -/

/-- The names that a request is asked for. -/
def namesRead : List String :=
  hostHeader :: HeaderRule.all.map HeaderRule.header

variable {a b : InboundRequest}

theorem header_mem_namesRead (rule : HeaderRule) : rule.header ∈ namesRead :=
  List.mem_cons_of_mem _ (List.mem_map_of_mem rule.mem_all)

/-- The host depends on the target and on the first `Host` header. -/
theorem host_of_rearranged (htarget : a.target = b.target)
    (hheaders : Header.Rearranged namesRead a.headers b.headers) : a.host = b.host := by
  rw [host, host, htarget, hheaders.find?_eq List.mem_cons_self]

/-- Requests with the same headers in another arrangement cannot be told apart. -/
theorem alike_of_rearranged (hmethod : a.method = b.method) (htarget : a.target = b.target)
    (hremote : a.remoteAddress = b.remoteAddress)
    (hheaders : Header.Rearranged namesRead a.headers b.headers) : a.info.Alike b.info where
  method := hmethod
  uri := by
    rw [RequestInfo.uri, RequestInfo.uri, host_info, host_info, path_info, path_info, htarget,
      host_of_rearranged htarget hheaders]
  remoteAddress := hremote
  -- the header of each rule is among the names that are read
  header rule := by
    rw [header_info, header_info, Header.text?, Header.text?,
      hheaders.find?_eq (header_mem_namesRead rule)]

/-- **The arrangement of headers does not matter.** Two requests have the same host, the same fields
from headers with the same records about them, and the same reports, if their headers differ in the
case of names, in the order of headers of different names, in headers that repeat an earlier name,
and in headers that are not read. -/
theorem headers_rearranged (hmethod : a.method = b.method) (htarget : a.target = b.target)
    (hremote : a.remoteAddress = b.remoteAddress)
    (hheaders : Header.Rearranged namesRead a.headers b.headers) :
    a.host = b.host ∧ HeaderFields.extract a.info = HeaderFields.extract b.info ∧
      a.info.SameReports b.info := by
  have halike : a.info.Alike b.info := alike_of_rearranged hmethod htarget hremote hheaders
  exact ⟨host_of_rearranged htarget hheaders, halike.extract, halike.sameReports⟩

/-- A request for a path: its host, a header that is not read, and a malformed index before a good
one. -/
def tidyRequest : InboundRequest where
  method := "GET"
  target := ⟨none, "/"⟩
  headers := [⟨"Host", Ascii.bytes "example.com"⟩, ⟨"Accept", []⟩,
    ⟨"X-CF-InstanceIndex", Ascii.bytes "one"⟩, ⟨"X-CF-InstanceIndex", Ascii.bytes "1"⟩]
  remoteAddress := "peer"

/-- The same request with its headers in disarray. -/
def untidyRequest : InboundRequest :=
  { tidyRequest with
    headers := [⟨"x-cf-instanceindex", Ascii.bytes "one"⟩, ⟨"HOST", Ascii.bytes "example.com"⟩,
      ⟨"X-CF-InstanceIndex", Ascii.bytes "1"⟩, ⟨"host", Ascii.bytes "other"⟩] }

/-- Both requests are accepted as they come over the wire, and are reported alike. -/
theorem headers_rearranged_untidy :
    let wire (request : InboundRequest) :=
      ofParts (Ascii.bytes "GET") (Ascii.bytes "/")
        (request.headers.map fun header => (Utf8.ofString header.name, header.value)) "peer"
    wire tidyRequest = .ok tidyRequest ∧ wire untidyRequest = .ok untidyRequest ∧
      Header.Rearranged namesRead tidyRequest.headers untidyRequest.headers ∧
      untidyRequest.host = "example.com" ∧ tidyRequest.info.SameReports untidyRequest.info := by
  intro wire
  let index : Header := ⟨"X-CF-InstanceIndex", Ascii.bytes "one"⟩
  let second : Header := ⟨"X-CF-InstanceIndex", Ascii.bytes "1"⟩
  let small : Header := ⟨"x-cf-instanceindex", Ascii.bytes "one"⟩
  let named : Header := ⟨"Host", Ascii.bytes "example.com"⟩
  let capital : Header := ⟨"HOST", Ascii.bytes "example.com"⟩
  -- one change of each kind, and one more of names
  have hremove : Header.Rearranges namesRead tidyRequest.headers [named, index, second] :=
    .remove [named] [index, second] (by decide +kernel)
  have hexchange : Header.Rearranges namesRead [named, index, second] [index, named, second] :=
    .exchange [] [second] (by decide +kernel)
  have hsmall : Header.Rearranges namesRead [index, named, second] [small, named, second] :=
    .recase [] [named, second] (by decide +kernel) rfl
  have hcapital : Header.Rearranges namesRead [small, named, second] [small, capital, second] :=
    .recase [small] [second] (by decide +kernel) rfl
  have hmem : capital ∈ [small, capital, second] := List.mem_cons_of_mem _ List.mem_cons_self
  have hagain : Header.Rearranges namesRead [small, capital, second] untidyRequest.headers :=
    .again [small, capital, second] [] hmem (by decide +kernel)
  have hheaders : Header.Rearranged namesRead tidyRequest.headers untidyRequest.headers :=
    ((((Relation.ReflTransGen.single hremove).tail hexchange).tail hsmall).tail
      hcapital).tail hagain
  obtain ⟨hhost, -, hreports⟩ := headers_rearranged (a := tidyRequest) (b := untidyRequest) rfl rfl
    rfl hheaders
  have htidy : tidyRequest.host = "example.com" := by decide +kernel
  exact ⟨by decide +kernel, by decide +kernel, hheaders, hhost ▸ htidy, hreports⟩

end Telemetry.InboundRequest
