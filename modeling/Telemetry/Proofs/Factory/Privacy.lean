import Telemetry.Proofs.Factory.Making
import Telemetry.Proofs.Http.Target

/-!
# What events tell about a request

A request can hold secrets in three places: in the user information of its target, in the query of
its target, and in the user information of its `Host` header. None of these gets into an event or
into the log.

The operations see a request only through its `RequestInfo`, and of its target and `Host` header
that view has no more than `host` and `path`. The host of a target is what stands behind the user
information, to the letter, and so is the host of a `Host` header where the target is a path; the
path is what stands before the query. So two requests that differ in these places alone are
`RequestInfo.Alike`, and the operations do the same for both, with the same records in the log.

`InboundRequest.reports_host_and_path` has all of this.
-/

namespace Telemetry

/-! ### What an operation tells -/

namespace RequestInfo

/-- The URI of every event about the request. The end of its response always makes an event; of the
other two kinds there is none if the method is not known. -/
def Reports (request : RequestInfo) (uri : String) : Prop :=
  ∀ (peerType : PeerType) (requestId : CorrelationId) (statusCode : Int32) (contentLength : Int64)
    (before : Recorder),
    (∀ e after, (Making.httpStart request peerType requestId).run before = (.ok e, after) →
      e.uri = uri) ∧
    (∃ e after, (Making.httpStop request statusCode contentLength peerType requestId).run before =
      (.ok e, after) ∧ e.uri = uri) ∧
    ∀ e after,
      (Making.httpStartStop request statusCode contentLength peerType requestId).run before =
        (.ok e, after) → e.uri = uri

/-- All operations on events about requests do the same for both: they give the same event or
error, note the same records and take the same readings. -/
def SameReports (a b : RequestInfo) : Prop :=
  ∀ (peerType : PeerType) (requestId : CorrelationId) (statusCode : Int32) (contentLength : Int64)
    (recorder : Recorder),
    (Making.httpStart a peerType requestId).run recorder =
      (Making.httpStart b peerType requestId).run recorder ∧
    (Making.httpStop a statusCode contentLength peerType requestId).run recorder =
      (Making.httpStop b statusCode contentLength peerType requestId).run recorder ∧
    (Making.httpStartStop a statusCode contentLength peerType requestId).run recorder =
      (Making.httpStartStop b statusCode contentLength peerType requestId).run recorder

theorem reports_uri (request : RequestInfo) : request.Reports request.uri := by
  intro peerType requestId statusCode contentLength before
  refine ⟨?_, ⟨_, _, Making.httpStop_run .., rfl⟩, ?_⟩
  · intro e after h
    rw [Making.httpStart_run] at h
    -- there is an event only if the method is known
    cases hmethod : Method.parse request.method with
    | error error => rw [hmethod] at h; cases h
    | ok method => rw [hmethod] at h; cases h; rfl
  · intro e after h
    rw [Making.httpStartStop_run] at h
    cases hmethod : Method.parse request.method with
    | error error => rw [hmethod] at h; cases h
    | ok method => rw [hmethod] at h; cases h; rfl

theorem Alike.sameReports {a b : RequestInfo} (h : a.Alike b) : a.SameReports b :=
  fun peerType requestId statusCode contentLength recorder =>
    ⟨h.httpStart peerType requestId recorder,
      h.httpStop statusCode contentLength peerType requestId recorder,
      h.httpStartStop statusCode contentLength peerType requestId recorder⟩

end RequestInfo

namespace InboundRequest

/-! ### Requests that differ in their targets and `Host` headers -/

/-- The header does not carry the host. -/
def isOther (header : Header) : Bool :=
  !Ascii.sameName header.name hostHeader

/-- Two requests differ at most in their targets and `Host` headers. -/
structure SameElse (a b : InboundRequest) : Prop where
  method : a.method = b.method
  remoteAddress : a.remoteAddress = b.remoteAddress
  headers : a.headers.filter isOther = b.headers.filter isOther

/-- Looking for another name passes over the `Host` headers. -/
theorem find?_filter {name : String} (h : Ascii.sameName name hostHeader = false)
    (headers : List Header) :
    Header.find? (headers.filter isOther) name = Header.find? headers name := by
  -- by induction on the headers; those taken out would have been passed over
  induction headers with
  | nil => rfl
  | cons header headers ih =>
    rw [Header.find?_cons]
    cases hother : isOther header with
    | true =>
      rw [List.filter_cons_of_pos hother, Header.find?_cons, ih]
    | false =>
      -- a `Host` header does not have the name that is looked for
      have hname : Ascii.sameName header.name name = false := by
        rw [isOther, Bool.not_eq_false', Ascii.sameName, beq_iff_eq] at hother
        rw [Ascii.sameName, ← hother] at h
        rw [Ascii.sameName_comm]
        exact h
      rw [List.filter_cons_of_neg (by simp [hother]), ih, hname]
      rfl

theorem SameElse.alike {a b : InboundRequest} (h : a.SameElse b) (hhost : a.host = b.host)
    (hpath : a.target.path = b.target.path) : a.info.Alike b.info where
  method := h.method
  uri := by rw [RequestInfo.uri, RequestInfo.uri, host_info, host_info, path_info, path_info, hhost,
    hpath]
  remoteAddress := h.remoteAddress
  header rule := by
    -- none of the rules reads the `Host` header
    have hrule : Ascii.sameName rule.header hostHeader = false := by cases rule <;> decide +kernel
    rw [header_info, header_info, Header.text?, Header.text?, ← find?_filter hrule, h.headers,
      find?_filter hrule]

/-- An authority with user information before the host, or without. -/
def withUser (user : Option String) (host : String) : String :=
  user.elim host fun user => user ++ "@" ++ host

theorem host_withUser {host : String} (h : '@' ∉ host.toList) (user : Option String) :
    Authority.host (withUser user host) = host := by
  -- without user information nothing is taken off; with it all up to the last `@` is
  cases user with
  | none =>
    rw [withUser, Option.elim_none, Authority.host, Authority.withoutUser_of_not_mem h,
      String.ofList_toList]
  | some user =>
    have hlist : (user ++ "@" ++ host).toList = user.toList ++ '@' :: host.toList := by simp
    rw [withUser, Option.elim_some, Authority.host, hlist, Authority.withoutUser_append h,
      String.ofList_toList]

/-- The text of the `Host` header, if there is one and it is readable. -/
def hostText? (request : InboundRequest) : Option String :=
  (Header.find? request.headers hostHeader).bind Header.visible?

/-- What is shown of the path of a target. -/
def shownPath (t : Target.Parts) : String :=
  if t.path = "" ∧ t.scheme.isSome then "/" else t.path

theorem host_of_parts {t : Target.Parts} (ht : t.Proper) (hstar : t.bytes ≠ Ascii.bytes "*")
    {request : InboundRequest} (h : Target.ofBytes? t.bytes = some request.target) :
    request.host = t.host ∧ request.target.path = shownPath t := by
  obtain ⟨text, hauthority, hhost, hpath⟩ := Target.Parts.ofBytes?_bytes ht hstar h
  refine ⟨?_, hpath⟩
  rw [host, hauthority]
  exact hhost

theorem host_of_tail {t : Target.Tail} (ht : t.Proper) (hslash : t.path.toList.head? = some '/')
    {request : InboundRequest} (h : Target.ofBytes? t.bytes = some request.target) :
    request.host = (request.hostText?.map Authority.host).getD "" ∧
      request.target.path = t.path := by
  have htarget := Target.Tail.ofBytes?_bytes ht hslash h
  constructor
  · -- a target that is a path has no authority, so the header is asked
    rw [host, htarget, hostText?]
    cases (Header.find? request.headers hostHeader).bind Header.visible? <;> rfl
  · rw [htarget]

/-- A request is reported by its host and its path. -/
theorem reports_of_host {request : InboundRequest} {host path : String}
    (hhost : request.host = host) (hpath : request.target.path = path) :
    request.info.host = host ∧ request.info.path = path ∧
      request.info.Reports (host ++ path) := by
  have huri : request.info.uri = host ++ path := by
    rw [RequestInfo.uri, host_info, path_info, hhost, hpath]
  exact ⟨hhost, hpath, huri ▸ request.info.reports_uri⟩

/-- **Events tell the host and the path of a request, and nothing else of its target.** The host is
shown to the letter, with its port; the path is shown to the letter, and an empty one as `/` behind
a scheme. Requests that differ in the name of the scheme, in user information, in the query, in the
fragment or in `Host` headers give the same events or errors and the same records. If the target is
a path, the host is that of the first `Host` header, and it is the user information there that makes
no difference. -/
theorem reports_host_and_path :
    (∀ (t : Target.Parts) (request : InboundRequest), t.Proper → t.bytes ≠ Ascii.bytes "*" →
      Target.ofBytes? t.bytes = some request.target →
      request.info.host = t.host ∧ request.info.path = shownPath t ∧
        request.info.Reports (t.host ++ shownPath t)) ∧
    (∀ (t t' : Target.Parts) (request request' : InboundRequest), t.Proper → t'.Proper →
      t.bytes ≠ Ascii.bytes "*" → t'.bytes ≠ Ascii.bytes "*" →
      Target.ofBytes? t.bytes = some request.target →
      Target.ofBytes? t'.bytes = some request'.target →
      t.host = t'.host → t.path = t'.path → t.scheme.isSome = t'.scheme.isSome →
      request.SameElse request' → request.info.SameReports request'.info) ∧
    (∀ (t : Target.Tail) (request : InboundRequest) (user : Option String) (host : String),
      t.Proper → t.path.toList.head? = some '/' →
      Target.ofBytes? t.bytes = some request.target →
      request.hostText? = some (withUser user host) → '@' ∉ host.toList →
      request.info.host = host ∧ request.info.path = t.path ∧
        request.info.Reports (host ++ t.path)) ∧
    ∀ (t t' : Target.Tail) (request request' : InboundRequest), t.Proper → t'.Proper →
      t.path.toList.head? = some '/' → t.path = t'.path →
      Target.ofBytes? t.bytes = some request.target →
      Target.ofBytes? t'.bytes = some request'.target →
      (request.hostText? = request'.hostText? ∨
        ∃ user user' host, '@' ∉ host.toList ∧ request.hostText? = some (withUser user host) ∧
          request'.hostText? = some (withUser user' host)) →
      request.SameElse request' → request.info.SameReports request'.info := by
  refine ⟨?_, ?_, ?_, ?_⟩
  · -- the host of the target goes before any header
    intro t request ht hstar htarget
    obtain ⟨hhost, hpath⟩ := host_of_parts ht hstar htarget
    exact reports_of_host hhost hpath
  · intro t t' request request' ht ht' hstar hstar' htarget htarget' hhost hpath hscheme helse
    -- what is kept of the two targets does not depend on what they differ in
    obtain ⟨hhost₁, hpath₁⟩ := host_of_parts ht hstar htarget
    obtain ⟨hhost₂, hpath₂⟩ := host_of_parts ht' hstar' htarget'
    have hsamePath : request.target.path = request'.target.path := by
      rw [hpath₁, hpath₂, shownPath, shownPath, hpath, hscheme]
    have hsameHost : request.host = request'.host := by
      rw [hhost₁, hhost₂, hhost]
    exact (helse.alike hsameHost hsamePath).sameReports
  · intro t request user host ht hslash htarget hheader hat
    obtain ⟨hhost, hpath⟩ := host_of_tail ht hslash htarget
    rw [hheader, Option.map_some, Option.getD_some, host_withUser hat] at hhost
    exact reports_of_host hhost hpath
  · intro t t' request request' ht ht' hslash hpath htarget htarget' hheader helse
    obtain ⟨hhost₁, hpath₁⟩ := host_of_tail ht hslash htarget
    obtain ⟨hhost₂, hpath₂⟩ := host_of_tail ht' (hpath ▸ hslash) htarget'
    have hsamePath : request.target.path = request'.target.path := by
      rw [hpath₁, hpath₂, hpath]
    -- the host comes from the header, the user information of which is taken off
    have hsameHost : request.host = request'.host := by
      rw [hhost₁, hhost₂]
      rcases hheader with hheader | ⟨user, user', host, hat, hheader, hheader'⟩
      · rw [hheader]
      · rw [hheader, hheader', Option.map_some, Option.map_some, host_withUser hat,
          host_withUser hat]
    exact (helse.alike hsameHost hsamePath).sameReports

/-- The parts of `http://u:p@q@foo:80/a?token#end`. -/
def secretParts : Target.Parts where
  scheme := some (Ascii.bytes "http")
  user := some (Ascii.bytes "u:p@q")
  host := "foo:80"
  path := "/a"
  query := some (Ascii.bytes "token")
  fragment := some (Ascii.bytes "end")

/-- The parts of `https://foo:80/a`. -/
def openParts : Target.Parts where
  scheme := some (Ascii.bytes "https")
  user := none
  host := "foo:80"
  path := "/a"
  query := none
  fragment := none

/-- A request as it may come and one without its secrets, once with the host in the target and once
with the host in a header. -/
theorem reports_host_and_path_secret :
    let request : InboundRequest := ⟨"GET", ⟨some "u:p@q@foo:80", "/a"⟩, [], "peer"⟩
    let request' : InboundRequest :=
      ⟨"GET", ⟨some "foo:80", "/a"⟩, [⟨"Host", Ascii.bytes "bar"⟩], "peer"⟩
    let direct : InboundRequest :=
      ⟨"GET", ⟨none, "/a"⟩, [⟨"HOST", Ascii.bytes "u:p@foo"⟩], "peer"⟩
    let direct' : InboundRequest := ⟨"GET", ⟨none, "/a"⟩, [⟨"host", Ascii.bytes "foo"⟩], "peer"⟩
    Target.ofBytes? secretParts.bytes = some request.target ∧
      Target.ofBytes? openParts.bytes = some request'.target ∧
      request.info.Reports "foo:80/a" ∧ request.info.SameReports request'.info ∧
      Target.ofBytes? secretParts.toTail.bytes = some direct.target ∧
      direct.info.Reports "foo/a" ∧ direct.info.SameReports direct'.info := by
  intro request request' direct direct'
  obtain ⟨hhost, hsame, hhost', hsame'⟩ := reports_host_and_path
  have htarget : Target.ofBytes? secretParts.bytes = some request.target := by decide +kernel
  have htarget' : Target.ofBytes? openParts.bytes = some request'.target := by decide +kernel
  have htail : Target.ofBytes? secretParts.toTail.bytes = some direct.target := by decide +kernel
  have htail' : Target.ofBytes? openParts.toTail.bytes = some direct'.target := by decide +kernel
  have hproper : secretParts.Proper := by decide +kernel
  have hproper' : openParts.Proper := by decide +kernel
  have hstar : secretParts.bytes ≠ Ascii.bytes "*" := by decide +kernel
  have hstar' : openParts.bytes ≠ Ascii.bytes "*" := by decide +kernel
  have hheader : direct.hostText? = some (withUser (some "u:p") "foo") := by decide +kernel
  have hheader' : direct'.hostText? = some (withUser none "foo") := by decide +kernel
  refine ⟨htarget, htarget', (hhost secretParts request hproper hstar htarget).2.2,
    hsame secretParts openParts request request' hproper hproper' hstar hstar' htarget htarget' rfl
      rfl rfl ⟨rfl, rfl, by decide +kernel⟩, htail, ?_, ?_⟩
  · exact (hhost' secretParts.toTail direct (some "u:p") "foo" hproper.toProper rfl htail hheader
      (by decide)).2.2
  · exact hsame' secretParts.toTail openParts.toTail direct direct' hproper.toProper
      hproper'.toProper rfl rfl htail htail'
      (.inr ⟨some "u:p", none, "foo", by decide, hheader, hheader'⟩)
      ⟨rfl, rfl, by decide +kernel⟩

end InboundRequest

end Telemetry
