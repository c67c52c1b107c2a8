import Telemetry.Text.Ascii
import Telemetry.Text.Utf8

/-!
# Request targets

The target of a request is a path (`/status?q=1`), an authority (`example.com:443`), both behind a
scheme (`http://user@example.com/status`), or `*`. `Target.ofBytes?` takes one apart and refuses
what is none of these; what is kept is the authority and the path. A fragment is dropped unread,
and a query is checked and dropped.

An authority may begin with user information, which ends at its last `@`. `Authority.host` is what
stands behind it: the host and its port.
-/

namespace Telemetry

namespace Authority

/-- The bytes of an authority, the percent sign aside. -/
def isPlain (b : UInt8) : Bool :=
  Ascii.isAlphanumeric b || (Ascii.bytes "!$&'()*+,-.:;=@[]_~").contains b

/-- What has been seen of an authority. Colons and percent signs are forgotten at an `@`, since
they belonged to the user information, and at a closing bracket, since they belonged to an
address. -/
structure Progress where
  /-- The colons since the last `@` or closing bracket. -/
  colons : Nat := 0
  /-- An opening bracket has been seen. -/
  opened : Bool := false
  /-- A closing bracket has been seen. -/
  closed : Bool := false
  /-- A percent sign has been seen since the last `@` or closing bracket. -/
  percent : Bool := false
  /-- The last byte was an `@`. -/
  atEnd : Bool := false
  deriving DecidableEq

/-- The most colons that may come in a row of them. -/
def mostColons : Nat := 8

/-- Reads one byte of an authority. -/
def step (p : Progress) (b : UInt8) : Option Progress :=
  if b = ':'.toUInt8 then
    -- an address between brackets holds no more
    if p.colons < mostColons then some { p with colons := p.colons + 1, atEnd := false } else none
  else if b = '['.toUInt8 then
    if p.percent || p.opened then none else some { p with opened := true, atEnd := false }
  else if b = ']'.toUInt8 then
    if p.opened && !p.closed then
      some { p with closed := true, colons := 0, percent := false, atEnd := false }
    else none
  else if b = '@'.toUInt8 then some { p with colons := 0, percent := false, atEnd := true }
  else if b = '%'.toUInt8 then some { p with percent := true, atEnd := false }
  else if isPlain b then some { p with atEnd := false }
  else none

/-- An authority may end here: its brackets are paired, what follows the user information has one
colon at most and no percent sign, and something does follow it. -/
def Progress.mayEnd (p : Progress) : Bool :=
  p.opened == p.closed && p.colons ≤ 1 && !p.percent && !p.atEnd

def isValid (bytes : List UInt8) : Bool :=
  !bytes.isEmpty && ((bytes.foldlM step {}).elim false Progress.mayEnd)

/-- What stands behind the last `@`, or the whole if there is none. -/
def withoutUser (cs : List Char) : List Char :=
  (cs.reverse.takeWhile (· ≠ '@')).reverse

/-- The host of an authority, with its port and without user information. -/
def host (authority : String) : String :=
  String.ofList (withoutUser authority.toList)

example : host "user:pass@example.com:443" = "example.com:443" := by decide +kernel

end Authority

/-- A request target, less its scheme, query and fragment. -/
structure Target where
  authority : Option String
  path : String
  deriving DecidableEq

namespace Target

/-- The most bytes of a target. -/
def greatestLength : Nat := 65534

/-- The most bytes of a scheme. -/
def greatestScheme : Nat := 64

def isScheme (b : UInt8) : Bool :=
  Ascii.isAlphanumeric b || (Ascii.bytes "+-.~").contains b

def isPath (b : UInt8) : Bool :=
  b = 0x21 || b = 0x22 || (0x24 ≤ b && b ≤ 0x3B) || b = 0x3D || (0x40 ≤ b && b ≤ 0x5F) ||
    (0x61 ≤ b && b ≤ 0x7E) || 0x80 ≤ b

def isQuery (b : UInt8) : Bool :=
  b = 0x21 || (0x24 ≤ b && b ≤ 0x3B) || b = 0x3D || (0x3F ≤ b && b ≤ 0x7E) || 0x80 ≤ b

def endsAuthority (b : UInt8) : Bool :=
  b = '/'.toUInt8 || b = '?'.toUInt8 || b = '#'.toUInt8

def beforeFragment (bytes : List UInt8) : List UInt8 :=
  bytes.takeWhile (· ≠ '#'.toUInt8)

def beforeQuery (bytes : List UInt8) : List UInt8 :=
  bytes.takeWhile (· ≠ '?'.toUInt8)

/-- The query, with its question mark. -/
def query (bytes : List UInt8) : List UInt8 :=
  bytes.dropWhile (· ≠ '?'.toUInt8)

/-- The path of what follows an authority, or of a target without one. An empty path is `/`. -/
def path? (bytes : List UInt8) : Option String := do
  let kept := beforeFragment bytes
  let path := beforeQuery kept
  guard (path.all isPath && (query kept).all isQuery)
  -- a query that is dropped must be a text all the same
  let _ ← Utf8.decode? kept
  let text ← Utf8.string? path
  return if text.isEmpty then "/" else text

/-- The length of the scheme, and what follows it and its `://`. -/
def behindScheme? (bytes : List UInt8) : Option (Nat × List UInt8) :=
  let scheme := bytes.takeWhile isScheme
  let rest := bytes.dropWhile isScheme
  if rest.take 3 = Ascii.bytes "://" then some (scheme.length, rest.drop 3) else none

/-- A target that is an authority and nothing else. -/
def ofAuthority? (bytes : List UInt8) : Option Target :=
  if Authority.isValid bytes then (Utf8.string? bytes).map fun text => ⟨some text, ""⟩ else none

/-- What stands behind a scheme: an authority and a path. -/
def ofHierarchy? (bytes : List UInt8) : Option Target := do
  let authority := bytes.takeWhile fun b => !endsAuthority b
  guard (Authority.isValid authority)
  let text ← Utf8.string? authority
  let path ← path? (bytes.dropWhile fun b => !endsAuthority b)
  return ⟨some text, path⟩

/-- **Takes a request target apart**; `none` if it is not one. -/
def ofBytes? (bytes : List UInt8) : Option Target :=
  if greatestLength < bytes.length then none
  else
    match bytes with
    | [] => none
    | b :: rest =>
      if b = '*'.toUInt8 ∧ rest = [] then some ⟨none, "*"⟩
      else if b = '/'.toUInt8 then (path? bytes).map fun path => ⟨none, path⟩
      else
        match behindScheme? bytes with
        -- a target with a scheme has an authority, if nothing else
        | some (length, rest) => if length ≤ greatestScheme then ofHierarchy? rest else none
        | none => ofAuthority? bytes

end Target

end Telemetry
