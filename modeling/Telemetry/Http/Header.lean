import Telemetry.Text.Ascii
import Telemetry.Text.Utf8

/-!
# Headers

A request has a list of headers, names with values, in the order in which they came. Names are
compared without regard to the case of ASCII letters, and of several headers with one name the
first is the one that counts. A value is any string of bytes without controls; it is read as UTF-8
with U+FFFD in place of what is ill formed.
-/

namespace Telemetry

structure Header where
  name : String
  value : List UInt8
  deriving DecidableEq

namespace Header

/-- The punctuation of a token: backtick (60) and fourteen more. -/
def tokenMarks : List UInt8 :=
  0x60 :: Ascii.bytes "!#$%&'*+-.^_|~"

def isTokenByte (b : UInt8) : Bool :=
  Ascii.isAlphanumeric b || tokenMarks.contains b

/-- The text that bytes spell, if they are a token: the form of methods and of header names. -/
def token? (bytes : List UInt8) : Option String :=
  if !bytes.isEmpty && bytes.all isTokenByte then Utf8.string? bytes else none

/-- The byte may stand in a value: no control but the tab, and not the delete character. -/
def isValueByte (b : UInt8) : Bool :=
  b = 0x09 || (0x20 ≤ b && b ≠ 0x7F)

def isValue (bytes : List UInt8) : Bool :=
  bytes.all isValueByte

/-- The byte is a visible ASCII character, a space or a tab. -/
def isVisible (b : UInt8) : Bool :=
  b = 0x09 || (0x20 ≤ b && b ≤ 0x7E)

/-- The value as text, if it consists of visible ASCII characters. -/
def visible? (bytes : List UInt8) : Option String :=
  if bytes.all isVisible then Utf8.string? bytes else none

/-- The value of the first header with a name. -/
def find? (headers : List Header) (name : String) : Option (List UInt8) :=
  (headers.find? fun h => Ascii.sameName h.name name).map value

/-- The value of the first header with a name, as text. -/
def text? (headers : List Header) (name : String) : Option String :=
  (find? headers name).map Utf8.stringLossy

@[simp] theorem find?_nil (name : String) : find? [] name = none := rfl

theorem find?_cons (h : Header) (headers : List Header) (name : String) :
    find? (h :: headers) name =
      if Ascii.sameName h.name name then some h.value else find? headers name := by
  simp only [find?, List.find?_cons]
  cases Ascii.sameName h.name name <;> rfl

end Header

end Telemetry
