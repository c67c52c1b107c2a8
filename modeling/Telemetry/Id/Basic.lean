import Telemetry.Json.Record

/-!
# Correlation ids

A correlation id is a number of 128 bits that ties together what different components say about
one request. It is kept as two words: the first eight of its sixteen bytes are `low`, the other
eight are `high`, each read with the most significant byte first.

Because the bytes are read in that order, comparing the words (`low` first) is comparing the bytes
from the left; `sortDistinct` lists ids in this order, each once. In JSON an id is a record of its
two words.
-/

namespace Telemetry

/-- An identifier of 128 bits, kept as two words. -/
structure CorrelationId where
  low : UInt64
  high : UInt64
  deriving DecidableEq

namespace CorrelationId

/-- The number of bytes of an id. -/
def size : Nat := 16

/-- Bytes as the bytes of an id, if there are sixteen of them. -/
def exactly? (bytes : List UInt8) : Option (Vector UInt8 size) :=
  if h : bytes.length = size then some ⟨bytes.toArray, by simpa using h⟩ else none

/-- The word that bytes spell, the most significant first. -/
def word (bytes : List UInt8) : UInt64 :=
  bytes.foldl (fun acc b => acc * 256 + b.toUInt64) 0

/-- The eight bytes of a word, the most significant first. -/
def wordBytes (w : UInt64) : List UInt8 :=
  [56, 48, 40, 32, 24, 16, 8, 0].map fun (shift : UInt64) => (w >>> shift).toUInt8

/-- The id whose bytes these are. -/
def ofBytes (bytes : Vector UInt8 size) : CorrelationId where
  low := word (bytes.toList.take 8)
  high := word (bytes.toList.drop 8)

/-- The bytes of the id, as a list. -/
def byteList (id : CorrelationId) : List UInt8 :=
  wordBytes id.low ++ wordBytes id.high

@[simp] theorem length_wordBytes (w : UInt64) : (wordBytes w).length = 8 := by
  simp [wordBytes]

@[simp] theorem length_byteList (id : CorrelationId) : id.byteList.length = size := by
  simp [byteList, size]

def toBytes (id : CorrelationId) : Vector UInt8 size :=
  ⟨id.byteList.toArray, by simp⟩

@[simp] theorem toList_toBytes (id : CorrelationId) : id.toBytes.toList = id.byteList := rfl

/-- Sixteen bytes are taken as they are. -/
@[simp] theorem exactly?_toList (bytes : Vector UInt8 size) :
    exactly? bytes.toList = some bytes := by
  obtain ⟨array, h⟩ := bytes
  simp [exactly?, Vector.toList, h]

theorem exactly?_eq_none_iff {bytes : List UInt8} :
    exactly? bytes = none ↔ bytes.length ≠ size := by
  simp [exactly?]

/-- An id made of sixteen bytes of chance, marked as a random identifier: the upper half of the
seventh byte is four and the two leading bits of the ninth are `10`. -/
def ofRandom (bytes : Vector UInt8 size) : CorrelationId :=
  ofBytes ((bytes.set 6 (bytes[6] &&& 0x0F ||| 0x40)).set 8 (bytes[8] &&& 0x3F ||| 0x80))

/-! ### Order -/

/-- Ids are ordered by the low word, and by the high word between equals. -/
instance : Ord CorrelationId where
  compare a b := (compare a.low b.low).then (compare a.high b.high)

/-- Puts an id into an ascending list, unless it is there. -/
def insertSorted (id : CorrelationId) : List CorrelationId → List CorrelationId
  | [] => [id]
  | other :: rest =>
    match compare id other with
    | .lt => id :: other :: rest
    | .eq => other :: rest
    | .gt => other :: insertSorted id rest

/-- The ids in ascending order, each once. -/
def sortDistinct (ids : List CorrelationId) : List CorrelationId :=
  ids.foldr insertSorted []

/-! ### JSON -/

abbrev fields : List Field :=
  [⟨"low", UInt64, .unsigned64⟩, ⟨"high", UInt64, .unsigned64⟩]

def toRow (id : CorrelationId) : Row fields :=
  (id.low, id.high, ())

def ofRow : Row fields → CorrelationId
  | (low, high, ()) => ⟨low, high⟩

@[simp] theorem ofRow_toRow (id : CorrelationId) : ofRow id.toRow = id := rfl

/-- Ids as records of two words. -/
def codec : Codec CorrelationId :=
  (Record.codec "CorrelationId" fields).map ofRow toRow

end CorrelationId

end Telemetry
