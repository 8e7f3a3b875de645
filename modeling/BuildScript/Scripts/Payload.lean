import BuildScript.Bytecode.Wire
import BuildScript.Files.Tree

/-!
# Payloads

The binary encoding of data that is kept beside a compiled script. Numbers of fixed width are
little-endian; lengths are varints, seven bits to a byte and the lowest first, where every byte but
the last has its high bit set; texts and byte strings stand behind their lengths.

## Design

Payloads are read through a buffer, because the file may change while a reader is open: bytes that
were fetched before keep their values, others are read as they are then. `ByteSource` is the buffer
with the rest of the file, and what a decoder sees of it is `remaining`, the one put behind the
other.
-/

namespace BuildScript

/-- Data that no encoder writes, or that none can write. -/
inductive PayloadFault where
  | notBoolean (byte : UInt8)
  | tooManyBytes (count : Nat)
  | tooManyElements (count : Nat)
deriving DecidableEq, Repr

def PayloadFault.message : PayloadFault → String
  | notBoolean byte => toString byte.toNat ++ " is not a boolean"
  | tooManyBytes count => toString count ++ " bytes is too long"
  | tooManyElements count => toString count ++ " elements is too many"

inductive PayloadError where
  | io (cause : FileError)
  | unexpectedEof
  /-- A varint of more bytes than a number of 32 bits can have. -/
  | varintOverflow
  | invalidUtf8
  | invalid (fault : PayloadFault)
deriving DecidableEq, Repr

def PayloadError.message : PayloadError → String
  | io _ => "I/O error"
  | unexpectedEof => "Unexpected end of input"
  | varintOverflow => "Varint overflow"
  | invalidUtf8 => "Invalid UTF-8 in string"
  | invalid fault => "Invalid data: " ++ fault.message

/-! ## Writing -/

namespace Payload

def boolean (b : Bool) : List UInt8 := [if b then 1 else 0]

def int (n : Int32) : List UInt8 := Wire.word n.toUInt32

def long (n : Int64) : List UInt8 := Wire.integer n

def varint (n : Nat) : List UInt8 :=
  if n < 128 then [n.toUInt8] else (n % 128 + 128).toUInt8 :: varint (n / 128)
termination_by n

/-- Lengths stay below this number. -/
def lengthLimit : Nat := UInt32.size

def binary (bytes : List UInt8) : Except PayloadError (List UInt8) :=
  if bytes.length < lengthLimit then .ok (varint bytes.length ++ bytes)
  else .error (.invalid (.tooManyBytes bytes.length))

def text (s : String) : Except PayloadError (List UInt8) := binary (Wire.ofText s)

def optionalText : Option String → Except PayloadError (List UInt8)
  | some s => (text s).map (boolean true ++ ·)
  | none => .ok (boolean false)

end Payload

/-! ## Reading -/

/-- Bytes to be read, some of which are buffered. -/
structure ByteSource where
  /-- Bytes that were fetched and not yet taken. -/
  buffered : List UInt8 := []
  /-- How many bytes were fetched. -/
  position : Nat := 0
  /-- The bytes that can still be fetched, or why none can. -/
  rest : Except FileError (List UInt8)

namespace ByteSource

def ofBytes (bytes : List UInt8) : ByteSource := { rest := .ok bytes }

/-- All bytes that can still be taken. -/
def remaining (s : ByteSource) : List UInt8 :=
  s.buffered ++
    match s.rest with
    | .ok bytes => bytes
    | .error _ => []

/-- How many bytes are fetched at once. -/
def chunkSize : Nat := 8192

/-- Fetches bytes behind those that are buffered: a chunk, or all that are needed if these are no
fewer. -/
def fetch (s : ByteSource) (needed : Nat) : Except FileError ByteSource :=
  s.rest.map fun bytes ↦
    let size := max needed chunkSize
    let chunk := bytes.take size
    ⟨s.buffered ++ chunk, s.position + chunk.length, .ok (bytes.drop size)⟩

end ByteSource

/-- Reading from a source; a failure keeps what is left of it. -/
abbrev Decoder := EStateM PayloadError ByteSource

namespace Decoder

/-- The next `n` bytes. If there are fewer, these are lost. -/
def bytes (n : Nat) : Decoder (List UInt8) := fun s ↦
  match LittleEndian.split? n s.buffered with
  | some (front, buffered) => .ok front { s with buffered }
  | none =>
    match s.fetch (n - s.buffered.length) with
    | .error e => .error (.io e) { s with buffered := [] }
    | .ok s =>
      match LittleEndian.split? n s.buffered with
      | some (front, buffered) => .ok front { s with buffered }
      | none => .error .unexpectedEof { s with buffered := [] }

def byte : Decoder UInt8 := return (LittleEndian.decode (← bytes 1)).toUInt8

def boolean : Decoder Bool := do
  match ← byte with
  | 0 => return false
  | 1 => return true
  | b => throw (.invalid (.notBoolean b))

def int : Decoder Int32 := return (LittleEndian.decode (← bytes 4)).toUInt32.toInt32

def long : Decoder Int64 := return (LittleEndian.decode (← bytes 8)).toUInt64.toInt64

/-- A varint of at most `n` more bytes, the next of which has the given shift. Bits beyond the 32
of the result are lost. -/
def varintFrom : Nat → UInt32 → UInt32 → Decoder UInt32
  | 0, _, _ => throw .varintOverflow
  | n + 1, shift, value => do
    let b ← byte
    let value := value ||| ((b &&& 0x7F).toUInt32 <<< shift)
    if b &&& 0x80 == 0 then return value else varintFrom n (shift + 7) value

def varint : Decoder UInt32 := varintFrom 5 0 0

def binary : Decoder (List UInt8) := do bytes (← varint).toNat

def text : Decoder String := do
  match Wire.toText? (← binary) with
  | some s => return s
  | none => throw .invalidUtf8

def optionalText : Decoder (Option String) := do
  if ← boolean then return some (← text) else return none

/-- Reads `n` elements behind those in `done`, which come last first. -/
def many {α : Type} (element : Decoder α) : Nat → List α → Decoder (List α)
  | 0, done => return done.reverse
  | n + 1, done => do many element n ((← element) :: done)

/-- Whether nothing is left. -/
def atEnd : Decoder Bool := fun s ↦
  if s.buffered.isEmpty then
    match s.fetch 0 with
    | .error e => .error (.io e) s
    | .ok s => .ok s.buffered.isEmpty s
  else .ok false s

end Decoder

/-! ## Serializers -/

/-- How values of a type are written and read. -/
structure Serializer (α : Type) where
  write : α → Except PayloadError (List UInt8)
  read : Decoder α

namespace Serializer

def text : Serializer String := ⟨Payload.text, Decoder.text⟩

def boolean : Serializer Bool := ⟨fun b ↦ .ok (Payload.boolean b), Decoder.boolean⟩

/-- Lists: the number of elements, and each element. -/
def list {α : Type} (element : Serializer α) : Serializer (List α) where
  write l := do
    if l.length < Payload.lengthLimit then
      return Payload.varint l.length ++ (← l.mapM element.write).flatten
    else throw (.invalid (.tooManyElements l.length))
  read := do Decoder.many element.read (← Decoder.varint).toNat []

end Serializer

end BuildScript
