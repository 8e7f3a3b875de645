import BuildScript.Bytecode.LittleEndian
import BuildScript.Bytecode.Opcode
import BuildScript.Number.Binary64

/-!
# The wire format

How numbers and texts stand in class files. Numbers are little-endian; a text is its length in
bytes, as a number of four bytes, and its UTF-8 bytes; an optional text is one byte that tells
whether it is there, and the text.

Writing is a function to byte lists. Reading is a `Reader`, which threads a cursor and keeps the
cursor where it was when a read fails, except that a text keeps the length and the bytes it had
already taken.
-/

namespace BuildScript

namespace Wire

def ofText (s : String) : List UInt8 := s.toUTF8.data.toList

/-- The text that the bytes are the UTF-8 form of. -/
def toText? (bytes : List UInt8) : Option String := String.fromUTF8? ⟨bytes.toArray⟩

def text (s : String) : List UInt8 := LittleEndian.encode 4 s.utf8ByteSize ++ ofText s

def optionalText : Option String → List UInt8
  | some s => 1 :: text s
  | none => [0]

def word (x : UInt32) : List UInt8 := LittleEndian.encode 4 x.toNat

def half (x : UInt16) : List UInt8 := LittleEndian.encode 2 x.toNat

def integer (x : Int64) : List UInt8 := LittleEndian.encode 8 x.toUInt64.toNat

def float (x : Binary64) : List UInt8 := LittleEndian.encode 8 x.bits.toNat

/-- The number of entries, and each entry. -/
def table {α : Type} (entry : α → List UInt8) (entries : List α) : List UInt8 :=
  LittleEndian.encode 4 entries.length ++ entries.flatMap entry

end Wire

/-! ## Reading -/

/-- A place in a byte sequence. -/
structure ByteCursor where
  position : Nat
  /-- The bytes from the position on. -/
  rest : List UInt8
  /-- Whether the position lies in the sequence or at its end, and not behind it. -/
  inside : Bool := true
deriving Repr

namespace ByteCursor

def start (bytes : List UInt8) : ByteCursor := ⟨0, bytes, true⟩

/-- Any position of a sequence, also one behind its end. -/
def seek (bytes : List UInt8) (position : Nat) : ByteCursor :=
  ⟨position, bytes.drop position, position ≤ bytes.length⟩

end ByteCursor

inductive ReadError where
  | unexpectedEnd (offset : Nat)
  | invalidUtf8 (offset : Nat)
  | invalidOpcode (byte : UInt8) (offset : Nat)
deriving DecidableEq, Repr

def ReadError.message : ReadError → String
  | unexpectedEnd offset => "Unexpected end of bytecode at offset " ++ toString offset
  | invalidUtf8 offset => "Invalid UTF-8 string at offset " ++ toString offset
  | invalidOpcode byte offset =>
    "Invalid opcode " ++ toString byte.toNat ++ " at offset " ++ toString offset

/-- Reading from a cursor; a failure keeps the cursor it arose at. -/
abbrev Reader := EStateM ReadError ByteCursor

namespace Reader

def run {α : Type} (r : Reader α) (c : ByteCursor) : Except ReadError (α × ByteCursor) :=
  match EStateM.run r c with
  | .ok x c => .ok (x, c)
  | .error e _ => .error e

/-- The next `k` bytes. -/
def bytes (k : Nat) : Reader (List UInt8) := fun c ↦
  if c.inside then
    match LittleEndian.split? k c.rest with
    | some (front, rest) => .ok front ⟨c.position + k, rest, true⟩
    | none => .error (.unexpectedEnd c.position) c
  else .error (.unexpectedEnd c.position) c

/-- A number of `k` bytes. -/
def number (k : Nat) : Reader Nat := return LittleEndian.decode (← bytes k)

def byte : Reader UInt8 := return (← number 1).toUInt8

def half : Reader UInt16 := return (← number 2).toUInt16

def word : Reader UInt32 := return (← number 4).toUInt32

def signedWord : Reader Int32 := return (← word).toInt32

def integer : Reader Int64 := return (← number 8).toUInt64.toInt64

def float : Reader Binary64 := return ⟨(← number 8).toUInt64⟩

def text : Reader String := do
  let length ← number 4
  let start := (← get).position
  match Wire.toText? (← bytes length) with
  | some s => return s
  | none => throw (.invalidUtf8 start)

/-- Any presence byte other than zero announces a text. -/
def optionalText : Reader (Option String) := do
  if (← byte) == 0 then return none
  else return some (← text)

def opcode : Reader Opcode := do
  let offset := (← get).position
  let b ← byte
  match Opcode.ofByte? b with
  | some op => return op
  | none => throw (.invalidOpcode b offset)

/-- Reads `n` entries behind those already read. -/
def many {α : Type} (entry : Reader α) : Nat → Array α → Reader (Array α)
  | 0, done => return done
  | n + 1, done => do many entry n (done.push (← entry))

def table {α : Type} (entry : Reader α) : Reader (Array α) := do many entry (← number 4) #[]

end Reader

end BuildScript
