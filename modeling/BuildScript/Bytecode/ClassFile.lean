import BuildScript.Bytecode.Checksum
import BuildScript.Bytecode.ConstantPool
import BuildScript.Text.Digits

/-!
# Class files

A compiled class and its binary form: a header of four words (magic, version, flags and a checksum
of everything behind the header), the names, the constant pool and the methods.
-/

namespace BuildScript

/-- A method of a compiled class. -/
structure CompiledMethod where
  name : String
  /-- Parameters, which are stored in the first local slots. -/
  paramCount : UInt16
  /-- Local slots, parameters included. -/
  localCount : UInt16
  /-- The line of the declaration. -/
  line : UInt32
  code : Array UInt8
deriving DecidableEq, Repr, Inhabited

structure ClassFile where
  magic : UInt32
  version : UInt32
  flags : UInt32
  /-- The binary name, such as `org.acme.Helper`. -/
  name : String
  superName : Option String
  sourceFile : Option String
  constants : ConstantPool
  methods : List CompiledMethod
deriving DecidableEq, Repr, Inhabited

inductive ClassFileError where
  | decodeError (cause : ReadError)
  | invalidMagic (found : UInt32)
  | unsupportedVersion (found : UInt32)
  | checksumMismatch (stored computed : UInt32)
deriving DecidableEq, Repr

namespace ClassFile

/-- The bytes `GRVC`. -/
def standardMagic : UInt32 := 0x43565247

def currentVersion : UInt32 := 1

/-- The flag of classes that carry line numbers. -/
def debugFlag : UInt32 := 1

/-- The flag of classes that were compiled from a script's body. -/
def scriptFlag : UInt32 := 2

/-- A class without methods. -/
def empty (name : String) (superName : Option String) : ClassFile :=
  ⟨standardMagic, currentVersion, 0, name, superName, none, {}, []⟩

def method? (c : ClassFile) (name : String) : Option CompiledMethod :=
  c.methods.find? (·.name == name)

/-! ## Binary form -/

end ClassFile

namespace CompiledMethod

def encode (m : CompiledMethod) : List UInt8 :=
  Wire.text m.name ++ (Wire.half m.paramCount ++ (Wire.half m.localCount ++ (Wire.word m.line ++
    (LittleEndian.encode 4 m.code.size ++ m.code.toList))))

def reader : Reader CompiledMethod := do
  let name ← Reader.text
  let paramCount ← Reader.half
  let localCount ← Reader.half
  let line ← Reader.word
  let code ← Reader.bytes (← Reader.number 4)
  return ⟨name, paramCount, localCount, line, code.toArray⟩

end CompiledMethod

namespace ClassFile

/-- Everything behind the header. -/
def payload (c : ClassFile) : List UInt8 :=
  Wire.text c.name ++ (Wire.optionalText c.superName ++ (Wire.optionalText c.sourceFile ++
    (c.constants.encode ++ Wire.table CompiledMethod.encode c.methods)))

/-- The binary form. The checksum is computed; magic and version are written as they are. -/
def encode (c : ClassFile) : List UInt8 :=
  let payload := c.payload
  Wire.word c.magic ++ (Wire.word c.version ++ (Wire.word c.flags ++
    (Wire.word (Checksum.crc32 payload) ++ payload)))

def payloadReader (magic version flags : UInt32) : Reader ClassFile := do
  let name ← Reader.text
  let superName ← Reader.optionalText
  let sourceFile ← Reader.optionalText
  let constants ← ConstantPool.reader
  let methods ← Reader.table CompiledMethod.reader
  return ⟨magic, version, flags, name, superName, sourceFile, constants, methods.toList⟩

/-- Runs a reader as a step of decoding. -/
def step {α : Type} (r : Reader α) (c : ByteCursor) : Except ClassFileError (α × ByteCursor) :=
  (r.run c).mapError .decodeError

/-- The class that the bytes encode. Bytes behind the last method are ignored, though the checksum
covers them. -/
def decode (bytes : List UInt8) : Except ClassFileError ClassFile := do
  let (magic, c) ← step Reader.word (.start bytes)
  if magic != standardMagic then throw (.invalidMagic magic)
  let (version, c) ← step Reader.word c
  if version != currentVersion then throw (.unsupportedVersion version)
  let (flags, c) ← step Reader.word c
  let (stored, c) ← step Reader.word c
  let computed := Checksum.crc32 c.rest
  if stored != computed then throw (.checksumMismatch stored computed)
  let (decoded, _) ← step (payloadReader magic version flags) c
  return decoded

end ClassFile

def ClassFileError.message : ClassFileError → String
  | decodeError cause => "Decode error: " ++ cause.message
  | invalidMagic found =>
    "Invalid magic number: expected GRVC, got [" ++
      ", ".intercalate ((Wire.word found).map fun b ↦ toString b.toNat) ++ "]"
  | unsupportedVersion found =>
    "Unsupported version: " ++ toString found.toNat ++ " (current: " ++
      toString ClassFile.currentVersion.toNat ++ ")"
  | checksumMismatch stored computed =>
    "Checksum mismatch: expected " ++ Digits.hex stored.toNat ++ ", got " ++
      Digits.hex computed.toNat

end BuildScript
