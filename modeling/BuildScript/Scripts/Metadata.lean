import BuildScript.Scripts.Payload

/-!
# Metadata records

What is kept beside the class files of a compiled script: one byte of flags, and behind it the
payload of the compile operation, if there is one. The record has no version, so what another
layout would mean by the other bits of the flags is lost.
-/

namespace BuildScript

structure ScriptFlags where
  /-- Whether running the script has no effect. -/
  isEmpty : Bool
  hasMethods : Bool
deriving DecidableEq, Repr

namespace ScriptFlags

def emptyBit : UInt8 := 1

def methodsBit : UInt8 := 2

def toByte (f : ScriptFlags) : UInt8 :=
  (if f.isEmpty then emptyBit else 0) ||| (if f.hasMethods then methodsBit else 0)

def ofByte (b : UInt8) : ScriptFlags := ⟨b &&& emptyBit != 0, b &&& methodsBit != 0⟩

theorem ofByte_toByte (f : ScriptFlags) : ofByte f.toByte = f := by
  obtain ⟨_ | _, _ | _⟩ := f <;> rfl

end ScriptFlags

inductive MetadataError where
  | io (path : Path) (cause : FileError)
  | serialization (cause : PayloadError)
deriving DecidableEq, Repr

def MetadataError.message : MetadataError → String
  | io path _ => "Could not access metadata file " ++ path.text
  | serialization _ => "Could not encode or decode the metadata record"

/-- The file of the record in its directory. -/
def metadataFile (directory : Path) : Path := directory.join "metadata.bin"

/-! ## Writing -/

/-- The bytes of a payload; there are none without data or without a serializer. -/
def payloadBytes {α : Type} (data : Option α) (serializer : Option (Serializer α)) :
    Except PayloadError (List UInt8) :=
  match serializer, data with
  | some s, some d => s.write d
  | _, _ => .ok []

/-- Writes a record; its directory is created. If the serializer fails, the record is one of flags
alone: bytes of the payload that were written before are left out of the model, as a compilation wipes
the record when it fails. -/
def writeMetadata {α : Type} (directory : Path) (flags : ScriptFlags) (data : Option α)
    (serializer : Option (Serializer α)) : ExceptT MetadataError (StateM FileTree) Unit := do
  let path := metadataFile directory
  let payload := payloadBytes data serializer
  ExceptT.adapt (.io path) do
    FileTree.createDirectory directory
    FileTree.write path (flags.toByte :: payload.toOption.getD [])
  match payload with
  | .ok _ => return
  | .error e => throw (.serialization e)

/-! ## Reading -/

/-- An open record. -/
structure MetadataReader where
  path : Path
  /-- The file that was opened, which need not be at its path any more. -/
  file : FileNode
  buffered : List UInt8 := []
  position : Nat := 0
deriving Repr

namespace MetadataReader

def openIn (files : FileTree) (directory : Path) : Except MetadataError MetadataReader :=
  let path := metadataFile directory
  match files.lookup path with
  | .ok file => .ok { path, file }
  | .error e => .error (.io path e)

/-- What can be read next, as the files are now. -/
def source (r : MetadataReader) (files : FileTree) : ByteSource where
  buffered := r.buffered
  position := r.position
  rest :=
    match r.file with
    | .directory => .error .isADirectory
    | .file number => .ok ((files.content number).drop r.position)

/-- Runs a decoder on what is left of the record. -/
def decode {α : Type} (r : MetadataReader) (files : FileTree) (d : Decoder α) :
    Except PayloadError α × MetadataReader :=
  let keep (s : ByteSource) : MetadataReader :=
    { r with buffered := s.buffered, position := s.position }
  match d.run (r.source files) with
  | .ok x s => (.ok x, keep s)
  | .error e s => (.error e, keep s)

def readFlags (r : MetadataReader) (files : FileTree) :
    Except MetadataError ScriptFlags × MetadataReader :=
  let (byte, r) := r.decode files Decoder.byte
  ((byte.map ScriptFlags.ofByte).mapError .serialization, r)

/-- Reads a payload; a record that ends here has none. -/
def readData {α : Type} (r : MetadataReader) (files : FileTree) (serializer : Serializer α) :
    Except MetadataError (Option α) × MetadataReader :=
  match r.decode files Decoder.atEnd with
  | (.ok true, r) => (.ok none, r)
  | (.ok false, r) =>
    let (data, r) := r.decode files serializer.read
    ((data.map some).mapError .serialization, r)
  | (.error (.io cause), r) => (.error (.io r.path cause), r)
  | (.error e, r) => (.error (.serialization e), r)

end MetadataReader

/-- Reads a whole record. Without a serializer a payload is passed over. -/
def readMetadata {α : Type} (files : FileTree) (directory : Path)
    (serializer : Option (Serializer α)) : Except MetadataError (ScriptFlags × Option α) := do
  let r ← MetadataReader.openIn files directory
  let (flags, r) := r.readFlags files
  let flags ← flags
  match serializer with
  | none => return (flags, none)
  | some s => return (flags, ← (r.readData files s).1)

end BuildScript
