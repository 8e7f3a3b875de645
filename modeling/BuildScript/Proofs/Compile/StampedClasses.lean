import BuildScript.Compile.ClassBuilder
import BuildScript.Loading.Search
import BuildScript.Proofs.Bytecode.RoundTrip
import BuildScript.Proofs.Compile.EmittedVerifies
import BuildScript.Proofs.Files.Places

/-!
# Stamped class files

What is written for a script is not the class file that the code generator made: it is taken apart
and put together again with another source file. Nothing else of it changes. So it is accepted by the
verifier as the generated file is, and it can be read back from where it was written.
-/

namespace BuildScript

namespace ClassFile

variable {c : ClassFile} {sourceFile : Option String}

theorem foldl_accept_methods (c : ClassFile) (ms : List CompiledMethod) :
    (ms.map .method).foldl accept c = { c with methods := c.methods ++ ms } := by
  induction ms generalizing c with
  | nil => rw [List.append_nil]; rfl
  | cons m ms ih =>
    rw [List.map_cons, List.foldl_cons, ih]
    change ({ c with methods := (c.methods ++ [m]) ++ ms } : ClassFile) = _
    rw [List.append_assoc, List.singleton_append]

/-- The class file with another source file. -/
def stamped (c : ClassFile) (sourceFile : Option String) : ClassFile := { c with sourceFile }

/-- Stamping the parts changes the source file and nothing else, whatever it was before. -/
theorem ofParts_stamp (hmagic : c.magic = standardMagic) (hversion : c.version = currentVersion) :
    ofParts (c.parts.map (.stamp sourceFile)) = c.stamped sourceFile := by
  obtain ⟨magic, version, flags, name, superName, source, constants, methods⟩ := c
  obtain rfl : magic = standardMagic := hmagic
  obtain rfl : version = currentVersion := hversion
  have hmethods : (methods.map .method).map (ClassPart.stamp sourceFile) = methods.map .method := by
    rw [List.map_map]
    rfl
  rw [ofParts, parts, List.map_cons, List.map_cons, List.map_cons, hmethods, List.foldl_cons,
    List.foldl_cons, List.foldl_cons, foldl_accept_methods]
  rfl

end ClassFile

namespace ClassNode

variable {node : ClassNode} {debug : Bool} {file : ClassFile}

theorem superName_of_compile (h : node.compile debug = .ok file) :
    file.superName = node.superName := by
  rw [compile, bind_eq_ok] at h
  obtain ⟨⟨methods, constants⟩, -, hfile⟩ := h
  cases hfile
  rfl

theorem methods_of_compile (h : node.compile debug = .ok file) :
    file.methods.map (·.name) = node.methods.map (·.name) :=
  map_name_eq_of_emits (emits_of_compile h).methods

end ClassNode

/-- The verifier does not look at the source file of what was generated. -/
theorem ClassNode.Emits.wellFormed_stamped {node : ClassNode} {file : ClassFile}
    (h : node.Emits file) (hname : node.name ≠ "") (hnode : node.verify = .ok ())
    (hsize : ∀ compiled ∈ file.methods, compiled.code.size < 2 ^ 31)
    (hpool : file.constants.Addressable) (sourceFile : Option String) :
    (file.stamped sourceFile).WellFormed where
  magic_eq := h.magic_eq
  version_eq := h.version_eq
  name_ne_empty := by
    change file.name ≠ ""
    rw [h.name_eq]
    exact hname
  nodup_names := by
    change (file.methods.map (·.name)).Nodup
    rw [map_name_eq_of_emits h.methods]
    exact (ClassNode.verify_eq_ok_iff.mp hnode).1
  methods compiled hmem := by
    obtain ⟨i, hi⟩ := List.getElem?_of_mem hmem
    obtain ⟨m, -, hm⟩ := h.exists_method hi
    exact hm.exists_wellFormed (hsize compiled hmem) hpool

/-- Tables that can be written have few enough entries for their indices. -/
theorem ConstantPool.Encodable.addressable {pool : ConstantPool} (h : pool.Encodable) :
    pool.Addressable :=
  ⟨Nat.le_of_lt h.strings_size, Nat.le_of_lt h.integers_size, Nat.le_of_lt h.floats_size⟩

/-- A well-formed class file that was written below a root is found there. -/
theorem readClassFile_of_read {files : FileTree} {root : Path} {file : ClassFile}
    (hread : files.read (root.classFile file.name) = .ok file.encode) (hencodable : file.Encodable)
    (hfile : file.WellFormed) : readClassFile files file.name [root] = .ok (some file) := by
  have hdecode : ClassFile.decode file.encode = .ok file := by
    rw [← ClassFile.encodeBefore_nil]
    exact ClassFile.decode_encodeBefore hencodable []
  have hverify : file.verify = .ok () := ClassFile.verify_eq_ok_iff.mpr hfile
  unfold readClassFile
  dsimp only
  rw [hread]
  dsimp only
  rw [hdecode, Except.mapError, ClassFile.ok_bind, if_neg (by simp), hverify]
  rfl

end BuildScript
