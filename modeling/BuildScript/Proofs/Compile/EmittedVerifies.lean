import BuildScript.Proofs.Bytecode.WellFormed
import BuildScript.Proofs.Compile.AcceptedNodes
import BuildScript.Proofs.Compile.StackHeights

/-!
# Generated classes verify

Whatever the code generator makes of an accepted class node is accepted by the verifier.
Instructions decode because code is made of instructions, jumps land because the heights of a
method have no exits, and a jump to the very end of the body finds the `return` behind it. The
constants of an earlier method are still there when later methods have added theirs, which is where
the pool has to be addressable.
-/

namespace BuildScript

namespace Method.Emits

variable {K : ConstantPool} {m : Method} {compiled : CompiledMethod}

theorem paramCount_le_localCount (h : Method.Emits K m compiled) :
    compiled.paramCount ≤ compiled.localCount := by
  rw [UInt16.le_iff_toNat_le, h.paramCount_eq, h.localCount_eq, Method.localNames]
  exact (prefix_withNames _ _).length_le

/-- Generated methods are well formed. -/
theorem exists_wellFormed (h : Method.Emits K m compiled) (hsize : compiled.code.size < 2 ^ 31)
    (hK : K.Addressable) : ∃ placed, compiled.WellFormed K placed := by
  obtain ⟨code, hbody, hstand, hcodesize⟩ := h.exists_code
  obtain ⟨placed, height, hheights⟩ := h.exists_heights hsize
  have hinstructions := CompiledMethod.instructions_eq_ok_iff.mpr
    ⟨code ++ [.returnNull], rfl, hstand, hcodesize⟩
  -- The heights belong to what the verifier reads, which is the code as it was generated.
  obtain rfl : placed = place 0 (code ++ [.returnNull]) :=
    Except.ok.inj (hheights.instructions_eq.symm.trans hinstructions)
  refine ⟨_, h.paramCount_le_localCount, hinstructions,
    fun p hp ↦ (hbody.refers hp).constantExists hK, hheights.slots, hheights.lands,
    ⟨0 + codeSize code, .returnNull⟩, ?_, rfl⟩
  rw [place_append, place_cons, place_nil, List.getLast?_concat]

end Method.Emits

/-- The class file of an accepted class node verifies. -/
theorem verify_of_compile {node : ClassNode} {debug : Bool} {file : ClassFile}
    (hname : node.name ≠ "") (hnode : node.verify = .ok ())
    (hcompile : node.compile debug = .ok file)
    (hsize : ∀ compiled ∈ file.methods, compiled.code.size < 2 ^ 31)
    (hpool : file.constants.Addressable) : file.verify = .ok () := by
  have h := ClassNode.emits_of_compile hcompile
  refine ClassFile.verify_eq_ok_iff.mpr ⟨h.magic_eq, h.version_eq, ?_, ?_, fun compiled hmem ↦ ?_⟩
  · rw [h.name_eq]
    exact hname
  · rw [map_name_eq_of_emits h.methods]
    exact (ClassNode.verify_eq_ok_iff.mp hnode).1
  · obtain ⟨i, hi⟩ := List.getElem?_of_mem hmem
    obtain ⟨m, -, hm⟩ := h.exists_method hi
    exact hm.exists_wellFormed (hsize compiled hmem) hpool

/-! Two methods that share the pool. The first one ends in a jump to the end of its body. -/

def sharingNode : ClassNode where
  name := "Sharing"
  superName := none
  isScript := false
  methods := [
    ⟨"again", [], [.loop (.constant (.int 7) .none) (.expression (.call "once" [] .none)) .none],
      .none⟩,
    ⟨"once", [], [.result (some (.constant (.int 8) .none)) .none], .none⟩]

def sharingFile : ClassFile :=
  { ClassFile.empty "Sharing" none with
    constants := { strings := #["once"], integers := #[7, 8] }
    methods := [
      ⟨"again", 0, 0, 0, (List.flatMap Instr.encode [.pushInt 0, .jump .ifFalse 13,
        .invokeMethod 0 0, .pop, .jump .always (-23), .returnNull]).toArray⟩,
      ⟨"once", 0, 0, 0, (List.flatMap Instr.encode [.pushInt 1, .return, .returnNull]).toArray⟩] }

theorem sharingFile_verifies :
    sharingNode.name ≠ "" ∧ sharingNode.verify = .ok () ∧
      sharingNode.compile false = .ok sharingFile ∧ sharingFile.verify = .ok () := by
  have hname : sharingNode.name ≠ "" := by decide
  have hnode : sharingNode.verify = .ok () := by decide
  have hcompile : sharingNode.compile false = .ok sharingFile := by decide +kernel
  have hsize : ∀ compiled ∈ sharingFile.methods, compiled.code.size < 2 ^ 31 := by decide
  have hpool : sharingFile.constants.Addressable := ⟨by decide, by decide, by decide⟩
  exact ⟨hname, hnode, hcompile, verify_of_compile hname hnode hcompile hsize hpool⟩

end BuildScript
