import BuildScript.Proofs.Scripts.CompileRuns
import BuildScript.Scripts.CompiledScript

/-!
# What a failed compilation leaves behind

A compilation that fails wipes both of its directories, whatever has failed and however far it had
come, with one exception: if the directory of the classes cannot be prepared, nothing is wiped, and a
metadata record of an earlier compilation stays where it is. `cleared_of_compile_error` says so
exactly.

What is left in a wiped directory is nothing, or, if the path goes up somewhere, perhaps a directory
that the path leads through. So in either case no record can be read back from it.
-/

namespace BuildScript

open FileTree

/-! ## Records that cannot be read -/

/-- No record is found in a cleared directory. -/
theorem lookup_metadataFile_of_cleared {t : FileTree} {p : Path} (ht : t.WellFormed)
    (h : t.Cleared p) (hp : p.text ≠ "") (number : Nat) :
    t.lookup (metadataFile p) ≠ .ok (.file number) := by
  have hname : Path.IsName "metadata.bin" := ⟨by decide, by decide⟩
  intro hlookup
  obtain ⟨hlocate, hnode⟩ := lookup_eq_ok_iff.mp hlookup
  obtain ⟨hlocatep, -⟩ := locate_of_locate_join hname hp hlocate
  have hplace : (metadataFile p).place = p.place ++ ["metadata.bin"] := Path.place_join hname hp
  rw [hplace] at hnode
  have hne : p.place ++ ["metadata.bin"] ≠ [] := by simp
  have hheld : (p.place ++ ["metadata.bin"], .file number) ∈ t.held p :=
    mem_held_iff.mpr ⟨hlocatep, mem_below_iff.mpr
      ⟨ht.mem_nodes_iff.mpr ⟨hnode, hne⟩, List.prefix_append _ _, by simp⟩⟩
  exact absurd (h.files _ hheld) (by simp)

/-- Without a file there is no handle on a compiled script. -/
theorem CompiledScript.ofDirectories_error {σ α : Type} (r : CompileRequest σ α) (loaderId : String)
    {b : Build} (h : ∀ number, b.world.files.lookup (metadataFile r.metadata) ≠ .ok (.file number)) :
    ∃ cause, (ofDirectories r loaderId).run b =
      (.error (.metadataUnreadable r.source.displayName cause), b) := by
  rw [ofDirectories, run_bind_ok (run_get b)]
  dsimp only
  cases hlookup : b.world.files.lookup (metadataFile r.metadata) with
  | error e =>
    unfold MetadataReader.openIn
    dsimp only
    rw [hlookup]
    exact ⟨_, rfl⟩
  | ok node =>
    cases node with
    | file number => exact absurd hlookup (h number)
    | directory =>
      unfold MetadataReader.openIn
      dsimp only
      rw [hlookup]
      exact ⟨_, rfl⟩

/-! ## Failed compilations -/

namespace CompileRequest

variable {σ α : Type} (r : CompileRequest σ α) (imports : List String) (initial : σ)

/-- After a compilation that failed, with whatever error, the directory of the classes is cleared.
That of the metadata is cleared exactly if the first could be prepared, or if nothing was there
anyway; then no record can be read from it either. -/
theorem cleared_of_compile_error {b b' : Build} {e : ScriptError} (hb : b.world.files.WellFormed)
    (h : (r.compile imports initial).run b = (.error e, b')) :
    let prepared := (recreateDirectory r.classes).run b.world.files
    b'.world.files.Cleared r.classes ∧
    (b'.world.files.Cleared r.metadata ↔
      prepared.1 = .ok () ∨ prepared.2.Cleared r.metadata) ∧
    (b'.world.files.Cleared r.metadata → r.metadata.text ≠ "" → ∀ loaderId, ∃ cause,
      (CompiledScript.ofDirectories r loaderId).run b' =
        (.error (.metadataUnreadable r.source.displayName cause), b')) := by
  intro prepared
  have hprepared : prepared.2.WellFormed := hb.changes (moves_recreateDirectory r.classes _)
  have hcleared : b'.world.files.WellFormed ∧ b'.world.files.Cleared r.classes ∧
      (b'.world.files.Cleared r.metadata ↔
        prepared.1 = .ok () ∨ prepared.2.Cleared r.metadata) := by
    rcases r.files_of_compile_error imports initial hb h with ⟨cause, hcause, hfiles⟩ |
      ⟨hok, files, hwf, hfiles⟩
    · have hne : prepared.1 ≠ .ok () := by rw [hcause]; nofun
      rw [hfiles]
      refine ⟨hprepared, cleared_of_recreateDirectory hb rfl (.inr hne), ?_⟩
      rw [or_iff_right hne]
    · have hclasses := cleared_wiped hwf r.classes
      have hmetadata := cleared_wiped (hwf.wiped r.classes) r.metadata
      rw [hfiles]
      refine ⟨(hwf.wiped _).wiped _, ?_, iff_of_true hmetadata (.inl hok)⟩
      exact hclasses.within fun x ↦
        (wiped_within _ r.metadata).held_subset ((hwf.wiped _).wiped _) (hwf.wiped _) x
  obtain ⟨hwf, hclasses, hmetadata⟩ := hcleared
  refine ⟨hclasses, hmetadata, fun hcleared hp loaderId ↦ ?_⟩
  exact CompiledScript.ofDirectories_error r loaderId
    (lookup_metadataFile_of_cleared hwf hcleared hp)

/-! Two directories as an earlier compilation has left them, and a script whose text cannot be read
because it is in a directory. -/

def leftOver : FileM Unit := do
  writeBelow ⟨"/classes/A.class"⟩ [1, 2]
  writeBelow ⟨"/metadata/metadata.bin"⟩ [0]

def leftOverBuild : Build := { world := { files := (leftOver.run {}).2 } }

def unreadable : CompileRequest Unit Unit where
  source := ⟨"script 'a'", "A", none, .file ⟨"/metadata"⟩⟩
  parent := 0
  classes := ⟨"/classes"⟩
  metadata := ⟨"/metadata"⟩
  operation := none
  base := .native 0 "groovy.lang.Script" none []

theorem changes_leftOver : Moves Change leftOver := by
  rw [leftOver]
  exact (moves_writeBelow _ _).bind fun _ ↦ moves_writeBelow _ _

theorem wellFormed_leftOverBuild : leftOverBuild.world.files.WellFormed := by
  have h : (leftOver.run {}).2.WellFormed := wellFormed_empty.changes (changes_leftOver {})
  dsimp only [leftOverBuild]
  exact h

theorem unreadable_leaves_nothing :
    leftOverBuild.world.files.held unreadable.classes ≠ [] ∧
      leftOverBuild.world.files.held unreadable.metadata ≠ [] ∧
      ∃ e b, (unreadable.compile [] ()).run leftOverBuild = (.error e, b) ∧
        b.world.files.held unreadable.classes = [] ∧
        b.world.files.held unreadable.metadata = [] := by
  have hclasses : leftOverBuild.world.files.held unreadable.classes ≠ [] := by decide +kernel
  have hmetadata : leftOverBuild.world.files.held unreadable.metadata ≠ [] := by decide +kernel
  have hprepared : ((recreateDirectory unreadable.classes).run leftOverBuild.world.files).1 =
      .ok () := by decide +kernel
  have hfailed : ((unreadable.compile [] ()).run leftOverBuild).1.isOk = false := by decide +kernel
  rcases hrun : (unreadable.compile [] ()).run leftOverBuild with ⟨e | _, b⟩
  · have hcleared := unreadable.cleared_of_compile_error [] () wellFormed_leftOverBuild hrun
    refine ⟨hclasses, hmetadata, e, b, rfl, hcleared.1.plain (by decide +kernel), ?_⟩
    exact (hcleared.2.1.mpr (.inl hprepared)).plain (by decide +kernel)
  · rw [hrun] at hfailed
    cases hfailed

/-! The same with a file in place of the first directory. -/

def blocked : FileM Unit := do
  write ⟨"/classes"⟩ [1, 2]
  writeBelow ⟨"/metadata/metadata.bin"⟩ [0]

def blockedBuild : Build := { world := { files := (blocked.run {}).2 } }

theorem changes_blocked : Moves Change blocked := by
  rw [blocked]
  exact ((moves_write _ _).mono fun _ _ h ↦ h.change).bind fun _ ↦ moves_writeBelow _ _

theorem wellFormed_blockedBuild : blockedBuild.world.files.WellFormed := by
  have h : (blocked.run {}).2.WellFormed := wellFormed_empty.changes (changes_blocked {})
  dsimp only [blockedBuild]
  exact h

theorem blockedBuild_keeps_record :
    blockedBuild.world.files.WellFormed ∧
      ((unreadable.compile [] ()).run blockedBuild).1.isOk = false ∧
      ((unreadable.compile [] ()).run blockedBuild).2.world.files.held unreadable.metadata ≠ [] ∧
      ((CompiledScript.ofDirectories unreadable "a").run
        ((unreadable.compile [] ()).run blockedBuild).2).1.isOk = true := by
  refine ⟨wellFormed_blockedBuild, ?_, ?_, ?_⟩
  · decide +kernel
  · decide +kernel
  · decide +kernel

end CompileRequest

end BuildScript
