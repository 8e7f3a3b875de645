import BuildScript.Proofs.Files.Extensions
import BuildScript.Scripts.Metadata

/-!
# Paths of class files

The class file of a dotted name stands below the root at the segments of the name, the last one with
an extension. So it never leaves the root, the name can be read off the path, and whatever root it is
looked for from, its place ends in a name that no other kind of file has.
-/

namespace BuildScript

/-- A class name whose segments can be names of files. -/
def IsBinaryName (className : String) : Prop := ∀ s ∈ splitText '.' className, Path.IsName s

instance (className : String) : Decidable (IsBinaryName className) :=
  inferInstanceAs (Decidable (∀ s ∈ splitText '.' className, Path.IsName s))

theorem IsBinaryName.ne_empty {className : String} (h : IsBinaryName className) :
    className ≠ "" := by
  rintro rfl
  exact (h "" (by decide)).nonempty rfl

namespace Path

theorem classFile_eq (root : Path) (className : String) :
    root.classFile className =
      (withLast ".class" (splitText '.' className)).foldl join root := by
  rw [classFile]
  generalize splitText '.' className = names
  induction names generalizing root with
  | nil => rfl
  | cons s names ih =>
    cases names with
    | nil => rfl
    | cons s' names => exact ih (root.join s)

theorem below_classFile (root : Path) {className : String} (h : IsBinaryName className) :
    root.Below (withLast ".class" (splitText '.' className)) (root.classFile className) := by
  rw [classFile_eq]
  apply below_foldl_join
  · intro hnil
    exact splitText_ne_nil '.' className (withLast_injective ".class" hnil)
  · intro s hs
    refine isEntry_of_mem_withLast (fun t ht ↦ ?_) (by decide) ⟨'c', by decide, by decide⟩ hs
    exact ⟨h t ht, notMem_of_mem_splitText ht⟩

/-- The class name can be read off the path. -/
theorem eq_of_same_classFile {root : Path} {className className' : String}
    (h : IsBinaryName className) (h' : IsBinaryName className')
    (hsame : (root.classFile className).same (root.classFile className') = true) :
    className = className' := by
  have hbelow := (Below.same_iff (below_classFile root h) (below_classFile root h')).mp hsame
  exact splitText_injective (withLast_injective ".class" hbelow)

theorem below_metadataFile (directory : Path) :
    directory.Below ["metadata.bin"] (metadataFile directory) :=
  below_foldl_join (List.cons_ne_nil _ _)
    (List.forall_mem_singleton.mpr ⟨⟨by decide, by decide⟩, by decide, by decide⟩) directory

/-- A class file is no metadata record, wherever the two are. -/
theorem place_classFile_ne_metadataFile (root directory : Path) {className : String}
    (h : IsBinaryName className) :
    (root.classFile className).place ≠ (metadataFile directory).place := by
  obtain ⟨front, last, hsegments⟩ :=
    (List.eq_nil_or_concat (splitText '.' className)).resolve_left (splitText_ne_nil '.' className)
  rw [List.concat_eq_append] at hsegments
  intro heq
  rw [(below_classFile root h).place_eq, (below_metadataFile directory).place_eq, hsegments,
    withLast_concat, ← List.append_assoc] at heq
  have hlast := congrArg List.getLast? heq
  rw [List.getLast?_concat, List.getLast?_concat] at hlast
  -- The two names end in different letters.
  have hend : (last ++ ".class").toList.getLast? = "metadata.bin".toList.getLast? :=
    congrArg (·.toList.getLast?) (Option.some.inj hlast)
  rw [String.toList_append, List.getLast?_append,
    show ".class".toList.getLast? = some 's' by decide, Option.some_or] at hend
  exact absurd hend (by decide)

end Path

end BuildScript
