import BuildScript.Compile.Lookup
import BuildScript.Proofs.Files.Extensions
import BuildScript.Proofs.Syntax.Lexemes

/-!
# Where sources are

The source of a class is looked for at the segments of its outermost class, below a root. The
outermost class is what stands in front of the first dollar sign, and words may begin with dollar
signs, so its last segment can be empty even though no segment of the class name is. Then the
directory that the other segments lead to is given the extension, or the root if there are no others,
and what is found is not where it should be. This is the only exception
(`findSource_holdsSource_iff`).
-/

namespace BuildScript

/-- Words that are separated by dots. -/
def IsDottedName (className : String) : Prop :=
  ∀ s ∈ splitText '.' className, Lexeme.IsWord s.toList

instance (className : String) : Decidable (IsDottedName className) :=
  inferInstanceAs (Decidable (∀ s ∈ splitText '.' className, Lexeme.IsWord s.toList))

/-- The class that a nested class is in: what stands in front of the first dollar sign. -/
def outermostName (className : String) : String :=
  String.ofList (className.toList.takeWhile (· != '$'))

/-- Where the source of a class is, seen from a root. -/
def sourceLocation (className : String) : Location :=
  Path.withLast ("." ++ sourceExtension) (splitText '.' (outermostName className))

/-- The path leads to a file in the directory that the root leads to, and from there it goes along
the segments of the outermost class, the last one with the extension of sources. -/
structure FileTree.HoldsSource (files : FileTree) (root : Path) (className : String) (p : Path) :
    Prop where
  below : root.Below (sourceLocation className) p
  root_leads : files.walk [] root.parts = .ok root.place
  directory : files.node? root.place = some .directory
  leads : files.locate p = .ok (root.place ++ sourceLocation className)
  regular : ∃ number, files.node? (root.place ++ sourceLocation className) = some (.file number)

namespace FileTree

variable {files : FileTree} {root p : Path}

theorem isFile_iff : files.isFile p = true ↔ ∃ number, files.lookup p = .ok (.file number) := by
  rw [isFile]
  split
  · next number h => exact iff_of_true rfl ⟨number, h⟩
  · next h => exact iff_of_false Bool.false_ne_true fun ⟨number, hlookup⟩ ↦ h number hlookup

/-- What ends in a slash is no file. -/
theorem isFile_of_parts {front : List String} (h : p.parts = front ++ [""]) :
    files.isFile p = false := by
  rw [Bool.eq_false_iff]
  intro hfile
  obtain ⟨number, hlookup⟩ := isFile_iff.mp hfile
  obtain ⟨hlocate, hnode⟩ := lookup_eq_ok_iff.mp hlookup
  have hwalk := (locate_eq_ok_iff.mp hlocate).2
  rw [h] at hwalk
  rw [(walk_concat_empty.mp hwalk).2] at hnode
  cases hnode

/-- A path with names behind it leads through the directory of the path. -/
theorem root_of_locate_foldl_join {names : List String} {place : Location} (hne : names ≠ [])
    (hnames : ∀ s ∈ names, Path.IsName s) (h : files.locate (names.foldl Path.join root) = .ok place) :
    files.walk [] root.parts = .ok root.place ∧ files.node? root.place = some .directory := by
  by_cases hroot : root.text = ""
  · rw [Path.place, Path.parts_of_empty hroot]
    exact ⟨rfl, rfl⟩
  · suffices hlocate : files.locate root = .ok root.place ∧ files.node? root.place = some .directory by
      exact ⟨(locate_eq_ok_iff.mp hlocate.1).2, hlocate.2⟩
    induction names generalizing root with
    | nil => exact absurd rfl hne
    | cons s names ih =>
      obtain ⟨hs, hrest⟩ := List.forall_mem_cons.mp hnames
      by_cases hnil : names = []
      · rw [hnil] at h
        exact locate_of_locate_join hs hroot h
      · have hjoin : (root.join s).text ≠ "" := fun hempty ↦ by
          have hsublist := Path.text_sublist_join hs hroot
          rw [hempty] at hsublist
          exact hroot (String.toList_eq_nil_iff.mp (List.sublist_nil.mp hsublist))
        exact locate_of_locate_join hs hroot (ih hnil hrest h hjoin).1

end FileTree

/-! ## Segments of the outermost class -/

theorem Lexeme.IsWord.ne_nil_and_noSlash {cs : List Char} (h : IsWord cs) : cs ≠ [] ∧ '/' ∉ cs := by
  obtain ⟨start, parts⟩ := h
  have hslash : ¬(IsLetter '/' ∨ '/'.isDigit = true) := by
    rw [IsLetter]
    decide
  refine ⟨List.cons_ne_nil _ _, fun hmem ↦ ?_⟩
  rcases List.mem_cons.mp hmem with rfl | hmem
  · exact hslash (.inl start)
  · exact hslash (parts _ hmem)

/-- Only the last segment of the outermost class can be empty. -/
theorem IsDottedName.exists_segments {className : String} (h : IsDottedName className) :
    ∃ front last, splitText '.' (outermostName className) = front ++ [last] ∧
      (∀ s ∈ front, Path.IsName s) ∧ '/' ∉ last.toList := by
  have hword {cs : List Char} (hcs : cs ∈ segments '.' className.toList) :
      cs ≠ [] ∧ '/' ∉ cs := by
    have hmem : String.ofList cs ∈ splitText '.' className := List.mem_map_of_mem hcs
    have hword := h _ hmem
    rw [String.toList_ofList] at hword
    exact hword.ne_nil_and_noSlash
  obtain ⟨front, last, first, rest, houter, -, hall⟩ := exists_segments_append '.'
    (className.toList.takeWhile (· != '$')) (className.toList.dropWhile (· != '$'))
  rw [List.takeWhile_append_dropWhile] at hall
  refine ⟨front.map String.ofList, String.ofList last, ?_, fun s hs ↦ ?_, ?_⟩
  · rw [splitText, outermostName, String.toList_ofList, houter, List.map_append, List.map_singleton]
  · obtain ⟨cs, hcs, rfl⟩ := List.mem_map.mp hs
    obtain ⟨hne, hslash⟩ := hword (hall ▸ List.mem_append_left _ hcs)
    refine ⟨fun hempty ↦ hne (String.ofList_eq_empty_iff.mp hempty), ?_⟩
    rwa [String.toList_ofList]
  · obtain ⟨-, hslash⟩ := hword (hall ▸ List.mem_append_right _ List.mem_cons_self)
    rw [String.toList_ofList]
    exact fun hmem ↦ hslash (List.mem_append_left _ hmem)

/-! ## Sources that are found -/

section

variable {files : FileTree} {root p : Path} {className last : String} {front : List String}

theorem sourcePath_eq (hsegments : splitText '.' (outermostName className) = front ++ [last])
    (root : Path) :
    sourcePath root className =
      ((front.foldl Path.join root).join last).withExtension sourceExtension := by
  rw [sourcePath, ← outermostName, hsegments, List.foldl_append]
  rfl

theorem eq_of_findSource (h : findSource? files root className = some p) :
    p = sourcePath root className ∧ files.isFile p = true := by
  rw [findSource?] at h
  split at h
  · next hfile => exact Option.some.inj h ▸ ⟨rfl, hfile⟩
  · cases h

/-- If the last segment is a name, the source is where it should be. -/
theorem holdsSource_of_isName (hsegments : splitText '.' (outermostName className) = front ++ [last])
    (hfront : ∀ s ∈ front, Path.IsName s) (hlast : Path.IsName last)
    (hfound : findSource? files root className = some p) : files.HoldsSource root className p := by
  obtain ⟨hp, hfile⟩ := eq_of_findSource hfound
  have hdotless : ∀ s ∈ front ++ [last], '.' ∉ s.toList := fun s hs ↦
    notMem_of_mem_splitText (hsegments ▸ hs)
  have hlocation : sourceLocation className = front ++ [last ++ ("." ++ sourceExtension)] := by
    rw [sourceLocation, hsegments, Path.withLast_concat]
  have hpath : p = (sourceLocation className).foldl Path.join root := by
    rw [hp, sourcePath_eq hsegments, hlocation, List.foldl_append]
    exact Path.withExtension_join hlast (hdotless last List.mem_concat_self) (by decide) _
  have hentries : ∀ s ∈ sourceLocation className, Path.IsEntry s := by
    intro s hs
    rw [sourceLocation, hsegments] at hs
    refine Path.isEntry_of_mem_withLast (fun t ht ↦ ?_) (by decide) ⟨'g', by decide, by decide⟩ hs
    refine ⟨?_, hdotless t ht⟩
    rcases List.mem_append.mp ht with ht | ht
    · exact hfront t ht
    · exact List.mem_singleton.mp ht ▸ hlast
  have hne : sourceLocation className ≠ [] := hlocation ▸ List.concat_ne_nil _ _
  have hbelow : root.Below (sourceLocation className) p :=
    hpath ▸ Path.below_foldl_join hne hentries root
  obtain ⟨number, hlookup⟩ := FileTree.isFile_iff.mp hfile
  obtain ⟨hlocate, hnode⟩ := FileTree.lookup_eq_ok_iff.mp hlookup
  obtain ⟨hroot, hdirectory⟩ := FileTree.root_of_locate_foldl_join hne
    (fun s hs ↦ (hentries s hs).toIsName) (hpath ▸ hlocate)
  rw [hbelow.place_eq] at hlocate hnode
  exact ⟨hbelow, hroot, hdirectory, hlocate, number, hnode⟩

/-- If the last segment is empty, what is found has a name in front of its extension, and the source
would have none. -/
theorem not_holdsSource_of_empty (hsegments : splitText '.' (outermostName className) = front ++ [""])
    (hfound : findSource? files root className = some p) : ¬files.HoldsSource root className p := by
  intro hholds
  obtain ⟨hp, hfile⟩ := eq_of_findSource hfound
  rw [sourcePath_eq hsegments] at hp
  have hfileName : ((front.foldl Path.join root).join "").fileName? ≠ none := by
    intro hnone
    -- Without a name no extension is set, and the path still ends in a slash.
    rw [Path.withExtension, hnone] at hp
    obtain ⟨before, hparts⟩ := Path.exists_parts_join_empty (front.foldl Path.join root)
    rw [hp, FileTree.isFile_of_parts hparts] at hfile
    cases hfile
  have hslash : '/' ∉ sourceExtension.toList := by decide
  obtain ⟨stem, hstem, hlast⟩ := Path.exists_getLast_withExtension hslash hfileName
  rw [← hp, hholds.below.components_eq, sourceLocation, hsegments, Path.withLast_concat,
    ← List.append_assoc, List.getLast?_concat] at hlast
  have hstem' : "" = stem := (String.append_left_inj _).mp (Option.some.inj hlast)
  exact hstem hstem'.symm

end

/-- What is found as the source of a class is a file in the directory that the root leads to, at the
segments of the outermost class, if and only if none of these segments is empty. -/
theorem findSource_holdsSource_iff {files : FileTree} {root p : Path} {className : String}
    (hname : IsDottedName className) (hfound : findSource? files root className = some p) :
    files.HoldsSource root className p ↔ "" ∉ splitText '.' (outermostName className) := by
  obtain ⟨front, last, hsegments, hfront, hslash⟩ := hname.exists_segments
  rw [hsegments]
  by_cases hlast : last = ""
  · subst hlast
    refine iff_of_false (not_holdsSource_of_empty hsegments hfound) ?_
    exact fun hnotMem ↦ hnotMem List.mem_concat_self
  · refine iff_of_true (holdsSource_of_isName hsegments hfront ⟨hlast, hslash⟩ hfound) ?_
    intro hmem
    rcases List.mem_append.mp hmem with hmem | hmem
    · exact (hfront "" hmem).nonempty rfl
    · exact hlast (List.mem_singleton.mp hmem).symm

/-- The source of a class in a package, found for a class nested in it. -/
theorem inner_source_held :
    let files : FileTree :=
      { nodes := [(["src"], .directory), (["src", "acme"], .directory),
          (["src", "acme", "Helper.grv"], .file 0)]
        contents := #[[]] }
    (IsDottedName "acme.Helper$Inner" ∧
      findSource? files ⟨"/src"⟩ "acme.Helper$Inner" = some ⟨"/src/acme/Helper.grv"⟩) ∧
    files.HoldsSource ⟨"/src"⟩ "acme.Helper$Inner" ⟨"/src/acme/Helper.grv"⟩ ∧
    sourceLocation "acme.Helper$Inner" = ["acme", "Helper.grv"] := by
  intro files
  have hname : IsDottedName "acme.Helper$Inner" := by decide
  have hfound : findSource? files ⟨"/src"⟩ "acme.Helper$Inner" = some ⟨"/src/acme/Helper.grv"⟩ := by
    decide +kernel
  refine ⟨⟨hname, hfound⟩, ?_, by decide⟩
  exact (findSource_holdsSource_iff hname hfound).mpr (by decide)

/-- A class name that begins with a dollar sign has an outermost class without a name, and its source
is looked for beside the root. -/
theorem dollar_source_beside_root :
    let files : FileTree :=
      { nodes := [(["src"], .directory), (["src.grv"], .file 0)], contents := #[[]] }
    IsDottedName "$Helper" ∧ findSource? files ⟨"/src"⟩ "$Helper" = some ⟨"/src.grv"⟩ ∧
      ∀ below, ¬Path.Below ⟨"/src"⟩ below ⟨"/src.grv"⟩ := by
  intro files
  refine ⟨by decide, by decide +kernel, fun below hbelow ↦ ?_⟩
  have hcomponents := hbelow.components_eq
  rw [show Path.components ⟨"/src.grv"⟩ = ["src.grv"] by decide,
    show Path.components ⟨"/src"⟩ = ["src"] by decide] at hcomponents
  exact absurd (List.cons.inj hcomponents).1 (by decide)

end BuildScript
