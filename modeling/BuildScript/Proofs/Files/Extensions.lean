import BuildScript.Proofs.Files.Joins

/-!
# Extensions

A dotted name is stored as a file: its segments are directories, and the last one is the name of a
file with an extension. The extension can be a part of the last name that is put behind the root, or
it can be set on the finished path. For a segment that is a name the two are the same
(`withExtension_join`). Setting an extension looks for the last name of the path, however: behind an
empty segment it renames a directory (`exists_getLast_withExtension`), and that may be the root.
-/

namespace BuildScript

namespace Path

variable {p : Path} {name : String}

/-! ## Extensions -/

/-- What stands in front of a name behind the path does not depend on the name. -/
theorem exists_text_join (p : Path) :
    ∃ front : String, ∀ name, IsName name → (p.join name).text = front ++ name := by
  have hslash {name : String} (h : IsName name) : ¬(name.toList.head? == some '/') = true :=
    fun hhead ↦ h.noSlash (List.mem_of_mem_head? (eq_of_beq hhead))
  by_cases hlast : p.text.toList.getLast? = none ∨ p.text.toList.getLast? = some '/'
  · refine ⟨p.text, fun name hname ↦ ?_⟩
    rw [join, if_neg (hslash hname)]
    rcases hlast with hlast | hlast
    · rw [hlast]
    · rw [hlast]
      rfl
  · refine ⟨p.text ++ "/", fun name hname ↦ ?_⟩
    rw [join, if_neg (hslash hname)]
    split
    · next hnone => exact absurd (.inl hnone) hlast
    · next hend => exact absurd (.inr hend) hlast
    · rfl

theorem fileName_join (hname : IsEntry name) (p : Path) : (p.join name).fileName? = some name := by
  rw [fileName?, components_join hname, List.getLast?_concat]
  split
  · next h => exact absurd (Option.some.inj h) hname.ne_dot
  · next h => exact absurd (Option.some.inj h) hname.ne_dots
  · next h => cases h
  · next h => exact h.symm

/-- A name without dots is its own stem. -/
theorem fileStem_join (hname : IsEntry name) (hdot : '.' ∉ name.toList) (p : Path) :
    (p.join name).fileStem? = some name := by
  rw [fileStem?, fileName_join hname, Option.map_some, segments_of_notMem hdot]
  rfl

theorem dropTrailing_of_head {cs : List Char} (h : ∃ c ds, cs = c :: ds ∧ c ≠ '/' ∧ c ≠ '.') :
    dropTrailing cs = cs := by
  obtain ⟨c, ds, rfl, hslash, hdot⟩ := h
  rw [dropTrailing.eq_3]
  · intro es hes
    exact hslash (List.cons.inj hes).1
  · intro es hes
    exact hdot (List.cons.inj hes).1

/-- The extension is put behind a name without dots. -/
theorem withExtension_join (hname : IsName name) (hdot : '.' ∉ name.toList) {extension : String}
    (hslash : '/' ∉ extension.toList) (p : Path) :
    (p.join name).withExtension extension = p.join (name ++ ("." ++ extension)) := by
  have hentry := isEntry_of_dotless hname hdot
  have hextended : IsName (name ++ ("." ++ extension)) := by
    refine ⟨fun hempty ↦ hname.nonempty (String.append_eq_empty_iff.mp hempty).1, ?_⟩
    rw [String.toList_append, String.toList_append, List.mem_append, List.mem_append, not_or, not_or]
    exact ⟨hname.noSlash, by decide, hslash⟩
  obtain ⟨front, htext⟩ := exists_text_join p
  -- The name ends in a character that is no slash and no dot, so nothing trails it.
  have hreverse : dropTrailing (p.join name).text.toList.reverse =
      name.toList.reverse ++ front.toList.reverse := by
    rw [htext name hname, String.toList_append, List.reverse_append]
    apply dropTrailing_of_head
    cases hlast : name.toList.reverse with
    | nil =>
      rw [List.reverse_eq_nil_iff, String.toList_eq_nil_iff] at hlast
      exact absurd hlast hname.nonempty
    | cons c cs =>
      have hc : c ∈ name.toList := List.mem_reverse.mp (hlast ▸ List.mem_cons_self)
      refine ⟨c, _, rfl, ?_, ?_⟩
      · exact fun h ↦ hname.noSlash (h ▸ hc)
      · exact fun h ↦ hdot (h ▸ hc)
  have hdrop : (name.toList.reverse ++ front.toList.reverse).drop name.length =
      front.toList.reverse :=
    List.drop_left' (by rw [List.length_reverse, String.length_toList])
  rw [withExtension, fileName_join hentry, fileStem_join hentry hdot]
  dsimp only
  rw [hreverse, hdrop, List.reverse_reverse, String.ofList_toList, String.append_assoc,
    String.append_assoc, ← htext _ hextended]

/-- The stem is a part of the name, and it is never empty. -/
theorem fileStem_spec {stem : String} (h : p.fileStem? = some stem) :
    stem ≠ "" ∧ '/' ∉ stem.toList := by
  obtain ⟨name, hname, hstem⟩ := Option.map_eq_some_iff.mp h
  have hmem : name ∈ p.components := by
    rw [fileName?] at hname
    split at hname
    · cases hname
    · cases hname
    · cases hname
    · next hlast => exact Option.some.inj hname ▸ List.mem_of_getLast? hlast
  have hnonempty : name ≠ "" := by
    rw [components_eq, List.mem_append] at hmem
    rintro rfl
    rcases hmem with hmem | hmem
    · split at hmem
      · exact absurd hmem (by decide)
      · exact absurd hmem List.not_mem_nil
    · exact absurd (List.mem_filter.mp hmem).2 (by decide)
  have hslash := slash_notMem_of_mem_components hmem
  split at hstem
  · next last before more hsegments =>
    dsimp only at hstem
    split at hstem
    · exact hstem ▸ ⟨hnonempty, hslash⟩
    · next hne =>
      have hsublist : (before :: more).reverse.Sublist (segments '.' name.toList) := by
        rw [← List.reverse_reverse (segments '.' name.toList), hsegments]
        exact (List.sublist_cons_self last (before :: more)).reverse
      have hjoin : (joinSegments '.' (before :: more).reverse).Sublist name.toList := by
        rw [← joinSegments_segments '.' name.toList]
        exact joinSegments_sublist hsublist
      rw [← hstem]
      refine ⟨fun hempty ↦ hne ?_, ?_⟩
      · rw [List.isEmpty_iff]
        exact String.ofList_eq_empty_iff.mp hempty
      · rw [String.toList_ofList]
        exact fun hmem ↦ hslash (hjoin.mem hmem)
  · exact hstem ▸ ⟨hnonempty, hslash⟩

/-- With another extension, the last component is never the extension alone. -/
theorem exists_getLast_withExtension {extension : String} (hslash : '/' ∉ extension.toList)
    (h : p.fileName? ≠ none) : ∃ stem : String, stem ≠ "" ∧
      (p.withExtension extension).components.getLast? = some (stem ++ ("." ++ extension)) := by
  obtain ⟨name, hname⟩ := Option.ne_none_iff_exists'.mp h
  obtain ⟨stem, hstem⟩ : ∃ stem, p.fileStem? = some stem := by
    rw [fileStem?, hname]
    exact ⟨_, rfl⟩
  obtain ⟨hnonempty, hnoSlash⟩ := fileStem_spec hstem
  obtain ⟨before, htext⟩ : ∃ before : String,
      (p.withExtension extension).text = before ++ (stem ++ ("." ++ extension)) := by
    rw [withExtension, hname, hstem]
    dsimp only
    rw [String.append_assoc, String.append_assoc]
    exact ⟨_, rfl⟩
  have hlast : segments '/' (stem ++ ("." ++ extension)).toList =
      [(stem ++ ("." ++ extension)).toList] := by
    apply segments_of_notMem
    rw [String.toList_append, String.toList_append, List.mem_append, List.mem_append, not_or, not_or]
    exact ⟨hnoSlash, by decide, hslash⟩
  obtain ⟨front, own, first, rest, -, hfirst, happend⟩ :=
    exists_segments_append '/' before.toList (stem ++ ("." ++ extension)).toList
  obtain ⟨rfl, rfl⟩ := List.cons.inj (hlast.symm.trans hfirst)
  have hparts : (p.withExtension extension).parts =
      front.map String.ofList ++ [String.ofList own ++ (stem ++ ("." ++ extension))] := by
    rw [parts, splitText, htext, String.toList_append, happend, List.map_append, List.map_singleton,
      String.ofList_append, String.ofList_toList]
  have hcounts : Location.counts (String.ofList own ++ (stem ++ ("." ++ extension))) = true := by
    -- The stem and the dot behind it are two characters already.
    have hlength : 1 < (String.ofList own ++ (stem ++ ("." ++ extension))).length := by
      have hstem : 0 < stem.length := Nat.pos_of_ne_zero fun h ↦
        hnonempty (String.length_eq_zero_iff.mp h)
      have hdot : ".".length = 1 := rfl
      simp only [String.length_append, hdot]
      omega
    rw [Location.counts, Bool.and_eq_true, bne_iff_ne, bne_iff_ne]
    constructor
    · intro hempty
      rw [hempty] at hlength
      exact absurd hlength (by decide)
    · intro hdot
      rw [hdot] at hlength
      exact absurd hlength (by decide)
  refine ⟨String.ofList own ++ stem, ?_, ?_⟩
  · exact fun hempty ↦ hnonempty (String.append_eq_empty_iff.mp hempty).2
  · rw [components_eq, hparts, List.filter_append, List.filter_cons_of_pos hcounts, ← List.append_assoc,
      List.filter_nil, List.getLast?_concat, String.append_assoc]

/-! ## Dotted names as files -/

/-- The names with an extension behind the last one. -/
def withLast (extension : String) : List String → Location
  | [] => []
  | [last] => [last ++ extension]
  | s :: ss => s :: withLast extension ss

theorem withLast_concat (extension : String) (front : List String) (last : String) :
    withLast extension (front ++ [last]) = front ++ [last ++ extension] := by
  induction front with
  | nil => rfl
  | cons s front ih =>
    rw [List.cons_append, withLast, ih, List.cons_append]
    simp

theorem withLast_injective (extension : String) {names names' : List String}
    (h : withLast extension names = withLast extension names') : names = names' := by
  rcases List.eq_nil_or_concat names with rfl | ⟨front, last, rfl⟩
  · rcases List.eq_nil_or_concat names' with rfl | ⟨front', last', rfl⟩
    · rfl
    · rw [List.concat_eq_append, withLast_concat] at h
      exact absurd h.symm (List.append_ne_nil_of_right_ne_nil _ (List.cons_ne_nil _ _))
  · rw [List.concat_eq_append, withLast_concat] at h
    rcases List.eq_nil_or_concat names' with rfl | ⟨front', last', rfl⟩
    · exact absurd h (List.append_ne_nil_of_right_ne_nil _ (List.cons_ne_nil _ _))
    · rw [List.concat_eq_append, withLast_concat] at h
      obtain ⟨hfront, hlast⟩ := List.append_inj' h rfl
      rw [List.concat_eq_append, List.concat_eq_append, hfront,
        (String.append_left_inj extension).mp (List.cons.inj hlast).1]

/-- What stands below the root for a dotted name whose segments can be names of files. -/
theorem isEntry_of_mem_withLast {extension : String} {names : List String}
    (h : ∀ s ∈ names, IsName s ∧ '.' ∉ s.toList) (hslash : '/' ∉ extension.toList)
    (hletter : ∃ c ∈ extension.toList, c ≠ '.') {s : String} (hs : s ∈ withLast extension names) :
    IsEntry s := by
  rcases List.eq_nil_or_concat names with rfl | ⟨front, last, rfl⟩
  · exact absurd hs List.not_mem_nil
  · rw [List.concat_eq_append] at h hs
    rw [withLast_concat] at hs
    rcases List.mem_append.mp hs with hs | hs
    · obtain ⟨hname, hdot⟩ := h s (List.mem_append_left _ hs)
      exact isEntry_of_dotless hname hdot
    · obtain ⟨hname, -⟩ := h last (List.mem_append_right _ List.mem_cons_self)
      rw [List.mem_singleton.mp hs]
      exact .append_extension hname hslash hletter

end Path

end BuildScript
