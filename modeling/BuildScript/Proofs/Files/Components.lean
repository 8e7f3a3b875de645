import BuildScript.Files.Tree

/-!
# Components of paths

A path means the list of its components, while a walk through a tree follows the segments of its
text. The components are the segments that count, so they are a part of the segments. The path above
another one is given a text of its own, put together from all components but the last: cutting this
text gives these components again, and it has no character that the text of the path has not.
-/

namespace BuildScript

/-! ## Cutting and joining -/

section Segments

variable {separator : Char}

theorem segments_cons_self (cs : List Char) :
    segments separator (separator :: cs) = [] :: segments separator cs := by
  rw [segments]
  split
  next h => exact absurd h (segments_ne_nil separator cs)
  next s ss h => rw [if_pos rfl, h]

theorem segments_of_notMem {cs : List Char} (h : separator ∉ cs) : segments separator cs = [cs] := by
  induction cs with
  | nil => rfl
  | cons c cs ih =>
    rw [segments, ih (List.not_mem_of_not_mem_cons h)]
    exact if_neg (List.ne_of_not_mem_cons h).symm

theorem segments_append (cs ds : List Char) :
    segments separator (cs ++ separator :: ds) = segments separator cs ++ segments separator ds := by
  induction cs with
  | nil => exact segments_cons_self ds
  | cons c cs ih =>
    rw [List.cons_append, segments, ih, segments]
    cases hcs : segments separator cs with
    | nil => exact absurd hcs (segments_ne_nil separator cs)
    | cons s ss =>
      dsimp only [List.cons_append]
      split <;> rfl

theorem notMem_of_mem_segments {cs s : List Char} (h : s ∈ segments separator cs) :
    separator ∉ s := by
  induction cs generalizing s with
  | nil =>
    rw [segments, List.mem_singleton] at h
    rw [h]
    exact List.not_mem_nil
  | cons c cs ih =>
    rw [segments] at h
    split at h
    next hnil => exact absurd hnil (segments_ne_nil separator cs)
    next t ts heq =>
      have htail (u) (hu : u ∈ t :: ts) : separator ∉ u := ih (heq ▸ hu)
      split at h
      · rcases List.mem_cons.mp h with rfl | h
        · exact List.not_mem_nil
        · exact htail s h
      · next hc =>
        rcases List.mem_cons.mp h with rfl | h
        · exact List.not_mem_cons_of_ne_of_not_mem (Ne.symm hc) (htail t List.mem_cons_self)
        · exact htail s (List.mem_cons_of_mem _ h)

/-- Where two texts meet, the last segment of the first one and the first segment of the second one
become one. -/
theorem exists_segments_append (separator : Char) (cs ds : List Char) :
    ∃ front last first rest, segments separator cs = front ++ [last] ∧
      segments separator ds = first :: rest ∧
      segments separator (cs ++ ds) = front ++ (last ++ first) :: rest := by
  induction cs with
  | nil =>
    obtain ⟨first, rest, hds⟩ := List.exists_cons_of_ne_nil (segments_ne_nil separator ds)
    exact ⟨[], [], first, rest, rfl, hds, hds⟩
  | cons c cs ih =>
    obtain ⟨front, last, first, rest, hcs, hds, happend⟩ := ih
    by_cases hc : c = separator
    · refine ⟨[] :: front, last, first, rest, ?_, hds, ?_⟩
      · rw [hc, segments_cons_self, hcs]
        rfl
      · rw [hc, List.cons_append, segments_cons_self, happend]
        rfl
    · cases front with
      | nil =>
        refine ⟨[], c :: last, first, rest, ?_, hds, ?_⟩
        · rw [segments, hcs]
          exact if_neg hc
        · rw [List.cons_append, segments, happend]
          exact if_neg hc
      | cons s front =>
        refine ⟨(c :: s) :: front, last, first, rest, ?_, hds, ?_⟩
        · rw [segments, hcs]
          exact if_neg hc
        · rw [List.cons_append, segments, happend]
          exact if_neg hc

theorem joinSegments_cons_of_ne_nil (s : List Char) {ss : List (List Char)} (h : ss ≠ []) :
    joinSegments separator (s :: ss) = s ++ separator :: joinSegments separator ss := by
  cases ss with
  | nil => exact absurd rfl h
  | cons t ts => rfl

/-- Cutting what was put together gives the stretches. -/
theorem segments_joinSegments {ss : List (List Char)} (hne : ss ≠ [])
    (h : ∀ s ∈ ss, separator ∉ s) : segments separator (joinSegments separator ss) = ss := by
  induction ss with
  | nil => exact absurd rfl hne
  | cons s ss ih =>
    obtain ⟨hs, hss⟩ := List.forall_mem_cons.mp h
    by_cases hnil : ss = []
    · rw [hnil]
      exact segments_of_notMem hs
    · rw [joinSegments_cons_of_ne_nil s hnil, segments_append, segments_of_notMem hs, ih hnil hss]
      rfl

/-- Leaving stretches out leaves characters out. -/
theorem joinSegments_sublist {ss ts : List (List Char)} (h : ss.Sublist ts) :
    (joinSegments separator ss).Sublist (joinSegments separator ts) := by
  induction h with
  | slnil => exact List.Sublist.refl _
  | @cons ss ts t h ih =>
    cases ts with
    | nil =>
      rw [List.sublist_nil.mp h]
      exact List.nil_sublist _
    | cons u us => exact ih.trans ((List.sublist_cons_self _ _).trans (List.sublist_append_right _ _))
  | @cons_cons ss ts t h ih =>
    cases ts with
    | nil =>
      obtain rfl := List.sublist_nil.mp h
      exact List.Sublist.refl _
    | cons u us =>
      cases ss with
      | nil => exact List.sublist_append_left _ _
      | cons v vs => exact (List.Sublist.refl t).append (ih.cons_cons separator)

theorem intercalate_eq_joinSegments (ss : List (List Char)) :
    [separator].intercalate ss = joinSegments separator ss := by
  induction ss with
  | nil => rfl
  | cons s ss ih =>
    cases ss with
    | nil => simp [List.intercalate, joinSegments]
    | cons t ts =>
      rw [joinSegments, ← ih]
      · simp [List.intercalate]
      · exact List.cons_ne_nil _ _

end Segments

theorem map_toList_splitText (separator : Char) (s : String) :
    (splitText separator s).map String.toList = segments separator s.toList := by
  rw [splitText, List.map_map]
  exact (List.map_congr_left fun _ _ ↦ String.toList_ofList).trans (List.map_id _)

theorem splitText_injective {separator : Char} {s t : String}
    (h : splitText separator s = splitText separator t) : s = t := by
  have hsegments : segments separator s.toList = segments separator t.toList := by
    rw [← map_toList_splitText, h, map_toList_splitText]
  rw [← String.toList_inj, ← joinSegments_segments separator s.toList, hsegments,
    joinSegments_segments]

theorem splitText_ne_nil (separator : Char) (s : String) : splitText separator s ≠ [] := by
  rw [splitText, ne_eq, List.map_eq_nil_iff]
  exact segments_ne_nil separator s.toList

theorem notMem_of_mem_splitText {separator : Char} {s t : String} (h : t ∈ splitText separator s) :
    separator ∉ t.toList := by
  obtain ⟨cs, hcs, rfl⟩ := List.mem_map.mp h
  rw [String.toList_ofList]
  exact notMem_of_mem_segments hcs

theorem splitText_of_notMem {separator : Char} {s : String} (h : separator ∉ s.toList) :
    splitText separator s = [s] := by
  rw [splitText, segments_of_notMem h, List.map_singleton, String.ofList_toList]

theorem toList_intercalate_slash (ss : List String) :
    ("/".intercalate ss).toList = joinSegments '/' (ss.map String.toList) := by
  rw [String.toList_intercalate]
  exact intercalate_eq_joinSegments _

theorem splitText_intercalate {ss : List String} (hne : ss ≠ [])
    (h : ∀ s ∈ ss, '/' ∉ s.toList) : splitText '/' ("/".intercalate ss) = ss := by
  rw [splitText, toList_intercalate_slash, segments_joinSegments, List.map_map]
  · exact (List.map_congr_left fun _ _ ↦ String.ofList_toList).trans (List.map_id _)
  · simpa using hne
  · intro cs hcs
    obtain ⟨s, hs, rfl⟩ := List.mem_map.mp hcs
    exact h s hs

theorem utf8ByteSize_le_of_sublist {s t : String} (h : s.toList.Sublist t.toList) :
    s.utf8ByteSize ≤ t.utf8ByteSize := by
  have hsize (u : String) : u.utf8ByteSize = u.toList.utf8Encode.size := by
    rw [String.utf8Encode_toList]
    rfl
  rw [hsize, hsize]
  generalize s.toList = cs at h
  generalize t.toList = ds at h
  induction h with
  | slnil => exact Nat.le_refl _
  | @cons cs ds d h ih =>
    rw [List.utf8Encode_cons, ByteArray.size_append]
    omega
  | @cons_cons cs ds d h ih =>
    rw [List.utf8Encode_cons, @List.utf8Encode_cons d ds, ByteArray.size_append,
      ByteArray.size_append]
    omega

/-! ## Components -/

namespace Location

/-- Whether a segment counts: an empty one and `.` stay where they are. -/
def counts (segment : String) : Bool := segment != "" && segment != "."

end Location

namespace Path

/-- The segments of the text. -/
def parts (p : Path) : List String := splitText '/' p.text

theorem slash_notMem_of_mem_parts {p : Path} {s : String} (h : s ∈ p.parts) : '/' ∉ s.toList := by
  exact notMem_of_mem_splitText h

/-- Among the parts that count, the leading dot is kept too. -/
theorem components_eq (p : Path) :
    p.components =
      (if p.parts.head? = some "." then ["."] else []) ++ p.parts.filter Location.counts := by
  rw [components]
  by_cases h : p.parts.head? = some "."
  · rw [if_pos h]
    exact if_pos (beq_iff_eq.mpr h)
  · rw [if_neg h]
    exact if_neg (mt beq_iff_eq.mp h)

theorem components_sublist_parts (p : Path) : p.components.Sublist p.parts := by
  rw [components_eq]
  split
  next h =>
    obtain ⟨rest, hrest⟩ := List.head?_eq_some_iff.mp h
    rw [hrest, List.filter_cons_of_neg (by decide)]
    exact List.filter_sublist.cons_cons "."
  next => exact List.filter_sublist

theorem slash_notMem_of_mem_components {p : Path} {s : String} (h : s ∈ p.components) :
    '/' ∉ s.toList :=
  slash_notMem_of_mem_parts ((components_sublist_parts p).mem h)

theorem parent_eq {p q : Path} (h : p.parent? = some q) :
    p.components ≠ [] ∧ q.text =
      (if p.isAbsolute then "/" else "") ++ "/".intercalate p.components.dropLast := by
  rw [parent?] at h
  split at h
  · cases h
  · next hne =>
    refine ⟨hne, ?_⟩
    rw [← Option.some.inj h]
    by_cases habsolute : p.isAbsolute = true
    · rw [if_pos habsolute, if_pos habsolute]
    · rw [if_neg habsolute, if_neg habsolute, String.empty_append]

theorem text_eq_of_isAbsolute {p : Path} (h : p.isAbsolute = true) : ∃ rest, p.text = "/" ++ rest := by
  rw [isAbsolute, beq_iff_eq] at h
  obtain ⟨cs, hcs⟩ := List.head?_eq_some_iff.mp h
  refine ⟨String.ofList cs, String.toList_inj.mp ?_⟩
  simp [hcs, String.toList_append]

theorem splitText_slash_append (s : String) : splitText '/' ("/" ++ s) = "" :: splitText '/' s := by
  rw [splitText, String.toList_append, splitText]
  exact congrArg _ (segments_cons_self s.toList)

/-- The components of an absolute path stand behind the slash. -/
theorem components_slash_append (s : String) :
    components ⟨"/" ++ s⟩ = (splitText '/' s).filter Location.counts := by
  rw [components_eq, parts, splitText_slash_append, if_neg (by simp), List.nil_append,
    List.filter_cons_of_neg (by decide)]

theorem filter_splitText_intercalate {ss : List String} (h : ∀ s ∈ ss, '/' ∉ s.toList)
    (hcounts : ∀ s ∈ ss, Location.counts s = true) :
    (splitText '/' ("/".intercalate ss)).filter Location.counts = ss := by
  by_cases hne : ss = []
  · rw [hne]
    rfl
  · rw [splitText_intercalate hne h, List.filter_eq_self.mpr hcounts]

/-- A list of segments that count, with a leading dot or not, is cut short. -/
theorem keepDot_dropLast {named : List String} (hnamed : ∀ s ∈ named, Location.counts s = true)
    (p : Prop) [Decidable p] :
    let front := ((if p then ["."] else []) ++ named).dropLast
    (if front.head? = some "." then ["."] else []) ++ front.filter Location.counts = front := by
  intro front
  have hfront : front = ((if p then ["."] else []) ++ named).dropLast := rfl
  rcases List.eq_nil_or_concat named with hnil | ⟨init, last, hinit⟩
  · have : front = [] := by
      rw [hfront, hnil]
      split <;> rfl
    rw [this]
    rfl
  · have hcounts : init.filter Location.counts = init :=
      List.filter_eq_self.mpr fun s hs ↦
        hnamed s (hinit ▸ List.concat_eq_append ▸ List.mem_append_left _ hs)
    rw [List.concat_eq_append] at hinit
    rw [hinit, ← List.append_assoc, List.dropLast_concat] at hfront
    rw [hfront]
    split
    next =>
      rw [List.cons_append, List.nil_append, List.head?_cons, if_pos rfl,
        List.filter_cons_of_neg (by decide), hcounts]
      rfl
    next =>
      rw [List.nil_append, hcounts, if_neg, List.nil_append]
      intro hhead
      obtain ⟨rest, hrest⟩ := List.head?_eq_some_iff.mp hhead
      have := List.mem_filter.mp (hcounts.symm ▸ hrest ▸ List.mem_cons_self : "." ∈ init.filter _)
      exact absurd this.2 (by decide)

/-- The components of the path above are those of the path without the last one. -/
theorem components_parent {p q : Path} (h : p.parent? = some q) :
    q.components = p.components.dropLast := by
  obtain ⟨-, htext⟩ := parent_eq h
  have hslash (s) (hs : s ∈ p.components.dropLast) : '/' ∉ s.toList :=
    slash_notMem_of_mem_components (List.dropLast_subset _ hs)
  by_cases habsolute : p.isAbsolute = true
  · obtain ⟨rest, hrest⟩ := text_eq_of_isAbsolute habsolute
    have hcomponents : p.components = (splitText '/' rest).filter Location.counts := by
      rw [← components_slash_append, ← hrest]
    have hq : q = ⟨"/" ++ "/".intercalate p.components.dropLast⟩ := by
      rw [if_pos habsolute] at htext
      rw [← htext]
    rw [hq, components_slash_append, filter_splitText_intercalate hslash]
    intro s hs
    rw [hcomponents] at hs
    exact (List.mem_filter.mp (List.dropLast_subset _ hs)).2
  · rw [if_neg habsolute, String.empty_append] at htext
    by_cases hnil : p.components.dropLast = []
    · rw [hnil] at htext ⊢
      rw [components_eq, parts, htext]
      rfl
    · rw [components_eq, parts, htext, splitText_intercalate hnil hslash, components_eq]
      exact keepDot_dropLast (fun s hs ↦ (List.mem_filter.mp hs).2) _

/-- The text of the path above is made of the components, with a slash in front or not. -/
theorem parts_parent {p q : Path} (h : p.parent? = some q) (hne : q.components ≠ []) :
    q.parts = (if p.isAbsolute then [""] else []) ++ q.components := by
  have htext := (parent_eq h).2
  rw [components_parent h] at hne ⊢
  have hsplit := splitText_intercalate hne fun s hs ↦
    slash_notMem_of_mem_components (List.dropLast_subset _ hs)
  rw [parts, htext]
  split
  next => rw [splitText_slash_append, hsplit, List.singleton_append]
  next => rw [String.empty_append, hsplit, List.nil_append]

theorem joinSegments_toList_splitText (s : String) :
    joinSegments '/' ((splitText '/' s).map String.toList) = s.toList := by
  rw [map_toList_splitText, joinSegments_segments]

/-- The text of the path above has no more characters than that of the path. -/
theorem text_parent_sublist {p q : Path} (h : p.parent? = some q) :
    q.text.toList.Sublist p.text.toList := by
  obtain ⟨-, htext⟩ := parent_eq h
  have hjoin {ss : List String} {s : String} (hss : ss.Sublist (splitText '/' s)) :
      ("/".intercalate ss.dropLast).toList.Sublist s.toList := by
    rw [toList_intercalate_slash, ← joinSegments_toList_splitText s]
    exact joinSegments_sublist (((List.dropLast_sublist _).trans hss).map _)
  by_cases habsolute : p.isAbsolute = true
  · obtain ⟨rest, hrest⟩ := text_eq_of_isAbsolute habsolute
    have hcomponents : p.components.Sublist (splitText '/' rest) := by
      have := components_slash_append rest
      rw [← hrest] at this
      rw [this]
      exact List.filter_sublist
    rw [htext, if_pos habsolute, String.toList_append, hrest, String.toList_append]
    exact (List.Sublist.refl _).append (hjoin hcomponents)
  · rw [htext, if_neg habsolute, String.empty_append]
    exact hjoin (components_sublist_parts p)

/-! ### The path of an entry -/

/-- A name that can be put behind a path. -/
structure IsName (name : String) : Prop where
  nonempty : name ≠ ""
  noSlash : '/' ∉ name.toList

theorem isName_iff {name : String} : IsName name ↔ name ≠ "" ∧ '/' ∉ name.toList :=
  ⟨fun h ↦ ⟨h.nonempty, h.noSlash⟩, fun ⟨hnonempty, hslash⟩ ↦ ⟨hnonempty, hslash⟩⟩

instance : DecidablePred IsName := fun _ ↦ decidable_of_iff' _ isName_iff

theorem text_join {p : Path} {name : String} (hname : IsName name) (hp : p.text ≠ "") :
    (∃ front, p.text.toList = front ++ ['/'] ∧ (p.join name).text.toList = front ++ '/' :: name.toList) ∨
      (p.join name).text.toList = p.text.toList ++ '/' :: name.toList := by
  rw [join, if_neg]
  · split
    next hlast =>
      refine absurd ?_ hp
      rw [List.getLast?_eq_none_iff] at hlast
      exact String.toList_eq_nil_iff.mp hlast
    next hlast =>
      obtain ⟨front, hfront⟩ := List.getLast?_eq_some_iff.mp hlast
      refine .inl ⟨front, hfront, ?_⟩
      rw [String.toList_append, hfront, List.append_assoc, List.singleton_append]
    next =>
      right
      simp [String.toList_append]
  · rw [beq_iff_eq]
    intro hhead
    obtain ⟨cs, hcs⟩ := List.head?_eq_some_iff.mp hhead
    exact hname.noSlash (hcs ▸ List.mem_cons_self)

/-- The name is the last segment, behind those of the path. A slash at the end of the path is not
doubled. -/
theorem exists_parts_join {p : Path} {name : String} (hname : IsName name) (hp : p.text ≠ "") :
    ∃ front, (p.join name).parts = front ++ [name] ∧ (p.parts = front ∨ p.parts = front ++ [""]) := by
  have hlast : (segments '/' name.toList).map String.ofList = [name] := by
    rw [segments_of_notMem hname.noSlash, List.map_singleton, String.ofList_toList]
  rcases text_join hname hp with ⟨front, hfront, htext⟩ | htext
  · refine ⟨(segments '/' front).map String.ofList, ?_, .inr ?_⟩
    · rw [parts, splitText, htext, segments_append, List.map_append, hlast]
    · rw [parts, splitText, hfront, segments_append, List.map_append]
      rfl
  · refine ⟨p.parts, ?_, .inl rfl⟩
    rw [parts, splitText, htext, segments_append, List.map_append, hlast]
    rfl

theorem text_sublist_join {p : Path} {name : String} (hname : IsName name) (hp : p.text ≠ "") :
    p.text.toList.Sublist (p.join name).text.toList := by
  rcases text_join hname hp with ⟨front, hfront, htext⟩ | htext
  · rw [hfront, htext]
    exact (List.Sublist.refl front).append ((List.nil_sublist _).cons_cons '/')
  · rw [htext]
    exact List.sublist_append_left _ _

end Path

end BuildScript
