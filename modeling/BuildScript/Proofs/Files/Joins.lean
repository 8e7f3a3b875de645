import BuildScript.Proofs.Files.Places

/-!
# Paths below a root

A name that is put behind a path is one more component, whatever the path looks like: it may be
empty, end in a slash, or begin with a dot. So names put behind one root one after the other are
simply the components behind those of the root (`below_foldl_join`), and different names are
different paths. This holds of names that lead one step down, which excludes `.` and `..`.
-/

namespace BuildScript

/-! ## Names that lead down -/

namespace Path

/-- A name that leads one step down. -/
structure IsEntry (name : String) : Prop extends IsName name where
  ne_dot : name ≠ "."
  ne_dots : name ≠ ".."

variable {p root : Path} {name : String}

theorem IsEntry.counts (h : IsEntry name) : Location.counts name = true := by
  rw [Location.counts, Bool.and_eq_true, bne_iff_ne, bne_iff_ne]
  exact ⟨h.nonempty, h.ne_dot⟩

theorem IsEntry.step (h : IsEntry name) (place : Location) :
    Location.step place name = place ++ [name] := by
  rw [Location.step, if_neg, if_neg]
  · simpa using h.ne_dots
  · simpa using ⟨h.nonempty, h.ne_dot⟩

theorem IsEntry.foldl_step {names : List String} (h : ∀ s ∈ names, IsEntry s) (place : Location) :
    names.foldl Location.step place = place ++ names := by
  induction names generalizing place with
  | nil => exact (List.append_nil place).symm
  | cons s names ih =>
    obtain ⟨hs, hnames⟩ := List.forall_mem_cons.mp h
    rw [List.foldl_cons, hs.step, ih hnames, List.append_assoc, List.singleton_append]

/-- A dotted name is cut into names without dots, so none of these is `.` or `..`. -/
theorem isEntry_of_dotless (h : IsName name) (hdot : '.' ∉ name.toList) : IsEntry name := by
  refine ⟨h, ?_, ?_⟩
  · rintro rfl
    exact hdot (by decide)
  · rintro rfl
    exact hdot (by decide)

theorem IsEntry.append_extension {extension : String} (h : IsName name) (hslash : '/' ∉ extension.toList)
    (hletter : ∃ c ∈ extension.toList, c ≠ '.') : IsEntry (name ++ extension) := by
  obtain ⟨c, hc, hne⟩ := hletter
  have hmem : c ∈ (name ++ extension).toList := by
    rw [String.toList_append]
    exact List.mem_append_right _ hc
  refine ⟨⟨?_, ?_⟩, ?_, ?_⟩
  · intro hempty
    rw [hempty] at hmem
    exact List.not_mem_nil hmem
  · rw [String.toList_append, List.mem_append, not_or]
    exact ⟨h.noSlash, hslash⟩
  · intro heq
    rw [heq] at hmem
    exact hne (List.mem_singleton.mp hmem)
  · intro heq
    rw [heq] at hmem
    rcases List.mem_cons.mp hmem with rfl | hmem
    · exact hne rfl
    · exact hne (List.mem_singleton.mp hmem)

/-! ## Names behind a path -/

theorem join_of_empty (hname : IsName name) (hp : p.text = "") : p.join name = ⟨name⟩ := by
  have hslash : ¬(name.toList.head? == some '/') = true := fun h ↦
    hname.noSlash (List.mem_of_mem_head? (eq_of_beq h))
  rw [join, if_neg hslash, hp]
  exact congrArg Path.mk String.empty_append

theorem parts_of_noSlash (h : '/' ∉ name.toList) : parts ⟨name⟩ = [name] := by
  exact splitText_of_notMem h

theorem parts_of_empty (hp : p.text = "") : p.parts = [""] := by
  rw [parts, hp]
  rfl

/-- An empty name behind a path is a slash at its end. -/
theorem exists_parts_join_empty (p : Path) : ∃ front, (p.join "").parts = front ++ [""] := by
  have hslash (front : List Char) :
      segments '/' (front ++ ['/']) = segments '/' front ++ [[]] := segments_append front []
  rw [join, if_neg (by decide)]
  split
  · next hlast =>
    rw [List.getLast?_eq_none_iff, String.toList_eq_nil_iff] at hlast
    exact ⟨[], by rw [hlast]; rfl⟩
  · next hlast =>
    obtain ⟨front, hfront⟩ := List.getLast?_eq_some_iff.mp hlast
    refine ⟨(segments '/' front).map String.ofList, ?_⟩
    rw [parts, splitText, String.append_empty, hfront, hslash, List.map_append]
    rfl
  · refine ⟨p.parts, ?_⟩
    rw [parts, splitText, String.append_empty, String.toList_append]
    exact (congrArg _ (hslash p.text.toList)).trans List.map_append

theorem components_join (hname : IsEntry name) (p : Path) :
    (p.join name).components = p.components ++ [name] := by
  have hlast : [name].filter Location.counts = [name] := List.filter_cons_of_pos hname.counts
  by_cases hp : p.text = ""
  · rw [join_of_empty hname.toIsName hp, components_eq, components_eq,
      parts_of_noSlash hname.noSlash, parts_of_empty hp, hlast]
    have hhead : [name].head? ≠ some "." := fun h ↦ hname.ne_dot (Option.some.inj h)
    rw [if_neg hhead]
    rfl
  · obtain ⟨front, hjoin, hparts⟩ := exists_parts_join hname.toIsName hp
    have hfilter : p.parts.filter Location.counts = front.filter Location.counts := by
      rcases hparts with hparts | hparts
      · rw [hparts]
      · rw [hparts, List.filter_append, List.filter_cons_of_neg (by decide), List.filter_nil,
          List.append_nil]
    -- The leading dot is the first part of both paths or of none.
    have hhead : (front ++ [name]).head? = some "." ↔ p.parts.head? = some "." := by
      cases front with
      | nil =>
        refine iff_of_false (fun h ↦ hname.ne_dot (Option.some.inj h)) fun h ↦ ?_
        rcases hparts with hparts | hparts
        · rw [hparts] at h
          cases h
        · rw [hparts] at h
          exact absurd (Option.some.inj h) (by decide)
      | cons s front =>
        rcases hparts with hparts | hparts
        · rw [hparts]
          rfl
        · rw [hparts]
          rfl
    rw [components_eq, components_eq, hjoin, List.filter_append, hlast, hfilter]
    simp only [hhead, List.append_assoc]

theorem isAbsolute_join (hname : IsName name) (p : Path) :
    (p.join name).isAbsolute = p.isAbsolute := by
  by_cases hp : p.text = ""
  · rw [join_of_empty hname hp, isAbsolute, isAbsolute, hp, Bool.eq_iff_iff]
    refine iff_of_false (fun h ↦ ?_) (by decide)
    exact hname.noSlash (List.mem_of_mem_head? (eq_of_beq h))
  · rw [isAbsolute, isAbsolute]
    rcases text_join hname hp with ⟨front, hfront, htext⟩ | htext
    · rw [hfront, htext]
      cases front with
      | nil => rfl
      | cons c front => rfl
    · rw [htext]
      cases hcs : p.text.toList with
      | nil => exact absurd (String.toList_eq_nil_iff.mp hcs) hp
      | cons c cs => rfl

/-- The path leads below the root: behind the components of the root stand names that lead down. -/
structure Below (root : Path) (below : Location) (p : Path) : Prop where
  nonempty : below ≠ []
  entries : ∀ s ∈ below, IsEntry s
  isAbsolute_eq : p.isAbsolute = root.isAbsolute
  components_eq : p.components = root.components ++ below

/-- Where the path leads lies below where the root leads. -/
theorem Below.place_eq {below : Location} (h : root.Below below p) :
    p.place = root.place ++ below := by
  rw [place_eq_foldl_components, h.components_eq, List.foldl_append, ← place_eq_foldl_components,
    IsEntry.foldl_step h.entries]

theorem Below.same_iff {q : Path} {below below' : Location} (hp : root.Below below p)
    (hq : root.Below below' q) : p.same q = true ↔ below = below' := by
  rw [same, Bool.and_eq_true, beq_iff_eq, beq_iff_eq, hp.isAbsolute_eq, hq.isAbsolute_eq,
    hp.components_eq, hq.components_eq, List.append_cancel_left_eq, eq_self_iff_true, true_and]

theorem below_foldl_join {names : List String} (hne : names ≠ []) (h : ∀ s ∈ names, IsEntry s)
    (root : Path) : root.Below names (names.foldl join root) := by
  refine ⟨hne, h, ?_, ?_⟩
  · clear hne
    induction names generalizing root with
    | nil => rfl
    | cons s names ih =>
      obtain ⟨hs, hnames⟩ := List.forall_mem_cons.mp h
      rw [List.foldl_cons, ih hnames, isAbsolute_join hs.toIsName]
  · clear hne
    induction names generalizing root with
    | nil => exact (List.append_nil _).symm
    | cons s names ih =>
      obtain ⟨hs, hnames⟩ := List.forall_mem_cons.mp h
      rw [List.foldl_cons, ih hnames, components_join hs, List.append_assoc, List.singleton_append]

end Path

end BuildScript
