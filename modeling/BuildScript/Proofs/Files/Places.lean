import BuildScript.Proofs.Bytecode.WellFormed
import BuildScript.Proofs.Files.Components
import Mathlib.Data.List.Induction

/-!
# Places of paths

Where a path leads if everything on its way is a directory: each segment goes one step down, `..`
goes one step up, and empty segments and `.` stay. A walk through a tree that succeeds ends at this
place, and it succeeds exactly if every step starts at a directory. So what a path leads to can be
said without the tree, and two trees can be compared along one path.
-/

namespace BuildScript

/-! ## Steps -/

namespace Location

/-- Where a segment leads to from a directory. -/
def step (place : Location) (segment : String) : Location :=
  if segment == "" || segment == "." then place
  else if segment == ".." then place.dropLast
  else place ++ [segment]

theorem step_of_not_counts {place : Location} {segment : String} (h : ¬counts segment) :
    step place segment = place := by
  rw [step, if_pos]
  simpa [counts, Classical.or_iff_not_imp_left] using h

theorem foldl_step_filter (place : Location) (segments : List String) :
    (segments.filter counts).foldl step place = segments.foldl step place := by
  induction segments generalizing place with
  | nil => rfl
  | cons s ss ih =>
    by_cases hs : counts s = true
    · rw [List.filter_cons_of_pos hs, List.foldl_cons, List.foldl_cons, ih]
    · rw [List.filter_cons_of_neg hs, List.foldl_cons, step_of_not_counts hs, ih]

end Location

namespace Path

/-- Where the path leads if everything on its way is a directory. -/
def place (p : Path) : Location := p.parts.foldl Location.step []

theorem place_eq_foldl_components (p : Path) : p.place = p.components.foldl Location.step [] := by
  have hnamed : p.parts.filter Location.counts =
      (splitText '/' p.text).filter fun s ↦ s != "" && s != "." := rfl
  rw [place, ← Location.foldl_step_filter, hnamed, components]
  split
  · rfl
  · rfl

end Path

/-! ## Walks -/

namespace FileTree

variable {t t' : FileTree}

/-- One step of a walk starts at a directory. Its segment is no longer than a name can be. -/
theorem walk_cons_eq_ok_iff {place place' : Location} {s : String} {ss : List String} :
    t.walk place (s :: ss) = .ok place' ↔
      t.node? place = some .directory ∧ s.utf8ByteSize ≤ maxNameLength ∧
        t.walk (Location.step place s) ss = .ok place' := by
  have hempty : "".utf8ByteSize ≤ maxNameLength := by decide
  have hdot : ".".utf8ByteSize ≤ maxNameLength := by decide
  have hdots : "..".utf8ByteSize ≤ maxNameLength := by decide
  rw [walk]
  split
  next h => simp [h]
  next h => simp [h]
  next h =>
    rw [Location.step, h]
    by_cases hstay : (s == "" || s == ".") = true
    · rw [if_pos hstay, if_pos hstay]
      have hs : s.utf8ByteSize ≤ maxNameLength := by
        rcases Bool.or_eq_true_iff.mp hstay with hs | hs
        · rwa [eq_of_beq hs]
        · rwa [eq_of_beq hs]
      simp [hs]
    · rw [if_neg hstay, if_neg hstay]
      by_cases hup : (s == "..") = true
      · rw [if_pos hup, if_pos hup, eq_of_beq hup]
        simp [hdots]
      · rw [if_neg hup, if_neg hup]
        by_cases hlong : maxNameLength < s.utf8ByteSize
        · simp [hlong, Nat.not_le.mpr hlong]
        · simp [hlong, Nat.not_lt.mp hlong]

/-- A walk ends where its segments lead. -/
theorem walk_eq_foldl {place place' : Location} {ss : List String}
    (h : t.walk place ss = .ok place') : place' = ss.foldl Location.step place := by
  induction ss generalizing place with
  | nil => exact (Except.ok.inj h).symm
  | cons s ss ih => exact ih (walk_cons_eq_ok_iff.mp h).2.2

theorem walk_append {place : Location} {ss ss' : List String} :
    t.walk place (ss ++ ss') = t.walk place ss >>= fun place' ↦ t.walk place' ss' := by
  induction ss generalizing place with
  | nil => rfl
  | cons s ss ih =>
    rw [List.cons_append, walk, walk]
    split
    · rfl
    · rfl
    · split
      · exact ih
      · split
        · exact ih
        · split
          · rfl
          · exact ih

/-- A walk goes the same way in a tree that has all the directories. -/
theorem walk_mono (hdirectory : ∀ l, t.node? l = some .directory → t'.node? l = some .directory)
    {place place' : Location} {ss : List String} (h : t.walk place ss = .ok place') :
    t'.walk place ss = .ok place' := by
  induction ss generalizing place with
  | nil => exact h
  | cons s ss ih =>
    obtain ⟨hplace, hs, h⟩ := walk_cons_eq_ok_iff.mp h
    exact walk_cons_eq_ok_iff.mpr ⟨hdirectory _ hplace, hs, ih h⟩

/-- A walk that never goes up stays below where it starts. -/
theorem prefix_foldl_step {place : Location} {ss : List String} (hplain : ".." ∉ ss) :
    place <+: ss.foldl Location.step place := by
  induction ss generalizing place with
  | nil => exact List.prefix_rfl
  | cons s ss ih =>
    have hs : s ≠ ".." := fun h ↦ hplain (h ▸ List.mem_cons_self)
    have hss : ".." ∉ ss := fun h ↦ hplain (List.mem_cons_of_mem s h)
    have hstep : place <+: Location.step place s := by
      rw [Location.step]
      split
      · exact List.prefix_rfl
      · rw [if_neg (by simpa using hs)]
        exact List.prefix_append _ _
    exact hstep.trans (ih hss)

/-- A walk that never goes up and ends for want of a directory has come to a location on its way
where nothing is. -/
theorem exists_missing_of_walk {place : Location} {ss : List String} (hplain : ".." ∉ ss)
    (h : t.walk place ss = .error .notFound) :
    ∃ l, l <+: ss.foldl Location.step place ∧ t.node? l = none := by
  induction ss generalizing place with
  | nil => cases h
  | cons s ss ih =>
    have hs : s ≠ ".." := fun h ↦ hplain (h ▸ List.mem_cons_self)
    have hss : ".." ∉ ss := fun h ↦ hplain (List.mem_cons_of_mem s h)
    rw [walk] at h
    split at h
    next hnone => exact ⟨place, prefix_foldl_step hplain, hnone⟩
    next => cases h
    next =>
      rw [List.foldl_cons, Location.step]
      split at h
      next hstay =>
        rw [if_pos hstay]
        exact ih hss h
      next hstay =>
        have hup : ¬(s == "..") = true := by simpa using hs
        rw [if_neg hup] at h
        rw [if_neg hstay, if_neg hup]
        split at h
        · cases h
        · exact ih hss h

theorem walk_concat_empty {place : Location} {ss : List String} {directory : Location} :
    t.walk place (ss ++ [""]) = .ok directory ↔
      t.walk place ss = .ok directory ∧ t.node? directory = some .directory := by
  rw [walk_append, bind_eq_ok]
  constructor
  · rintro ⟨place', hwalk, hlast⟩
    obtain ⟨hdirectory, -, hstay⟩ := walk_cons_eq_ok_iff.mp hlast
    obtain rfl : place' = directory := Except.ok.inj hstay
    exact ⟨hwalk, hdirectory⟩
  · rintro ⟨hwalk, hdirectory⟩
    exact ⟨directory, hwalk, walk_cons_eq_ok_iff.mpr ⟨hdirectory, by decide, rfl⟩⟩

/-- Segments that stay can be left out. -/
theorem walk_filter {place place' : Location} {ss : List String} (h : t.walk place ss = .ok place') :
    t.walk place (ss.filter Location.counts) = .ok place' := by
  induction ss generalizing place with
  | nil => exact h
  | cons s ss ih =>
    obtain ⟨hplace, hs, h⟩ := walk_cons_eq_ok_iff.mp h
    by_cases hcounts : Location.counts s = true
    · rw [List.filter_cons_of_pos hcounts]
      exact walk_cons_eq_ok_iff.mpr ⟨hplace, hs, ih h⟩
    · rw [List.filter_cons_of_neg hcounts]
      rw [Location.step_of_not_counts hcounts] at h
      exact ih h

/-! ## Lookups -/

end FileTree

/-- A text that is a path at all. -/
structure Path.Usable (p : Path) : Prop where
  noNull : '\x00' ∉ p.text.toList
  nonempty : p.text ≠ ""
  short : p.text.utf8ByteSize ≤ FileTree.maxPathLength

namespace Path

variable {p q : Path}

theorem usable_parent (h : p.Usable) (hq : p.parent? = some q) (hne : q.components ≠ []) :
    q.Usable where
  noNull hmem := h.noNull ((text_parent_sublist hq).mem hmem)
  nonempty hempty := hne (by rw [components_eq, parts, hempty]; rfl)
  short := Nat.le_trans (utf8ByteSize_le_of_sublist (text_parent_sublist hq)) h.short

theorem upwards_eq_nil (h : p.components = []) (n : Nat) : ancestors.upwards n p = [] := by
  cases n with
  | zero => rfl
  | succ n =>
    have hnone : p.parent? = none := by rw [parent?, h]
    rw [ancestors.upwards, hnone]

/-- A path that never goes up. -/
def IsPlain (p : Path) : Prop := ".." ∉ p.parts

instance : DecidablePred IsPlain := fun p ↦ inferInstanceAs (Decidable (".." ∉ p.parts))

theorem isPlain_parent (h : p.IsPlain) (hq : p.parent? = some q) (hne : q.components ≠ []) :
    q.IsPlain := by
  intro hmem
  rw [parts_parent hq hne, components_parent hq] at hmem
  rcases List.mem_append.mp hmem with hmem | hmem
  · split at hmem <;> simp at hmem
  · exact h ((components_sublist_parts p).mem (List.dropLast_subset _ hmem))

theorem place_prefix_parent (h : p.IsPlain) (hq : p.parent? = some q) : q.place <+: p.place := by
  have hcomponents : p.components = q.components ++ [p.components.getLast (parent_eq hq).1] := by
    rw [components_parent hq, List.dropLast_concat_getLast]
  have hlast : p.components.getLast (parent_eq hq).1 ≠ ".." := fun heq ↦
    h ((components_sublist_parts p).mem (heq ▸ List.getLast_mem _))
  rw [place_eq_foldl_components p, hcomponents, List.foldl_append, ← place_eq_foldl_components,
    List.foldl_cons, List.foldl_nil, Location.step]
  split
  · exact List.prefix_rfl
  · rw [if_neg (by simpa using hlast)]
    exact List.prefix_append _ _

/-- The directories above a path that never goes up lie on its way. -/
theorem place_prefix_of_mem_ancestors (h : p.IsPlain) (hq : q ∈ p.ancestors) :
    q.place <+: p.place := by
  rw [ancestors] at hq
  generalize p.components.length = n at hq
  induction n generalizing p with
  | zero => exact absurd hq List.not_mem_nil
  | succ n ih =>
    rw [ancestors.upwards] at hq
    split at hq
    · exact absurd hq List.not_mem_nil
    · next q' hparent =>
      rcases List.mem_cons.mp hq with rfl | hq
      · exact List.prefix_rfl
      · by_cases hne : q'.components = []
        · rw [upwards_eq_nil hne] at hq
          exact absurd hq List.not_mem_nil
        · exact (ih (isPlain_parent h hparent hne) hq).trans (place_prefix_parent h hparent)

theorem place_join {name : String} (hname : IsName name) (hp : p.text ≠ "") :
    (p.join name).place = Location.step p.place name := by
  obtain ⟨front, hjoin, hparts | hparts⟩ := exists_parts_join hname hp
  · rw [place, place, hjoin, hparts, List.foldl_append]
    rfl
  · rw [place, place, hjoin, hparts, List.foldl_append, List.foldl_append]
    rfl

end Path

namespace FileTree

variable {t t' : FileTree} {p : Path}

theorem segmentsOf_of_usable (h : p.Usable) : segmentsOf p = .ok p.parts := by
  rw [segmentsOf, if_neg (by simpa using h.noNull),
    if_neg (by simpa using h.nonempty), if_neg (Nat.not_lt.mpr h.short)]
  rfl

theorem usable_of_segmentsOf {ss : List String} (h : segmentsOf p = .ok ss) : p.Usable := by
  rw [segmentsOf] at h
  split at h
  · cases h
  · next hnull =>
    split at h
    · cases h
    · next hempty =>
      split at h
      · cases h
      · next hlong => exact ⟨by simpa using hnull, by simpa using hempty, Nat.not_lt.mp hlong⟩

theorem locate_eq_ok_iff {place : Location} :
    t.locate p = .ok place ↔ p.Usable ∧ t.walk [] p.parts = .ok place := by
  rw [locate, bind_eq_ok]
  constructor
  · rintro ⟨ss, hss, hwalk⟩
    have husable := usable_of_segmentsOf hss
    rw [segmentsOf_of_usable husable] at hss
    rw [← Except.ok.inj hss] at hwalk
    exact ⟨husable, hwalk⟩
  · rintro ⟨husable, hwalk⟩
    exact ⟨p.parts, segmentsOf_of_usable husable, hwalk⟩

/-- A path leads to its place, if it leads anywhere. -/
theorem place_eq_of_locate {place : Location} (h : t.locate p = .ok place) : place = p.place :=
  walk_eq_foldl (locate_eq_ok_iff.mp h).2

theorem locate_mono (hdirectory : ∀ l, t.node? l = some .directory → t'.node? l = some .directory)
    {place : Location} (h : t.locate p = .ok place) : t'.locate p = .ok place := by
  obtain ⟨husable, hwalk⟩ := locate_eq_ok_iff.mp h
  exact locate_eq_ok_iff.mpr ⟨husable, walk_mono hdirectory hwalk⟩

/-- A path with a name behind it leads through the directory of the path. -/
theorem locate_of_locate_join {name : String} {place : Location} (hname : Path.IsName name)
    (hp : p.text ≠ "") (h : t.locate (p.join name) = .ok place) :
    t.locate p = .ok p.place ∧ t.node? p.place = some .directory := by
  obtain ⟨husable, hwalk⟩ := locate_eq_ok_iff.mp h
  have hp : p.Usable := ⟨fun hmem ↦ husable.noNull ((Path.text_sublist_join hname hp).mem hmem), hp,
    Nat.le_trans (utf8ByteSize_le_of_sublist (Path.text_sublist_join hname hp)) husable.short⟩
  obtain ⟨front, hjoin, hparts⟩ := Path.exists_parts_join hname hp.nonempty
  rw [hjoin, walk_append, bind_eq_ok] at hwalk
  obtain ⟨directory, hfront, hlast⟩ := hwalk
  have hdirectory := (walk_cons_eq_ok_iff.mp hlast).1
  have hlocate : t.locate p = .ok directory := by
    refine locate_eq_ok_iff.mpr ⟨hp, ?_⟩
    rcases hparts with hparts | hparts
    · rwa [hparts]
    · rw [hparts]
      exact walk_concat_empty.mpr ⟨hfront, hdirectory⟩
  obtain rfl := place_eq_of_locate hlocate
  exact ⟨hlocate, hdirectory⟩

theorem lookup_eq_ok_iff {n : FileNode} :
    t.lookup p = .ok n ↔ t.locate p = .ok p.place ∧ t.node? p.place = some n := by
  rw [lookup, bind_eq_ok]
  constructor
  · rintro ⟨place, hplace, h⟩
    obtain rfl := place_eq_of_locate hplace
    split at h
    · next hnode =>
      obtain rfl := Except.ok.inj h
      exact ⟨hplace, hnode⟩
    · cases h
  · rintro ⟨hplace, hnode⟩
    refine ⟨_, hplace, ?_⟩
    rw [hnode]
    rfl

theorem lookup_eq_notFound (hlocate : t.locate p = .ok p.place) (hnode : t.node? p.place = none) :
    t.lookup p = .error .notFound := by
  rw [lookup, hlocate]
  simp only [bind, Except.bind]
  rw [hnode]
  rfl

/-- If nothing is found at a path that never goes up, some location on its way is vacant. -/
theorem exists_missing_of_lookup (husable : p.Usable) (hplain : p.IsPlain)
    (h : t.lookup p = .error .notFound) : ∃ l, l <+: p.place ∧ t.node? l = none := by
  have hlocate : t.locate p = t.walk [] p.parts := by
    rw [locate, segmentsOf_of_usable husable]
    rfl
  cases hwalk : t.locate p with
  | error e =>
    have herror : t.lookup p = .error e := by
      rw [lookup, hwalk]
      rfl
    rw [herror] at h
    cases h
    exact exists_missing_of_walk hplain (hlocate ▸ hwalk)
  | ok place =>
    obtain rfl := place_eq_of_locate hwalk
    cases hnode : t.node? p.place with
    | none => exact ⟨p.place, List.prefix_rfl, hnode⟩
    | some n =>
      rw [lookup_eq_ok_iff.mpr ⟨hwalk, hnode⟩] at h
      cases h

theorem isDirectory_iff : t.isDirectory p = true ↔ t.lookup p = .ok .directory := by
  rw [isDirectory]
  split
  next h => simp [h]
  next h =>
    refine iff_of_false Bool.false_ne_true fun hlookup ↦ h hlookup

theorem walk_stay {place : Location} {s : String} (hs : Location.counts s = false)
    (hplace : t.node? place = some .directory) (ss : List String) :
    t.walk place (s :: ss) = t.walk place ss := by
  rw [walk, hplace]
  refine if_pos ?_
  simpa [Location.counts, Classical.or_iff_not_imp_left] using hs

theorem walk_components {place : Location} (h : t.walk [] p.parts = .ok place) :
    t.walk [] p.components = .ok place := by
  rw [Path.components_eq]
  split
  next =>
    rw [List.singleton_append, walk_stay rfl rfl]
    exact walk_filter h
  next => exact walk_filter h

theorem walk_parts_parent {q : Path} (hq : p.parent? = some q) (hne : q.components ≠ []) :
    t.walk [] q.parts = t.walk [] q.components := by
  rw [Path.parts_parent hq hne]
  split
  next => exact walk_stay rfl rfl _
  next => rfl

/-- The path above a directory is one of a directory. -/
theorem isDirectory_parent {q : Path} (h : t.isDirectory p = true) (hq : p.parent? = some q)
    (hne : q.components ≠ []) : t.isDirectory q = true := by
  obtain ⟨hlocate, hnode⟩ := lookup_eq_ok_iff.mp (isDirectory_iff.mp h)
  obtain ⟨husable, hwalk⟩ := locate_eq_ok_iff.mp hlocate
  -- The walk along the components of `p` passes the end of those of `q`.
  have hcomponents : p.components = q.components ++ [p.components.getLast (Path.parent_eq hq).1] := by
    rw [Path.components_parent hq, List.dropLast_concat_getLast]
  have hwalk := walk_components hwalk
  rw [hcomponents, walk_append, bind_eq_ok] at hwalk
  obtain ⟨place, hplace, hlast⟩ := hwalk
  have hdirectory := (walk_cons_eq_ok_iff.mp hlast).1
  have hlocateq : t.locate q = .ok place :=
    locate_eq_ok_iff.mpr ⟨Path.usable_parent husable hq hne, by rwa [walk_parts_parent hq hne]⟩
  obtain rfl := place_eq_of_locate hlocateq
  exact isDirectory_iff.mpr (lookup_eq_ok_iff.mpr ⟨hlocateq, hdirectory⟩)

/-- All paths of directories above a directory are those of directories. -/
theorem isDirectory_of_mem_ancestors {q : Path} (h : t.isDirectory p = true)
    (hq : q ∈ p.ancestors) : t.isDirectory q = true := by
  rw [Path.ancestors] at hq
  generalize p.components.length = n at hq
  induction n generalizing p with
  | zero => exact absurd hq List.not_mem_nil
  | succ n ih =>
    rw [Path.ancestors.upwards] at hq
    split at hq
    · exact absurd hq List.not_mem_nil
    · next q' hparent =>
      rcases List.mem_cons.mp hq with rfl | hq
      · exact h
      · by_cases hne : q'.components = []
        · rw [Path.upwards_eq_nil hne] at hq
          exact absurd hq List.not_mem_nil
        · exact ih (isDirectory_parent h hparent hne) hq

/-! ## Entries -/

/-- The last segment that is not empty, and what stands around it. -/
theorem exists_parts_eq (p : Path) : (∀ s ∈ p.parts, s = "") ∨
    ∃ front name slashes, p.parts = front ++ name :: slashes ∧ name ≠ "" ∧ ∀ s ∈ slashes, s = "" := by
  generalize p.parts = ss
  induction ss using List.reverseRecOn with
  | nil => exact .inl fun _ h ↦ absurd h List.not_mem_nil
  | append_singleton ss s ih =>
    by_cases hs : s = ""
    · rcases ih with hall | ⟨front, name, slashes, rfl, hname, hslashes⟩
      · refine .inl fun s' hs' ↦ ?_
        rcases List.mem_append.mp hs' with h | h
        · exact hall s' h
        · rw [List.mem_singleton.mp h, hs]
      · refine .inr ⟨front, name, slashes ++ [s], by simp, hname, fun s' hs' ↦ ?_⟩
        rcases List.mem_append.mp hs' with h | h
        · exact hslashes s' h
        · rw [List.mem_singleton.mp h, hs]
    · exact .inr ⟨ss, s, [], rfl, hs, fun _ h ↦ absurd h List.not_mem_nil⟩

theorem entry_of_usable (husable : p.Usable) {named : List String}
    (hnamed : p.parts.reverse.dropWhile (· == "") = named) :
    t.entry p = (t.walk [] (named.tail.reverse ++ [""])).map fun directory ↦
      ⟨directory, named.headD "", named.length < p.parts.length⟩ := by
  rw [entry, segmentsOf_of_usable husable]
  simp only [bind, Except.bind, pure, Except.pure, hnamed, List.length_reverse]
  cases t.walk [] (named.tail.reverse ++ [""]) <;> rfl

theorem entry_of_parts {front slashes : List String} {name : String} (husable : p.Usable)
    (hparts : p.parts = front ++ name :: slashes) (hname : name ≠ "")
    (hslashes : ∀ s ∈ slashes, s = "") :
    t.entry p = (t.walk [] (front ++ [""])).map fun directory ↦
      ⟨directory, name, !slashes.isEmpty⟩ := by
  have hdrop : p.parts.reverse.dropWhile (· == "") = name :: front.reverse := by
    rw [hparts, List.reverse_append, List.reverse_cons, List.append_assoc,
      List.dropWhile_append_of_pos]
    · exact List.dropWhile_cons_of_neg (by simpa using hname)
    · intro s hs
      exact beq_iff_eq.mpr (hslashes s (List.mem_reverse.mp hs))
  have hslash : decide ((name :: front.reverse).length < p.parts.length) = !slashes.isEmpty := by
    rw [hparts]
    cases slashes with
    | nil => simp
    | cons s ss =>
      simp only [List.length_cons, List.length_append, List.length_reverse, List.isEmpty_cons,
        Bool.not_false, decide_eq_true_eq]
      omega
  rw [entry_of_usable husable hdrop, hslash, List.tail_cons, List.reverse_reverse, List.headD_cons]

/-- Only the root is written without a name. -/
theorem entry_of_parts_empty (husable : p.Usable) (hparts : ∀ s ∈ p.parts, s = "") :
    t.entry p = .ok ⟨[], "", 0 < p.parts.length⟩ := by
  have hdrop : p.parts.reverse.dropWhile (· == "") = [] := by
    rw [← List.append_nil (p.parts.reverse), List.dropWhile_append_of_pos]
    · rfl
    · intro s hs
      exact beq_iff_eq.mpr (hparts s (List.mem_reverse.mp hs))
  exact entry_of_usable husable hdrop

/-- What the entry of a path says about the path. -/
structure EntryOf (t : FileTree) (p : Path) (e : Entry) (front slashes : List String) : Prop where
  usable : p.Usable
  parts_eq : p.parts = front ++ e.name :: slashes
  slashes_empty : ∀ s ∈ slashes, s = ""
  slash_eq : e.slash = !slashes.isEmpty
  walk_front : t.walk [] front = .ok e.directory
  directory : t.node? e.directory = some .directory

theorem exists_entryOf {e : Entry} (h : t.entry p = .ok e) (hnamed : e.isNamed = true) :
    ∃ front slashes, t.EntryOf p e front slashes := by
  have husable : p.Usable := by
    rw [entry, bind_eq_ok] at h
    obtain ⟨ss, hss, -⟩ := h
    exact usable_of_segmentsOf hss
  rcases exists_parts_eq p with hall | ⟨front, name, slashes, hparts, hname, hslashes⟩
  · rw [entry_of_parts_empty husable hall] at h
    rw [← Except.ok.inj h] at hnamed
    exact absurd hnamed Bool.false_ne_true
  · rw [entry_of_parts husable hparts hname hslashes] at h
    cases hwalk : t.walk [] (front ++ [""]) with
    | error _ =>
      rw [hwalk] at h
      cases h
    | ok directory =>
      rw [hwalk] at h
      obtain rfl := Except.ok.inj h
      obtain ⟨hfront, hdirectory⟩ := walk_concat_empty.mp hwalk
      exact ⟨front, slashes, husable, hparts, hslashes, rfl, hfront, hdirectory⟩

namespace EntryOf

variable {e : Entry} {front slashes : List String}

theorem foldl_slashes (h : t.EntryOf p e front slashes) (place : Location) :
    slashes.foldl Location.step place = place := by
  have hfilter : slashes.filter Location.counts = [] := by
    rw [List.filter_eq_nil_iff]
    intro s hs
    rw [h.slashes_empty s hs]
    decide
  rw [← Location.foldl_step_filter, hfilter]
  rfl

theorem step_name (hnamed : e.isNamed = true) : Location.step e.directory e.name = e.place := by
  simp only [Entry.isNamed, Bool.and_eq_true, bne_iff_ne] at hnamed
  rw [Location.step, if_neg (by simp [hnamed.1.1, hnamed.1.2]), if_neg (by simp [hnamed.2])]
  rfl

/-- The entry of a path is at its place. -/
theorem place_eq (h : t.EntryOf p e front slashes) (hnamed : e.isNamed = true) :
    e.place = p.place := by
  rw [Path.place, h.parts_eq, List.foldl_append, ← walk_eq_foldl h.walk_front, List.foldl_cons,
    h.foldl_slashes, step_name hnamed]

theorem locate_eq (h : t.EntryOf p e front slashes) (hnamed : e.isNamed = true)
    (hslash : e.slash = false) (hshort : e.name.utf8ByteSize ≤ maxNameLength) :
    t.locate p = .ok p.place := by
  have hslashes : slashes = [] := by
    have := h.slash_eq
    rw [hslash] at this
    simpa using this.symm
  refine locate_eq_ok_iff.mpr ⟨h.usable, ?_⟩
  rw [h.parts_eq, hslashes, walk_append, h.walk_front, ← h.place_eq hnamed]
  exact walk_cons_eq_ok_iff.mpr ⟨h.directory, hshort, by rw [step_name hnamed]; rfl⟩

end EntryOf

theorem place_eq_of_entry {e : Entry} (h : t.entry p = .ok e) (hnamed : e.isNamed = true) :
    e.place = p.place := by
  obtain ⟨front, slashes, hentry⟩ := exists_entryOf h hnamed
  exact hentry.place_eq hnamed

/-- What can be looked up has an entry, which is there if it has a name. -/
theorem exists_entry_of_lookup {n : FileNode} (h : t.lookup p = .ok n) :
    ∃ e, t.entry p = .ok e ∧ (e.isNamed = true → t.entryNode? e = .ok (some n)) := by
  obtain ⟨hlocate, hnode⟩ := lookup_eq_ok_iff.mp h
  obtain ⟨husable, hwalk⟩ := locate_eq_ok_iff.mp hlocate
  rcases exists_parts_eq p with hall | ⟨front, name, slashes, hparts, hname, hslashes⟩
  · exact ⟨_, entry_of_parts_empty husable hall, fun h ↦ absurd h Bool.false_ne_true⟩
  · rw [hparts, walk_append, bind_eq_ok] at hwalk
    obtain ⟨directory, hfront, hrest⟩ := hwalk
    obtain ⟨hdirectory, hshort, -⟩ := walk_cons_eq_ok_iff.mp hrest
    have hentry := entry_of_parts (t := t) husable hparts hname hslashes
    rw [walk_concat_empty.mpr ⟨hfront, hdirectory⟩] at hentry
    refine ⟨_, hentry, fun hnamed ↦ ?_⟩
    rw [entryNode?, if_neg (Nat.not_lt.mpr hshort), place_eq_of_entry hentry hnamed, hnode]

end FileTree

end BuildScript
