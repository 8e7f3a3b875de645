import BuildScript.Proofs.Files.Operations
import BuildScript.Proofs.Files.Places
import Mathlib.Data.List.Nodup

/-!
# Well-formed trees

Everything that an operation can do to a tree is a `Change`, and each kind of change keeps a tree well
formed, so all operations do.

What a tree holds below a path is seen through the path: `held` follows it and lists what is below
the directory it leads to.
-/

namespace BuildScript

open Relation

namespace FileTree

variable {t t' : FileTree} {place l : Location} {n : FileNode}

theorem node?_nil (t : FileTree) : t.node? [] = some .directory := rfl

theorem node?_of_ne_nil (h : l ≠ []) : t.node? l = t.nodes.lookup l :=
  if_neg (by simpa using h)

theorem WellFormed.mem_nodes_iff (h : t.WellFormed) :
    (l, n) ∈ t.nodes ↔ t.node? l = some n ∧ l ≠ [] := by
  constructor
  · intro hmem
    have hl := h.rootless _ hmem
    refine ⟨?_, hl⟩
    obtain ⟨front, rest, hnodes⟩ := List.append_of_mem hmem
    have hdistinct := h.distinct
    rw [hnodes, List.map_append, List.map_cons, List.nodup_middle, List.nodup_cons] at hdistinct
    rw [node?_of_ne_nil hl, List.lookup_eq_some_iff]
    refine ⟨front, rest, hnodes, fun x hx ↦ bne_iff_ne.mpr fun heq ↦ hdistinct.1 ?_⟩
    exact List.mem_append_left _ (heq ▸ List.mem_map_of_mem hx)
  · rintro ⟨hnode, hl⟩
    rw [node?_of_ne_nil hl, List.lookup_eq_some_iff] at hnode
    obtain ⟨front, rest, hnodes, -⟩ := hnode
    rw [hnodes]
    exact List.mem_append_right _ List.mem_cons_self

theorem wellFormed_empty : WellFormed {} where
  distinct := List.nodup_nil
  rootless := nofun
  inside l n h hl := by
    rw [node?_of_ne_nil hl] at h
    cases h
  numbered l number h := by
    by_cases hl : l = []
    · rw [hl] at h
      cases h
    · rw [node?_of_ne_nil hl] at h
      cases h
  apart l l' number h := by
    by_cases hl : l = []
    · rw [hl] at h
      cases h
    · rw [node?_of_ne_nil hl] at h
      cases h

/-! ## Changes -/

/-- Nothing is at the location, and there is a directory for it. -/
structure Vacant (t : FileTree) (place : Location) : Prop where
  free : t.node? place = none
  inside : t.node? place.dropLast = some .directory

theorem Vacant.ne_nil (h : t.Vacant place) : place ≠ [] := by
  rintro rfl
  exact absurd h.free (by simp [node?_nil])

/-- A new directory at one of the locations. -/
inductive Makes (P : Location → Prop) : FileTree → FileTree → Prop
  | directory {t : FileTree} {place : Location} (allowed : P place) (vacant : t.Vacant place) :
    Makes P t (t.add place .directory)

/-- What one operation can do to a tree at once. -/
inductive Change : FileTree → FileTree → Prop
  | directory {t : FileTree} {place : Location} (vacant : t.Vacant place) :
    Change t (t.add place .directory)
  | file {t : FileTree} {place : Location} (vacant : t.Vacant place) (bytes : List UInt8) :
    Change t { t.add place (.file t.contents.size) with contents := t.contents.push bytes }
  | bytes {t : FileTree} {place : Location} {number : Nat}
    (node : t.node? place = some (.file number)) (bytes : List UInt8) :
    Change t { t with contents := t.contents.setIfInBounds number bytes }
  | clear (t : FileTree) (place : Location) : Change t (t.clear place)
  | drop (t : FileTree) (place : Location) : Change t (t.drop place)

theorem Makes.change {P : Location → Prop} (h : Makes P t t') : Change t t' := by
  obtain ⟨-, vacant⟩ := h
  exact .directory vacant

theorem Makes.anywhere {P : Location → Prop} (h : Makes P t t') : Makes (fun _ ↦ True) t t' := by
  obtain ⟨-, vacant⟩ := h
  exact .directory trivial vacant

/-! ### Nodes after a change -/

theorem node?_add (h : t.Vacant place) (n : FileNode) (l : Location) :
    (t.add place n).node? l = if l = place then some n else t.node? l := by
  by_cases hl : l = []
  · rw [hl, node?_nil, if_neg h.ne_nil.symm, node?_nil]
  · rw [node?_of_ne_nil hl, node?_of_ne_nil hl, add, List.lookup_append]
    by_cases heq : l = place
    · have hfree := h.free
      rw [node?_of_ne_nil h.ne_nil] at hfree
      rw [if_pos heq, heq, hfree]
      simp
    · rw [if_neg heq, List.lookup_cons, beq_eq_false_iff_ne.mpr heq, List.lookup_nil, Option.or_none]

theorem lookup_filter_fst (keep : Location → Bool) (nodes : List (Location × FileNode))
    (l : Location) :
    (nodes.filter fun x ↦ keep x.1).lookup l = if keep l then nodes.lookup l else none := by
  induction nodes with
  | nil => simp
  | cons x nodes ih =>
    obtain ⟨k, n⟩ := x
    by_cases hk : l = k
    · subst hk
      by_cases hkeep : keep l = true
      · rw [List.filter_cons_of_pos (by exact hkeep), List.lookup_cons_self, if_pos hkeep,
          List.lookup_cons_self]
      · rw [List.filter_cons_of_neg (by exact hkeep), ih, if_neg hkeep, if_neg hkeep]
    · have hne := beq_eq_false_iff_ne.mpr hk
      by_cases hkeep : keep k = true
      · rw [List.filter_cons_of_pos (by exact hkeep), List.lookup_cons, List.lookup_cons, hne, ih]
      · rw [List.filter_cons_of_neg (by exact hkeep), List.lookup_cons, hne, ih]

theorem isPrefixOf_eq_false_iff : place.isPrefixOf l = false ↔ ¬place <+: l := by
  rw [Bool.eq_false_iff, ne_eq, List.isPrefixOf_iff_prefix]

theorem node?_drop (t : FileTree) (place l : Location) :
    (t.drop place).node? l = if l ≠ [] ∧ place <+: l then none else t.node? l := by
  by_cases hl : l = []
  · rw [hl, node?_nil, node?_nil, if_neg (by simp)]
  · rw [node?_of_ne_nil hl, node?_of_ne_nil hl, drop]
    rw [lookup_filter_fst fun l ↦ !place.isPrefixOf l]
    by_cases hunder : place <+: l
    · rw [if_neg (by simpa using hunder), if_pos ⟨hl, hunder⟩]
    · rw [if_pos (by simpa using isPrefixOf_eq_false_iff.mpr hunder), if_neg (by simp [hunder])]

theorem node?_clear (t : FileTree) (place l : Location) :
    (t.clear place).node? l = if l ≠ place ∧ place <+: l then none else t.node? l := by
  by_cases hl : l = []
  · rw [hl, node?_nil, node?_nil, if_neg]
    rintro ⟨hne, hunder⟩
    exact hne (List.prefix_nil.mp hunder).symm
  · rw [node?_of_ne_nil hl, node?_of_ne_nil hl, clear]
    rw [lookup_filter_fst fun l ↦ !place.isPrefixOf l || l == place]
    by_cases hbelow : l ≠ place ∧ place <+: l
    · rw [if_neg (by simpa using hbelow.symm), if_pos hbelow]
    · rw [if_pos, if_neg hbelow]
      by_cases heq : l = place
      · simp [heq]
      · simp [isPrefixOf_eq_false_iff.mpr fun h ↦ hbelow ⟨heq, h⟩]

theorem dropLast_ne (h : l ≠ []) : l.dropLast ≠ l := fun heq ↦
  absurd (congrArg List.length heq) (by
    have := List.length_pos_iff.mpr h
    rw [List.length_dropLast]
    omega)

/-! ### Changes keep trees well formed -/

namespace WellFormed

/-- A node can be added at a vacant place, if it is a directory or a file with a new number. -/
theorem add (h : t.WellFormed) (hplace : t.Vacant place) (n : FileNode)
    {contents : Array (List UInt8)} (hsize : t.contents.size ≤ contents.size)
    (hnew : ∀ number, n = .file number → t.contents.size ≤ number ∧ number < contents.size) :
    WellFormed { t.add place n with contents } := by
  have hnode (l) : node? { t.add place n with contents } l = if l = place then some n else t.node? l :=
    node?_add hplace n l
  have hold {l number} (hl : l ≠ place)
      (hfile : node? { t.add place n with contents } l = some (.file number)) :
      t.node? l = some (.file number) := by
    rwa [hnode, if_neg hl] at hfile
  have hadded {l number} (hl : l = place)
      (hfile : node? { t.add place n with contents } l = some (.file number)) :
      t.contents.size ≤ number ∧ number < contents.size := by
    rw [hnode, if_pos hl] at hfile
    exact hnew number (Option.some.inj hfile)
  refine ⟨?_, ?_, ?_, ?_, ?_⟩
  · change (((t.nodes ++ [(place, n)])).map Prod.fst).Nodup
    rw [List.map_append, List.nodup_append]
    refine ⟨h.distinct, List.nodup_singleton _, fun l hl l' hl' ↦ ?_⟩
    obtain ⟨⟨l, m⟩, hmem, rfl⟩ := List.mem_map.mp hl
    obtain rfl : l' = place := by simpa using hl'
    rintro rfl
    have := hplace.free
    rw [(h.mem_nodes_iff.mp hmem).1] at this
    cases this
  · intro x hx
    rcases List.mem_append.mp hx with hx | hx
    · exact h.rootless x hx
    · rw [List.mem_singleton.mp hx]
      exact hplace.ne_nil
  · intro l m hm hl
    -- The directory above is an old one in either case.
    have habove : t.node? l.dropLast = some .directory := by
      rw [hnode] at hm
      split at hm
      · next heq => exact heq ▸ hplace.inside
      · exact h.inside l m hm hl
    rw [hnode, if_neg, habove]
    rintro heq
    have := hplace.free
    rw [← heq, habove] at this
    cases this
  · intro l number hfile
    by_cases hl : l = place
    · exact (hadded hl hfile).2
    · exact Nat.lt_of_lt_of_le (h.numbered l number (hold hl hfile)) hsize
  · intro l l' number hfile hfile'
    by_cases hl : l = place
    · by_cases hl' : l' = place
      · rw [hl, hl']
      · have := h.numbered l' number (hold hl' hfile')
        have := (hadded hl hfile).1
        omega
    · by_cases hl' : l' = place
      · have := h.numbered l number (hold hl hfile)
        have := (hadded hl' hfile').1
        omega
      · exact h.apart l l' number (hold hl hfile) (hold hl' hfile')

/-- Nodes can be left out together with all that is below them. -/
theorem filter (h : t.WellFormed) (keep : Location → Bool)
    (hkeep : ∀ l, l.dropLast ≠ [] → keep l = true → keep l.dropLast = true) :
    WellFormed { t with nodes := t.nodes.filter fun x ↦ keep x.1 } := by
  have hnode {l n} (hl : l ≠ []) :
      node? { t with nodes := t.nodes.filter fun x ↦ keep x.1 } l = some n ↔
        keep l = true ∧ t.node? l = some n := by
    rw [node?_of_ne_nil hl, node?_of_ne_nil hl, lookup_filter_fst]
    by_cases hk : keep l = true <;> simp [hk]
  have hfile {l number}
      (hfile : node? { t with nodes := t.nodes.filter fun x ↦ keep x.1 } l = some (.file number)) :
      t.node? l = some (.file number) := by
    by_cases hl : l = []
    · rw [hl] at hfile
      cases hfile
    · exact ((hnode hl).mp hfile).2
  refine ⟨?_, ?_, ?_, ?_, ?_⟩
  · exact h.distinct.sublist (List.filter_sublist.map _)
  · exact fun x hx ↦ h.rootless x (List.mem_of_mem_filter hx)
  · intro l n hn hl
    obtain ⟨hk, hn⟩ := (hnode hl).mp hn
    by_cases hroot : l.dropLast = []
    · rw [hroot]
      rfl
    · exact (hnode hroot).mpr ⟨hkeep l hroot hk, h.inside l n hn hl⟩
  · exact fun l number hl ↦ h.numbered l number (hfile hl)
  · exact fun l l' number hl hl' ↦ h.apart l l' number (hfile hl) (hfile hl')

theorem drop (h : t.WellFormed) (place : Location) : (t.drop place).WellFormed := by
  refine h.filter (fun l ↦ !place.isPrefixOf l) fun l _ hl ↦ ?_
  rw [Bool.not_eq_true', isPrefixOf_eq_false_iff] at hl ⊢
  exact fun hunder ↦ hl (hunder.trans (List.dropLast_prefix l))

theorem clear (h : t.WellFormed) (place : Location) : (t.clear place).WellFormed := by
  refine h.filter (fun l ↦ !place.isPrefixOf l || l == place) fun l hroot hl ↦ ?_
  rw [Bool.or_eq_true, Bool.not_eq_true', isPrefixOf_eq_false_iff] at hl ⊢
  refine .inl fun hunder ↦ ?_
  rcases hl with hl | hl
  · exact hl (hunder.trans (List.dropLast_prefix l))
  · obtain rfl := eq_of_beq hl
    have hne : l ≠ [] := by
      rintro rfl
      exact hroot rfl
    exact dropLast_ne hne ((List.dropLast_prefix l).eq_of_length_le hunder.length_le)

theorem bytes (h : t.WellFormed) (number : Nat) (bytes : List UInt8) :
    WellFormed { t with contents := t.contents.setIfInBounds number bytes } where
  distinct := h.distinct
  rootless := h.rootless
  inside := h.inside
  numbered l n hl := by
    rw [Array.size_setIfInBounds]
    exact h.numbered l n hl
  apart := h.apart

theorem change (h : t.WellFormed) (hchange : Change t t') : t'.WellFormed := by
  cases hchange with
  | directory vacant => exact h.add vacant .directory (Nat.le_refl _) nofun
  | file vacant bytes =>
    refine h.add vacant _ (by simp) fun number heq ↦ ?_
    cases heq
    simp
  | bytes node bytes => exact h.bytes _ bytes
  | clear place => exact h.clear place
  | drop place => exact h.drop place

/-- All operations keep a tree well formed. -/
theorem changes (h : t.WellFormed) (hchanges : ReflTransGen Change t t') : t'.WellFormed :=
  keeps_of_steps (fun _ _ hchange hs ↦ hs.change hchange) hchanges h

theorem makes {P : Location → Prop} (h : t.WellFormed) (hmakes : ReflTransGen (Makes P) t t') :
    t'.WellFormed :=
  keeps_of_steps (fun _ _ hmakes hs ↦ hs.change hmakes.change) hmakes h

end WellFormed

/-! ## What a path holds -/

theorem mem_below_iff {x : Location × FileNode} :
    x ∈ t.below place ↔ x ∈ t.nodes ∧ place <+: x.1 ∧ x.1 ≠ place := by
  rw [below, List.mem_filter]
  simp

/-- The files and directories below the directory that a path leads to. -/
def held (t : FileTree) (p : Path) : List (Location × FileNode) :=
  match t.locate p with
  | .ok place => t.below place
  | .error _ => []

theorem mem_held_iff {p : Path} {x : Location × FileNode} :
    x ∈ t.held p ↔ t.locate p = .ok p.place ∧ x ∈ t.below p.place := by
  rw [held]
  split
  next place h =>
    obtain rfl := place_eq_of_locate h
    simp [h]
  next h => simp [h]

namespace WellFormed

/-- Below what is no directory there is nothing. -/
theorem node?_of_below (h : t.WellFormed) (hl : t.node? l = some n) (hunder : place <+: l)
    (hne : l ≠ place) : t.node? place = some .directory := by
  induction l using List.reverseRecOn generalizing n with
  | nil => exact absurd (List.prefix_nil.mp hunder).symm hne
  | append_singleton l s ih =>
    have hinside := h.inside _ _ hl (by simp)
    rw [List.dropLast_concat] at hinside
    rcases List.prefix_concat_iff.mp hunder with heq | hunder
    · exact absurd heq.symm hne
    · by_cases heq : l = place
      · exact heq ▸ hinside
      · exact ih hinside hunder heq

theorem below_eq_nil (h : t.WellFormed) (hplace : t.node? place ≠ some .directory) :
    t.below place = [] := by
  rw [List.eq_nil_iff_forall_not_mem]
  intro x hx
  obtain ⟨hmem, hunder, hne⟩ := mem_below_iff.mp hx
  exact hplace (h.node?_of_below (h.mem_nodes_iff.mp hmem).1 hunder hne)

end WellFormed

end FileTree

end BuildScript
