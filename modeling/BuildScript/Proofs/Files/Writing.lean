import BuildScript.Proofs.Files.Directories

/-!
# Writing files

A file that was written can be read back, and neither directories that are made later nor writes at
other places change that. So the bytes of a file are those of the last write at its place, whatever
else happened; and there are no files but those that were there or were written.
-/

namespace BuildScript

open Relation

namespace FileTree

variable {t t' : FileTree} {p q : Path} {bytes : List UInt8}

/-- What a write that succeeds does: it makes a new file at a vacant place, or it changes the bytes
of the file that is there. -/
inductive Writes (place : Location) (bytes : List UInt8) : FileTree → FileTree → Prop
  | creates {t : FileTree} (vacant : t.Vacant place) :
    Writes place bytes t
      { t.add place (.file t.contents.size) with contents := t.contents.push bytes }
  | replaces {t : FileTree} {number : Nat} (node : t.node? place = some (.file number)) :
    Writes place bytes t { t with contents := t.contents.setIfInBounds number bytes }

theorem Writes.change {place : Location} (h : Writes place bytes t t') : Change t t' := by
  cases h with
  | creates vacant => exact .file vacant bytes
  | replaces node => exact .bytes node bytes

/-- A write fails and leaves the tree as it is, or it writes at the place of the path. -/
theorem run_write (p : Path) (bytes : List UInt8) (t : FileTree) :
    (∃ e, (write p bytes).run t = (.error e, t)) ∨
      ∃ t', (write p bytes).run t = (.ok (), t') ∧ t.locate p = .ok p.place ∧
        Writes p.place bytes t t' := by
  rw [write, run_bind_ok (run_get t)]
  cases hentry : t.entry p with
  | error e =>
    rw [run_bind_error (run_lift _ _)]
    exact .inl ⟨e, rfl⟩
  | ok e =>
    rw [run_bind_ok (run_lift _ _)]
    dsimp only
    split
    next => exact .inl ⟨_, rfl⟩
    next hproper =>
      rw [Bool.or_eq_true, not_or, Bool.not_eq_true, Bool.not_eq_true', Bool.not_eq_false] at hproper
      obtain ⟨hslash, hnamed⟩ := hproper
      obtain ⟨front, slashes, hpath⟩ := exists_entryOf hentry hnamed
      have hplace := hpath.place_eq hnamed
      cases hnode : t.entryNode? e with
      | error cause =>
        rw [run_bind_error (run_lift _ _)]
        exact .inl ⟨cause, rfl⟩
      | ok found =>
        have hshort : e.name.utf8ByteSize ≤ maxNameLength := by
          rw [entryNode?] at hnode
          split at hnode
          · cases hnode
          · next hshort => exact Nat.not_lt.mp hshort
        have hlocate := hpath.locate_eq hnamed hslash hshort
        rw [run_bind_ok (run_lift _ _)]
        rcases found with _ | _ | number
        · refine .inr ⟨_, rfl, hlocate, ?_⟩
          rw [hplace]
          exact .creates (vacant_of_entry hentry hnamed hnode)
        · exact .inl ⟨_, rfl⟩
        · refine .inr ⟨_, rfl, hlocate, .replaces ?_⟩
          rw [entryNode?, if_neg (Nat.not_lt.mpr hshort), hplace] at hnode
          exact Except.ok.inj hnode

theorem moves_write (p : Path) (bytes : List UInt8) :
    Moves (Writes p.place bytes) (write p bytes) := by
  intro t
  rcases run_write p bytes t with ⟨e, h⟩ | ⟨t', h, -, hwrites⟩
  · rw [h]
  · rw [h]
    exact .single hwrites

/-- A file is written behind directories that are made for it. -/
theorem moves_writeBelow (p : Path) (bytes : List UInt8) : Moves Change (writeBelow p bytes) := by
  have hwrite : Moves Change (write p bytes) := (moves_write p bytes).mono fun _ _ h ↦ h.change
  rw [writeBelow]
  split
  · exact ((moves_createDirectory _).mono fun _ _ h ↦ h.change).bind fun _ ↦ hwrite
  · exact hwrite

theorem writes_of_write (h : (write p bytes).run t = (.ok (), t')) :
    t.locate p = .ok p.place ∧ Writes p.place bytes t t' := by
  rcases run_write p bytes t with ⟨e, herror⟩ | ⟨t₁, hok, hlocate, hwrites⟩
  · rw [herror] at h
    cases h
  · rw [hok] at h
    cases h
    exact ⟨hlocate, hwrites⟩

/-- A file is written behind directories that may be made before. -/
def WritesBelow (p : Path) (bytes : List UInt8) (t t' : FileTree) : Prop :=
  ∃ t₁, ReflTransGen (Makes fun _ ↦ True) t t₁ ∧ t₁.locate p = .ok p.place ∧
    Writes p.place bytes t₁ t'

theorem writesBelow_of_makeAndWrite {directory : Path}
    (h : (do createDirectory directory; write p bytes : FileM Unit).run t = (.ok (), t')) :
    WritesBelow p bytes t t' := by
  obtain ⟨⟨⟩, t₁, hmake, hwrite⟩ := run_bind_eq_ok h
  have hmakes := ((moves_createDirectory directory).mono fun _ _ h ↦ h.anywhere) t
  rw [hmake] at hmakes
  exact ⟨t₁, hmakes, writes_of_write hwrite⟩

theorem writesBelow_of_writeBelow (h : (writeBelow p bytes).run t = (.ok (), t')) :
    WritesBelow p bytes t t' := by
  rw [writeBelow] at h
  split at h
  · exact writesBelow_of_makeAndWrite h
  · exact ⟨t, .refl, writes_of_write h⟩

/-! ## Reading back -/

/-- There is a file with these bytes at the location. -/
def Stores (t : FileTree) (l : Location) (bytes : List UInt8) : Prop :=
  ∃ number, t.node? l = some (.file number) ∧ t.content number = bytes

theorem read_eq_ok_iff : t.read p = .ok bytes ↔ t.locate p = .ok p.place ∧ t.Stores p.place bytes := by
  rw [read, bind_eq_ok]
  constructor
  · rintro ⟨n, hlookup, hbytes⟩
    obtain ⟨hlocate, hnode⟩ := lookup_eq_ok_iff.mp hlookup
    cases n with
    | directory => cases hbytes
    | file number => exact ⟨hlocate, number, hnode, Except.ok.inj hbytes⟩
  · rintro ⟨hlocate, number, hnode, rfl⟩
    exact ⟨.file number, lookup_eq_ok_iff.mpr ⟨hlocate, hnode⟩, rfl⟩

variable {place l : Location} {P : Location → Prop} {number : Nat}

theorem node?_writes (h : Writes place bytes t t') (hl : l ≠ place) : t'.node? l = t.node? l := by
  cases h with
  | creates vacant => exact (node?_add vacant _ l).trans (if_neg hl)
  | replaces node => rfl

/-- What was written is there. -/
theorem stores_of_writes (ht : t.WellFormed) (h : Writes place bytes t t') :
    t'.Stores place bytes := by
  cases h with
  | creates vacant =>
    refine ⟨t.contents.size, (node?_add vacant _ place).trans (if_pos rfl), ?_⟩
    rw [content, Array.getElem?_push_size]
    rfl
  | replaces node =>
    refine ⟨_, node, ?_⟩
    rw [content, Array.getElem?_setIfInBounds_self_of_lt (ht.numbered _ _ node)]
    rfl

/-- A write changes the file at its place and no other. -/
theorem Stores.writes {written : List UInt8} (h : t.Stores l bytes) (ht : t.WellFormed)
    (hwrites : Writes place written t t') (hl : l ≠ place) : t'.Stores l bytes := by
  obtain ⟨number, hnode, rfl⟩ := h
  refine ⟨number, (node?_writes hwrites hl).trans hnode, ?_⟩
  cases hwrites with
  | creates vacant =>
    rw [content, content, Array.getElem?_push_lt (ht.numbered l number hnode),
      Array.getElem?_eq_getElem]
  | replaces node =>
    have hne : ∀ other, t.node? place = some (.file other) → other ≠ number := by
      rintro other hother rfl
      exact hl (ht.apart l place _ hnode hother)
    rw [content, content, Array.getElem?_setIfInBounds_ne (hne _ node)]

theorem within_of_anyMakes (h : ReflTransGen (Makes P) t t') : t.Within t' := by
  refine keeps_of_steps (P := fun s ↦ t.Within s) (fun s s' hstep hs l n hn ↦ ?_) h fun _ _ hn ↦ hn
  obtain ⟨-, vacant⟩ := hstep
  rw [node?_add vacant, if_neg, hs l n hn]
  rintro rfl
  have hfree := vacant.free
  rw [hs _ n hn] at hfree
  cases hfree

theorem content_of_makes (h : ReflTransGen (Makes P) t t') : t'.content number = t.content number :=
  keeps_of_steps (P := fun s ↦ s.content number = t.content number)
    (fun s s' hstep hs ↦ by
      obtain ⟨-, vacant⟩ := hstep
      exact hs) h rfl

theorem Stores.makes (h : t.Stores l bytes) (hmakes : ReflTransGen (Makes P) t t') :
    t'.Stores l bytes := by
  obtain ⟨number, hnode, hcontent⟩ := h
  exact ⟨number, within_of_anyMakes hmakes l _ hnode, (content_of_makes hmakes).trans hcontent⟩

theorem within_of_writes (h : Writes place bytes t t') : ∀ l, t.node? l = some .directory →
    t'.node? l = some .directory := by
  intro l hl
  rw [node?_writes h, hl]
  rintro rfl
  cases h with
  | creates vacant =>
    have hfree := vacant.free
    rw [hl] at hfree
    cases hfree
  | replaces node =>
    rw [hl] at node
    cases node

/-! ### No other files -/

theorem file_of_makes (h : ReflTransGen (Makes P) t t') (hl : t'.node? l = some (.file number)) :
    t.node? l = some (.file number) := by
  refine keeps_of_steps (P := fun s ↦ s.node? l = some (.file number) →
    t.node? l = some (.file number)) (fun s s' hstep hs hfile ↦ ?_) h id hl
  obtain ⟨-, vacant⟩ := hstep
  rw [node?_add vacant] at hfile
  split at hfile
  · cases hfile
  · exact hs hfile

theorem file_of_writes (h : Writes place bytes t t') (hl : t'.node? l = some (.file number)) :
    t.node? l = some (.file number) ∨ l = place := by
  by_cases heq : l = place
  · exact .inr heq
  · rw [node?_writes h heq] at hl
    exact .inl hl

/-! ### Files behind new directories -/

namespace WritesBelow

variable {written : List UInt8}

theorem wellFormed (h : WritesBelow p bytes t t') (ht : t.WellFormed) : t'.WellFormed := by
  obtain ⟨t₁, hmakes, -, hwrites⟩ := h
  exact (ht.makes hmakes).change hwrites.change

/-- What was written is read back. -/
theorem read (h : WritesBelow p bytes t t') (ht : t.WellFormed) : t'.read p = .ok bytes := by
  obtain ⟨t₁, hmakes, hlocate, hwrites⟩ := h
  rw [read_eq_ok_iff]
  exact ⟨locate_mono (within_of_writes hwrites) hlocate,
    stores_of_writes (ht.makes hmakes) hwrites⟩

/-- What is read elsewhere does not change. -/
theorem read_of_ne (h : WritesBelow p written t t') (ht : t.WellFormed) (hq : q.place ≠ p.place)
    (hread : t.read q = .ok bytes) : t'.read q = .ok bytes := by
  obtain ⟨t₁, hmakes, -, hwrites⟩ := h
  rw [read_eq_ok_iff] at hread ⊢
  refine ⟨?_, (hread.2.makes hmakes).writes (ht.makes hmakes) hwrites hq⟩
  exact locate_mono (fun l hl ↦ within_of_writes hwrites l (within_of_anyMakes hmakes l _ hl)) hread.1

/-- There is one file more at most. -/
theorem file (h : WritesBelow p bytes t t') (hl : t'.node? l = some (.file number)) :
    t.node? l = some (.file number) ∨ l = p.place := by
  obtain ⟨t₁, hmakes, -, hwrites⟩ := h
  exact (file_of_writes hwrites hl).imp_left (file_of_makes hmakes)

end WritesBelow

end FileTree

end BuildScript
