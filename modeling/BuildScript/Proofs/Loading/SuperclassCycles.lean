import Mathlib.Data.List.Perm.Subperm
import BuildScript.Proofs.Files.Writing
import BuildScript.Proofs.Loading.SearchBounds

/-!
# Cycles of superclasses

A class path loader that links a class file loads its superclass first, and it keeps the class only
afterwards. So nothing remembers which classes are being linked, and a class file that is its own
ancestor is read again and again. `World.load_ends_iff_no_cycle` says that this is the only way in
which loading does not end.

`World.Needs` is one turn of the search: it leads from a class to its superclass, provided that the
class file is the one to be linked. Along it the bound that is left decreases, so no search that
ends has met a cycle. If there is no cycle, the classes on the way are distinct, and there are no
more of them than files; this also shows that the bound which a world supplies is large enough.
-/

namespace BuildScript

open Relation

namespace World

variable {w : World} {id : LoaderId} {name superName : String}

/-! ## From a class to its superclass -/

/-- To load the first class, a class path loader loads the second: neither its parent nor the loader
itself has the first, and the class file of it names the second as superclass. -/
def Needs (w : World) (id : LoaderId) (name superName : String) : Prop :=
  ∃ roots parent defined file, w.loader? id = some (.classPath roots parent defined) ∧
    (∀ p, parent = some p → w.Loads p name (.error (.classNotFound name), w)) ∧
    defined.lookup name = none ∧ readClassFile w.files name roots = .ok (some file) ∧
    file.superName = some superName

/-- A search that ends has loaded what it needs by a search that ended before. -/
theorem Needs.exists_lt (h : w.Needs id name superName) {n : Nat}
    (hrun : (loadWithin n id name w).isSome) : ∃ m < n, (loadWithin m id superName w).isSome := by
  obtain ⟨roots, parent, defined, file, hloader, hparent, hlookup, hread, hsuper⟩ := h
  have hown {n : Nat} (hrun : (ownWithin n id name w).isSome) :
      ∃ m < n, (loadWithin m id superName w).isSome := by
    -- Finding and linking take a level each before the superclass is loaded.
    rcases n with _ | _ | n
    · cases hrun
    · rw [ownWithin, findWithin_succ, hloader] at hrun
      dsimp only at hrun
      rw [hlookup, hread] at hrun
      cases hrun
    · rw [ownWithin, findWithin_succ, hloader] at hrun
      dsimp only at hrun
      rw [hlookup, hread] at hrun
      dsimp only at hrun
      rw [linkWithin_succ, hsuper] at hrun
      dsimp only at hrun
      refine ⟨n, by omega, ?_⟩
      rcases hload : loadWithin n id superName w with _ | outcome
      · rw [hload] at hrun
        cases hrun
      · rfl
  rcases n with _ | n
  · cases hrun
  rw [loadWithin_succ, hloader, Option.bind_some, Loader.parent?] at hrun
  suffices hsearched : (ownWithin n id name w).isSome by
    obtain ⟨m, hm, hsome⟩ := hown hsearched
    exact ⟨m, Nat.lt_succ_of_lt hm, hsome⟩
  cases parent with
  | none => exact hrun
  | some p =>
    rw [Option.elim_some] at hrun
    rcases hload : loadWithin n p name w with _ | outcome
    · rw [hload] at hrun
      cases hrun
    · obtain rfl := Loads.unique (hparent p rfl) ⟨n, hload⟩
      rw [hload] at hrun
      exact hrun

/-- A class path loader comes to an end if its parent does, and if it does so for what it needs. -/
theorem isSome_loadWithin {n : Nat} {roots : List Path} {parent : Option LoaderId}
    {defined : List (String × Class)} (hloader : w.loader? id = some (.classPath roots parent defined))
    (hparent : ∀ p, parent = some p → (loadWithin (n + 2) p name w).isSome)
    (hneeds : ∀ superName, w.Needs id name superName → (loadWithin n id superName w).isSome) :
    (loadWithin (n + 3) id name w).isSome := by
  have hown (hmissing : ∀ p, parent = some p → w.Loads p name (.error (.classNotFound name), w)) :
      (ownWithin (n + 2) id name w).isSome := by
    rw [ownWithin, findWithin_succ, hloader]
    dsimp only
    rcases hlookup : defined.lookup name with _ | c
    · dsimp only
      rcases hread : readClassFile w.files name roots with e | _ | file
      · rfl
      · rfl
      · dsimp only
        rw [linkWithin_succ]
        rcases hsuper : file.superName with _ | superName
        · rfl
        · have hload := hneeds superName
            ⟨roots, parent, defined, file, hloader, hmissing, hlookup, hread, hsuper⟩
          obtain ⟨⟨e | c, w'⟩, hload⟩ := Option.isSome_iff_exists.mp hload
          · dsimp only
            rw [hload]
            rfl
          · dsimp only
            rw [hload]
            rfl
    · rfl
  rw [loadWithin_succ, hloader, Option.bind_some, Loader.parent?]
  cases parent with
  | none => exact hown fun p hp ↦ by cases hp
  | some p =>
    rw [Option.elim_some]
    obtain ⟨⟨r, w'⟩, hload⟩ := Option.isSome_iff_exists.mp (hparent p rfl)
    rw [hload]
    split
    next other w'' heq =>
      cases heq
      obtain ⟨rfl, rfl⟩ := (unchanged_of_search _).1 _ _ _ _ _ hload
      exact hown fun p' hp' ↦ by
        cases hp'
        exact ⟨_, hload⟩
    next => rfl

/-! ## Cycles -/

/-- A class that is on a cycle is never loaded. -/
theorem not_ends_of_cycle (h : TransGen (w.Needs id) name name) : ¬w.Ends id name := by
  have hlt {name superName : String} (h : TransGen (w.Needs id) name superName) {n : Nat}
      (hrun : (loadWithin n id name w).isSome) : ∃ m < n, (loadWithin m id superName w).isSome := by
    induction h with
    | single hneeds => exact hneeds.exists_lt hrun
    | tail _ hneeds ih =>
      obtain ⟨m, hm, hrun⟩ := ih
      obtain ⟨k, hk, hrun⟩ := hneeds.exists_lt hrun
      exact ⟨k, Nat.lt_trans hk hm, hrun⟩
  rw [ends_iff]
  rintro ⟨n, hrun⟩
  -- Behind the cycle the same class is searched within a smaller bound, which cannot go on for ever.
  induction n using Nat.strongRecOn with
  | ind n ih =>
    obtain ⟨m, hm, hrun⟩ := hlt h hrun
    exact ih m hm hrun

theorem Ends.of_needs (h : w.Ends id name) (hneeds : ReflTransGen (w.Needs id) name superName) :
    w.Ends id superName := by
  refine keeps_of_steps (P := w.Ends id) (fun s s' hstep hs ↦ ?_) hneeds h
  obtain ⟨n, hrun⟩ := ends_iff.mp hs
  obtain ⟨m, -, hrun⟩ := hstep.exists_lt hrun
  exact ends_iff.mpr ⟨m, hrun⟩

end World

/-! ## Class files on the class path -/

/-- What the class file of a name was checked for when it was read. -/
theorem exists_read_of_readClassFile {files : FileTree} {name : String} {roots : List Path}
    {file : ClassFile} (h : readClassFile files name roots = .ok (some file)) :
    ∃ p bytes, files.read p = .ok bytes ∧ ClassFile.decode bytes = .ok file ∧ file.name = name ∧
      file.verify = .ok () := by
  induction roots with
  | nil => cases h
  | cons root roots ih =>
    unfold readClassFile at h
    dsimp only at h
    split at h
    next => exact ih h
    next => cases h
    next bytes hread =>
      obtain ⟨decoded, hdecode, h⟩ := bind_eq_ok.mp h
      refine ⟨root.classFile name, bytes, hread, ?_⟩
      by_cases hname : decoded.name = name
      · rw [if_neg (by simpa using hname)] at h
        obtain ⟨⟨⟩, hverify, h⟩ := bind_eq_ok.mp h
        cases h
        exact ⟨eq_ok_of_mapError hdecode, hname, eq_ok_of_mapError hverify⟩
      · rw [if_pos (by simpa using hname)] at h
        cases h

/-- There are no more classes on a class path than files, since a file tells its class. -/
theorem length_le_of_readClassFile {files : FileTree} {roots : List Path} {names : List String}
    (hnames : names.Nodup)
    (h : ∀ name ∈ names, ∃ file, readClassFile files name roots = .ok (some file)) :
    names.length ≤ files.nodes.length := by
  have hplaced : ∀ name ∈ names, ∃ l, ∃ number, files.nodes.lookup l = some (.file number) ∧
      (ClassFile.decode (files.content number)).map (·.name) = .ok name := by
    intro name hname
    obtain ⟨file, hfile⟩ := h name hname
    obtain ⟨p, bytes, hread, hdecode, rfl, -⟩ := exists_read_of_readClassFile hfile
    obtain ⟨-, number, hnode, rfl⟩ := FileTree.read_eq_ok_iff.mp hread
    have hroot : p.place ≠ [] := by
      intro hnil
      rw [hnil, FileTree.node?_nil] at hnode
      cases hnode
    rw [FileTree.node?_of_ne_nil hroot] at hnode
    exact ⟨p.place, number, hnode, by rw [hdecode]; rfl⟩
  choose! place hplace using hplaced
  have hinjective : ∀ x ∈ names, ∀ y ∈ names, place x = place y → x = y := by
    intro x hx y hy heq
    obtain ⟨n, hn, hdecode⟩ := hplace x hx
    obtain ⟨m, hm, hdecode'⟩ := hplace y hy
    rw [heq, hm] at hn
    cases hn
    exact Except.ok.inj (hdecode.symm.trans hdecode')
  have hsubset : names.map place ⊆ files.nodes.map Prod.fst := by
    intro l hl
    obtain ⟨name, hname, rfl⟩ := List.mem_map.mp hl
    obtain ⟨number, hlookup, -⟩ := hplace name hname
    obtain ⟨before, after, hnodes, -⟩ := List.lookup_eq_some_iff.mp hlookup
    rw [hnodes, List.map_append, List.map_cons]
    exact List.mem_append_right _ List.mem_cons_self
  have hlength := ((hnames.map_on hinjective).subperm hsubset).length_le
  rwa [List.length_map, List.length_map] at hlength

namespace World

variable {w : World} {id : LoaderId} {name superName : String} {roots : List Path}
  {parent : Option LoaderId} {defined : List (String × Class)}

theorem Needs.exists_file (h : w.Needs id name superName)
    (hloader : w.loader? id = some (.classPath roots parent defined)) :
    ∃ file, readClassFile w.files name roots = .ok (some file) := by
  obtain ⟨_, _, _, file, hloader', -, -, hread, -⟩ := h
  cases hloader.symm.trans hloader'
  exact ⟨file, hread⟩

/-- Distinct classes on the class path, each of which leads to the current one. -/
structure Walk (w : World) (id : LoaderId) (roots : List Path) (seen : List String)
    (current : String) : Prop where
  nodup : seen.Nodup
  readable : ∀ s ∈ seen, ∃ file, readClassFile w.files s roots = .ok (some file)
  leads : ∀ s ∈ seen, TransGen (w.Needs id) s current

theorem Walk.nil (w : World) (id : LoaderId) (roots : List Path) (current : String) :
    w.Walk id roots [] current where
  nodup := .nil
  readable _ hs := by cases hs
  leads _ hs := by cases hs

theorem Walk.cons {seen : List String} {current : String} (h : w.Walk id roots seen current)
    (hloader : w.loader? id = some (.classPath roots parent defined))
    (hcycle : ¬TransGen (w.Needs id) current current) (hneeds : w.Needs id current superName) :
    w.Walk id roots (current :: seen) superName where
  nodup := List.nodup_cons.mpr ⟨fun hmem ↦ hcycle (h.leads current hmem), h.nodup⟩
  readable := List.forall_mem_cons.mpr ⟨hneeds.exists_file hloader, h.readable⟩
  leads := List.forall_mem_cons.mpr ⟨.single hneeds, fun s hs ↦ (h.leads s hs).tail hneeds⟩

/-- Where no cycle is reached, the search ends behind as many class files as there can be. The
parent is asked for every class on the way, within a bound of its own. -/
theorem isSome_of_noCycle {bound : Nat}
    (hloader : w.loader? id = some (.classPath roots parent defined))
    (hparent : ∀ p, parent = some p → ∀ s, ReflTransGen (w.Needs id) name s →
      (loadWithin bound p s w).isSome)
    (hcycle : ∀ s, ReflTransGen (w.Needs id) name s → ¬TransGen (w.Needs id) s s) :
    (loadWithin (bound + 3 * (w.files.nodes.length + 1)) id name w).isSome := by
  -- `k` bounds how many classes there can be on the way that were not seen yet.
  suffices hwalk : ∀ (k : Nat) (seen : List String) (current : String),
      w.Walk id roots seen current → w.files.nodes.length ≤ seen.length + k →
      ReflTransGen (w.Needs id) name current →
      (loadWithin (bound + 3 * (k + 1)) id current w).isSome from
    hwalk _ [] name (.nil w id roots name) (Nat.le_add_left _ _) .refl
  intro k
  induction k with
  | zero =>
    intro seen current hseen hlength hcurrent
    refine isSome_loadWithin hloader (fun p hp ↦ ?_) fun superName hneeds ↦ ?_
    · exact isSome_of_le (Nat.le_add_right _ _) (hparent p hp current hcurrent)
    · have hmore := hseen.cons hloader (hcycle current hcurrent) hneeds
      have hle := length_le_of_readClassFile hmore.nodup hmore.readable
      rw [List.length_cons] at hle
      omega
  | succ k ih =>
    intro seen current hseen hlength hcurrent
    refine isSome_loadWithin hloader (fun p hp ↦ ?_) fun superName hneeds ↦ ?_
    · refine isSome_of_le ?_ (hparent p hp current hcurrent)
      exact Nat.le_trans (Nat.le_add_right _ _) (Nat.le_add_right _ 2)
    · have hmore := hseen.cons hloader (hcycle current hcurrent) hneeds
      refine ih (current :: seen) superName hmore ?_ (hcurrent.tail hneeds)
      rw [List.length_cons]
      omega

/-- The parent of a class path loader has ended its own search before. -/
theorem Ends.of_parent {p : LoaderId} (h : w.Ends id name)
    (hloader : w.loader? id = some (.classPath roots (some p) defined)) : w.Ends p name := by
  obtain ⟨n, hrun⟩ := ends_iff.mp h
  rcases n with _ | n
  · cases hrun
  rw [loadWithin_succ, hloader, Option.bind_some, Loader.parent?, Option.elim_some] at hrun
  refine ends_iff.mpr ⟨n, ?_⟩
  rcases hload : loadWithin n p name w with _ | outcome
  · rw [hload] at hrun
    cases hrun
  · rfl

/-- A filtering loader searches as deep as what is behind it, and two levels more. -/
theorem isSome_of_filtering {delegate : LoaderId} {filter : Filter} {n : Nat}
    (hloader : w.loader? id = some (.filtering delegate filter)) :
    (loadWithin (n + 2) id name w).isSome ↔
      (filter.allows name = true → (loadWithin n delegate name w).isSome) := by
  rw [loadWithin_succ, hloader, Option.bind_some, Loader.parent?, Option.elim_none, ownWithin,
    findWithin_succ, hloader]
  dsimp only
  by_cases hallowed : filter.allows name = true
  · rw [if_pos hallowed]
    rcases loadWithin n delegate name w with _ | ⟨e | c, w'⟩
    · simp [hallowed]
    · cases e <;> simp
    · simp
  · rw [if_neg hallowed]
    simp [hallowed]

/-- A search that ends is no deeper than the earlier loaders together can be, each of which reads
every class file once at most. -/
theorem isSome_of_ends (hw : w.Ordered) (h : w.Ends id name) :
    (loadWithin (3 * (w.files.nodes.length + 1) * (id + 1)) id name w).isSome := by
  induction id using Nat.strongRecOn generalizing name with
  | ind id ih =>
    have hearlier {other : LoaderId} (hlt : other < id) {s : String} (hs : w.Ends other s) :
        (loadWithin (3 * (w.files.nodes.length + 1) * id) other s w).isSome :=
      isSome_of_le (Nat.mul_le_mul_left _ hlt) (ih other hlt hs)
    rw [Nat.mul_succ]
    rcases hloader : w.loader? id with _ | classes | ⟨roots, parent, defined⟩ | ⟨delegate, filter⟩
    · refine isSome_of_le (n := 2) (by omega) ?_
      rw [loadWithin_succ, hloader, Option.bind_none, Option.elim_none, ownWithin, findWithin_succ,
        hloader]
      rfl
    · refine isSome_of_le (n := 2) (by omega) ?_
      rw [loadWithin_succ, hloader, Option.bind_some, Loader.parent?, Option.elim_none, ownWithin,
        findWithin_succ, hloader]
      dsimp only
      cases classes.lookup name <;> rfl
    · -- A search that ends has met no cycle, so it is as deep as the class path allows.
      refine isSome_of_noCycle hloader (fun p hp s hs ↦ ?_) fun s hs hcycle ↦ ?_
      · subst hp
        have hlt : p < id := hw id _ hloader p (Option.mem_toList.mpr rfl)
        exact hearlier hlt ((h.of_needs hs).of_parent hloader)
      · exact not_ends_of_cycle hcycle (h.of_needs hs)
    · refine isSome_of_le (n := 3 * (w.files.nodes.length + 1) * id + 2) (by omega) ?_
      refine (isSome_of_filtering hloader).mpr fun hallowed ↦ ?_
      have hlt : delegate < id := hw id _ hloader delegate List.mem_cons_self
      refine hearlier hlt ?_
      obtain ⟨n, hrun⟩ := ends_iff.mp h
      have hdeeper := isSome_of_le (Nat.le_add_right n 2) hrun
      exact ends_iff.mpr ⟨n, (isSome_of_filtering hloader).mp hdeeper hallowed⟩

theorem le_searchDepth (hid : id < w.loaders.size) :
    3 * (w.files.nodes.length + 1) * (id + 1) ≤ w.searchDepth := by
  rw [searchDepth]
  exact Nat.mul_le_mul (by omega) (Nat.add_le_add (Nat.le_of_lt hid) (by decide))

/-- The bound that a world supplies suffices for every search that ends. -/
theorem load_of_loads (hw : w.Ordered) (hid : id < w.loaders.size)
    {outcome : Except LoadError Class × World} (h : w.Loads id name outcome) :
    w.load id name = outcome := by
  have hsome := isSome_of_le (le_searchDepth hid) (isSome_of_ends hw ⟨outcome, h⟩)
  obtain ⟨outcome', hrun⟩ := Option.isSome_iff_exists.mp hsome
  obtain rfl := h.unique ⟨_, hrun⟩
  exact load_of_loadWithin hrun

/-- A class path loader whose parent always comes to an end loads a class, or fails to, exactly if
the superclasses that it would have to load form no cycle. -/
theorem load_ends_iff_no_cycle (hw : w.Ordered)
    (hloader : w.loader? id = some (.classPath roots parent defined))
    (hparent : ∀ p, parent = some p → ∀ s, w.Ends p s) (name : String) :
    (∃ r w', w.Loads id name (r, w') ∧ w.load id name = (r, w')) ↔
      ∀ s, ReflTransGen (w.Needs id) name s → ¬TransGen (w.Needs id) s s := by
  constructor
  · rintro ⟨r, w', hloads, -⟩ s hs hcycle
    exact not_ends_of_cycle hcycle (Ends.of_needs ⟨_, hloads⟩ hs)
  · intro hcycle
    have hid := lt_size_of_loader? hloader
    have hsearched : ∀ p, parent = some p → ∀ s, (loadWithin w.searchDepth p s w).isSome := by
      intro p hp s
      subst hp
      have hlt : p < w.loaders.size :=
        Nat.lt_trans (hw id _ hloader p (Option.mem_toList.mpr rfl)) hid
      exact isSome_of_le (le_searchDepth hlt) (isSome_of_ends hw (hparent p rfl s))
    have hsome := isSome_of_noCycle hloader (fun p hp s _ ↦ hsearched p hp s) hcycle
    obtain ⟨⟨r, w'⟩, hrun⟩ := Option.isSome_iff_exists.mp hsome
    exact ⟨r, w', ⟨_, hrun⟩, load_of_loads hw hid ⟨_, hrun⟩⟩

/-! A class path with a class that names itself as superclass, beside one that extends the script
class of the platform. -/

def loopingFile : ClassFile := .empty "A" (some "A")

def endingFile : ClassFile := .empty "B" (some scriptClassName)

def withLoop : World :=
  let (system, w) := World.start []
  let write (p : Path) (file : ClassFile) (files : FileTree) : FileTree :=
    ((FileTree.writeBelow p file.encode).run files).2
  ({ w with
    files := write ⟨"/c/B.class"⟩ endingFile (write ⟨"/c/A.class"⟩ loopingFile {}) }.addClassPath
    [⟨"/c"⟩] (some system)).2

theorem ordered_withLoop : withLoop.Ordered :=
  ((ordered_start []).withFiles _).addLoader (by decide)

theorem loads_platform (s : String) : withLoop.Loads 0 s
    ((withLoop.loader? 0).elim (.error (.classNotFound s)) fun l ↦
      (l.defined.lookup s).elim (.error (.classNotFound s)) .ok, withLoop) :=
  loads_system rfl s

theorem read_loopingFile : readClassFile withLoop.files "A" [⟨"/c"⟩] = .ok (some loopingFile) := by
  decide +kernel

theorem read_endingFile : readClassFile withLoop.files "B" [⟨"/c"⟩] = .ok (some endingFile) := by
  decide +kernel

theorem needs_loopingFile : withLoop.Needs 1 "A" "A" := by
  refine ⟨[⟨"/c"⟩], some 0, [], loopingFile, rfl, fun p hp ↦ ?_, rfl, read_loopingFile, rfl⟩
  cases hp
  exact loads_platform "A"

/-- What the other class needs is a class of the platform, which needs nothing. -/
theorem needs_endingFile {s : String} (h : withLoop.Needs 1 "B" s) : s = scriptClassName := by
  obtain ⟨_, _, _, file, hloader, -, -, hread, hsuper⟩ := h
  cases hloader
  cases read_endingFile.symm.trans hread
  exact (Option.some.inj hsuper).symm

theorem not_needs_platform (s : String) : ¬withLoop.Needs 1 scriptClassName s := by
  rintro ⟨_, _, _, _, hloader, hmissing, -⟩
  cases hloader
  have := (hmissing 0 rfl).unique (loads_platform scriptClassName)
  cases this

theorem endingFile_noCycle {s : String} (h : ReflTransGen (withLoop.Needs 1) "B" s) :
    ¬TransGen (withLoop.Needs 1) s s := by
  have hend {s' : String} (h : ReflTransGen (withLoop.Needs 1) scriptClassName s') :
      s' = scriptClassName := by
    rcases h.cases_head with rfl | ⟨_, hneeds, -⟩
    · rfl
    · exact (not_needs_platform _ hneeds).elim
  intro hcycle
  obtain ⟨next, hneeds, hback⟩ := TransGen.head'_iff.mp hcycle
  rcases h.cases_head with rfl | ⟨_, hfirst, hrest⟩
  · obtain rfl := needs_endingFile hneeds
    exact absurd (hend hback) (by decide)
  · obtain rfl := needs_endingFile hfirst
    obtain rfl := hend hrest
    exact not_needs_platform _ hneeds

theorem endingFile_loads :
    (withLoop.Ordered ∧ withLoop.loader? 1 = some (.classPath [⟨"/c"⟩] (some 0) []) ∧
      ∀ p, some 0 = some p → ∀ s, withLoop.Ends p s) ∧
    ∃ r w', withLoop.Loads 1 "B" (r, w') ∧ withLoop.load 1 "B" = (r, w') := by
  have hparent : ∀ p, some 0 = some p → ∀ s, withLoop.Ends p s := by
    rintro _ ⟨⟩ s
    exact ⟨_, loads_platform s⟩
  exact ⟨⟨ordered_withLoop, rfl, hparent⟩,
    (load_ends_iff_no_cycle ordered_withLoop rfl hparent "B").mpr fun _ ↦ endingFile_noCycle⟩

/-- The class that names itself is not loaded within any bound, although its loader has a parent
that always comes to an end. -/
theorem loopingFile_never_loads : withLoop.Ordered ∧
    withLoop.loader? 1 = some (.classPath [⟨"/c"⟩] (some 0) []) ∧ (∀ s, withLoop.Ends 0 s) ∧
    ∀ n, loadWithin n 1 "A" withLoop = none := by
  refine ⟨ordered_withLoop, rfl, fun s ↦ ⟨_, loads_platform s⟩, fun n ↦ ?_⟩
  rcases hrun : loadWithin n 1 "A" withLoop with _ | outcome
  · rfl
  · exact (not_ends_of_cycle (.single needs_loopingFile) ⟨outcome, n, hrun⟩).elim

end World

end BuildScript
