import BuildScript.Proofs.Files.WellFormed

/-!
# Making and emptying directories

Making a directory adds directories at vacant places on the way to it and nothing else. Removing one
takes away what is below it. Making a directory anew does the one behind the other, and each of them
may fail at any point, so the lemmas about runs say what the tree is like for every outcome.

## Paths that go up

A path may lead through a directory that is below the one it names, as `c/d/../../c` does. When `c` is
made anew by this path, `d` is made again on the way. So what is left in a directory that was emptied
is nothing but directories (`Cleared`), and nothing at all if the path is plain. A path like `x/../c`,
where `x` is missing, leads nowhere until `x` is made; it is not emptied at all.
-/

namespace BuildScript

open Relation

namespace FileTree

variable {t t' : FileTree} {p : Path}

/-! ## Single entries -/

theorem vacant_of_entry {e : Entry} (hentry : t.entry p = .ok e) (hnamed : e.isNamed = true)
    (hnode : t.entryNode? e = .ok none) : t.Vacant p.place := by
  obtain ⟨front, slashes, h⟩ := exists_entryOf hentry hnamed
  rw [entryNode?] at hnode
  split at hnode
  · cases hnode
  · rw [← h.place_eq hnamed]
    refine ⟨Except.ok.inj hnode, ?_⟩
    rw [Entry.place, List.dropLast_concat]
    exact h.directory

/-- Making a directory fails and leaves the tree as it is, or puts a directory at a vacant place. -/
theorem run_makeDirectory (p : Path) (t : FileTree) :
    (∃ e, (makeDirectory p).run t = (.error e, t) ∧ (t.isDirectory p = true → e = .alreadyExists)) ∨
      t.Vacant p.place ∧ (makeDirectory p).run t = (.ok (), t.add p.place .directory) := by
  rw [makeDirectory, run_bind_ok (run_get t)]
  cases hentry : t.entry p with
  | error e =>
    rw [run_bind_error (run_lift _ _)]
    refine .inl ⟨e, rfl, fun h ↦ ?_⟩
    obtain ⟨e', he', -⟩ := exists_entry_of_lookup (isDirectory_iff.mp h)
    rw [hentry] at he'
    cases he'
  | ok e =>
    rw [run_bind_ok (run_lift _ _)]
    by_cases hnamed : e.isNamed = true
    · dsimp only
      rw [if_neg (by simp [hnamed])]
      cases hnode : t.entryNode? e with
      | error cause =>
        rw [run_bind_error (run_lift _ _)]
        refine .inl ⟨cause, rfl, fun h ↦ ?_⟩
        obtain ⟨e', he', hfound⟩ := exists_entry_of_lookup (isDirectory_iff.mp h)
        rw [hentry] at he'
        obtain rfl := Except.ok.inj he'
        rw [hfound hnamed] at hnode
        cases hnode
      | ok found =>
        rw [run_bind_ok (run_lift _ _)]
        cases found with
        | some n => exact .inl ⟨_, rfl, fun _ ↦ rfl⟩
        | none =>
          refine .inr ⟨vacant_of_entry hentry hnamed hnode, ?_⟩
          rw [place_eq_of_entry hentry hnamed]
          rfl
    · dsimp only
      rw [if_pos (by simp [hnamed])]
      exact .inl ⟨_, rfl, fun _ ↦ rfl⟩

/-- A directory is made, or it is there, or the operation fails and the tree stays. -/
theorem run_ensureDirectory (p : Path) (t : FileTree) :
    (t.Vacant p.place ∧ (ensureDirectory p).run t = (.ok (), t.add p.place .directory)) ∨
      (ensureDirectory p).run t = (.ok (), t) ∨
      ∃ e, (ensureDirectory p).run t = (.error e, t) ∧ t.isDirectory p = false := by
  rw [ensureDirectory]
  rcases run_makeDirectory p t with ⟨e, hmake, he⟩ | ⟨hvacant, hmake⟩
  · rw [run_tryCatch_error hmake, run_bind_ok (run_get t)]
    split
    next hfail =>
      refine .inr (.inr ⟨e, rfl, ?_⟩)
      by_contra hdirectory
      rw [Bool.not_eq_false] at hdirectory
      rw [he hdirectory, hdirectory] at hfail
      exact absurd hfail (by decide)
    next => exact .inr (.inl rfl)
  · exact .inl ⟨hvacant, run_tryCatch_ok hmake⟩

theorem moves_ensureDirectory (p : Path) : Moves (Makes (· = p.place)) (ensureDirectory p) := by
  intro t
  rcases run_ensureDirectory p t with ⟨hvacant, h⟩ | h | ⟨e, h, -⟩
  · rw [h]
    exact .single (.directory rfl hvacant)
  · rw [h]
  · rw [h]

/-! ## Directories with those above them -/

/-- What the climb does first. -/
theorem run_climb_cons (missing above : List Path) (p : Path) (t : FileTree) :
    (t.Vacant p.place ∧
      (climb missing (p :: above)).run t = (.ok missing, t.add p.place .directory)) ∨
    (climb missing (p :: above)).run t = (.ok missing, t) ∨
    (climb missing (p :: above)).run t = (climb (p :: missing) above).run t ∨
    ∃ e, (climb missing (p :: above)).run t = (.error e, t) ∧ t.isDirectory p = false := by
  rw [climb]
  have hfound {s} (h : (ensureDirectory p).run t = (.ok (), s)) :
      (do ensureDirectory p; pure true : FileM Bool).run t = (.ok true, s) := run_bind_ok h
  rcases run_ensureDirectory p t with ⟨hvacant, h⟩ | h | ⟨e, h, hdirectory⟩
  · refine .inl ⟨hvacant, ?_⟩
    rw [run_bind_ok (run_tryCatch_ok (hfound h))]
    rfl
  · refine .inr (.inl ?_)
    rw [run_bind_ok (run_tryCatch_ok (hfound h))]
    rfl
  · have hmissing : (do ensureDirectory p; pure true : FileM Bool).run t = (.error e, t) :=
      run_bind_error h
    rw [run_bind, run_tryCatch_error hmissing]
    by_cases he : e = .notFound
    · rw [if_pos he]
      exact .inr (.inr (.inl rfl))
    · rw [if_neg he]
      exact .inr (.inr (.inr ⟨e, rfl, hdirectory⟩))

theorem moves_climb (missing above : List Path) :
    Moves (Makes fun l ↦ ∃ q ∈ above, l = q.place) (climb missing above) := by
  induction above generalizing missing with
  | nil => exact Moves.pure missing
  | cons p above ih =>
    intro t
    rcases run_climb_cons missing above p t with ⟨hvacant, h⟩ | h | h | ⟨e, h, -⟩
    · rw [h]
      exact .single (.directory ⟨p, List.mem_cons_self, rfl⟩ hvacant)
    · rw [h]
    · rw [h]
      refine ReflTransGen.mono (fun _ _ hmakes ↦ ?_) _ _ (ih (p :: missing) t)
      obtain ⟨⟨q, hq, hplace⟩, hvacant⟩ := hmakes
      exact .directory ⟨q, List.mem_cons_of_mem p hq, hplace⟩ hvacant
    · rw [h]

/-- A climb gives paths that it has passed. -/
theorem mem_of_climb {missing above found : List Path} (h : (climb missing above).run t = (.ok found, t')) :
    ∀ q ∈ found, q ∈ missing ∨ q ∈ above := by
  induction above generalizing missing with
  | nil =>
    rw [climb, run_pure] at h
    cases h
    exact fun q hq ↦ .inl hq
  | cons p above ih =>
    rcases run_climb_cons missing above p t with ⟨-, hrun⟩ | hrun | hrun | ⟨e, hrun, -⟩
    · rw [hrun] at h
      cases h
      exact fun q hq ↦ .inl hq
    · rw [hrun] at h
      cases h
      exact fun q hq ↦ .inl hq
    · rw [hrun] at h
      intro q hq
      rcases ih h q hq with hq | hq
      · rcases List.mem_cons.mp hq with rfl | hq
        · exact .inr List.mem_cons_self
        · exact .inl hq
      · exact .inr (List.mem_cons_of_mem p hq)
    · rw [hrun] at h
      cases h

/-- A climb fails at a path that is none of a directory. -/
theorem exists_of_climb_error {missing above : List Path} {e : FileError}
    (h : (climb missing above).run t = (.error e, t')) : ∃ q ∈ above, t'.isDirectory q = false := by
  induction above generalizing missing with
  | nil =>
    rw [climb, run_pure] at h
    cases h
  | cons p above ih =>
    rcases run_climb_cons missing above p t with ⟨-, hrun⟩ | hrun | hrun | ⟨e, hrun, hdirectory⟩
    · rw [hrun] at h
      cases h
    · rw [hrun] at h
      cases h
    · rw [hrun] at h
      obtain ⟨q, hq, hdirectory⟩ := ih h
      exact ⟨q, List.mem_cons_of_mem p hq, hdirectory⟩
    · rw [hrun] at h
      cases h
      exact ⟨p, List.mem_cons_self, hdirectory⟩

/-- Makes directories one after the other. -/
theorem exists_of_loop_error {ps : List Path} {e : FileError}
    (h : (forIn ps PUnit.unit fun q _ ↦ do
      ensureDirectory q
      pure (ForInStep.yield PUnit.unit) : FileM PUnit).run t = (.error e, t')) :
    ∃ q ∈ ps, t'.isDirectory q = false := by
  induction ps generalizing t with
  | nil => cases h
  | cons p ps ih =>
    rw [List.forIn_cons] at h
    have hrest {s} (hrun : (ensureDirectory p).run t = (.ok (), s)) :
        ∃ q ∈ p :: ps, t'.isDirectory q = false := by
      have hyield : (do ensureDirectory p; pure (ForInStep.yield PUnit.unit) :
          FileM (ForInStep PUnit)).run t = (.ok (.yield ⟨⟩), s) := run_bind_ok hrun
      rw [run_bind_ok hyield] at h
      obtain ⟨q, hq, hdirectory⟩ := ih h
      exact ⟨q, List.mem_cons_of_mem p hq, hdirectory⟩
    rcases run_ensureDirectory p t with ⟨-, hrun⟩ | hrun | ⟨e', hrun, hdirectory⟩
    · exact hrest hrun
    · exact hrest hrun
    · rw [run_bind_error (run_bind_error hrun)] at h
      cases h
      exact ⟨p, List.mem_cons_self, hdirectory⟩

/-- Only directories on the way to the path are made. -/
theorem moves_createDirectory (p : Path) :
    Moves (Makes fun l ↦ ∃ q ∈ p.ancestors, l = q.place) (createDirectory p) := by
  intro t
  rw [createDirectory, run_bind]
  have hclimb := moves_climb [] p.ancestors t
  split
  next found t' h =>
    rw [h] at hclimb
    refine hclimb.trans (Moves.bind (Moves.forIn fun q hq _ ↦ ?_) (fun _ ↦ Moves.pure _) t')
    refine Moves.bind ((moves_ensureDirectory q).mono fun _ _ hmakes ↦ ?_) fun _ ↦ Moves.pure _
    obtain ⟨rfl, hvacant⟩ := hmakes
    rcases mem_of_climb h q hq with hq | hq
    · exact absurd hq List.not_mem_nil
    · exact .directory ⟨q, hq, rfl⟩ hvacant
  next e t' h =>
    rw [h] at hclimb
    exact hclimb

/-- If a directory cannot be made, the path leads to none. -/
theorem isDirectory_of_createDirectory_error {e : FileError}
    (h : (createDirectory p).run t = (.error e, t')) : t'.isDirectory p = false := by
  have hfailed : ∃ q ∈ p.ancestors, t'.isDirectory q = false := by
    rw [createDirectory, run_bind] at h
    split at h
    next found t₁ hclimb =>
      rw [run_bind] at h
      split at h
      next => cases h
      next e' t₂ hloop =>
        cases h
        obtain ⟨q, hq, hdirectory⟩ := exists_of_loop_error hloop
        rcases mem_of_climb hclimb q hq with hq | hq
        · exact absurd hq List.not_mem_nil
        · exact ⟨q, hq, hdirectory⟩
    next e' t₂ hclimb =>
      cases h
      exact exists_of_climb_error hclimb
  obtain ⟨q, hq, hdirectory⟩ := hfailed
  by_contra hp
  rw [Bool.not_eq_false] at hp
  rw [isDirectory_of_mem_ancestors hp hq] at hdirectory
  cases hdirectory

/-! ## Removing directories -/

theorem isDirectory_of_lookup {n : FileNode} (h : t.lookup p = .ok n) (hn : n ≠ .directory) :
    t.isDirectory p = false := by
  by_contra hp
  rw [Bool.not_eq_false, isDirectory_iff, h] at hp
  exact hn (Except.ok.inj hp)

/-- Removing fails and leaves the tree as it is, or the directory is emptied and perhaps removed. -/
theorem run_removeDirectory (p : Path) (t : FileTree) :
    (t.isDirectory p = false ∧ ∃ e, (removeDirectory p).run t = (.error e, t) ∧
      (e = .notFound → t.lookup p = .error .notFound)) ∨
    (t.isDirectory p = true ∧ ∃ r t', (removeDirectory p).run t = (r, t') ∧
      (t' = t.clear p.place ∨ t' = (t.clear p.place).drop p.place)) := by
  rw [removeDirectory, run_bind_ok (run_get t)]
  cases hlocate : t.locate p with
  | error e =>
    have hlookup : t.lookup p = .error e := by rw [lookup, hlocate]; rfl
    rw [run_bind_error (run_lift _ _), isDirectory, hlookup]
    exact .inl ⟨rfl, e, rfl, fun h ↦ h ▸ rfl⟩
  | ok place =>
    obtain rfl := place_eq_of_locate hlocate
    rw [run_bind_ok (run_lift _ _)]
    cases hnode : t.node? p.place with
    | none =>
      have hlookup := lookup_eq_notFound hlocate hnode
      rw [isDirectory, hlookup]
      exact .inl ⟨rfl, _, rfl, fun _ ↦ rfl⟩
    | some n =>
      have hlookup := lookup_eq_ok_iff.mpr ⟨hlocate, hnode⟩
      cases n with
      | file number =>
        have hfile : FileNode.file number ≠ .directory := by
          intro h
          cases h
        refine .inl ⟨isDirectory_of_lookup hlookup hfile, .notADirectory, rfl, fun h ↦ ?_⟩
        cases h
      | directory =>
        refine .inr ⟨isDirectory_iff.mpr hlookup, ?_⟩
        dsimp only
        rw [run_bind_ok (run_set t _)]
        cases hentry : (t.clear p.place).entry p with
        | error e =>
          by_cases he : e = .notFound
          · subst he
            exact ⟨_, _, rfl, .inl rfl⟩
          · refine ⟨.error e, _, ?_, .inl rfl⟩
            cases e <;> first | rfl | exact absurd rfl he
        | ok e =>
          dsimp only
          by_cases hnamed : e.isNamed = true
          · rw [if_pos hnamed, place_eq_of_entry hentry hnamed]
            exact ⟨_, _, rfl, .inr rfl⟩
          · rw [if_neg hnamed]
            exact ⟨_, _, rfl, .inl rfl⟩

theorem moves_removeDirectory (p : Path) : Moves Change (removeDirectory p) := by
  intro t
  rcases run_removeDirectory p t with ⟨-, e, h, -⟩ | ⟨-, r, t', h, rfl | rfl⟩
  · rw [h]
  · rw [h]
    exact .single (.clear _ _)
  · rw [h]
    exact .tail (.single (.clear _ _)) (.drop _ _)

theorem moves_recreateDirectory (p : Path) : Moves Change (recreateDirectory p) := by
  rw [recreateDirectory]
  refine Moves.bind (Moves.tryCatch (moves_removeDirectory p) fun e ↦ ?_) fun _ ↦
    (moves_createDirectory p).mono fun _ _ h ↦ h.change
  split
  · exact Moves.throw e
  · exact Moves.pure _

/-! ## Emptied directories -/

/-- No file is left below the path, and nothing at all if the path does not go up: a path that does
may lead through the directory itself, and is then made anew. -/
structure Cleared (t : FileTree) (p : Path) : Prop where
  files : ∀ x ∈ t.held p, x.2 = .directory
  plain : p.IsPlain → t.held p = []

theorem held_eq_nil_of_not_isDirectory (ht : t.WellFormed) (h : t.isDirectory p = false) :
    t.held p = [] := by
  rw [List.eq_nil_iff_forall_not_mem]
  intro x hx
  obtain ⟨hlocate, hx⟩ := mem_held_iff.mp hx
  rw [ht.below_eq_nil] at hx
  · exact absurd hx List.not_mem_nil
  · intro hnode
    rw [isDirectory_iff.mpr (lookup_eq_ok_iff.mpr ⟨hlocate, hnode⟩)] at h
    cases h

theorem cleared_of_held_eq_nil (h : t.held p = []) : t.Cleared p :=
  ⟨fun _ hx ↦ absurd (h ▸ hx) List.not_mem_nil, fun _ ↦ h⟩

theorem Makes.mem_below {P : Location → Prop} {place : Location} {x : Location × FileNode}
    (h : Makes P t t') (hx : x ∈ t'.below place) :
    x ∈ t.below place ∨ x.2 = .directory ∧ P x.1 ∧ place <+: x.1 ∧ x.1 ≠ place := by
  obtain ⟨allowed, vacant⟩ := h
  obtain ⟨hmem, hunder, hne⟩ := mem_below_iff.mp hx
  rcases List.mem_append.mp hmem with hmem | hmem
  · exact .inl (mem_below_iff.mpr ⟨hmem, hunder, hne⟩)
  · rw [List.mem_singleton] at hmem
    subst hmem
    exact .inr ⟨rfl, allowed, hunder, hne⟩

theorem directory_of_makes {P : Location → Prop} {place : Location} (hempty : t.below place = [])
    (h : ReflTransGen (Makes P) t t') : ∀ x ∈ t'.below place, x.2 = .directory ∧ P x.1 := by
  refine keeps_of_steps (P := fun s ↦ ∀ x ∈ s.below place, x.2 = .directory ∧ P x.1)
    (fun s s' hstep hs x hx ↦ ?_) h (by simp [hempty])
  rcases hstep.mem_below hx with hx | ⟨hdirectory, hplace, -⟩
  · exact hs x hx
  · exact ⟨hdirectory, hplace⟩

/-- Below an emptied directory stands only what is made on the way to the path. -/
theorem cleared_of_makes (hempty : t.below p.place = [])
    (h : ReflTransGen (Makes fun l ↦ ∃ q ∈ p.ancestors, l = q.place) t t') : t'.Cleared p := by
  have hmade := directory_of_makes hempty h
  refine ⟨fun x hx ↦ (hmade x (mem_held_iff.mp hx).2).1, fun hplain ↦ ?_⟩
  rw [List.eq_nil_iff_forall_not_mem]
  intro x hx
  obtain ⟨-, q, hq, hplace⟩ := hmade x (mem_held_iff.mp hx).2
  obtain ⟨-, hunder, hne⟩ := mem_below_iff.mp (mem_held_iff.mp hx).2
  have habove := Path.place_prefix_of_mem_ancestors hplain hq
  rw [← hplace] at habove
  exact hne (habove.eq_of_length_le hunder.length_le)

theorem below_eq_nil_of_removed {place : Location}
    (h : t' = t.clear place ∨ t' = (t.clear place).drop place) : t'.below place = [] := by
  have hclear : (t.clear place).below place = [] := by
    rw [List.eq_nil_iff_forall_not_mem]
    intro x hx
    obtain ⟨hmem, hunder, hne⟩ := mem_below_iff.mp hx
    have hkept := (List.mem_filter.mp hmem).2
    rw [Bool.or_eq_true, Bool.not_eq_true', isPrefixOf_eq_false_iff, beq_iff_eq] at hkept
    exact hkept.elim (fun h ↦ h hunder) hne
  rcases h with rfl | rfl
  · exact hclear
  · rw [List.eq_nil_iff_forall_not_mem] at hclear ⊢
    intro x hx
    obtain ⟨hmem, hunder, hne⟩ := mem_below_iff.mp hx
    exact hclear x (mem_below_iff.mpr ⟨List.mem_of_mem_filter hmem, hunder, hne⟩)

/-- Every node of the first tree is one of the second. -/
def Within (t t' : FileTree) : Prop := ∀ l n, t.node? l = some n → t'.node? l = some n

theorem Within.held_subset (h : t.Within t') (ht : t.WellFormed) (ht' : t'.WellFormed) :
    ∀ x ∈ t.held p, x ∈ t'.held p := by
  intro x hx
  obtain ⟨hlocate, hx⟩ := mem_held_iff.mp hx
  obtain ⟨hmem, hbelow⟩ := mem_below_iff.mp hx
  obtain ⟨hnode, hne⟩ := ht.mem_nodes_iff.mp hmem
  exact mem_held_iff.mpr ⟨locate_mono (fun l ↦ h l _) hlocate,
    mem_below_iff.mpr ⟨ht'.mem_nodes_iff.mpr ⟨h _ _ hnode, hne⟩, hbelow⟩⟩

theorem Cleared.within (h : t'.Cleared p) (hsub : ∀ x ∈ t.held p, x ∈ t'.held p) : t.Cleared p where
  files x hx := h.files x (hsub x hx)
  plain hplain := by
    have hempty := h.plain hplain
    rw [List.eq_nil_iff_forall_not_mem] at hempty ⊢
    exact fun x hx ↦ hempty x (hsub x hx)

theorem within_of_removed {place : Location}
    (h : t' = t.clear place ∨ t' = (t.clear place).drop place) : t'.Within t := by
  have hclear : (t.clear place).Within t := by
    intro l n hn
    rw [node?_clear] at hn
    split at hn
    · cases hn
    · exact hn
  rcases h with rfl | rfl
  · exact hclear
  · intro l n hn
    rw [node?_drop] at hn
    split at hn
    · cases hn
    · exact hclear l n hn

/-- Making directories on the way to a directory adds nothing. -/
theorem within_of_makes {t₁ : FileTree} (hp : t.isDirectory p = true) (h₁ : t₁.Within t)
    (h : ReflTransGen (Makes fun l ↦ ∃ q ∈ p.ancestors, l = q.place) t₁ t') : t'.Within t := by
  refine keeps_of_steps (P := fun s ↦ s.Within t) (fun s s' hstep hs l n hn ↦ ?_) h h₁
  obtain ⟨⟨q, hq, rfl⟩, hvacant⟩ := hstep
  rw [node?_add hvacant] at hn
  split at hn
  · next heq =>
    have hdirectory := isDirectory_iff.mp (isDirectory_of_mem_ancestors hp hq)
    rw [heq, ← Option.some.inj hn]
    exact (lookup_eq_ok_iff.mp hdirectory).2
  · exact hs l n hn

/-! ## Directories made anew -/

/-- What is no directory is made one, unless something else is in the way; a directory is emptied,
and after that it is made where it stood, unless emptying it has failed. -/
theorem run_recreateDirectory (p : Path) (t : FileTree) :
    (t.isDirectory p = false ∧
      ((∃ e, (recreateDirectory p).run t = (.error e, t)) ∨
        t.lookup p = .error .notFound ∧
          (recreateDirectory p).run t = (createDirectory p).run t)) ∨
    (t.isDirectory p = true ∧ ∃ t₁, t₁.below p.place = [] ∧ t₁.Within t ∧
      ((∃ e, (recreateDirectory p).run t = (.error e, t₁)) ∨
        (recreateDirectory p).run t = (createDirectory p).run t₁)) := by
  rw [recreateDirectory]
  have hcatch {e t₁} (hremove : (removeDirectory p).run t = (.error e, t₁)) :
      (∃ e', (do
        try removeDirectory p
        catch e => if e != .notFound then throw e
        createDirectory p : FileM Unit).run t = (.error e', t₁) ∧ e ≠ .notFound) ∨
      (do
        try removeDirectory p
        catch e => if e != .notFound then throw e
        createDirectory p : FileM Unit).run t = (createDirectory p).run t₁ ∧ e = .notFound := by
    rw [run_bind, run_tryCatch_error hremove]
    by_cases he : e = .notFound
    · rw [if_neg (by simp [he])]
      exact .inr ⟨rfl, he⟩
    · rw [if_pos (by simpa using he)]
      exact .inl ⟨e, rfl, he⟩
  rcases run_removeDirectory p t with ⟨hdirectory, e, hremove, hmissing⟩ | ⟨hdirectory, r, t₁, hremove, ht₁⟩
  · refine .inl ⟨hdirectory, ?_⟩
    rcases hcatch hremove with ⟨e', h, -⟩ | ⟨h, he⟩
    · exact .inl ⟨e', h⟩
    · exact .inr ⟨hmissing he, h⟩
  · refine .inr ⟨hdirectory, t₁, below_eq_nil_of_removed ht₁, within_of_removed ht₁, ?_⟩
    cases r with
    | ok =>
      rw [run_bind_ok (run_tryCatch_ok hremove)]
      exact .inr rfl
    | error e =>
      rcases hcatch hremove with ⟨e', h, -⟩ | ⟨h, -⟩
      · exact .inl ⟨e', h⟩
      · exact .inr h

/-- A directory that was there is empty afterwards, whatever the outcome; and where a directory
cannot be made there is none. -/
theorem cleared_of_recreateDirectory (ht : t.WellFormed) {r : Except FileError Unit}
    (h : (recreateDirectory p).run t = (r, t')) (hdone : t.isDirectory p = true ∨ r ≠ .ok ()) :
    t'.Cleared p := by
  have ht' : t'.WellFormed := by
    have := ht.changes (moves_recreateDirectory p t)
    rwa [h] at this
  rcases run_recreateDirectory p t with ⟨hdirectory, hrun⟩ | ⟨hdirectory, t₁, hempty, -, hrun⟩
  · have hr : r ≠ .ok () := hdone.resolve_left (by simp [hdirectory])
    rcases hrun with ⟨e, hrun⟩ | ⟨-, hrun⟩
    · rw [hrun] at h
      cases h
      exact cleared_of_held_eq_nil (held_eq_nil_of_not_isDirectory ht hdirectory)
    · rw [hrun] at h
      cases r with
      | ok => exact absurd rfl hr
      | error e =>
        exact cleared_of_held_eq_nil
          (held_eq_nil_of_not_isDirectory ht' (isDirectory_of_createDirectory_error h))
  · rcases hrun with ⟨e, hrun⟩ | hrun
    · rw [hrun] at h
      cases h
      exact cleared_of_makes hempty .refl
    · have hmakes := moves_createDirectory p t₁
      rw [← hrun, h] at hmakes
      exact cleared_of_makes hempty hmakes

/-- Where something is missing on the way to a location, nothing is at it. -/
theorem below_eq_nil_of_missing {l place : Location} (ht : t.WellFormed) (hunder : l <+: place)
    (hl : t.node? l = none) : t.below place = [] := by
  rw [List.eq_nil_iff_forall_not_mem]
  intro x hx
  obtain ⟨hmem, hx, -⟩ := mem_below_iff.mp hx
  have hnode := (ht.mem_nodes_iff.mp hmem).1
  have hfound : t.node? l ≠ none := by
    by_cases heq : x.1 = l
    · rw [← heq, hnode]
      simp
    · rw [ht.node?_of_below hnode (hunder.trans hx) heq]
      simp
  exact hfound hl

/-- After a success there are no files in the directory, unless the path goes up and did not lead to
the directory before: then the directory was not emptied, though it may have been there. -/
theorem directory_of_recreateDirectory (ht : t.WellFormed) (husable : p.Usable)
    (hp : p.IsPlain ∨ t.isDirectory p = true) (h : (recreateDirectory p).run t = (.ok (), t')) :
    ∀ x ∈ t'.below p.place, x.2 = .directory := by
  suffices hempty : ∃ t₁, t₁.below p.place = [] ∧
      (recreateDirectory p).run t = (createDirectory p).run t₁ by
    obtain ⟨t₁, hempty, hrun⟩ := hempty
    have hmakes := moves_createDirectory p t₁
    rw [← hrun, h] at hmakes
    exact fun x hx ↦ (directory_of_makes hempty hmakes x hx).1
  rcases run_recreateDirectory p t with ⟨hdirectory, hrun⟩ | ⟨-, t₁, hempty, -, hrun⟩
  · have hplain := hp.resolve_right (by simp [hdirectory])
    rcases hrun with ⟨e, hrun⟩ | ⟨hnone, hrun⟩
    · rw [hrun] at h
      cases h
    · obtain ⟨l, hunder, hl⟩ := exists_missing_of_lookup husable hplain hnone
      exact ⟨t, below_eq_nil_of_missing ht hunder hl, hrun⟩
  · rcases hrun with ⟨e, hrun⟩ | hrun
    · rw [hrun] at h
      cases h
    · exact ⟨t₁, hempty, hrun⟩

/-- Making a directory anew that is there adds nothing to the tree. -/
theorem within_of_recreateDirectory (h : t.existsAt p = true) :
    ((recreateDirectory p).run t).2.Within t := by
  rcases run_recreateDirectory p t with ⟨-, hrun⟩ | ⟨hdirectory, t₁, -, hwithin, hrun⟩
  · rcases hrun with ⟨e, hrun⟩ | ⟨hnone, -⟩
    · rw [hrun]
      exact fun l n hn ↦ hn
    · rw [existsAt, hnone] at h
      cases h
  · rcases hrun with ⟨e, hrun⟩ | hrun
    · rw [hrun]
      exact hwithin
    · rw [hrun]
      exact within_of_makes hdirectory hwithin (moves_createDirectory p t₁)

/-! ### Wiping -/

/-- The tree after a directory was made anew, if anything was there. -/
def wiped (t : FileTree) (p : Path) : FileTree :=
  if t.existsAt p then ((recreateDirectory p).run t).2 else t

theorem WellFormed.wiped (ht : t.WellFormed) (p : Path) : (t.wiped p).WellFormed := by
  rw [FileTree.wiped]
  split
  · exact ht.changes (moves_recreateDirectory p t)
  · exact ht

theorem wiped_within (t : FileTree) (p : Path) : (t.wiped p).Within t := by
  rw [wiped]
  split
  · next h => exact within_of_recreateDirectory h
  · exact fun l n hn ↦ hn

theorem isDirectory_of_existsAt_eq_false (h : t.existsAt p = false) : t.isDirectory p = false := by
  by_contra hdirectory
  rw [Bool.not_eq_false, isDirectory_iff] at hdirectory
  rw [existsAt, hdirectory] at h
  cases h

theorem cleared_wiped (ht : t.WellFormed) (p : Path) : (t.wiped p).Cleared p := by
  rw [wiped]
  split
  · by_cases hdirectory : t.isDirectory p = true
    · exact cleared_of_recreateDirectory ht rfl (.inl hdirectory)
    · rw [Bool.not_eq_true] at hdirectory
      -- What is there and is no directory stays, since it cannot be removed like one.
      rcases run_recreateDirectory p t with ⟨-, ⟨e, hrun⟩ | ⟨hnone, -⟩⟩ | ⟨hyes, -⟩
      · rw [hrun]
        exact cleared_of_held_eq_nil (held_eq_nil_of_not_isDirectory ht hdirectory)
      · next hexists =>
        rw [existsAt, hnone] at hexists
        cases hexists
      · rw [hdirectory] at hyes
        cases hyes
  · next hexists =>
    rw [Bool.not_eq_true] at hexists
    exact cleared_of_held_eq_nil
      (held_eq_nil_of_not_isDirectory ht (isDirectory_of_existsAt_eq_false hexists))

end FileTree

end BuildScript
