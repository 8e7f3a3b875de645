import BuildScript.Compile.CodeGeneration
import BuildScript.Proofs.Bytecode.WellFormed

/-!
# Names of locals

Slots are given to names in order and a name keeps its first slot, so the slots of a method are no
more than a list of distinct names: the name with slot `i` is the one at index `i`. `localNames` is
that list for a method, and `Slots.Lists` ties the table that code generation keeps to it. Nothing
later looks into the table.
-/

namespace BuildScript

/-! ## Lists of distinct names -/

/-- The names with those of a second list behind them that are new. -/
def withNames (names : List String) : List String → List String
  | [] => names
  | n :: ns => withNames (if n ∈ names then names else names ++ [n]) ns

theorem mem_withNames {names ns : List String} {name : String} :
    name ∈ withNames names ns ↔ name ∈ names ∨ name ∈ ns := by
  induction ns generalizing names with
  | nil => simp [withNames]
  | cons n ns ih =>
    rw [withNames, ih, List.mem_cons]
    by_cases hn : n ∈ names
    · rw [if_pos hn]
      constructor
      · rintro (h | h)
        · exact .inl h
        · exact .inr (.inr h)
      · rintro (h | rfl | h)
        · exact .inl h
        · exact .inl hn
        · exact .inr h
    · rw [if_neg hn, List.mem_append, List.mem_singleton, or_assoc]

theorem prefix_withNames (names ns : List String) : names <+: withNames names ns := by
  induction ns generalizing names with
  | nil => exact List.prefix_refl _
  | cons n ns ih =>
    rw [withNames]
    refine .trans ?_ (ih _)
    split
    · exact List.prefix_refl _
    · exact List.prefix_append _ _

/-- Names that are all new are put behind the others. -/
theorem withNames_of_nodup {names ns : List String} (h : (names ++ ns).Nodup) :
    withNames names ns = names ++ ns := by
  induction ns generalizing names with
  | nil => rw [withNames, List.append_nil]
  | cons n ns ih =>
    have hn : n ∉ names := fun hmem ↦
      (List.nodup_append.mp h).2.2 n hmem n List.mem_cons_self rfl
    have hassoc : names ++ n :: ns = (names ++ [n]) ++ ns := by simp
    rw [withNames, if_neg hn, ih (hassoc ▸ h), hassoc]

/-! ## What a body declares -/

/-- The names that `def` declares anywhere in the statement. -/
def Stmt.declared (s : Stmt) : List String := (s.collectDeclared #[]).toList

mutual

theorem Stmt.toList_collectDeclared (s : Stmt) (names : Array String) :
    (s.collectDeclared names).toList = names.toList ++ s.declared := by
  rw [Stmt.declared]
  cases s with
  | expression | result => simp [Stmt.collectDeclared]
  | declare => simp [Stmt.collectDeclared]
  | ifThen _ body | loop _ body =>
    rw [Stmt.collectDeclared, Stmt.collectDeclared, body.toList_collectDeclared,
      body.toList_collectDeclared, List.nil_append]
  | ifElse _ body alternative =>
    rw [Stmt.collectDeclared, Stmt.collectDeclared, alternative.toList_collectDeclared,
      body.toList_collectDeclared, alternative.toList_collectDeclared (body.collectDeclared #[]),
      body.toList_collectDeclared #[], List.nil_append, List.append_assoc]
  | block body =>
    rw [Stmt.collectDeclared, Stmt.collectDeclared, Stmt.toList_collectAllDeclared body,
      Stmt.toList_collectAllDeclared body #[], List.nil_append]

theorem Stmt.toList_collectAllDeclared (ss : List Stmt) (names : Array String) :
    (Stmt.collectAllDeclared names ss).toList = names.toList ++ ss.flatMap Stmt.declared := by
  cases ss with
  | nil => simp [Stmt.collectAllDeclared]
  | cons s ss =>
    rw [Stmt.collectAllDeclared, Stmt.toList_collectAllDeclared ss, s.toList_collectDeclared,
      List.flatMap_cons, List.append_assoc]

end

/-- A body declares what its statements declare, in the same order. -/
theorem declaredNames_eq_flatMap (body : List Stmt) :
    declaredNames body = body.flatMap Stmt.declared :=
  Stmt.toList_collectAllDeclared body #[]

theorem Stmt.declared_block (body : List Stmt) (span : Span) :
    (Stmt.block body span).declared = body.flatMap Stmt.declared := by
  rw [Stmt.declared, Stmt.collectDeclared]
  exact Stmt.toList_collectAllDeclared body #[]

/-! ## The locals of a method -/

/-- The names of a method's locals in the order of their slots: first the parameters, then what its
body declares. -/
def Method.localNames (m : Method) : List String :=
  withNames (withNames [] (m.parameters.map (·.name))) (declaredNames m.body)

theorem Method.mem_localNames {m : Method} {name : String} :
    name ∈ m.localNames ↔ name ∈ m.parameters.map (·.name) ∨ name ∈ declaredNames m.body := by
  simp [localNames, mem_withNames]

/-! ## Tables of slots -/

/-- The table gives each of the names the index at which it is listed, and no other name a slot. -/
structure Slots.Lists (slots : Slots) (names : List String) : Prop where
  nodup : names.Nodup
  count_eq : slots.count = names.length
  length_le : names.length ≤ limit
  slot?_eq_some_iff : ∀ name slot, slots.slot? name = some slot ↔ names[slot.toNat]? = some name

namespace Slots.Lists

variable {slots slots' : Slots} {names ns : List String} {method name : String}

theorem empty : Lists {} [] where
  nodup := .nil
  count_eq := rfl
  length_le := Nat.zero_le _
  slot?_eq_some_iff := by simp [slot?]

theorem toNat_toUInt16 (h : slots.Lists names) {i : Nat} (hi : i ≤ names.length) :
    i.toUInt16.toNat = i := by
  have hle := h.length_le
  rw [limit] at hle
  exact UInt16.toNat_ofNat_of_lt (by rw [UInt16.size]; omega)

theorem slot?_eq_none_iff (h : slots.Lists names) : slots.slot? name = none ↔ name ∉ names := by
  constructor
  · intro hnone hmem
    obtain ⟨i, hi, rfl⟩ := List.mem_iff_getElem.mp hmem
    have hslot := (h.slot?_eq_some_iff names[i] i.toUInt16).mpr (by
      rw [h.toNat_toUInt16 (Nat.le_of_lt hi), List.getElem?_eq_getElem hi])
    rw [hnone] at hslot
    cases hslot
  · intro hmem
    rw [Option.eq_none_iff_forall_ne_some]
    intro slot hslot
    exact hmem (List.mem_of_getElem? ((h.slot?_eq_some_iff name slot).mp hslot))

/-- A new name gets the next slot. -/
theorem insert (h : slots.Lists names) (hname : name ∉ names) (hlt : names.length < limit) :
    Lists ⟨slots.byName.insert name slots.count.toUInt16, slots.count + 1⟩ (names ++ [name]) where
  nodup := by
    rw [List.nodup_append]
    refine ⟨h.nodup, List.pairwise_singleton _ name, fun a ha b hb heq ↦ ?_⟩
    exact hname (List.mem_singleton.mp hb ▸ heq ▸ ha)
  count_eq := by rw [List.length_append, List.length_singleton, h.count_eq]
  length_le := by rwa [List.length_append, List.length_singleton]
  slot?_eq_some_iff := by
    intro other slot
    have hnew : names.length.toUInt16.toNat = names.length := h.toNat_toUInt16 (Nat.le_refl _)
    rw [slot?, Std.HashMap.getElem?_insert, h.count_eq, List.getElem?_append]
    by_cases heq : name = other
    · -- The name has exactly one slot, since it is not among the old ones.
      subst heq
      rw [if_pos (beq_self_eq_true name), Option.some.injEq]
      constructor
      · rintro rfl
        simp [hnew]
      · intro hslot
        split at hslot
        · exact absurd (List.mem_of_getElem? hslot) hname
        · rw [List.getElem?_singleton] at hslot
          split at hslot
          · exact UInt16.toNat_inj.mp (by omega)
          · cases hslot
    · rw [if_neg (by simpa using heq)]
      refine (h.slot?_eq_some_iff other slot).trans ?_
      split
      · exact Iff.rfl
      · next hge =>
        rw [List.getElem?_eq_none (Nat.not_lt.mp hge), List.getElem?_singleton]
        split <;> simp [heq]

theorem add (h : slots.Lists names) (hadd : slots.add method name = .ok slots') :
    slots'.Lists (if name ∈ names then names else names ++ [name]) := by
  have hcontains : slots.byName.contains name = true ↔ name ∈ names := by
    rw [← Decidable.not_iff_not, ← h.slot?_eq_none_iff, slot?, Bool.not_eq_true,
      Std.HashMap.contains_eq_isSome_getElem?, Option.isSome_eq_false_iff,
      Option.isNone_iff_eq_none]
  rw [Slots.add] at hadd
  by_cases hname : name ∈ names
  · -- A name keeps its first slot.
    rw [if_pos (hcontains.mpr hname)] at hadd
    cases hadd
    rwa [if_pos hname]
  · rw [if_neg fun h ↦ hname (hcontains.mp h)] at hadd
    split at hadd
    · cases hadd
    · next hfull =>
      cases hadd
      rw [if_neg hname]
      refine h.insert hname (Nat.lt_of_le_of_ne h.length_le fun heq ↦ hfull ?_)
      rw [h.count_eq, heq, beq_self_eq_true]

theorem addSlots (h : slots.Lists names) (hadd : Method.addSlots method slots ns = .ok slots') :
    slots'.Lists (withNames names ns) := by
  induction ns generalizing slots names with
  | nil =>
    cases hadd
    exact h
  | cons n ns ih =>
    rw [Method.addSlots, bind_eq_ok] at hadd
    obtain ⟨between, hfirst, hrest⟩ := hadd
    rw [withNames]
    exact ih (h.add hfirst) hrest

end Slots.Lists

end BuildScript
