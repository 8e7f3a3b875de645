import BuildScript.Compile.ClassNode
import BuildScript.Proofs.Bytecode.WellFormed

/-!
# Accepted class nodes

The checks of a class node accept exactly those whose methods have distinct names, and whose methods
have distinct parameters.
-/

namespace BuildScript

namespace ClassNode

theorem firstRepeated?_eq_none_iff {seen ns : List String} :
    firstRepeated? seen ns = none ↔ ns.Nodup ∧ ∀ n ∈ ns, n ∉ seen := by
  induction ns generalizing seen with
  | nil => simp [firstRepeated?]
  | cons n ns ih =>
    rw [firstRepeated?, nodup_cons_and_fresh_iff, ← ih]
    by_cases hn : n ∈ seen <;> simp [hn]

theorem verifyMethods_eq_ok_iff {node : ClassNode} {seen : List String} {ms : List Method} :
    verifyMethods node seen ms = .ok () ↔
      ((ms.map (·.name)).Nodup ∧ ∀ n ∈ ms.map (·.name), n ∉ seen) ∧
        ∀ m ∈ ms, (m.parameters.map (·.name)).Nodup := by
  induction ms generalizing seen with
  | nil => simp [verifyMethods]
  | cons m ms ih =>
    have hparameters : (m.parameters.map (·.name)).Nodup ↔
        firstRepeated? [] (m.parameters.map (·.name)) = none := by
      rw [firstRepeated?_eq_none_iff]
      exact ⟨fun h ↦ ⟨h, fun _ _ ↦ List.not_mem_nil⟩, fun h ↦ h.1⟩
    rw [verifyMethods, List.map_cons, nodup_cons_and_fresh_iff, List.forall_mem_cons, hparameters]
    by_cases hm : m.name ∈ seen
    · simp [hm]
    · rw [if_neg fun h ↦ hm (List.contains_iff_mem.mp h)]
      cases firstRepeated? [] (m.parameters.map (·.name)) with
      | some n => simp
      | none => simp [ih, hm]

/-- A class node is accepted exactly if no name of a method and no parameter of a method repeats. -/
theorem verify_eq_ok_iff {node : ClassNode} :
    node.verify = .ok () ↔ (node.methods.map (·.name)).Nodup ∧
      ∀ m ∈ node.methods, (m.parameters.map (·.name)).Nodup := by
  rw [verify, verifyMethods_eq_ok_iff]
  constructor
  · rintro ⟨⟨hnodup, -⟩, hall⟩
    exact ⟨hnodup, hall⟩
  · rintro ⟨hnodup, hall⟩
    exact ⟨⟨hnodup, fun _ _ ↦ List.not_mem_nil⟩, hall⟩

end ClassNode

end BuildScript
