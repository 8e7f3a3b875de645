import BuildScript.Machine.Class

/-!
# Looking methods up

A compiled method is found in a class of the chain, and there it is the first one of its name. In a
class whose methods have distinct names the place of a method decides what is found under its name.
-/

namespace BuildScript

namespace ClassEntry

variable {entry owner : ClassEntry} {name : String} {index : Nat} {method : CompiledMethod}
  {constants : ConstantPool}

/-- What a class of the chain says about a compiled method that is found in it. -/
theorem findMethod?_eq_some_compiled
    (h : entry.findMethod? name = some (.compiled owner index method constants)) :
    owner = entry ∧ ∃ file, entry.body = .compiled file ∧ constants = file.constants ∧
      file.methods[index]? = some method ∧ method.name = name := by
  rw [findMethod?] at h
  split at h
  · rw [Option.map_eq_some_iff] at h
    obtain ⟨_, _, h⟩ := h
    cases h
  · next file hbody =>
    obtain ⟨i, hindex, h⟩ := Option.bind_eq_some_iff.mp h
    obtain ⟨m, hm, h⟩ := Option.map_eq_some_iff.mp h
    cases h
    obtain ⟨hi, hname, -⟩ := List.findIdx?_eq_some_iff_getElem.mp hindex
    rw [List.getElem?_eq_getElem hi, Option.some.injEq] at hm
    exact ⟨rfl, file, hbody, rfl, List.getElem?_eq_some_iff.mpr ⟨hi, hm⟩, by simpa [hm] using hname⟩

/-- Where names are distinct, a method is found under its name. -/
theorem findMethod?_of_getElem? {file : ClassFile} (hbody : entry.body = .compiled file)
    (hnodup : (file.methods.map (·.name)).Nodup) (hmethod : file.methods[index]? = some method) :
    entry.findMethod? method.name = some (.compiled entry index method file.constants) := by
  obtain ⟨hlt, rfl⟩ := List.getElem?_eq_some_iff.mp hmethod
  have hindex : file.methods.findIdx? (·.name == file.methods[index].name) = some index := by
    refine List.findIdx?_eq_some_iff_getElem.mpr ⟨hlt, beq_self_eq_true _, fun j hj hname ↦ ?_⟩
    have hsame : (file.methods.map (·.name))[j]? = (file.methods.map (·.name))[index]? := by
      rw [List.getElem?_map, List.getElem?_map, List.getElem?_eq_getElem (Nat.lt_trans hj hlt),
        List.getElem?_eq_getElem hlt, Option.map_some, Option.map_some, eq_of_beq hname]
    have hj' : j < (file.methods.map (·.name)).length := by
      rw [List.length_map]
      exact Nat.lt_trans hj hlt
    exact Nat.ne_of_lt hj ((List.getElem?_inj hj' hnodup).mp hsame)
  rw [findMethod?, hbody]
  dsimp only
  rw [hindex, Option.bind_some, List.getElem?_eq_getElem hlt, Option.map_some]

end ClassEntry

namespace Class

variable {c : Class} {owner : ClassEntry} {name : String} {index : Nat} {method : CompiledMethod}
  {constants : ConstantPool}

/-- A compiled method that is found is a method of a class file of the chain. -/
theorem findMethod?_eq_some_compiled
    (h : c.findMethod? name = some (.compiled owner index method constants)) :
    owner ∈ c.chain ∧ ∃ file, owner.body = .compiled file ∧ constants = file.constants ∧
      file.methods[index]? = some method ∧ method.name = name := by
  obtain ⟨entry, hentry, hfound⟩ := List.exists_of_findSome?_eq_some h
  obtain ⟨rfl, hfile⟩ := ClassEntry.findMethod?_eq_some_compiled hfound
  exact ⟨hentry, hfile⟩

end Class

end BuildScript
