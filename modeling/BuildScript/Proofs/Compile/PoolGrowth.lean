import Mathlib.Algebra.Group.Nat.Defs
import BuildScript.Compile.CodeGeneration
import BuildScript.Proofs.Bytecode.WellFormed

/-!
# The pool grows

The methods of a class are generated one after the other into one constant pool, so the code of a
method is only ever run with a pool that has grown since. Constants keep their indices while it
grows: `Extends` says that every table begins with the earlier one.

`GenM.Yields x P` is the form in which everything about generating code is said: `x` only adds
constants, and `P K a` holds of its result `a` for *every* pool `K` that the pool grows into. Since
`P` already speaks of the later pool, the parts of a construct need no transport when they are put
together, and one rule for `>>=` is enough.

## The limit of the indices

An index has 32 bits and is cut off when a table is longer, so a lookup only finds what was put in
if the finished pool is `Addressable`. `HasString` and its siblings carry that as a premise: what
does not depend on constants, such as the heights of the stack, needs no bound on the pool.
-/

namespace BuildScript

namespace ConstantPool

/-! ## Growth -/

/-- The pool has all the constants of an earlier one, at the same indices. -/
structure Extends (K pool : ConstantPool) : Prop where
  strings : pool.strings.toList <+: K.strings.toList
  integers : pool.integers.toList <+: K.integers.toList
  floats : pool.floats.toList <+: K.floats.toList

@[refl] theorem Extends.refl (pool : ConstantPool) : pool.Extends pool :=
  ⟨List.prefix_refl _, List.prefix_refl _, List.prefix_refl _⟩

theorem Extends.trans {p q r : ConstantPool} (hqp : q.Extends p) (hrq : r.Extends q) :
    r.Extends p :=
  ⟨hqp.strings.trans hrq.strings, hqp.integers.trans hrq.integers, hqp.floats.trans hrq.floats⟩

/-- Every constant has an index of 32 bits. -/
structure Addressable (pool : ConstantPool) : Prop where
  strings : pool.strings.size ≤ 2 ^ 32
  integers : pool.integers.size ≤ 2 ^ 32
  floats : pool.floats.size ≤ 2 ^ 32

def HasString (K : ConstantPool) (index : UInt32) (s : String) : Prop :=
  K.Addressable → K.getString? index = some s

def HasInteger (K : ConstantPool) (index : UInt32) (n : Int64) : Prop :=
  K.Addressable → K.getInteger? index = some n

def HasFloat (K : ConstantPool) (index : UInt32) (x : Binary64) : Prop :=
  K.Addressable → K.getFloat? index = some x

/-! ## Adding a constant -/

section Tables

variable {α : Type} {table later : Array α} {x : α}

/-- An entry stands where it was put, as long as the table does not outgrow the indices. -/
theorem getElem?_toUInt32_of_prefix (hlater : table.toList <+: later.toList)
    (hsize : later.size ≤ 2 ^ 32) {j : Nat} (hj : table[j]? = some x) :
    later[j.toUInt32.toNat]? = some x := by
  obtain ⟨rest, hrest⟩ := hlater
  have hlt : j < table.size := (Array.getElem?_eq_some_iff.mp hj).1
  have hle : table.size ≤ later.size := by
    rw [← Array.length_toList, ← Array.length_toList, ← hrest, List.length_append]
    exact Nat.le_add_right _ _
  -- Cutting the index off to 32 bits changes nothing below the bound.
  have hindex : j.toUInt32.toNat = j := UInt32.toNat_ofNat_of_lt (by rw [UInt32.size]; omega)
  rw [hindex, ← Array.getElem?_toList, ← hrest, List.getElem?_append_left (by simpa using hlt),
    Array.getElem?_toList, hj]

theorem prefix_push : table.toList <+: (table.push x).toList := by
  rw [Array.toList_push]
  exact List.prefix_append _ _

variable [BEq α] [LawfulBEq α]

/-- What the table holds already is found there, and what is new goes behind the others. -/
theorem intern_cases (table : Array α) (x : α) :
    (∃ j : Nat, table[j]? = some x ∧ intern table x = (table, j.toUInt32)) ∨
      (x ∉ table ∧ intern table x = (table.push x, table.size.toUInt32)) := by
  cases hfound : table.findIdx? (· == x) with
  | some j =>
    obtain ⟨hlt, hx, -⟩ := Array.findIdx?_eq_some_iff_getElem.mp hfound
    refine .inl ⟨j, ?_, by rw [intern, hfound]⟩
    rw [Array.getElem?_eq_getElem hlt, eq_of_beq hx]
  | none =>
    refine .inr ⟨fun hx ↦ ?_, by rw [intern, hfound]⟩
    have hne : (x == x) = false := Array.findIdx?_eq_none_iff.mp hfound x hx
    rw [beq_self_eq_true] at hne
    cases hne

theorem intern_spec (table : Array α) (x : α) :
    table.toList <+: (intern table x).1.toList ∧
      ∃ j : Nat, (intern table x).2 = j.toUInt32 ∧ (intern table x).1[j]? = some x := by
  obtain ⟨j, hj, heq⟩ | ⟨-, heq⟩ := intern_cases table x
  · rw [heq]
    exact ⟨List.prefix_refl _, j, rfl, hj⟩
  · rw [heq]
    exact ⟨prefix_push, table.size, rfl, Array.getElem?_push_size⟩

end Tables

variable {pool K : ConstantPool}

theorem extends_addString (s : String) : (pool.addString s).1.Extends pool :=
  ⟨(intern_spec pool.strings s).1, List.prefix_refl _, List.prefix_refl _⟩

theorem hasString_addString (s : String) (hK : K.Extends (pool.addString s).1) :
    K.HasString (pool.addString s).2 s := by
  intro haddr
  obtain ⟨-, j, hindex, hj⟩ := intern_spec pool.strings s
  have h := getElem?_toUInt32_of_prefix hK.strings haddr.strings hj
  rwa [← hindex] at h

theorem extends_addInteger (n : Int64) : (pool.addInteger n).1.Extends pool :=
  ⟨List.prefix_refl _, (intern_spec pool.integers n).1, List.prefix_refl _⟩

theorem hasInteger_addInteger (n : Int64) (hK : K.Extends (pool.addInteger n).1) :
    K.HasInteger (pool.addInteger n).2 n := by
  intro haddr
  obtain ⟨-, j, hindex, hj⟩ := intern_spec pool.integers n
  have h := getElem?_toUInt32_of_prefix hK.integers haddr.integers hj
  rwa [← hindex] at h

theorem extends_addFloat (x : Binary64) : (pool.addFloat x).1.Extends pool :=
  ⟨List.prefix_refl _, List.prefix_refl _, prefix_push⟩

theorem hasFloat_addFloat (x : Binary64) (hK : K.Extends (pool.addFloat x).1) :
    K.HasFloat (pool.addFloat x).2 x := by
  intro haddr
  exact getElem?_toUInt32_of_prefix hK.floats haddr.floats Array.getElem?_push_size

/-- The bound cannot be dropped: in a table that has used up the indices a new string gets the index
of the first one. -/
theorem getString?_addString_of_full {first s : String} (hsize : pool.strings.size = 2 ^ 32)
    (hfirst : pool.strings[0]? = some first) (hs : s ∉ pool.strings) :
    (pool.addString s).1.getString? (pool.addString s).2 = some first := by
  have hadd : pool.addString s = ({ pool with strings := pool.strings.push s }, 0) := by
    obtain ⟨j, hj, -⟩ | ⟨-, heq⟩ := intern_cases pool.strings s
    · exact absurd (Array.mem_of_getElem? hj) hs
    · rw [addString, heq, hsize]
      rfl
  have hpos : 0 < pool.strings.size := by omega
  rw [hadd, getString?, ← hfirst, Array.getElem?_eq_getElem hpos]
  exact Array.getElem?_push_lt hpos

end ConstantPool

/-! ## Generating code -/

namespace GenM

variable {α β : Type} {x : GenM α} {P Q : ConstantPool → α → Prop}

/-- Running `x` only adds constants, and `P` holds of its result in every pool that comes of it. -/
def Yields (x : GenM α) (P : ConstantPool → α → Prop) : Prop :=
  ∀ pool a pool', x.run pool = .ok (a, pool') →
    pool'.Extends pool ∧ ∀ K : ConstantPool, K.Extends pool' → P K a

theorem Yields.mono (hx : x.Yields P) (hPQ : ∀ K a, P K a → Q K a) : x.Yields Q := by
  intro pool a pool' h
  obtain ⟨hext, hP⟩ := hx pool a pool' h
  exact ⟨hext, fun K hK ↦ hPQ K a (hP K hK)⟩

theorem yields_pure {a : α} (ha : ∀ K, P K a) : Yields (pure a) P := by
  intro pool b pool' h
  rw [StateT.run_pure] at h
  cases h
  exact ⟨.refl _, fun K _ ↦ ha K⟩

theorem yields_throw {e : CompileError} : Yields (throw e : GenM α) P := by
  intro pool a pool' h
  cases h

theorem Yields.bind {f : α → GenM β} {R : ConstantPool → β → Prop} (hx : x.Yields P)
    (hf : ∀ a, (f a).Yields fun K b ↦ P K a → R K b) : (x >>= f).Yields R := by
  intro pool b pool₂ h
  rw [StateT.run_bind, bind_eq_ok] at h
  obtain ⟨⟨a, pool₁⟩, ha, hb⟩ := h
  obtain ⟨hext₁, hP⟩ := hx pool a pool₁ ha
  obtain ⟨hext₂, hR⟩ := hf a pool₁ b pool₂ hb
  -- What holds of `a` in all later pools holds in those that come of `f a`.
  exact ⟨hext₁.trans hext₂, fun K hK ↦ hR K hK (hP K (hext₂.trans hK))⟩

/-- A step without constants: its errors are passed on, and what it returns is known from then on.
-/
theorem yields_bind_lift {r : Except CompileError α} {f : α → GenM β}
    {R : ConstantPool → β → Prop} (hf : ∀ a, r = .ok a → (f a).Yields R) :
    ((liftM r : GenM α) >>= f).Yields R := by
  cases r with
  | error e => exact yields_throw
  | ok a => exact hf a rfl

theorem yields_string (s : String) : (string s).Yields fun K index ↦ K.HasString index s := by
  intro pool index pool' h
  cases h
  exact ⟨ConstantPool.extends_addString s, fun K hK ↦ ConstantPool.hasString_addString s hK⟩

theorem yields_integer (n : Int64) : (integer n).Yields fun K index ↦ K.HasInteger index n := by
  intro pool index pool' h
  cases h
  exact ⟨ConstantPool.extends_addInteger n, fun K hK ↦ ConstantPool.hasInteger_addInteger n hK⟩

theorem yields_float (x : Binary64) : (float x).Yields fun K index ↦ K.HasFloat index x := by
  intro pool index pool' h
  cases h
  exact ⟨ConstantPool.extends_addFloat x, fun K hK ↦ ConstantPool.hasFloat_addFloat x hK⟩

end GenM

end BuildScript
