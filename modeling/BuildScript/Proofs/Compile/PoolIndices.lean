import BuildScript.Proofs.Compile.FirstOccurrences
import BuildScript.Proofs.Compile.PoolGrowth

/-!
# Indices of constants

Generated code names its constants by the indices that adding them has returned, and all methods of
a class add to one pool. So an index has to stay what it was, whatever is added behind it.

A pool is told by the constants that were added to it. The invariant `ConstantPool.Lists` says what
its tables hold: the strings and the integers, each where it was added first, and all of the floats.
One addition keeps it (`ConstantPool.Lists.add`), and so any number of them does. Since no string and
no integer stands in its table twice, it has one index, and since a float always goes behind the
others, no two additions of floats share theirs.

All of this is about pools with no more constants of a kind than there are indices. What the next
string gets is said by `ConstantPool.getString?_addString_of_full`.
-/

namespace BuildScript

/-! ## Additions -/

/-- A constant that is added to a pool. -/
inductive Constant where
  | string (s : String)
  | integer (n : Int64)
  | float (x : Binary64)
deriving DecidableEq, Repr

namespace Constant

def string? : Constant → Option String
  | string s => some s
  | _ => none

def integer? : Constant → Option Int64
  | integer n => some n
  | _ => none

def float? : Constant → Option Binary64
  | float x => some x
  | _ => none

variable {α : Type} {f : Constant → Option α} {c : Constant} {x : α}

theorem filterMap_concat_of_some (h : f c = some x) (cs : List Constant) :
    (cs ++ [c]).filterMap f = cs.filterMap f ++ [x] := by
  rw [List.filterMap_append, List.filterMap_cons_some h, List.filterMap_nil]

theorem filterMap_concat_of_none (h : f c = none) (cs : List Constant) :
    (cs ++ [c]).filterMap f = cs.filterMap f := by
  rw [List.filterMap_append, List.filterMap_cons_none h, List.filterMap_nil, List.append_nil]

end Constant

namespace ConstantPool

/-- Adds a constant, by the call for its kind. -/
def add (pool : ConstantPool) : Constant → ConstantPool × UInt32
  | .string s => pool.addString s
  | .integer n => pool.addInteger n
  | .float x => pool.addFloat x

/-- Adds constants one after the other. -/
def addAll (pool : ConstantPool) (cs : List Constant) : ConstantPool :=
  cs.foldl (fun pool c ↦ (pool.add c).1) pool

/-- The pool that comes of additions to an empty one. -/
def ofAdditions (cs : List Constant) : ConstantPool := addAll {} cs

/-- The lookup for constants of its kind finds the constant. -/
def Gives (pool : ConstantPool) (index : UInt32) : Constant → Prop
  | .string s => pool.getString? index = some s
  | .integer n => pool.getInteger? index = some n
  | .float x => pool.getFloat? index = some x

/-- The tables for constants of other kinds are the same. -/
def OthersKept (pool pool' : ConstantPool) : Constant → Prop
  | .string _ => pool'.integers = pool.integers ∧ pool'.floats = pool.floats
  | .integer _ => pool'.strings = pool.strings ∧ pool'.floats = pool.floats
  | .float _ => pool'.strings = pool.strings ∧ pool'.integers = pool.integers

variable {pool K : ConstantPool} {cs : List Constant}

theorem ofAdditions_append (cs rest : List Constant) :
    ofAdditions (cs ++ rest) = (ofAdditions cs).addAll rest := List.foldl_append

theorem ofAdditions_concat (cs : List Constant) (c : Constant) :
    ofAdditions (cs ++ [c]) = ((ofAdditions cs).add c).1 := ofAdditions_append cs [c]

theorem othersKept_add (pool : ConstantPool) (c : Constant) :
    pool.OthersKept (pool.add c).1 c := by
  cases c with
  | string s => exact ⟨rfl, rfl⟩
  | integer n => exact ⟨rfl, rfl⟩
  | float x => exact ⟨rfl, rfl⟩

theorem extends_add (pool : ConstantPool) (c : Constant) : (pool.add c).1.Extends pool := by
  cases c with
  | string s => exact extends_addString s
  | integer n => exact extends_addInteger n
  | float x => exact extends_addFloat x

theorem extends_addAll (pool : ConstantPool) (cs : List Constant) :
    (pool.addAll cs).Extends pool := by
  induction cs generalizing pool with
  | nil => exact .refl pool
  | cons c cs ih => exact (extends_add pool c).trans (ih _)

theorem extends_of_isPrefix {earlier : List Constant} (h : earlier <+: cs) :
    (ofAdditions cs).Extends (ofAdditions earlier) := by
  obtain ⟨rest, rfl⟩ := h
  rw [ofAdditions_append]
  exact extends_addAll _ rest

theorem extends_take (cs : List Constant) {m n : Nat} (h : m ≤ n) :
    (ofAdditions (cs.take n)).Extends (ofAdditions (cs.take m)) :=
  extends_of_isPrefix (List.take_prefix_take_left h)

theorem Addressable.of_extends (h : K.Addressable) (hK : K.Extends pool) : pool.Addressable := by
  have hstrings := hK.strings.length_le
  have hintegers := hK.integers.length_le
  have hfloats := hK.floats.length_le
  simp only [Array.length_toList] at hstrings hintegers hfloats
  exact ⟨Nat.le_trans hstrings h.strings, Nat.le_trans hintegers h.integers,
    Nat.le_trans hfloats h.floats⟩

theorem addressable_take (h : (ofAdditions cs).Addressable) (n : Nat) :
    (ofAdditions (cs.take n)).Addressable :=
  h.of_extends (extends_of_isPrefix (List.take_prefix n cs))

/-- The index that an addition has returned gives the constant in all later pools. -/
theorem gives_add {c : Constant} (hK : K.Extends (pool.add c).1) (haddr : K.Addressable) :
    K.Gives (pool.add c).2 c := by
  cases c with
  | string s => exact hasString_addString s hK haddr
  | integer n => exact hasInteger_addInteger n hK haddr
  | float x => exact hasFloat_addFloat x hK haddr

/-- A float gets an index that is not in use, as long as there is one. -/
theorem getFloat?_addFloat_eq_none {x : Binary64} (h : (pool.addFloat x).1.Addressable) :
    pool.getFloat? (pool.addFloat x).2 = none := by
  have hsize : pool.floats.size + 1 ≤ 2 ^ 32 := by
    have hpush := h.floats
    rwa [addFloat, Array.size_push] at hpush
  have hindex : (pool.addFloat x).2.toNat = pool.floats.size :=
    UInt32.toNat_ofNat_of_lt (by rw [UInt32.size]; omega)
  rw [getFloat?, hindex]
  exact Array.getElem?_size

/-! ## What the tables hold -/

/-- The tables hold constants in the order in which they were added, strings and integers only where
they were added first. -/
structure Lists (pool : ConstantPool) (cs : List Constant) : Prop where
  strings : pool.strings.toList = (cs.filterMap Constant.string?).eraseDups
  integers : pool.integers.toList = (cs.filterMap Constant.integer?).eraseDups
  floats : pool.floats.toList = cs.filterMap Constant.float?

theorem toList_intern_of_eraseDups {α : Type} [BEq α] [LawfulBEq α] {table : Array α} {l : List α}
    (h : table.toList = l.eraseDups) (x : α) :
    (intern table x).1.toList = (l ++ [x]).eraseDups := by
  have hmem : x ∈ table ↔ x ∈ l := by rw [← Array.mem_toList_iff, h, List.mem_eraseDups]
  obtain ⟨j, hj, heq⟩ | ⟨hx, heq⟩ := intern_cases table x
  · rw [heq, eraseDups_concat_of_mem (hmem.mp (Array.mem_of_getElem? hj)), h]
  · rw [heq, eraseDups_concat_of_notMem (mt hmem.mpr hx), Array.toList_push, h]

theorem Lists.add (h : pool.Lists cs) (c : Constant) : (pool.add c).1.Lists (cs ++ [c]) := by
  obtain ⟨hstrings, hintegers, hfloats⟩ := h
  cases c with
  | string s =>
    refine ⟨?_, ?_, ?_⟩
    · rw [Constant.filterMap_concat_of_some (f := Constant.string?) rfl]
      exact toList_intern_of_eraseDups hstrings s
    · rwa [Constant.filterMap_concat_of_none rfl]
    · rwa [Constant.filterMap_concat_of_none rfl]
  | integer n =>
    refine ⟨?_, ?_, ?_⟩
    · rwa [Constant.filterMap_concat_of_none rfl]
    · rw [Constant.filterMap_concat_of_some (f := Constant.integer?) rfl]
      exact toList_intern_of_eraseDups hintegers n
    · rwa [Constant.filterMap_concat_of_none rfl]
  | float x =>
    refine ⟨?_, ?_, ?_⟩
    · rwa [Constant.filterMap_concat_of_none rfl]
    · rwa [Constant.filterMap_concat_of_none rfl]
    · rw [Constant.filterMap_concat_of_some (f := Constant.float?) rfl, ← hfloats]
      exact Array.toList_push

theorem lists_ofAdditions (cs : List Constant) : (ofAdditions cs).Lists cs := by
  induction cs using List.reverseRecOn with
  | nil => exact ⟨rfl, rfl, rfl⟩
  | append_singleton cs c ih =>
    rw [ofAdditions_concat]
    exact ih.add c

/-- No string and no integer has two indices. -/
structure Distinct (pool : ConstantPool) : Prop where
  strings : pool.strings.toList.Nodup
  integers : pool.integers.toList.Nodup

theorem distinct_ofAdditions (cs : List Constant) : (ofAdditions cs).Distinct := by
  obtain ⟨hstrings, hintegers, -⟩ := lists_ofAdditions cs
  exact ⟨hstrings ▸ nodup_eraseDups _, hintegers ▸ nodup_eraseDups _⟩

/-- Two indices into a table without repetitions are equal if they stand for one value. -/
theorem index_eq_iff {α : Type} {table : Array α} (h : table.toList.Nodup) {i j : UInt32} {x y : α}
    (hi : table[i.toNat]? = some x) (hj : table[j.toNat]? = some y) : i = j ↔ x = y := by
  have hlt : i.toNat < table.toList.length := by
    rw [Array.length_toList]
    exact (Array.getElem?_eq_some_iff.mp hi).1
  rw [← Array.getElem?_toList] at hi hj
  rw [← UInt32.toNat_inj, ← List.getElem?_inj hlt h, hi, hj, Option.some_inj]

/-! ## What additions return -/

/-- The addition number `k` is that of `c`, and it returns the index. -/
structure Returns (cs : List Constant) (k : Nat) (c : Constant) (index : UInt32) : Prop where
  added : cs[k]? = some c
  index_eq : index = ((ofAdditions (cs.take k)).add c).2

section Returns

variable {k n : Nat} {c : Constant} {index : UInt32}

theorem Returns.ofAdditions_succ (h : Returns cs k c index) :
    ofAdditions (cs.take (k + 1)) = ((ofAdditions (cs.take k)).add c).1 := by
  rw [List.take_add_one, h.added, Option.toList_some, ofAdditions_concat]

/-- What an addition has returned stays right. -/
theorem Returns.gives (h : Returns cs k c index) (haddr : (ofAdditions cs).Addressable)
    (hn : k < n) : (ofAdditions (cs.take n)).Gives index c := by
  have hext := extends_take cs (Nat.succ_le_of_lt hn)
  rw [h.ofAdditions_succ] at hext
  rw [h.index_eq]
  exact gives_add hext (addressable_take haddr n)

theorem Returns.gives_last (h : Returns cs k c index) (haddr : (ofAdditions cs).Addressable) :
    (ofAdditions cs).Gives index c := by
  have hk : k < cs.length := (List.getElem?_eq_some_iff.mp h.added).1
  have hgives := h.gives haddr hk
  rwa [List.take_length] at hgives

theorem Returns.getFloat?_eq_none {x : Binary64} (h : Returns cs k (.float x) index)
    (haddr : (ofAdditions cs).Addressable) : (ofAdditions (cs.take k)).getFloat? index = none := by
  have hnext := addressable_take haddr (k + 1)
  rw [h.ofAdditions_succ] at hnext
  rw [h.index_eq]
  exact getFloat?_addFloat_eq_none hnext

/-- A later float does not get the index of an earlier one. -/
theorem Returns.float_index_ne {x y : Binary64} {j : Nat} {i i' : UInt32}
    (hj : Returns cs j (.float x) i) (hk : Returns cs k (.float y) i')
    (haddr : (ofAdditions cs).Addressable) (hlt : j < k) : i ≠ i' := by
  rintro rfl
  have hgives : (ofAdditions (cs.take k)).getFloat? i = some x := hj.gives haddr hlt
  rw [hk.getFloat?_eq_none haddr] at hgives
  cases hgives

end Returns

/-- Constants of all kinds are added to an empty pool in any order, no more of a kind than there are
indices. What was added is found under the index that was returned, bit by bit, after all further
additions. No string and no integer is kept twice: two additions of strings return the same index
exactly if the strings are equal, and so do two of integers. A float gets an index that is not in
use, which no other addition of a float returns. Entries stay where they are, and an addition
changes no table for another kind, so each table is told by the additions of its own kind. -/
theorem indices_stable {cs : List Constant} (h : (ofAdditions cs).Addressable) :
    (∀ k c i, Returns cs k c i → ∀ n, k < n → (ofAdditions (cs.take n)).Gives i c) ∧
    (∀ n, (ofAdditions (cs.take n)).Distinct) ∧
    (∀ j k s t i i', Returns cs j (.string s) i → Returns cs k (.string t) i' →
      (i = i' ↔ s = t)) ∧
    (∀ j k a b i i', Returns cs j (.integer a) i → Returns cs k (.integer b) i' →
      (i = i' ↔ a = b)) ∧
    (∀ k x i, Returns cs k (.float x) i → (ofAdditions (cs.take k)).getFloat? i = none ∧
      ∀ j y i', j ≠ k → Returns cs j (.float y) i' → i' ≠ i) ∧
    (∀ m n, m ≤ n → (ofAdditions (cs.take n)).Extends (ofAdditions (cs.take m))) ∧
    (∀ k c i, Returns cs k c i →
      (ofAdditions (cs.take k)).OthersKept (ofAdditions (cs.take (k + 1))) c) ∧
    ∀ n, (ofAdditions (cs.take n)).Lists (cs.take n) := by
  -- Two additions are compared in the last pool, where the constants of both of them are found.
  have hdistinct := distinct_ofAdditions cs
  refine ⟨fun k c i hk n hn ↦ hk.gives h hn, fun n ↦ distinct_ofAdditions _, ?_, ?_, ?_,
    fun m n hmn ↦ extends_take cs hmn, ?_, fun n ↦ lists_ofAdditions _⟩
  · intro j k s t i i' hj hk
    exact index_eq_iff hdistinct.strings (hj.gives_last h) (hk.gives_last h)
  · intro j k a b i i' hj hk
    exact index_eq_iff hdistinct.integers (hj.gives_last h) (hk.gives_last h)
  · intro k x i hk
    refine ⟨hk.getFloat?_eq_none h, fun j y i' hne hj ↦ ?_⟩
    rcases Nat.lt_or_gt_of_ne hne with hlt | hlt
    · exact hj.float_index_ne hk h hlt
    · exact (hk.float_index_ne hj h hlt).symm
  · intro k c i hk
    rw [hk.ofAdditions_succ]
    exact othersKept_add _ c

/-- A NaN with a payload of its own is added twice, and so is a string. -/
theorem indices_stable_again :
    let nan : Binary64 := ⟨0x7FF8000000000001⟩
    let cs : List Constant := [.string "println", .float nan, .integer (-1), .string "hi",
      .float nan, .string "println", .integer (-1)]
    ((ofAdditions cs).Addressable ∧ Returns cs 0 (.string "println") 0 ∧
      Returns cs 1 (.float nan) 0 ∧ Returns cs 4 (.float nan) 1 ∧
      Returns cs 5 (.string "println") 0) ∧
    (∀ n, 1 < n → (ofAdditions (cs.take n)).Gives 0 (.float nan)) ∧
      (ofAdditions (cs.take 4)).getFloat? 1 = none ∧ (ofAdditions (cs.take 7)).Distinct ∧
      (ofAdditions (cs.take 4)).OthersKept (ofAdditions (cs.take 5)) (.float nan) := by
  intro nan cs
  have haddr : (ofAdditions cs).Addressable :=
    ⟨by decide +kernel, by decide +kernel, by decide +kernel⟩
  have hfirst : Returns cs 1 (.float nan) 0 := ⟨rfl, by decide +kernel⟩
  have hsecond : Returns cs 4 (.float nan) 1 := ⟨rfl, by decide +kernel⟩
  have hstring : Returns cs 0 (.string "println") 0 := ⟨rfl, by decide +kernel⟩
  have hagain : Returns cs 5 (.string "println") 0 := ⟨rfl, by decide +kernel⟩
  obtain ⟨hgives, hdistinct, -, -, hfresh, -, hkept, -⟩ := indices_stable haddr
  exact ⟨⟨haddr, hstring, hfirst, hsecond, hagain⟩, hgives _ _ _ hfirst, (hfresh _ _ _ hsecond).1,
    hdistinct 7, hkept _ _ _ hsecond⟩

end ConstantPool

end BuildScript
