import BuildScript.Proofs.Bytecode.Layout

/-!
# Stack maps

How high the operand stack is before each instruction. Every instruction takes `Instr.pops` operands
off the stack and puts `Instr.pushes` on it; a `StackMap` gives each offset of a method a height
such that no instruction takes more than there is and the heights agree along every edge of the
control flow.

## Fragments

A stack map of a method is put together from those of the pieces of its code. `Heights` is the
statement about a piece: it starts at offset `o` with height `k`, falls out of its end with height
`k'`, and may jump out of itself only to the given exits, pairs of an offset and the height there.
Pieces are put in sequence by `Heights.append`, and an exit that turns out to be the beginning or
the end of a longer piece is dropped by `Heights.resolve`. So no lemma has to speak of a whole
construct with all its jumps.

The heights are kept as a list of pairs, one for each instruction, because putting two lists behind
one another needs no case distinction; `heightAt` turns the list into a function at the very end.
-/

namespace BuildScript

/-! ## Effects on the stack -/

namespace Instr

/-- Operands that the instruction takes off the stack. -/
def pops : Instr → Nat
  | pop | dup | storeLocal _ | storeVar _ | getProperty _ | negate | not | .return => 1
  | arithmetic _ | compare _ => 2
  | jump .always _ => 0
  | jump _ _ => 1
  | invokeMethod _ count | newList count => count.toNat
  | invokeVirtual _ count => count.toNat + 1
  | _ => 0

/-- Operands that the instruction puts on the stack. -/
def pushes : Instr → Nat
  | dup => 2
  | pushNull | pushTrue | pushFalse | pushInt _ | pushFloat _ | pushStr _ | pushClass _
  | loadLocal _ | loadVar _ | getProperty _ | arithmetic _ | negate | compare _ | not
  | invokeMethod _ _ | invokeVirtual _ _ | newList _ => 1
  | _ => 0

/-- Operands that a jump of the kind tests. -/
theorem pops_jump (kind : JumpKind) (distance : Int32) :
    (jump kind distance).pops = if kind = .always then 0 else 1 := by
  cases kind <;> rfl

@[simp] theorem pushes_jump (kind : JumpKind) (distance : Int32) :
    (jump kind distance).pushes = 0 := rfl

@[simp] theorem size_jump (kind : JumpKind) (distance : Int32) :
    (jump kind distance).size = 5 := rfl

theorem isTerminator_jump (kind : JumpKind) (distance : Int32) :
    (jump kind distance).opcode.isTerminator = decide (kind = .always) := by
  cases kind <;> rfl

theorem isTerminator_of_isReturn {i : Instr} (h : i.opcode.isReturn = true) :
    i.opcode.isTerminator = true := by
  cases i <;> first | rfl | cases h

/-- Height of the stack behind the instruction, if it is `n` before it. -/
def heightAfter (i : Instr) (n : Nat) : Nat := n - i.pops + i.pushes

end Instr

/-! ## Control flow -/

/-- Control can pass from the instruction to offset `t`. -/
def Placed.Leads (p : Placed) (t : Nat) : Prop :=
  (p.instr.opcode.isTerminator = false ∧ t = p.next) ∨
    ∃ kind distance, p.instr = .jump kind distance ∧ (t : Int) = p.next + distance.toInt

theorem Placed.next_eq_of_leads {p : Placed} {t : Nat} (h : p.Leads t)
    (hp : p.instr.opcode.isJump = false) : p.instr.opcode.isTerminator = false ∧ t = p.next := by
  rcases h with h | ⟨kind, distance, hi, -⟩
  · exact h
  · rw [hi] at hp
    cases hp

/-- The heights start with an empty stack, no instruction takes more than there is, and along every
edge the height changes by the effect of the instruction. -/
structure StackMap (placed : List Placed) (height : Nat → Nat) : Prop where
  start : height 0 = 0
  pops_le : ∀ p ∈ placed, p.instr.pops ≤ height p.offset
  flow : ∀ p ∈ placed, ∀ t, p.Leads t → height t = p.instr.heightAfter (height p.offset)

/-! ## Heights of a piece of code -/

/-- A piece of code at offset `o` that takes the stack from height `k` to height `k'`, where `map`
holds the heights before its instructions. -/
structure Heights (o k : Nat) (code : List Instr) (k' : Nat) (exits map : List (Nat × Nat)) :
    Prop where
  keys : map.map Prod.fst = (place o code).map Placed.offset
  entry : (o, k) ∈ map ++ [(o + codeSize code, k')]
  flow : ∀ p ∈ place o code, ∃ n, (p.offset, n) ∈ map ∧ p.instr.pops ≤ n ∧
    ∀ t, p.Leads t → (t, p.instr.heightAfter n) ∈ map ++ (o + codeSize code, k') :: exits
  target_nonneg : ∀ p ∈ place o code, ∀ kind distance, p.instr = .jump kind distance →
    0 ≤ (p.next : Int) + distance.toInt

namespace Heights

variable {o k k' k₁ k₂ : Nat} {a b code : List Instr} {xs ys ma mb map : List (Nat × Nat)}

theorem nil : Heights o k [] k [] [] where
  keys := rfl
  entry := List.mem_singleton.mpr rfl
  flow := fun _ hp ↦ absurd hp List.not_mem_nil
  target_nonneg := fun _ hp ↦ absurd hp List.not_mem_nil

/-- An instruction that does not jump. What follows a terminator may start at any height. -/
theorem single {i : Instr} (hi : i.opcode.isJump = false) (hpops : i.pops ≤ k)
    (hk : i.opcode.isTerminator = false → k' = i.heightAfter k) :
    Heights o k [i] k' [] [(o, k)] where
  keys := rfl
  entry := List.mem_cons_self
  flow := by
    intro p hp
    obtain rfl := List.mem_singleton.mp hp
    refine ⟨k, List.mem_cons_self, hpops, fun t ht ↦ ?_⟩
    obtain ⟨hterm, rfl⟩ := Placed.next_eq_of_leads ht hi
    simp [Placed.next, hk hterm]
  target_nonneg := by
    intro p hp kind distance hjump
    obtain rfl := List.mem_singleton.mp hp
    dsimp only at hjump
    rw [hjump] at hi
    cases hi

/-- A jump, which leaves the piece for its target. -/
theorem jump {kind : JumpKind} {distance : Int32} {t : Nat}
    (ht : (t : Int) = o + 5 + distance.toInt) (hpops : (Instr.jump kind distance).pops ≤ k)
    (hk : kind ≠ .always → k' = k - 1) :
    Heights o k [.jump kind distance] k' [(t, k - (Instr.jump kind distance).pops)] [(o, k)] where
  keys := rfl
  entry := List.mem_cons_self
  flow := by
    intro p hp
    obtain rfl := List.mem_singleton.mp hp
    refine ⟨k, List.mem_cons_self, hpops, fun t' ht' ↦ ?_⟩
    rcases ht' with ⟨hterm, rfl⟩ | ⟨kind', distance', hi, ht'⟩
    · rw [Instr.isTerminator_jump, decide_eq_false_iff_not] at hterm
      simp [Placed.next, Instr.heightAfter, Instr.pops_jump, hterm, hk hterm]
    · cases hi
      have heq : t' = t := by
        simp only [Placed.next, Instr.size_jump] at ht'
        omega
      simp [heq, Instr.heightAfter]
  target_nonneg := by
    intro p hp kind' distance' hjump
    obtain rfl := List.mem_singleton.mp hp
    cases hjump
    simp only [Placed.next, Instr.size_jump]
    omega

/-- Two pieces behind one another. The end of the first is the entry of the second. -/
theorem append (ha : Heights o k a k₁ xs ma) (hb : Heights (o + codeSize a) k₁ b k₂ ys mb) :
    Heights o k (a ++ b) k₂ (xs ++ ys) (ma ++ mb) where
  keys := by rw [List.map_append, ha.keys, hb.keys, place_append, List.map_append]
  entry := by
    have hentry := hb.entry
    rw [codeSize_append, ← Nat.add_assoc]
    rcases List.mem_append.mp ha.entry with h | h
    · exact List.mem_append_left _ (List.mem_append_left _ h)
    · rw [List.mem_singleton.mp h, List.append_assoc]
      exact List.mem_append_right _ hentry
  flow := by
    intro p hp
    rw [codeSize_append, ← Nat.add_assoc]
    rw [place_append, List.mem_append] at hp
    rcases hp with hp | hp
    · obtain ⟨n, hn, hpops, hflow⟩ := ha.flow p hp
      refine ⟨n, List.mem_append_left _ hn, hpops, fun t ht ↦ ?_⟩
      have hentry := hb.entry
      have hto := hflow t ht
      simp only [List.mem_append, List.mem_cons, List.not_mem_nil, or_false] at hentry hto ⊢
      rcases hto with h | h | h
      · exact .inl (.inl h)
      · -- The end of `a` is the entry of `b`, or the end of the whole if `b` is empty.
        rw [h]
        exact hentry.elim (fun h ↦ .inl (.inr h)) (fun h ↦ .inr (.inl h))
      · exact .inr (.inr (.inl h))
    · obtain ⟨n, hn, hpops, hflow⟩ := hb.flow p hp
      refine ⟨n, List.mem_append_right _ hn, hpops, fun t ht ↦ ?_⟩
      have hto := hflow t ht
      simp only [List.mem_append, List.mem_cons] at hto ⊢
      rcases hto with h | h | h
      · exact .inl (.inr h)
      · exact .inr (.inl h)
      · exact .inr (.inr (.inr h))
  target_nonneg := by
    intro p hp
    rw [place_append, List.mem_append] at hp
    rcases hp with hp | hp
    · exact ha.target_nonneg p hp
    · exact hb.target_nonneg p hp

/-- Exits that lead to the beginning or the end of the piece are no exits. -/
theorem resolve (h : Heights o k code k' xs map)
    (hxs : ∀ x ∈ xs, x = (o, k) ∨ x = (o + codeSize code, k') ∨ x ∈ ys) :
    Heights o k code k' ys map where
  keys := h.keys
  entry := h.entry
  flow := by
    intro p hp
    obtain ⟨n, hn, hpops, hflow⟩ := h.flow p hp
    refine ⟨n, hn, hpops, fun t ht ↦ ?_⟩
    have hentry := h.entry
    have hto := hflow t ht
    simp only [List.mem_append, List.mem_cons, List.not_mem_nil, or_false] at hentry hto ⊢
    rcases hto with hto | hto | hto
    · exact .inl hto
    · exact .inr (.inl hto)
    · -- An exit is only dropped if its height is that of the place it leads to.
      rcases hxs _ hto with heq | heq | hys
      · rw [heq]
        exact hentry.elim .inl fun h ↦ .inr (.inl h)
      · exact .inr (.inl heq)
      · exact .inr (.inr hys)
  target_nonneg := h.target_nonneg

/-- Every edge leads to an instruction of the piece or to its end, if there are no exits. -/
theorem leads_mem (h : Heights o k code k' [] map) {p : Placed} (hp : p ∈ place o code) {t : Nat}
    (ht : p.Leads t) : (∃ q ∈ place o code, q.offset = t) ∨ t = o + codeSize code := by
  obtain ⟨n, -, -, hflow⟩ := h.flow p hp
  rcases List.mem_append.mp (hflow t ht) with hto | hto
  · have hkey : t ∈ (place o code).map Placed.offset := by
      rw [← h.keys]
      exact List.mem_map_of_mem hto
    obtain ⟨q, hq, hoffset⟩ := List.mem_map.mp hkey
    exact .inl ⟨q, hq, hoffset⟩
  · exact .inr (congrArg Prod.fst (List.mem_singleton.mp hto))

/-- A piece without exits and a return behind it are closed: every edge leads to an instruction. -/
theorem exists_mem_of_leads {i : Instr} (h : Heights o k code k' [] map)
    (hi : i.opcode.isReturn = true) {p : Placed} (hp : p ∈ place o (code ++ [i])) {t : Nat}
    (ht : p.Leads t) : ∃ q ∈ place o (code ++ [i]), q.offset = t := by
  rw [place_append] at hp ⊢
  rcases List.mem_append.mp hp with hp | hp
  · rcases h.leads_mem hp ht with ⟨q, hq, hoffset⟩ | hend
    · exact ⟨q, List.mem_append_left _ hq, hoffset⟩
    · exact ⟨⟨o + codeSize code, i⟩, List.mem_append_right _ List.mem_cons_self, hend.symm⟩
  · -- From a return no edge leads anywhere.
    obtain rfl := List.mem_singleton.mp hp
    rcases ht with ⟨hterm, -⟩ | ⟨kind, distance, hjump, -⟩
    · rw [Instr.isTerminator_of_isReturn hi] at hterm
      cases hterm
    · dsimp only at hjump
      rw [hjump] at hi
      cases hi

end Heights

/-! ## From pairs to a function -/

/-- The height that the pairs give to an offset. -/
def heightAt (map : List (Nat × Nat)) (o : Nat) : Nat := (map.lookup o).getD 0

theorem heightAt_of_mem {map : List (Nat × Nat)} (hkeys : (map.map Prod.fst).Nodup) {o n : Nat}
    (h : (o, n) ∈ map) : heightAt map o = n := by
  induction map with
  | nil => cases h
  | cons x map ih =>
    obtain ⟨o', n'⟩ := x
    rw [List.map_cons, List.nodup_cons] at hkeys
    rw [heightAt, List.lookup_cons]
    rcases List.mem_cons.mp h with heq | hmem
    · cases heq
      simp
    · have hne : (o == o') = false := by
        rw [beq_eq_false_iff_ne]
        rintro rfl
        exact hkeys.1 (List.mem_map.mpr ⟨_, hmem, rfl⟩)
      rw [hne]
      exact ih hkeys.2 hmem

theorem pairwise_offset_place (o : Nat) (code : List Instr) :
    ((place o code).map Placed.offset).Pairwise (· < ·) := by
  induction code generalizing o with
  | nil => exact .nil
  | cons i code ih =>
    rw [place_cons, List.map_cons, List.pairwise_cons]
    refine ⟨fun t ht ↦ ?_, ih _⟩
    obtain ⟨q, hq, rfl⟩ := List.mem_map.mp ht
    have := le_offset_of_mem_place hq
    have := i.size_pos
    dsimp only
    omega

/-- The offsets of a piece, its end included, have one height each. -/
theorem Heights.nodup_keys {o k k' : Nat} {code : List Instr} {xs map : List (Nat × Nat)}
    (h : Heights o k code k' xs map) :
    ((map ++ [(o + codeSize code, k')]).map Prod.fst).Nodup := by
  have hbelow : ∀ t ∈ (place o code).map Placed.offset, t < o + codeSize code := by
    intro t ht
    obtain ⟨q, hq, rfl⟩ := List.mem_map.mp ht
    have hnext := next_le_of_mem_place hq
    have hpos := q.instr.size_pos
    rw [Placed.next] at hnext
    omega
  have hlt := List.pairwise_append.mpr ⟨pairwise_offset_place o code,
    List.pairwise_singleton (· < ·) (o + codeSize code), fun t ht u hu ↦
      List.mem_singleton.mp hu ▸ hbelow t ht⟩
  rw [List.map_append, h.keys, List.map_singleton]
  exact hlt.imp Nat.ne_of_lt

/-- The heights of a piece without exits are a stack map. -/
theorem Heights.stackMap {k' : Nat} {code : List Instr} {map : List (Nat × Nat)}
    (h : Heights 0 0 code k' [] map) :
    StackMap (place 0 code) (heightAt (map ++ [(0 + codeSize code, k')])) where
  start := heightAt_of_mem h.nodup_keys h.entry
  pops_le := by
    intro p hp
    obtain ⟨n, hn, hpops, -⟩ := h.flow p hp
    rwa [heightAt_of_mem h.nodup_keys (List.mem_append_left _ hn)]
  flow := by
    intro p hp t ht
    obtain ⟨n, hn, -, hflow⟩ := h.flow p hp
    rw [heightAt_of_mem h.nodup_keys (List.mem_append_left _ hn),
      heightAt_of_mem h.nodup_keys (hflow t ht)]

end BuildScript
