import BuildScript.Proofs.Bytecode.StackMap
import BuildScript.Proofs.Compile.EmittedOperands
import BuildScript.Syntax.Walk

/-!
# Stack heights of generated code

Generated code has a stack map: a height of the operand stack for every offset, which agrees along
all edges of the control flow. The verifier does not ask for one, but because there is one no run of
generated code underflows its stack.

`Traced` is `Heights` together with a record of which part of the code belongs to which node of the
source. It is proved of every piece of code by recursion on the syntax tree. Since a piece may start
at any height, nothing has to be known about the construct around it.

Code behind a `return` is never reached but still has heights. A terminator may be followed by any
height, and the one that is chosen is that of the next statement.
-/

namespace BuildScript

/-! ## Parts of code -/

/-- A node of the source, and where its code begins and ends. -/
structure CodePart where
  node : Node
  start : Nat
  stop : Nat

/-- The instructions are code of the node. -/
def Node.Emits (names : List String) (K : ConstantPool) : Node → List Instr → Prop
  | .stmt s => Stmt.Emits names K s
  | .expr e => Expr.Emits names K e
  | .method _ => fun _ ↦ False

namespace CodePart

/-- The code of the node stands between the ends of the part, if `code` starts at offset `o`. -/
def StandsIn (part : CodePart) (names : List String) (K : ConstantPool) (o : Nat)
    (code : List Instr) : Prop :=
  ∃ front is back, code = front ++ (is ++ back) ∧ part.start = o + codeSize front ∧
    part.stop = part.start + codeSize is ∧ part.node.Emits names K is

/-- A statement begins and ends with an empty stack, an expression adds one operand. `R o n` says
that the height at offset `o` is `n`. -/
def Balanced (part : CodePart) (R : Nat → Nat → Prop) : Prop :=
  match part.node with
  | .stmt _ => R part.start 0 ∧ R part.stop 0
  | .expr _ => ∃ n, R part.start n ∧ R part.stop (n + 1)
  | .method _ => False

theorem Balanced.mono {part : CodePart} {R S : Nat → Nat → Prop} (h : part.Balanced R)
    (hRS : ∀ o n, R o n → S o n) : part.Balanced S := by
  rw [Balanced] at h ⊢
  split at h
  · exact ⟨hRS _ _ h.1, hRS _ _ h.2⟩
  · obtain ⟨n, hstart, hstop⟩ := h
    exact ⟨n, hRS _ _ hstart, hRS _ _ hstop⟩
  · exact h.elim

variable {part : CodePart} {names : List String} {K : ConstantPool} {o : Nat} {a b : List Instr}

theorem StandsIn.append_right (h : part.StandsIn names K o a) :
    part.StandsIn names K o (a ++ b) := by
  obtain ⟨front, is, back, rfl, hstart, hstop, hcode⟩ := h
  exact ⟨front, is, back ++ b, by simp, hstart, hstop, hcode⟩

theorem StandsIn.append_left (h : part.StandsIn names K (o + codeSize a) b) :
    part.StandsIn names K o (a ++ b) := by
  obtain ⟨front, is, back, rfl, hstart, hstop, hcode⟩ := h
  refine ⟨a ++ front, is, back, by simp, ?_, hstop, hcode⟩
  rw [hstart, codeSize_append, Nat.add_assoc]

end CodePart

/-! ## Traced code -/

/-- Code with heights, in which every one of the nodes has a part. -/
def Traced (names : List String) (K : ConstantPool) (o k : Nat) (code : List Instr) (k' : Nat)
    (exits : List (Nat × Nat)) (nodes : List Node) : Prop :=
  ∃ (map : List (Nat × Nat)) (parts : List CodePart), Heights o k code k' exits map ∧
    parts.map CodePart.node = nodes ∧
    ∀ part ∈ parts, part.StandsIn names K o code ∧
      part.Balanced fun t n ↦ (t, n) ∈ map ++ [(o + codeSize code, k')]

namespace Traced

variable {names : List String} {K : ConstantPool} {o k k' k₁ k₂ : Nat} {a b code : List Instr}
  {xs ys mb : List (Nat × Nat)} {ns ms : List Node}

theorem nil : Traced names K o k [] k [] [] :=
  ⟨[], [], .nil, rfl, fun _ h ↦ absurd h List.not_mem_nil⟩

theorem of_heights (h : Heights o k code k' xs mb) : Traced names K o k code k' xs [] :=
  ⟨mb, [], h, rfl, fun _ h ↦ absurd h List.not_mem_nil⟩

theorem append (ha : Traced names K o k a k₁ xs ns)
    (hb : Traced names K (o + codeSize a) k₁ b k₂ ys ms) :
    Traced names K o k (a ++ b) k₂ (xs ++ ys) (ns ++ ms) := by
  obtain ⟨ma, pa, ha, rfl, hpa⟩ := ha
  obtain ⟨mb, pb, hb, rfl, hpb⟩ := hb
  refine ⟨ma ++ mb, pa ++ pb, ha.append hb, List.map_append, fun part hpart ↦ ?_⟩
  have hentry := hb.entry
  rw [codeSize_append, ← Nat.add_assoc]
  rcases List.mem_append.mp hpart with hpart | hpart
  · obtain ⟨hstands, hbalanced⟩ := hpa part hpart
    refine ⟨hstands.append_right, hbalanced.mono fun t n hmem ↦ ?_⟩
    rw [List.append_assoc]
    rcases List.mem_append.mp hmem with hmem | hmem
    · exact List.mem_append_left _ hmem
    · rw [List.mem_singleton.mp hmem]
      exact List.mem_append_right _ hentry
  · obtain ⟨hstands, hbalanced⟩ := hpb part hpart
    refine ⟨hstands.append_left, hbalanced.mono fun t n hmem ↦ ?_⟩
    rw [List.append_assoc]
    exact List.mem_append_right _ hmem

/-- Instructions that belong to no node of their own. -/
theorem append_heights (ha : Traced names K o k a k₁ xs ns)
    (hb : Heights (o + codeSize a) k₁ b k₂ ys mb) :
    Traced names K o k (a ++ b) k₂ (xs ++ ys) ns := by
  have h := ha.append (of_heights hb)
  rwa [List.append_nil] at h

theorem resolve (h : Traced names K o k code k' xs ns) (ys : List (Nat × Nat))
    (hxs : ∀ x ∈ xs, x = (o, k) ∨ x = (o + codeSize code, k') ∨ x ∈ ys) :
    Traced names K o k code k' ys ns := by
  obtain ⟨map, parts, h, hnodes, hparts⟩ := h
  exact ⟨map, parts, h.resolve hxs, hnodes, hparts⟩

/-- The whole piece is the part of one more node. -/
theorem cons_part (h : Traced names K o k code k' xs ns) {node : Node}
    (hcode : node.Emits names K code)
    (hbalanced : ∀ R : Nat → Nat → Prop, R o k → R (o + codeSize code) k' →
      CodePart.Balanced ⟨node, o, o + codeSize code⟩ R) :
    Traced names K o k code k' xs (node :: ns) := by
  obtain ⟨map, parts, h, rfl, hparts⟩ := h
  refine ⟨map, ⟨node, o, o + codeSize code⟩ :: parts, h, rfl, ?_⟩
  rw [List.forall_mem_cons]
  refine ⟨⟨⟨[], code, [], by simp, rfl, rfl, hcode⟩, hbalanced _ h.entry ?_⟩, hparts⟩
  exact List.mem_append_right _ List.mem_cons_self

theorem cons_expr {e : Expr} (hcode : Expr.Emits names K e code)
    (h : Traced names K o k code (k + 1) xs ns) :
    Traced names K o k code (k + 1) xs (.expr e :: ns) :=
  h.cons_part hcode fun _ hstart hstop ↦ ⟨k, hstart, hstop⟩

theorem cons_stmt {s : Stmt} (hcode : Stmt.Emits names K s code)
    (h : Traced names K o 0 code 0 xs ns) : Traced names K o 0 code 0 xs (.stmt s :: ns) :=
  h.cons_part hcode fun _ hstart hstop ↦ ⟨hstart, hstop⟩

end Traced

/-! ## Single instructions -/

/-- The instruction takes `n` operands and leaves `n'` in their place. -/
structure Instr.Replaces (i : Instr) (n n' : Nat) : Prop where
  isJump_eq : i.opcode.isJump = false
  pops_eq : i.pops = n
  pushes_eq : i.pushes = n'

variable {names : List String} {K : ConstantPool}

theorem Literal.Emits.replaces {value : Literal} {i : Instr} (h : Literal.Emits K value i) :
    i.Replaces 0 1 := by
  cases h <;> exact ⟨rfl, rfl, rfl⟩

theorem EmitsStore.replaces {name : String} {i : Instr} (h : EmitsStore names K name i) :
    i.Replaces 1 0 := by
  cases h <;> exact ⟨rfl, rfl, rfl⟩

theorem BinaryOp.replaces_of_instr? {op : BinaryOp} {i : Instr} (h : op.instr? = some i) :
    i.Replaces 2 1 := by
  cases op <;> cases h <;> exact ⟨rfl, rfl, rfl⟩

theorem UnaryOp.replaces_instr (op : UnaryOp) : op.instr.Replaces 1 1 := by
  cases op <;> exact ⟨rfl, rfl, rfl⟩

theorem replaces_pushTruth (b : Bool) : (pushTruth b).Replaces 0 1 := by
  cases b <;> exact ⟨rfl, rfl, rfl⟩

theorem Heights.operation {o k n n' : Nat} {i : Instr} (hi : i.Replaces n n') :
    Heights o (k + n) [i] (k + n') [] [(o, k + n)] := by
  obtain ⟨hjump, rfl, rfl⟩ := hi
  exact .single hjump (Nat.le_add_left _ _) fun _ ↦ by rw [Instr.heightAfter, Nat.add_sub_cancel]

/-- A conditional jump forwards, which leaves for its target or goes on. -/
theorem Heights.jumpIf {o k n : Nat} (kind : JumpKind) (hkind : kind ≠ .always) (hn : n < 2 ^ 31) :
    Heights o (k + 1) [jumpOver kind n] k [(o + 5 + n, k)] [(o, k + 1)] := by
  have hpops : (jumpOver kind n).pops = 1 := by rw [jumpOver, Instr.pops_jump, if_neg hkind]
  have h : Heights o (k + 1) [jumpOver kind n] k
      [(o + 5 + n, k + 1 - (jumpOver kind n).pops)] [(o, k + 1)] := by
    refine Heights.jump ?_ ?_ fun _ ↦ rfl
    · rw [Int32.toInt_ofNat_of_lt hn]
      omega
    · exact Nat.le_trans (Nat.le_of_eq hpops) (Nat.le_add_left 1 k)
  rwa [hpops] at h

theorem Heights.testFor {o k n : Nat} (decided : Bool) (hn : n < 2 ^ 31) :
    Heights o (k + 1) [testFor decided n] k [(o + 5 + n, k)] [(o, k + 1)] :=
  Heights.jumpIf _ (by cases decided <;> decide) hn

/-- An unconditional jump, which leaves for its target. What stands behind it may start at any
height. -/
theorem Heights.jumpAlways {o k k' t : Nat} {distance : Int32}
    (ht : (t : Int) = o + 5 + distance.toInt) :
    Heights o k [.jump .always distance] k' [(t, k)] [(o, k)] :=
  Heights.jump ht (Nat.zero_le _) fun h ↦ absurd rfl h

theorem Heights.jumpOver {o k k' n : Nat} (hn : n < 2 ^ 31) :
    Heights o k [jumpOver .always n] k' [(o + 5 + n, k)] [(o, k)] :=
  Heights.jumpAlways (by rw [Int32.toInt_ofNat_of_lt hn]; omega)

namespace Traced

variable {o k k' k₁ n n' : Nat} {a b code : List Instr} {xs : List (Nat × Nat)} {ns ms : List Node}

theorem operation {i : Instr} (ha : Traced names K o k a (k₁ + n) xs ns) (hi : i.Replaces n n') :
    Traced names K o k (a ++ [i]) (k₁ + n') xs ns := by
  have h := ha.append_heights (Heights.operation hi)
  rwa [List.append_nil] at h

theorem push {i : Instr} (hi : i.Replaces 0 1) : Traced names K o k [i] (k + 1) [] [] :=
  nil.operation hi

/-- A short-circuit operator. The two tests leave with the height that the first operand has found;
there one boolean or the other is pushed. -/
theorem shortCircuit {decided : Bool} (ha : Traced names K o k a (k + 1) [] ns)
    (hb : ∀ o, Traced names K o k b (k + 1) [] ms) (hsize : codeSize b + 11 < 2 ^ 31) :
    Traced names K o k (BuildScript.shortCircuit decided a b) (k + 1) [] (ns ++ ms) := by
  have hshape : BuildScript.shortCircuit decided a b =
      (((((a ++ [testFor decided (codeSize b + jumpSize + 1 + jumpSize)]) ++ b) ++
        [testFor decided (1 + jumpSize)]) ++ [pushTruth !decided]) ++ [jumpOver .always 1]) ++
          [pushTruth decided] := by
    simp [shortCircuit_eq]
  have hfirst := ha.append_heights (Heights.testFor (o := o + codeSize a) (k := k) decided
    (n := codeSize b + jumpSize + 1 + jumpSize) (by rw [jumpSize]; omega))
  have hsecond := (hfirst.append (hb _)).append_heights (Heights.testFor decided
    (n := 1 + jumpSize) (by rw [jumpSize]; omega))
  -- Behind the jump to the end the height is that of the tests, whose target stands there.
  have hjump (o : Nat) : Heights o (k + 1) [jumpOver .always 1] k [(o + 5 + 1, k + 1)] _ :=
    Heights.jumpOver (by decide)
  have hthird := (hsecond.operation (replaces_pushTruth !decided)).append_heights (hjump _)
  have hfourth := hthird.resolve [(o + codeSize a + codeSize b + 17, k + 1)] fun x hx ↦ by
    simp only [List.nil_append, List.append_nil, List.cons_append, List.mem_cons, List.not_mem_nil,
      or_false] at hx
    rcases hx with rfl | rfl | rfl
    · refine .inr (.inl ?_)
      simp [jumpSize]
      omega
    · refine .inr (.inl ?_)
      simp [jumpSize]
      omega
    · refine .inr (.inr ?_)
      simp [jumpSize]
      omega
  rw [hshape]
  refine (hfourth.operation (replaces_pushTruth decided)).resolve [] fun x hx ↦ .inr (.inl ?_)
  obtain rfl := List.mem_singleton.mp hx
  simp [jumpSize]
  omega

/-- A test that jumps behind the code that it guards. -/
theorem guard {test : List Instr} {m : Nat} (htest : Traced names K o k test (k + 1) [] ns)
    (ha : ∀ o, Traced names K o k a k [] ms) (hm : m < 2 ^ 31) :
    Traced names K o k ((test ++ [jumpOver .ifFalse m]) ++ a) k [(o + codeSize test + 5 + m, k)]
      (ns ++ ms) :=
  (htest.append_heights (Heights.jumpIf .ifFalse (by decide) hm)).append (ha _)

theorem ifThen {test : List Instr} (htest : Traced names K o k test (k + 1) [] ns)
    (ha : ∀ o, Traced names K o k a k [] ms) (hsize : codeSize a < 2 ^ 31) :
    Traced names K o k (test ++ jumpOver .ifFalse (codeSize a) :: a) k [] (ns ++ ms) := by
  rw [List.append_cons]
  refine (htest.guard ha hsize).resolve [] fun x hx ↦ .inr (.inl ?_)
  obtain rfl := List.mem_singleton.mp hx
  simp
  omega

theorem ifElse {test : List Instr} {ls : List Node} (htest : Traced names K o k test (k + 1) [] ns)
    (ha : ∀ o, Traced names K o k a k [] ms) (hb : ∀ o, Traced names K o k b k [] ls)
    (hsize : codeSize a + codeSize b + 5 < 2 ^ 31) :
    Traced names K o k (test ++ jumpOver .ifFalse (codeSize a + jumpSize) ::
      (a ++ jumpOver .always (codeSize b) :: b)) k [] (ns ++ (ms ++ ls)) := by
  have hshape : test ++ jumpOver .ifFalse (codeSize a + jumpSize) ::
      (a ++ jumpOver .always (codeSize b) :: b) =
        (((test ++ [jumpOver .ifFalse (codeSize a + jumpSize)]) ++ a) ++
          [jumpOver .always (codeSize b)]) ++ b := by
    simp
  have hjump (o : Nat) : Heights o k [jumpOver .always (codeSize b)] k
      [(o + 5 + codeSize b, k)] [(o, k)] := Heights.jumpOver (by omega)
  have htested := htest.guard ha (m := codeSize a + jumpSize) (by rw [jumpSize]; omega)
  have hfirst := htested.append_heights (hjump _)
  -- The test leads to the alternative, which stands behind the second jump.
  have hsecond := hfirst.resolve [(o + codeSize test + codeSize a + codeSize b + 10, k)]
    fun x hx ↦ by
      simp only [List.cons_append, List.nil_append, List.mem_cons, List.not_mem_nil, or_false] at hx
      rcases hx with rfl | rfl
      · refine .inr (.inl ?_)
        simp [jumpSize]
        omega
      · refine .inr (.inr ?_)
        simp
        omega
  rw [hshape, ← List.append_assoc ns]
  refine (hsecond.append (hb _)).resolve [] fun x hx ↦ .inr (.inl ?_)
  obtain rfl := List.mem_singleton.mp hx
  simp
  omega

theorem loop {test : List Instr} (htest : Traced names K o k test (k + 1) [] ns)
    (ha : ∀ o, Traced names K o k a k [] ms) (hsize : codeSize test + codeSize a + 10 < 2 ^ 31) :
    Traced names K o k (test ++ jumpOver .ifFalse (codeSize a + jumpSize) :: (a ++
      [.jump .always (.ofInt (-(codeSize test + jumpSize + codeSize a + jumpSize)))])) k []
        (ns ++ ms) := by
  let back : Int := codeSize test + jumpSize + codeSize a + jumpSize
  have hback : (Int32.ofInt (-back)).toInt = -back :=
    Int32.toInt_ofInt_of_le (by simp only [back, jumpSize]; omega)
      (by simp only [back, jumpSize]; omega)
  have hshape : test ++ jumpOver .ifFalse (codeSize a + jumpSize) ::
      (a ++ [.jump .always (.ofInt (-back))]) =
        ((test ++ [jumpOver .ifFalse (codeSize a + jumpSize)]) ++ a) ++
          [.jump .always (.ofInt (-back))] := by
    simp
  have hjump (p : Nat) (hp : p = o + codeSize test + codeSize a + 5) :
      Heights p k [.jump .always (.ofInt (-back))] k [(o, k)] [(p, k)] := by
    refine Heights.jumpAlways ?_
    rw [hback, hp]
    simp only [back, jumpSize]
    omega
  have htested := htest.guard ha (m := codeSize a + jumpSize) (by rw [jumpSize]; omega)
  have hparts := htested.append_heights (hjump _ (by simp; omega))
  rw [hshape]
  refine hparts.resolve [] fun x hx ↦ ?_
  simp only [List.cons_append, List.nil_append, List.mem_cons, List.not_mem_nil, or_false] at hx
  rcases hx with rfl | rfl
  · refine .inr (.inl ?_)
    simp [jumpSize]
    omega
  · exact .inl rfl

end Traced

/-! ## Expressions and statements -/

section Constructs

variable {a b code : List Instr} {n : Nat}

theorem codeSize_lt_left (h : codeSize (a ++ b) < n) : codeSize a < n := by
  rw [codeSize_append] at h
  omega

theorem codeSize_lt_right (h : codeSize (a ++ b) < n) : codeSize b < n := by
  rw [codeSize_append] at h
  omega

mutual

/-- Code of an expression adds one operand, whatever is on the stack already. -/
theorem Expr.traced (e : Expr) {code : List Instr} (h : Expr.Emits names K e code)
    (hsize : codeSize code < 2 ^ 31) (o k : Nat) : Traced names K o k code (k + 1) [] e.nodes := by
  have hcode := h
  cases e with
  | constant value span =>
    cases h with
    | constant hi => exact .cons_expr hcode (.push hi.replaces)
  | var name span =>
    cases h with
    | slot => exact .cons_expr hcode (.push ⟨rfl, rfl, rfl⟩)
    | bindingVar => exact .cons_expr hcode (.push ⟨rfl, rfl, rfl⟩)
  | classRef name span =>
    cases h with
    | classRef => exact .cons_expr hcode (.push ⟨rfl, rfl, rfl⟩)
  | property object name span =>
    cases h with
    | property hobject =>
      have hparts := object.traced hobject (codeSize_lt_left hsize) o k
      exact .cons_expr hcode (hparts.operation ⟨rfl, rfl, rfl⟩)
  | call name arguments span =>
    cases h with
    | call hall hcount =>
      have hparts := Expr.traced_all arguments hall (codeSize_lt_left hsize) o k
      exact .cons_expr hcode (hparts.operation ⟨rfl, hcount, rfl⟩)
  | invoke receiver name arguments span =>
    cases h with
    | @invoke _ _ _ _ first all index count hreceiver hall hcount =>
      -- Receiver and arguments are one piece, all of which the instruction takes off the stack.
      rw [← List.append_assoc] at hcode hsize ⊢
      have hsize' := codeSize_lt_left hsize
      have hfirst := receiver.traced hreceiver (codeSize_lt_left hsize') o k
      have hparts := hfirst.append
        (Expr.traced_all arguments hall (codeSize_lt_right hsize') (o + codeSize first) (k + 1))
      rw [Nat.add_assoc, Nat.add_comm 1] at hparts
      exact .cons_expr hcode (hparts.operation ⟨rfl, congrArg (· + 1) hcount, rfl⟩)
  | binary op left right span =>
    cases h with
    | @binary _ _ _ _ first second i hop hleft hright =>
      rw [← List.append_assoc] at hcode hsize ⊢
      have hsize' := codeSize_lt_left hsize
      have hfirst := left.traced hleft (codeSize_lt_left hsize') o k
      have hparts : Traced names K o k (first ++ second) (k + 2) [] (left.nodes ++ right.nodes) :=
        hfirst.append
          (right.traced hright (codeSize_lt_right hsize') (o + codeSize first) (k + 1))
      exact .cons_expr hcode (hparts.operation (BinaryOp.replaces_of_instr? hop))
    | @shortCircuit _ _ _ _ first second hop hleft hright =>
      have hbound : codeSize first + codeSize second + 11 < 2 ^ 31 := by
        refine Nat.lt_of_le_of_lt ?_ hsize
        simp [shortCircuit, jumpSize]
        omega
      have hfirst := left.traced hleft (by omega) o k
      have hsecond := fun o ↦ right.traced hright (by omega) o k
      exact .cons_expr hcode (hfirst.shortCircuit hsecond (by omega))
  | unary op operand span =>
    cases h with
    | unary hoperand =>
      have hparts := operand.traced hoperand (codeSize_lt_left hsize) o k
      exact .cons_expr hcode (hparts.operation op.replaces_instr)
  | assign target value span =>
    cases h with
    | @assign _ _ _ first i hvalue hi =>
      have hparts := value.traced hvalue (codeSize_lt_left hsize) o k
      -- The value is stored from a copy, and so is still there as the value of the expression.
      rw [List.append_cons] at hcode ⊢
      have hdup : Traced names K o k (first ++ [.dup]) (k + 1 + 1) [] value.nodes :=
        hparts.operation ⟨rfl, rfl, rfl⟩
      exact .cons_expr hcode (hdup.operation hi.replaces)
  | list elements span =>
    cases h with
    | list hall hcount =>
      have hparts := Expr.traced_all elements hall (codeSize_lt_left hsize) o k
      exact .cons_expr hcode (hparts.operation ⟨rfl, hcount, rfl⟩)

theorem Expr.traced_all (es : List Expr) {code : List Instr} (h : Expr.EmitsAll names K es code)
    (hsize : codeSize code < 2 ^ 31) (o k : Nat) :
    Traced names K o k code (k + es.length) [] (Expr.nodesOfAll es) := by
  cases es with
  | nil =>
    cases h
    exact .nil
  | cons e es =>
    cases h with
    | @cons _ _ first rest he hes =>
      have hfirst := e.traced he (codeSize_lt_left hsize) o k
      have hrest := Expr.traced_all es hes (codeSize_lt_right hsize) (o + codeSize first) (k + 1)
      rw [List.length_cons, Nat.add_comm es.length 1, ← Nat.add_assoc]
      exact hfirst.append hrest

end

theorem Expr.traced_optional {value : Option Expr} {code : List Instr}
    (h : Expr.EmitsOptional names K value code) (hsize : codeSize code < 2 ^ 31) (o k : Nat) :
    Traced names K o k code (k + 1) [] (value.elim [] Expr.nodes) := by
  cases h with
  | none => exact .push ⟨rfl, rfl, rfl⟩
  | some he => exact Expr.traced _ he hsize o k

mutual

/-- Code of a statement begins and ends with an empty stack. -/
theorem Stmt.traced (s : Stmt) {code : List Instr} (h : Stmt.Emits names K s code)
    (hsize : codeSize code < 2 ^ 31) (o : Nat) : Traced names K o 0 code 0 [] s.nodes := by
  have hcode := h
  cases s with
  | expression e =>
    cases h with
    | expression he =>
      have hparts := e.traced he (codeSize_lt_left hsize) o 0
      exact .cons_stmt hcode (hparts.operation ⟨rfl, rfl, rfl⟩)
  | declare name initial span =>
    cases h with
    | declare hinitial hi =>
      have hparts := Expr.traced_optional hinitial (codeSize_lt_left hsize) o 0
      cases initial with
      | none => exact .cons_stmt hcode (hparts.operation hi.replaces)
      | some e => exact .cons_stmt hcode (hparts.operation hi.replaces)
  | ifThen condition body span =>
    cases h with
    | @ifThen _ _ _ test a htest ha =>
      have hbound : codeSize test + codeSize a < 2 ^ 31 := by
        refine Nat.lt_of_le_of_lt ?_ hsize
        simp
      have hcondition := condition.traced htest (by omega) o 0
      exact .cons_stmt hcode
        (hcondition.ifThen (fun o ↦ body.traced ha (by omega) o) (by omega))
  | ifElse condition body alternative span =>
    cases h with
    | @ifElse _ _ _ _ test a b htest ha hb =>
      have hbound : codeSize test + codeSize a + codeSize b + 10 < 2 ^ 31 := by
        refine Nat.lt_of_le_of_lt ?_ hsize
        simp
        omega
      have hcondition := condition.traced htest (by omega) o 0
      exact .cons_stmt hcode (hcondition.ifElse (fun o ↦ body.traced ha (by omega) o)
        (fun o ↦ alternative.traced hb (by omega) o) (by omega))
  | loop condition body span =>
    cases h with
    | @loop _ _ _ test a htest ha =>
      have hbound : codeSize test + codeSize a + 10 < 2 ^ 31 := by
        refine Nat.lt_of_le_of_lt ?_ hsize
        simp
        omega
      have hcondition := condition.traced htest (by omega) o 0
      exact .cons_stmt hcode (hcondition.loop (fun o ↦ body.traced ha (by omega) o) (by omega))
  | result value span =>
    cases h with
    | result hvalue =>
      have hparts := Expr.traced_optional hvalue (codeSize_lt_left hsize) o 0
      cases value with
      | none => exact .cons_stmt hcode (hparts.operation ⟨rfl, rfl, rfl⟩)
      | some e => exact .cons_stmt hcode (hparts.operation ⟨rfl, rfl, rfl⟩)
  | block body span =>
    cases h with
    | block hall => exact .cons_stmt hcode (Stmt.traced_all body hall hsize o)

theorem Stmt.traced_all (ss : List Stmt) {code : List Instr} (h : Stmt.EmitsAll names K ss code)
    (hsize : codeSize code < 2 ^ 31) (o : Nat) :
    Traced names K o 0 code 0 [] (Stmt.nodesOfAll ss) := by
  cases ss with
  | nil =>
    cases h
    exact .nil
  | cons s ss =>
    cases h with
    | cons hs hss =>
      have hfirst := s.traced hs (codeSize_lt_left hsize) o
      exact hfirst.append (Stmt.traced_all ss hss (codeSize_lt_right hsize) _)

end

end Constructs

/-! ## Methods -/

/-- A generated method with a height for every offset: the heights are a stack map, control never
leaves the instructions, and every node of the body has its part of the code, which begins and ends
with the heights that a node of its kind has to have. -/
structure Method.HasHeights (K : ConstantPool) (m : Method) (compiled : CompiledMethod)
    (placed : List Placed) (height : Nat → Nat) : Prop where
  instructions_eq : compiled.instructions = .ok placed
  first : ∃ p ∈ placed, p.offset = 0
  closed : ∀ p ∈ placed, ∀ t, p.Leads t → ∃ q ∈ placed, q.offset = t
  lands : ∀ p ∈ placed, p.Lands placed
  slots : ∀ p ∈ placed, p.instr.SlotExists compiled.localCount.toNat
  stackMap : StackMap placed height
  parts : ∃ parts : List CodePart, parts.map CodePart.node = Stmt.nodesOfAll m.body ∧
    ∀ part ∈ parts, part.Balanced (fun o n ↦ height o = n) ∧
      ∃ is, part.node.Emits m.localNames K is ∧ Instr.StandAt compiled.code part.start is ∧
        part.stop = part.start + codeSize is

theorem lands_of_closed {placed : List Placed}
    (hclosed : ∀ p ∈ placed, ∀ t, p.Leads t → ∃ q ∈ placed, q.offset = t) {p : Placed}
    (hp : p ∈ placed) (htarget : ∀ kind distance, p.instr = .jump kind distance →
      0 ≤ (p.next : Int) + distance.toInt) : p.Lands placed := by
  intro kind distance hjump
  obtain ⟨t, ht⟩ := Int.eq_ofNat_of_zero_le (htarget kind distance hjump)
  obtain ⟨q, hq, hoffset⟩ := hclosed p hp t (.inr ⟨kind, distance, hjump, ht.symm⟩)
  exact ⟨q, hq, by rw [hoffset, ht]⟩

/-- Generated methods have heights. -/
theorem Method.Emits.exists_heights {m : Method} {compiled : CompiledMethod}
    (h : Method.Emits K m compiled) (hsize : compiled.code.size < 2 ^ 31) :
    ∃ placed height, Method.HasHeights K m compiled placed height := by
  obtain ⟨code, hbody, hstand, hcodesize⟩ := h.exists_code
  rw [← hcodesize] at hsize
  have htraced := Stmt.traced_all m.body hbody (codeSize_lt_left hsize) 0
  have hall : Traced m.localNames K 0 0 (code ++ [.returnNull]) 0 [] (Stmt.nodesOfAll m.body) :=
    htraced.operation ⟨rfl, rfl, rfl⟩
  -- No exits are left, and what leads to the end of the body leads to the return behind it.
  obtain ⟨_, _, hbodyheights, -, -⟩ := htraced
  obtain ⟨map, parts, hheights, hnodes, hparts⟩ := hall
  have hclosed : ∀ p ∈ place 0 (code ++ [.returnNull]), ∀ t, p.Leads t →
      ∃ q ∈ place 0 (code ++ [.returnNull]), q.offset = t :=
    fun p hp t ht ↦ hbodyheights.exists_mem_of_leads rfl hp ht
  refine ⟨place 0 (code ++ [.returnNull]), heightAt (map ++ [(0 + codeSize _, 0)]), ?_, ?_, hclosed,
    fun p hp ↦ lands_of_closed hclosed hp (hheights.target_nonneg p hp), fun p hp ↦ ?_,
    hheights.stackMap, parts, hnodes, fun part hpart ↦ ⟨?_, ?_⟩⟩
  · exact CompiledMethod.instructions_eq_ok_iff.mpr ⟨_, rfl, hstand, hcodesize⟩
  · cases code with
    | nil => exact ⟨_, List.mem_cons_self, rfl⟩
    | cons i code => exact ⟨_, List.mem_cons_self, rfl⟩
  · rw [h.localCount_eq]
    exact (hbody.refers hp).slotExists
  · exact (hparts part hpart).2.mono fun t n hmem ↦ heightAt_of_mem hheights.nodup_keys hmem
  · obtain ⟨front, is, back, hshape, hstart, hstop, hcode⟩ := (hparts part hpart).1
    rw [hshape, Instr.standAt_append, Instr.standAt_append] at hstand
    exact ⟨is, hcode, hstart ▸ hstand.2.1, hstop⟩

end BuildScript
