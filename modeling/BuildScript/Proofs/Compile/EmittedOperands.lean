import BuildScript.Proofs.Compile.Emission

/-!
# Operands of generated code

Every constant and every slot that generated code names exists: the constants because the pool only
grows, the slots because they are indices of the list of names. Of constants this can only be said
if the finished pool is addressable.
-/

namespace BuildScript

/-- The slot that the instruction names is that of one of the names, and its constant exists. -/
structure Instr.Refers (names : List String) (K : ConstantPool) (i : Instr) : Prop where
  slotExists : i.SlotExists names.length
  constantExists : K.Addressable → i.ConstantExists K

variable {names : List String} {K : ConstantPool} {i : Instr}

namespace ConstantPool

variable {index : UInt32}

theorem HasString.lt_size {s : String} (h : K.HasString index s) (hK : K.Addressable) :
    index.toNat < K.strings.size :=
  (Array.getElem?_eq_some_iff.mp (h hK)).1

theorem HasInteger.lt_size {n : Int64} (h : K.HasInteger index n) (hK : K.Addressable) :
    index.toNat < K.integers.size :=
  (Array.getElem?_eq_some_iff.mp (h hK)).1

theorem HasFloat.lt_size {x : Binary64} (h : K.HasFloat index x) (hK : K.Addressable) :
    index.toNat < K.floats.size :=
  (Array.getElem?_eq_some_iff.mp (h hK)).1

end ConstantPool

theorem lt_length_of_getElem? {name : String} {n : Nat} (h : names[n]? = some name) :
    n < names.length :=
  (List.getElem?_eq_some_iff.mp h).1

theorem Literal.Emits.refers {value : Literal} (h : Literal.Emits K value i) :
    i.Refers names K := by
  cases h with
  | null | yes | no => exact ⟨trivial, fun _ ↦ trivial⟩
  | int hn => exact ⟨trivial, hn.lt_size⟩
  | float hx => exact ⟨trivial, hx.lt_size⟩
  | str hs => exact ⟨trivial, hs.lt_size⟩

theorem EmitsStore.refers {name : String} (h : EmitsStore names K name i) : i.Refers names K := by
  cases h with
  | slot hslot => exact ⟨lt_length_of_getElem? hslot, fun _ ↦ trivial⟩
  | bindingVar _ hindex => exact ⟨trivial, hindex.lt_size⟩

theorem BinaryOp.refers_of_instr? {op : BinaryOp} (h : op.instr? = some i) :
    i.Refers names K := by
  cases op <;> cases h <;> exact ⟨trivial, fun _ ↦ trivial⟩

theorem UnaryOp.refers_instr (op : UnaryOp) : op.instr.Refers names K := by
  cases op <;> exact ⟨trivial, fun _ ↦ trivial⟩

/-- All of the instructions refer to something that exists. -/
def RefersAll (names : List String) (K : ConstantPool) (code : List Instr) : Prop :=
  ∀ i ∈ code, i.Refers names K

@[simp] theorem refersAll_append {a b : List Instr} :
    RefersAll names K (a ++ b) ↔ RefersAll names K a ∧ RefersAll names K b :=
  List.forall_mem_append

@[simp] theorem refersAll_cons {code : List Instr} :
    RefersAll names K (i :: code) ↔ i.Refers names K ∧ RefersAll names K code :=
  List.forall_mem_cons

@[simp] theorem refersAll_nil : RefersAll names K [] := fun _ h ↦ absurd h List.not_mem_nil

theorem refersAll_singleton (h : i.Refers names K) : RefersAll names K [i] :=
  refersAll_cons.mpr ⟨h, refersAll_nil⟩

theorem refersAll_shortCircuit {decided : Bool} {a b : List Instr} (ha : RefersAll names K a)
    (hb : RefersAll names K b) : RefersAll names K (shortCircuit decided a b) := by
  have hjump (kind : JumpKind) (n : Nat) : (jumpOver kind n).Refers names K :=
    ⟨trivial, fun _ ↦ trivial⟩
  have hpush (b : Bool) : (pushTruth b).Refers names K := by
    cases b <;> exact ⟨trivial, fun _ ↦ trivial⟩
  rw [shortCircuit_eq]
  exact refersAll_append.mpr ⟨ha, refersAll_cons.mpr ⟨hjump _ _, refersAll_append.mpr ⟨hb,
    refersAll_cons.mpr ⟨hjump _ _, refersAll_cons.mpr ⟨hpush _, refersAll_cons.mpr
      ⟨hjump _ _, refersAll_singleton (hpush _)⟩⟩⟩⟩⟩⟩

/-! ## Expressions and statements -/

mutual

theorem Expr.refersAll (e : Expr) {code : List Instr} (h : Expr.Emits names K e code) :
    RefersAll names K code := by
  cases e with
  | constant value span =>
    cases h with
    | constant hi => exact refersAll_singleton hi.refers
  | var name span =>
    cases h with
    | slot hslot =>
      exact refersAll_singleton ⟨lt_length_of_getElem? hslot, fun _ ↦ trivial⟩
    | bindingVar _ hindex => exact refersAll_singleton ⟨trivial, hindex.lt_size⟩
  | classRef name span =>
    cases h with
    | classRef hindex => exact refersAll_singleton ⟨trivial, hindex.lt_size⟩
  | property object name span =>
    cases h with
    | property hobject hindex =>
      exact refersAll_append.mpr ⟨object.refersAll hobject,
        refersAll_singleton ⟨trivial, hindex.lt_size⟩⟩
  | call name arguments span =>
    cases h with
    | call hall _ hindex =>
      exact refersAll_append.mpr ⟨Expr.refersAll_all arguments hall,
        refersAll_singleton ⟨trivial, hindex.lt_size⟩⟩
  | invoke receiver name arguments span =>
    cases h with
    | invoke hreceiver hall _ hindex =>
      exact refersAll_append.mpr ⟨receiver.refersAll hreceiver, refersAll_append.mpr
        ⟨Expr.refersAll_all arguments hall, refersAll_singleton ⟨trivial, hindex.lt_size⟩⟩⟩
  | binary op left right span =>
    cases h with
    | binary hop hleft hright =>
      exact refersAll_append.mpr ⟨left.refersAll hleft, refersAll_append.mpr
        ⟨right.refersAll hright, refersAll_singleton (BinaryOp.refers_of_instr? hop)⟩⟩
    | shortCircuit _ hleft hright =>
      exact refersAll_shortCircuit (left.refersAll hleft) (right.refersAll hright)
  | unary op operand span =>
    cases h with
    | unary hoperand =>
      exact refersAll_append.mpr ⟨operand.refersAll hoperand, refersAll_singleton op.refers_instr⟩
  | assign target value span =>
    cases h with
    | assign hvalue hi =>
      exact refersAll_append.mpr ⟨value.refersAll hvalue, refersAll_cons.mpr
        ⟨⟨trivial, fun _ ↦ trivial⟩, refersAll_singleton hi.refers⟩⟩
  | list elements span =>
    cases h with
    | list hall _ =>
      exact refersAll_append.mpr ⟨Expr.refersAll_all elements hall,
        refersAll_singleton ⟨trivial, fun _ ↦ trivial⟩⟩

theorem Expr.refersAll_all (es : List Expr) {code : List Instr}
    (h : Expr.EmitsAll names K es code) : RefersAll names K code := by
  cases es with
  | nil =>
    cases h
    exact refersAll_nil
  | cons e es =>
    cases h with
    | cons he hes => exact refersAll_append.mpr ⟨e.refersAll he, Expr.refersAll_all es hes⟩

end

theorem Expr.refersAll_optional {value : Option Expr} {code : List Instr}
    (h : Expr.EmitsOptional names K value code) : RefersAll names K code := by
  cases h with
  | none => exact refersAll_singleton ⟨trivial, fun _ ↦ trivial⟩
  | some he => exact Expr.refersAll _ he

mutual

theorem Stmt.refersAll (s : Stmt) {code : List Instr} (h : Stmt.Emits names K s code) :
    RefersAll names K code := by
  have hplain : (Instr.pop).Refers names K := ⟨trivial, fun _ ↦ trivial⟩
  have hjump (kind : JumpKind) (distance : Int32) : (Instr.jump kind distance).Refers names K :=
    ⟨trivial, fun _ ↦ trivial⟩
  cases s with
  | expression e =>
    cases h with
    | expression he => exact refersAll_append.mpr ⟨e.refersAll he, refersAll_singleton hplain⟩
  | declare name initial span =>
    cases h with
    | declare hinitial hi =>
      exact refersAll_append.mpr ⟨Expr.refersAll_optional hinitial, refersAll_singleton hi.refers⟩
  | ifThen condition body span =>
    cases h with
    | ifThen htest ha =>
      simp [condition.refersAll htest, body.refersAll ha, jumpOver, hjump]
  | ifElse condition body alternative span =>
    cases h with
    | ifElse htest ha hb =>
      simp [condition.refersAll htest, body.refersAll ha, alternative.refersAll hb, jumpOver, hjump]
  | loop condition body span =>
    cases h with
    | loop htest ha => simp [condition.refersAll htest, body.refersAll ha, jumpOver, hjump]
  | result value span =>
    cases h with
    | result hvalue =>
      exact refersAll_append.mpr ⟨Expr.refersAll_optional hvalue,
        refersAll_singleton ⟨trivial, fun _ ↦ trivial⟩⟩
  | block body span =>
    cases h with
    | block hall => exact Stmt.refersAll_all body hall

theorem Stmt.refersAll_all (ss : List Stmt) {code : List Instr}
    (h : Stmt.EmitsAll names K ss code) : RefersAll names K code := by
  cases ss with
  | nil =>
    cases h
    exact refersAll_nil
  | cons s ss =>
    cases h with
    | cons hs hss => exact refersAll_append.mpr ⟨s.refersAll hs, Stmt.refersAll_all ss hss⟩

end

/-! ## Methods -/

theorem mem_of_mem_place {o : Nat} {code : List Instr} {p : Placed} (h : p ∈ place o code) :
    p.instr ∈ code := by
  induction code generalizing o with
  | nil => cases h
  | cons i code ih =>
    rcases List.mem_cons.mp h with rfl | h
    · exact List.mem_cons_self
    · exact List.mem_cons_of_mem _ (ih h)

/-- Every instruction of a generated method refers to something that exists. -/
theorem Stmt.EmitsAll.refers {ss : List Stmt} {code : List Instr}
    (h : Stmt.EmitsAll names K ss code) {p : Placed} (hp : p ∈ place 0 (code ++ [.returnNull])) :
    p.instr.Refers names K := by
  rcases List.mem_append.mp (mem_of_mem_place hp) with hmem | hmem
  · exact Stmt.refersAll_all ss h _ hmem
  · rw [List.mem_singleton.mp hmem]
    exact ⟨trivial, fun _ ↦ trivial⟩

end BuildScript
