import Mathlib.Data.List.Forall2
import BuildScript.Proofs.Compile.LocalNames
import BuildScript.Proofs.Compile.PoolGrowth

/-!
# The code of a construct

Which instructions are code of which construct, said without the code generator: `Emits` has one
case for each shape of code, with the constants and the slots that its instructions have to name.
The second half of the file shows that generating code obeys it (`ClassNode.emits_of_compile`).
What the code does, how high the stack is and whether the verifier accepts it is then read off the
relation alone, without the pool being threaded through the proof.

The relation is stated for the finished pool `K`. It is not a function: a float constant has an
entry of its own every time it occurs, so equal constructs have different code.
-/

namespace BuildScript

/-! ## The relation -/

section

variable (names : List String) (K : ConstantPool)

/-- The instruction pushes the value of the literal. -/
inductive Literal.Emits : Literal → Instr → Prop where
  | null : Emits .null .pushNull
  | yes : Emits (.bool true) .pushTrue
  | no : Emits (.bool false) .pushFalse
  | int {n index} : K.HasInteger index n → Emits (.int n) (.pushInt index)
  | float {x index} : K.HasFloat index x → Emits (.float x) (.pushFloat index)
  | str {s index} : K.HasString index s → Emits (.str s) (.pushStr index)

/-- The instruction stores the topmost value under the name. -/
inductive EmitsStore (name : String) : Instr → Prop where
  | slot {slot : UInt16} : names[slot.toNat]? = some name → EmitsStore name (.storeLocal slot)
  | bindingVar {index} : name ∉ names → K.HasString index name → EmitsStore name (.storeVar index)

mutual

/-- The instructions are code of the expression. -/
inductive Expr.Emits : Expr → List Instr → Prop where
  | constant {value span i} : Literal.Emits K value i → Emits (.constant value span) [i]
  | slot {name span} {slot : UInt16} : names[slot.toNat]? = some name →
      Emits (.var name span) [.loadLocal slot]
  | bindingVar {name span index} : name ∉ names → K.HasString index name →
      Emits (.var name span) [.loadVar index]
  | classRef {name span index} : K.HasString index name →
      Emits (.classRef name span) [.pushClass index]
  | property {object name span code index} : Emits object code → K.HasString index name →
      Emits (.property object name span) (code ++ [.getProperty index])
  | call {name arguments span code index count} : EmitsAll arguments code →
      count.toNat = arguments.length → K.HasString index name →
      Emits (.call name arguments span) (code ++ [.invokeMethod index count])
  | invoke {receiver name arguments span first code index count} : Emits receiver first →
      EmitsAll arguments code → count.toNat = arguments.length → K.HasString index name →
      Emits (.invoke receiver name arguments span) (first ++ (code ++ [.invokeVirtual index count]))
  | binary {op left right span a b i} : op.instr? = some i → Emits left a → Emits right b →
      Emits (.binary op left right span) (a ++ (b ++ [i]))
  | shortCircuit {op left right span a b} : op.instr? = none → Emits left a → Emits right b →
      Emits (.binary op left right span) (shortCircuit (op == .or) a b)
  | unary {op operand span code} : Emits operand code →
      Emits (.unary op operand span) (code ++ [op.instr])
  | assign {target value span code i} : Emits value code → EmitsStore names K target i →
      Emits (.assign target value span) (code ++ [.dup, i])
  | list {elements span code count} : EmitsAll elements code → count.toNat = elements.length →
      Emits (.list elements span) (code ++ [.newList count])

/-- The instructions are code of the expressions from left to right. -/
inductive Expr.EmitsAll : List Expr → List Instr → Prop where
  | nil : EmitsAll [] []
  | cons {e es a b} : Emits e a → EmitsAll es b → EmitsAll (e :: es) (a ++ b)

end

/-- The instructions are code of an optional expression, which is null if it is missing. -/
inductive Expr.EmitsOptional : Option Expr → List Instr → Prop where
  | none : EmitsOptional none [.pushNull]
  | some {e code} : Expr.Emits names K e code → EmitsOptional (some e) code

mutual

/-- The instructions are code of the statement. -/
inductive Stmt.Emits : Stmt → List Instr → Prop where
  | expression {e code} : Expr.Emits names K e code → Emits (.expression e) (code ++ [.pop])
  | declare {name initial span code i} : Expr.EmitsOptional names K initial code →
      EmitsStore names K name i → Emits (.declare name initial span) (code ++ [i])
  | ifThen {condition body span test a} : Expr.Emits names K condition test → Emits body a →
      Emits (.ifThen condition body span) (test ++ jumpOver .ifFalse (codeSize a) :: a)
  | ifElse {condition body alternative span test a b} : Expr.Emits names K condition test →
      Emits body a → Emits alternative b →
      Emits (.ifElse condition body alternative span)
        (test ++ jumpOver .ifFalse (codeSize a + jumpSize) ::
          (a ++ jumpOver .always (codeSize b) :: b))
  | loop {condition body span test a} : Expr.Emits names K condition test → Emits body a →
      Emits (.loop condition body span)
        (test ++ jumpOver .ifFalse (codeSize a + jumpSize) ::
          (a ++ [.jump .always (.ofInt (-(codeSize test + jumpSize + codeSize a + jumpSize)))]))
  | result {value span code} : Expr.EmitsOptional names K value code →
      Emits (.result value span) (code ++ [.return])
  | block {body span code} : EmitsAll body code → Emits (.block body span) code

/-- The instructions are code of the statements in order. -/
inductive Stmt.EmitsAll : List Stmt → List Instr → Prop where
  | nil : EmitsAll [] []
  | cons {s ss a b} : Emits s a → EmitsAll ss b → EmitsAll (s :: ss) (a ++ b)

end

/-- The compiled method has the code of the method's body, and returns null behind it. -/
structure Method.Emits (m : Method) (compiled : CompiledMethod) : Prop where
  name_eq : compiled.name = m.name
  paramCount_eq : compiled.paramCount.toNat = (withNames [] (m.parameters.map (·.name))).length
  localCount_eq : compiled.localCount.toNat = m.localNames.length
  nodup : m.localNames.Nodup
  code_eq : ∃ code, Stmt.EmitsAll m.localNames K m.body code ∧
    compiled.code = ((code ++ [Instr.returnNull]).flatMap Instr.encode).toArray

end

/-- The class file has the compiled methods of the class node, in the same order. -/
structure ClassNode.Emits (node : ClassNode) (file : ClassFile) : Prop where
  magic_eq : file.magic = ClassFile.standardMagic
  version_eq : file.version = ClassFile.currentVersion
  name_eq : file.name = node.name
  methods : List.Forall₂ (Method.Emits file.constants) node.methods file.methods

/-! ## Generated code -/

open GenM

variable {slots : Slots} {names : List String}

theorem Literal.yields_compile (value : Literal) :
    value.compile.Yields fun K i ↦ Literal.Emits K value i := by
  cases value with
  | null => exact yields_pure fun K ↦ .null
  | bool b =>
    cases b with
    | true => exact yields_pure fun K ↦ .yes
    | false => exact yields_pure fun K ↦ .no
  | int n => exact (yields_integer n).bind fun _ ↦ yields_pure fun K hindex ↦ .int hindex
  | float x => exact (yields_float x).bind fun _ ↦ yields_pure fun K hindex ↦ .float hindex
  | str s => exact (yields_string s).bind fun _ ↦ yields_pure fun K hindex ↦ .str hindex

theorem yields_compileStore (h : slots.Lists names) (name : String) :
    (compileStore slots name).Yields fun K i ↦ EmitsStore names K name i := by
  rw [compileStore]
  cases hslot : slots.slot? name with
  | some slot => exact yields_pure fun K ↦ .slot ((h.slot?_eq_some_iff name slot).mp hslot)
  | none =>
    have hname := h.slot?_eq_none_iff.mp hslot
    exact (yields_string name).bind fun _ ↦ yields_pure fun K hindex ↦ .bindingVar hname hindex

theorem yields_argumentCount (method : String) (n : Nat) :
    (argumentCount method n).Yields fun _ count ↦ count.toNat = n := by
  rw [argumentCount]
  split
  · next hle =>
    rw [Slots.limit] at hle
    exact yields_pure fun _ ↦ UInt16.toNat_ofNat_of_lt (by rw [UInt16.size]; omega)
  · exact yields_throw

mutual

theorem Expr.yields_compile (h : slots.Lists names) (e : Expr) :
    (e.compile slots).Yields fun K code ↦ Expr.Emits names K e code := by
  cases e with
  | constant value span =>
    rw [Expr.compile]
    exact value.yields_compile.bind fun i ↦ yields_pure fun K hi ↦ .constant hi
  | var name span =>
    rw [Expr.compile]
    cases hslot : slots.slot? name with
    | some slot => exact yields_pure fun K ↦ .slot ((h.slot?_eq_some_iff name slot).mp hslot)
    | none =>
      have hname := h.slot?_eq_none_iff.mp hslot
      exact (yields_string name).bind fun _ ↦ yields_pure fun K hindex ↦ .bindingVar hname hindex
  | classRef name span =>
    rw [Expr.compile]
    exact (yields_string name).bind fun _ ↦ yields_pure fun K hindex ↦ .classRef hindex
  | property object name span =>
    rw [Expr.compile]
    exact (object.yields_compile h).bind fun code ↦ (yields_string name).bind fun _ ↦
      yields_pure fun K hindex hcode ↦ .property hcode hindex
  | call name arguments span =>
    rw [Expr.compile]
    refine (Expr.yields_compileAll h [] arguments).bind fun code ↦
      (yields_argumentCount name arguments.length).bind fun count ↦
        (yields_string name).bind fun _ ↦ yields_pure fun K hindex hcount hcode ↦ ?_
    obtain ⟨all, rfl, hall⟩ := hcode
    exact .call hall hcount hindex
  | invoke receiver name arguments span =>
    rw [Expr.compile]
    refine (receiver.yields_compile h).bind fun first ↦
      (Expr.yields_compileAll h first.reverse arguments).bind fun code ↦
        (yields_argumentCount name arguments.length).bind fun count ↦
          (yields_string name).bind fun _ ↦ yields_pure fun K hindex hcount hcode hfirst ↦ ?_
    obtain ⟨all, rfl, hall⟩ := hcode
    -- The receiver's code was handed on reversed, as the code in front of the arguments.
    rw [List.reverse_reverse, List.append_assoc]
    exact .invoke hfirst hall hcount hindex
  | binary op left right span =>
    rw [Expr.compile]
    refine (left.yields_compile h).bind fun a ↦ (right.yields_compile h).bind fun b ↦ ?_
    cases hop : op.instr? with
    | some i => exact yields_pure fun K hb ha ↦ .binary hop ha hb
    | none => exact yields_pure fun K hb ha ↦ .shortCircuit hop ha hb
  | unary op operand span =>
    rw [Expr.compile]
    exact (operand.yields_compile h).bind fun code ↦ yields_pure fun K hcode ↦ .unary hcode
  | assign target value span =>
    rw [Expr.compile]
    exact (value.yields_compile h).bind fun code ↦ (yields_compileStore h target).bind fun _ ↦
      yields_pure fun K hi hcode ↦ .assign hcode hi
  | list elements span =>
    rw [Expr.compile]
    refine (Expr.yields_compileAll h [] elements).bind fun code ↦
      (yields_argumentCount "list literal" elements.length).bind fun count ↦
        yields_pure fun K hcount hcode ↦ ?_
    obtain ⟨all, rfl, hall⟩ := hcode
    exact .list hall hcount

theorem Expr.yields_compileAll (h : slots.Lists names) (done : List Instr) (es : List Expr) :
    (Expr.compileAll slots done es).Yields fun K code ↦
      ∃ all, code = done.reverse ++ all ∧ Expr.EmitsAll names K es all := by
  cases es with
  | nil =>
    rw [Expr.compileAll]
    exact yields_pure fun K ↦ ⟨[], (List.append_nil _).symm, .nil⟩
  | cons e es =>
    rw [Expr.compileAll]
    refine (e.yields_compile h).bind fun code ↦
      (Expr.yields_compileAll h (code.reverse ++ done) es).mono fun K _ hall hcode ↦ ?_
    obtain ⟨all, rfl, hall⟩ := hall
    exact ⟨code ++ all, by simp, .cons hcode hall⟩

end

mutual

theorem Stmt.yields_compile (h : slots.Lists names) (s : Stmt) :
    (s.compile slots).Yields fun K code ↦ Stmt.Emits names K s code := by
  cases s with
  | expression e =>
    rw [Stmt.compile]
    exact (e.yields_compile h).bind fun code ↦ yields_pure fun K hcode ↦ .expression hcode
  | declare name initial span =>
    cases initial with
    | none =>
      rw [Stmt.compile, pure_bind]
      exact (yields_compileStore h name).bind fun _ ↦ yields_pure fun K hi ↦ .declare .none hi
    | some e =>
      rw [Stmt.compile]
      exact (e.yields_compile h).bind fun code ↦ (yields_compileStore h name).bind fun _ ↦
        yields_pure fun K hi hcode ↦ .declare (.some hcode) hi
  | ifThen condition body span =>
    rw [Stmt.compile]
    exact (condition.yields_compile h).bind fun test ↦ (body.yields_compile h).bind fun a ↦
      yields_pure fun K ha htest ↦ .ifThen htest ha
  | ifElse condition body alternative span =>
    rw [Stmt.compile]
    exact (condition.yields_compile h).bind fun test ↦ (body.yields_compile h).bind fun a ↦
      (alternative.yields_compile h).bind fun b ↦
        yields_pure fun K hb ha htest ↦ .ifElse htest ha hb
  | loop condition body span =>
    rw [Stmt.compile]
    exact (condition.yields_compile h).bind fun test ↦ (body.yields_compile h).bind fun a ↦
      yields_pure fun K ha htest ↦ .loop htest ha
  | result value span =>
    cases value with
    | none =>
      rw [Stmt.compile]
      exact yields_pure fun K ↦ .result .none
    | some e =>
      rw [Stmt.compile]
      exact (e.yields_compile h).bind fun code ↦ yields_pure fun K hcode ↦ .result (.some hcode)
  | block body span =>
    rw [Stmt.compile]
    refine (Stmt.yields_compileAll h [] body).mono fun K code hcode ↦ ?_
    obtain ⟨all, rfl, hall⟩ := hcode
    exact .block hall

theorem Stmt.yields_compileAll (h : slots.Lists names) (done : List Instr) (ss : List Stmt) :
    (Stmt.compileAll slots done ss).Yields fun K code ↦
      ∃ all, code = done.reverse ++ all ∧ Stmt.EmitsAll names K ss all := by
  cases ss with
  | nil =>
    rw [Stmt.compileAll]
    exact yields_pure fun K ↦ ⟨[], (List.append_nil _).symm, .nil⟩
  | cons s ss =>
    rw [Stmt.compileAll]
    refine (s.yields_compile h).bind fun code ↦
      (Stmt.yields_compileAll h (code.reverse ++ done) ss).mono fun K _ hall hcode ↦ ?_
    obtain ⟨all, rfl, hall⟩ := hall
    exact ⟨code ++ all, by simp, .cons hcode hall⟩

end

/-! ## Generated methods and classes -/

theorem Slots.Lists.toNat_count (h : slots.Lists names) :
    slots.count.toUInt16.toNat = names.length := by
  rw [h.count_eq, h.toNat_toUInt16 (Nat.le_refl _)]

theorem Method.yields_compile (m : Method) (debug : Bool) :
    (m.compile debug).Yields fun K compiled ↦ Method.Emits K m compiled := by
  rw [Method.compile]
  refine yields_bind_lift fun parameters hparameters ↦ yields_bind_lift fun slots hslots ↦ ?_
  have hparams := Slots.Lists.empty.addSlots hparameters
  have hlists := hparams.addSlots hslots
  refine (Stmt.yields_compileAll hlists [] m.body).bind fun code ↦ yields_pure fun K hcode ↦ ?_
  obtain ⟨_, rfl, hall⟩ := hcode
  exact ⟨rfl, hparams.toNat_count, hlists.toNat_count, hlists.nodup, code, hall, rfl⟩

/-- What is known of each generated method is known of all of them, in the pool that they share. -/
theorem Method.yields_compileAll {debug : Bool} {P : ConstantPool → Method → CompiledMethod → Prop}
    (hP : ∀ m : Method, (m.compile debug).Yields fun K compiled ↦ P K m compiled)
    (done : List CompiledMethod) (ms : List Method) :
    (Method.compileAll debug done ms).Yields fun K compiled ↦
      ∃ all, compiled = done.reverse ++ all ∧ List.Forall₂ (P K) ms all := by
  induction ms generalizing done with
  | nil =>
    rw [Method.compileAll]
    exact yields_pure fun K ↦ ⟨[], (List.append_nil _).symm, .nil⟩
  | cons m ms ih =>
    rw [Method.compileAll]
    refine (hP m).bind fun compiled ↦ (ih (compiled :: done)).mono fun K _ hall hcompiled ↦ ?_
    obtain ⟨all, rfl, hall⟩ := hall
    exact ⟨compiled :: all, by simp, .cons hcompiled hall⟩

theorem ClassNode.forall₂_of_compile {node : ClassNode} {debug : Bool} {file : ClassFile}
    {P : ConstantPool → Method → CompiledMethod → Prop}
    (hP : ∀ m : Method, (m.compile debug).Yields fun K compiled ↦ P K m compiled)
    (h : node.compile debug = .ok file) :
    List.Forall₂ (P file.constants) node.methods file.methods := by
  rw [ClassNode.compile, bind_eq_ok] at h
  obtain ⟨⟨methods, constants⟩, hmethods, hfile⟩ := h
  cases hfile
  obtain ⟨-, hall⟩ := Method.yields_compileAll hP [] node.methods {} methods constants hmethods
  obtain ⟨all, rfl, hall⟩ := hall constants (.refl _)
  exact hall

/-- What the code generator makes of a class node. -/
theorem ClassNode.emits_of_compile {node : ClassNode} {debug : Bool} {file : ClassFile}
    (h : node.compile debug = .ok file) : node.Emits file := by
  have hall := ClassNode.forall₂_of_compile (fun m ↦ m.yields_compile debug) h
  rw [ClassNode.compile, bind_eq_ok] at h
  obtain ⟨⟨methods, constants⟩, -, hfile⟩ := h
  cases hfile
  exact ⟨rfl, rfl, rfl, hall⟩

/-- Methods correspond by their places. -/
theorem ClassNode.Emits.exists_method {node : ClassNode} {file : ClassFile} (h : node.Emits file)
    {i : Nat} {compiled : CompiledMethod} (hcompiled : file.methods[i]? = some compiled) :
    ∃ m, node.methods[i]? = some m ∧ Method.Emits file.constants m compiled := by
  obtain ⟨hi, rfl⟩ := List.getElem?_eq_some_iff.mp hcompiled
  have hi' : i < node.methods.length := h.methods.length_eq ▸ hi
  exact ⟨node.methods[i], List.getElem?_eq_getElem hi', h.methods.get hi' hi⟩

theorem map_name_eq_of_emits {K : ConstantPool} {ms : List Method} {all : List CompiledMethod}
    (h : List.Forall₂ (Method.Emits K) ms all) : all.map (·.name) = ms.map (·.name) := by
  induction h with
  | nil => rfl
  | cons hm _ ih => rw [List.map_cons, List.map_cons, hm.name_eq, ih]

/-! ## Code as bytes -/

/-- The bytes of a generated method are its instructions, from beginning to end. -/
theorem Method.Emits.exists_code {K : ConstantPool} {m : Method} {compiled : CompiledMethod}
    (h : Method.Emits K m compiled) :
    ∃ code, Stmt.EmitsAll m.localNames K m.body code ∧
      Instr.StandAt compiled.code 0 (code ++ [.returnNull]) ∧
      codeSize (code ++ [.returnNull]) = compiled.code.size := by
  obtain ⟨code, hbody, hcode⟩ := h.code_eq
  have hstand := Instr.standAt_flatMap_encode (code ++ [.returnNull]) [] []
  rw [List.nil_append, List.append_nil, ← hcode] at hstand
  refine ⟨code, hbody, hstand, ?_⟩
  rw [hcode, List.size_toArray, length_flatMap_encode]

end BuildScript
