import BuildScript.Proofs.Compile.StackHeights
import BuildScript.Proofs.Machine.Crashes
import BuildScript.Proofs.Machine.ForwardRuns
import BuildScript.Syntax.Walk

/-!
# Code of methods without loops

Of all constructs only a loop has a jump that leads back. So the code of class nodes without loops
is forward, whatever else they hold and however their methods call each other, and every invocation
of it ends: recursion that would not is cut off by the depth limit. It ends with a value or an error
unless it comes to the one operation at which the machine gives up.
-/

namespace BuildScript

/-! ## Loop-free syntax -/

def Node.isLoop : Node → Bool
  | .stmt (.loop _ _ _) => true
  | _ => false

def Stmt.LoopFree (s : Stmt) : Prop := ∀ node ∈ s.nodes, node.isLoop = false

/-- None of the statements is a loop or holds one. -/
def Stmt.AllLoopFree (ss : List Stmt) : Prop := ∀ node ∈ Stmt.nodesOfAll ss, node.isLoop = false

/-- No method of the class has a loop. -/
def ClassNode.LoopFree (node : ClassNode) : Prop := ∀ m ∈ node.methods, Stmt.AllLoopFree m.body

instance (node : ClassNode) : Decidable node.LoopFree :=
  inferInstanceAs
    (Decidable (∀ m ∈ node.methods, ∀ n ∈ Stmt.nodesOfAll m.body, n.isLoop = false))

/-- All code of the class and its superclasses was generated from class nodes without loops. A class
file may have been given another source file or other flags since. -/
def Class.LoopFree (c : Class) : Prop :=
  ∀ entry ∈ c.chain, ∀ file, entry.body = .compiled file →
    (∃ (node : ClassNode) (debug : Bool) (generated : ClassFile),
      node.LoopFree ∧ node.compile debug = .ok generated ∧
        file.methods = generated.methods ∧ file.constants = generated.constants) ∧
    ∀ m ∈ file.methods, m.code.size < 2 ^ 31

/-! ## Forward jumps -/

/-- If the instruction is a jump, it leads to the next instruction in line or further. -/
def Instr.Forward (i : Instr) : Prop := ∀ kind distance, i = .jump kind distance → 0 ≤ distance.toInt

/-- All jumps of the code lead forward. -/
def ForwardAll (code : List Instr) : Prop := ∀ i ∈ code, i.Forward

@[simp] theorem forwardAll_append {a b : List Instr} :
    ForwardAll (a ++ b) ↔ ForwardAll a ∧ ForwardAll b :=
  List.forall_mem_append

@[simp] theorem forwardAll_cons {i : Instr} {code : List Instr} :
    ForwardAll (i :: code) ↔ i.Forward ∧ ForwardAll code :=
  List.forall_mem_cons

@[simp] theorem forwardAll_nil : ForwardAll [] := fun _ h ↦ absurd h List.not_mem_nil

theorem Instr.forward_of_isJump {i : Instr} (h : i.opcode.isJump = false) : i.Forward := by
  rintro kind distance rfl
  cases h

theorem forward_jumpOver {kind : JumpKind} {n : Nat} (hn : n < 2 ^ 31) :
    (jumpOver kind n).Forward := by
  intro kind' distance h
  cases h
  rw [Int32.toInt_ofNat_of_lt hn]
  exact Int.natCast_nonneg n

theorem forwardAll_singleton {i : Instr} (h : i.opcode.isJump = false) : ForwardAll [i] :=
  forwardAll_cons.mpr ⟨i.forward_of_isJump h, forwardAll_nil⟩

section

variable {names : List String} {K : ConstantPool} {code : List Instr}

theorem forwardAll_shortCircuit {decided : Bool} {a b : List Instr} (ha : ForwardAll a)
    (hb : ForwardAll b) (hsize : codeSize (shortCircuit decided a b) < 2 ^ 31) :
    ForwardAll (shortCircuit decided a b) := by
  have hpush (b : Bool) : (pushTruth b).Forward :=
    Instr.forward_of_isJump (replaces_pushTruth b).isJump_eq
  have hleave : (testFor decided (codeSize b + jumpSize + 1 + jumpSize)).Forward := by
    refine forward_jumpOver ?_
    rw [codeSize_shortCircuit] at hsize
    rw [jumpSize]
    omega
  have htest : (testFor decided (1 + jumpSize)).Forward := forward_jumpOver (by decide)
  have hskip : (jumpOver .always 1).Forward := forward_jumpOver (by decide)
  rw [shortCircuit_eq]
  simp [ha, hb, hpush, hleave, htest, hskip]

/-! ## Expressions and statements -/

mutual

/-- Expressions have no loops, so their code only jumps forward. -/
theorem Expr.forwardAll (e : Expr) {code : List Instr} (h : Expr.Emits names K e code)
    (hsize : codeSize code < 2 ^ 31) : ForwardAll code := by
  cases e with
  | constant value span =>
    cases h with
    | constant hi => exact forwardAll_singleton hi.replaces.isJump_eq
  | var name span => cases h <;> exact forwardAll_singleton rfl
  | classRef name span =>
    cases h with
    | classRef _ => exact forwardAll_singleton rfl
  | property object name span =>
    cases h with
    | property hobject _ =>
      exact forwardAll_append.mpr ⟨object.forwardAll hobject (codeSize_lt_left hsize),
        forwardAll_singleton rfl⟩
  | call name arguments span =>
    cases h with
    | call hall _ _ =>
      exact forwardAll_append.mpr ⟨Expr.forwardAll_all arguments hall (codeSize_lt_left hsize),
        forwardAll_singleton rfl⟩
  | invoke receiver name arguments span =>
    cases h with
    | invoke hreceiver hall _ _ =>
      have hrest := codeSize_lt_right hsize
      exact forwardAll_append.mpr ⟨receiver.forwardAll hreceiver (codeSize_lt_left hsize),
        forwardAll_append.mpr ⟨Expr.forwardAll_all arguments hall (codeSize_lt_left hrest),
          forwardAll_singleton rfl⟩⟩
  | binary op left right span =>
    cases h with
    | binary hop hleft hright =>
      have hrest := codeSize_lt_right hsize
      exact forwardAll_append.mpr ⟨left.forwardAll hleft (codeSize_lt_left hsize),
        forwardAll_append.mpr ⟨right.forwardAll hright (codeSize_lt_left hrest),
          forwardAll_singleton (BinaryOp.replaces_of_instr? hop).isJump_eq⟩⟩
    | shortCircuit _ hleft hright =>
      have hparts := hsize
      rw [codeSize_shortCircuit] at hparts
      exact forwardAll_shortCircuit (left.forwardAll hleft (by omega))
        (right.forwardAll hright (by omega)) hsize
  | unary op operand span =>
    cases h with
    | unary hoperand =>
      exact forwardAll_append.mpr ⟨operand.forwardAll hoperand (codeSize_lt_left hsize),
        forwardAll_singleton op.replaces_instr.isJump_eq⟩
  | assign target value span =>
    cases h with
    | assign hvalue hi =>
      exact forwardAll_append.mpr ⟨value.forwardAll hvalue (codeSize_lt_left hsize),
        forwardAll_cons.mpr ⟨Instr.forward_of_isJump rfl,
          forwardAll_singleton hi.replaces.isJump_eq⟩⟩
  | list elements span =>
    cases h with
    | list hall _ =>
      exact forwardAll_append.mpr ⟨Expr.forwardAll_all elements hall (codeSize_lt_left hsize),
        forwardAll_singleton rfl⟩

theorem Expr.forwardAll_all (es : List Expr) {code : List Instr}
    (h : Expr.EmitsAll names K es code) (hsize : codeSize code < 2 ^ 31) : ForwardAll code := by
  cases es with
  | nil =>
    cases h
    exact forwardAll_nil
  | cons e es =>
    cases h with
    | cons he hes =>
      exact forwardAll_append.mpr ⟨e.forwardAll he (codeSize_lt_left hsize),
        Expr.forwardAll_all es hes (codeSize_lt_right hsize)⟩

end

theorem Expr.forwardAll_optional {value : Option Expr} (h : Expr.EmitsOptional names K value code)
    (hsize : codeSize code < 2 ^ 31) : ForwardAll code := by
  cases h with
  | none => exact forwardAll_singleton rfl
  | some he => exact Expr.forwardAll _ he hsize

mutual

/-- The jumps around the branches of a conditional lead forward; there is no other jump. -/
theorem Stmt.forwardAll (s : Stmt) (hfree : s.LoopFree) {code : List Instr}
    (h : Stmt.Emits names K s code) (hsize : codeSize code < 2 ^ 31) : ForwardAll code := by
  cases s with
  | expression e =>
    cases h with
    | expression he =>
      exact forwardAll_append.mpr ⟨e.forwardAll he (codeSize_lt_left hsize),
        forwardAll_singleton rfl⟩
  | declare name initial span =>
    cases h with
    | declare hinitial hi =>
      exact forwardAll_append.mpr ⟨Expr.forwardAll_optional hinitial (codeSize_lt_left hsize),
        forwardAll_singleton hi.replaces.isJump_eq⟩
  | ifThen condition body span =>
    cases h with
    | ifThen htest ha =>
      simp only [LoopFree, Stmt.nodes, List.forall_mem_cons, List.forall_mem_append] at hfree
      simp only [codeSize_append, codeSize_cons, size_jumpOver] at hsize
      exact forwardAll_append.mpr ⟨condition.forwardAll htest (by omega),
        forwardAll_cons.mpr ⟨forward_jumpOver (by omega),
          body.forwardAll hfree.2.2 ha (by omega)⟩⟩
  | ifElse condition body alternative span =>
    cases h with
    | ifElse htest ha hb =>
      simp only [LoopFree, Stmt.nodes, List.forall_mem_cons, List.forall_mem_append] at hfree
      simp only [codeSize_append, codeSize_cons, size_jumpOver] at hsize
      obtain ⟨-, -, hbody, halternative⟩ := hfree
      exact forwardAll_append.mpr ⟨condition.forwardAll htest (by omega),
        forwardAll_cons.mpr ⟨forward_jumpOver (by rw [jumpSize]; omega), forwardAll_append.mpr
          ⟨body.forwardAll hbody ha (by omega), forwardAll_cons.mpr
            ⟨forward_jumpOver (by omega), alternative.forwardAll halternative hb (by omega)⟩⟩⟩⟩
  | loop condition body span =>
    rw [LoopFree, Stmt.nodes, List.forall_mem_cons] at hfree
    cases hfree.1
  | result value span =>
    cases h with
    | result hvalue =>
      exact forwardAll_append.mpr ⟨Expr.forwardAll_optional hvalue (codeSize_lt_left hsize),
        forwardAll_singleton rfl⟩
  | block body span =>
    cases h with
    | block hall =>
      rw [LoopFree, Stmt.nodes, List.forall_mem_cons] at hfree
      exact Stmt.forwardAll_all body hfree.2 hall hsize

theorem Stmt.forwardAll_all (ss : List Stmt) (hfree : Stmt.AllLoopFree ss) {code : List Instr}
    (h : Stmt.EmitsAll names K ss code) (hsize : codeSize code < 2 ^ 31) : ForwardAll code := by
  cases ss with
  | nil =>
    cases h
    exact forwardAll_nil
  | cons s ss =>
    cases h with
    | cons hs hss =>
      rw [AllLoopFree, Stmt.nodesOfAll, List.forall_mem_append] at hfree
      exact forwardAll_append.mpr ⟨s.forwardAll hfree.1 hs (codeSize_lt_left hsize),
        Stmt.forwardAll_all ss hfree.2 hss (codeSize_lt_right hsize)⟩

end

end

/-! ## Methods and classes -/

/-- A generated method without loops is forward code. -/
theorem Method.Emits.exists_forwardCode {K : ConstantPool} {m : Method} {compiled : CompiledMethod}
    (h : Method.Emits K m compiled) (hfree : Stmt.AllLoopFree m.body)
    (hsize : compiled.code.size < 2 ^ 31) : ∃ placed, ForwardCode compiled.code placed := by
  obtain ⟨code, hbody, hstand, hcodesize⟩ := h.exists_code
  obtain ⟨placed, height, hheights⟩ := h.exists_heights hsize
  have hread : compiled.instructions = .ok (place 0 (code ++ [.returnNull])) :=
    CompiledMethod.instructions_eq_ok_iff.mpr ⟨_, rfl, hstand, hcodesize⟩
  obtain rfl := Except.ok.inj (hread.symm.trans hheights.instructions_eq)
  have hforward : ForwardAll (code ++ [.returnNull]) := by
    rw [← hcodesize] at hsize
    exact forwardAll_append.mpr ⟨Stmt.forwardAll_all m.body hfree hbody (codeSize_lt_left hsize),
      forwardAll_singleton rfl⟩
  refine ⟨_, fun p hp ↦ at?_of_mem_place hstand hp, hheights.first, fun p hp t ht ↦
    ⟨?_, hheights.closed p hp t ht⟩⟩
  have hpos := p.instr.size_pos
  rcases ht with ⟨-, rfl⟩ | ⟨kind, distance, hjump, htarget⟩
  · rw [Placed.next]
    omega
  · have hdistance := hforward _ (mem_of_mem_place hp) kind distance hjump
    rw [Placed.next] at htarget
    omega

theorem Class.LoopFree.forward {c : Class} (hc : c.LoopFree) : c.Forward (2 ^ 31) := by
  intro entry hentry file hbody compiled hcompiled
  obtain ⟨⟨node, debug, generated, hfree, hcompile, hmethods, -⟩, hsize⟩ :=
    hc entry hentry file hbody
  refine ⟨hsize compiled hcompiled, ?_⟩
  obtain ⟨i, hi⟩ := List.getElem?_of_mem (hmethods ▸ hcompiled)
  obtain ⟨m, hm, hemits⟩ := (ClassNode.emits_of_compile hcompile).exists_method hi
  exact hemits.exists_forwardCode (hfree m (List.mem_of_getElem? hm)) (hsize compiled hcompiled)

/-- Every invocation of a class without loops ends, and at no time has it more than `maxCallDepth`
compiled methods active. It ends with a value or an error, unless it comes to the division of the
least integer by minus one. -/
theorem loop_free_invocations_end {c : Class} (hc : c.LoopFree) (name : String)
    (arguments : List Value) (s : ScriptState) :
    ∃ o, c.invoke ((2 ^ 31) ^ maxCallDepth) name arguments s = some o ∧
      (o.Answers ↔ ¬∃ e, Progress.Reaches c (Execution.call c name arguments [] s) (.running e) ∧
        e.frame.DividesLeast) ∧
      ∀ p, Progress.Reaches c (Execution.call c name arguments [] s) p → p.depth ≤ maxCallDepth := by
  obtain ⟨o, ho⟩ := hc.forward.exists_invoke name arguments s
  exact ⟨o, ho, Execution.answers_iff ho, fun p hp ↦ Execution.depth_le_of_reaches hp⟩

/-! Two methods that call each other, one of them from behind a short-circuit operator. -/

def pingMethod : Method where
  name := "ping"
  parameters := []
  body := [.result (some (.binary .and (.constant (.bool true) .none) (.call "pong" [] .none)
    .none)) .none]
  span := .none

def pongMethod : Method where
  name := "pong"
  parameters := []
  body := [.result (some (.call "ping" [] .none)) .none]
  span := .none

def pingNode : ClassNode := ⟨"Ping", some scriptClassName, false, [pingMethod, pongMethod]⟩

def pingCode : List Instr :=
  [.pushTrue, .jump .ifFalse 18, .invokeMethod 0 0, .jump .ifFalse 6, .pushTrue, .jump .always 1,
    .pushFalse, .return, .returnNull]

def pongCode : List Instr := [.invokeMethod 1 0, .return, .returnNull]

def pingFile : ClassFile :=
  { ClassFile.empty "Ping" (some scriptClassName) with
    constants := { strings := #["pong", "ping"] }
    methods := [⟨"ping", 0, 0, 0, (pingCode.flatMap Instr.encode).toArray⟩,
      ⟨"pong", 0, 0, 0, (pongCode.flatMap Instr.encode).toArray⟩] }

/-- The class of a file whose superclass is the native script class. -/
def scriptOf (file : ClassFile) : Class :=
  .compiled 1 file (some (.native 0 scriptClassName none [("println", printLine)]))

theorem loopFree_scriptOf (node : ClassNode) {file : ClassFile} (hfree : node.LoopFree)
    (hcompile : node.compile false = .ok file)
    (hsize : ∀ m ∈ file.methods, m.code.size < 2 ^ 31) : (scriptOf file).LoopFree := by
  intro entry hentry file' hbody
  rcases List.mem_cons.mp hentry with rfl | hentry
  · cases hbody
    exact ⟨⟨node, false, file, hfree, hcompile, rfl, rfl⟩, hsize⟩
  · obtain rfl := List.mem_singleton.mp hentry
    cases hbody

theorem loopFree_ping : (scriptOf pingFile).LoopFree :=
  loopFree_scriptOf pingNode (by decide) (by decide +kernel) (by decide)

/-- However often the two call each other, the call ends. -/
theorem ping_ends :
    (scriptOf pingFile).LoopFree ∧
      ∃ o, (scriptOf pingFile).invoke ((2 ^ 31) ^ maxCallDepth) "ping" [] {} = some o ∧
        (o.Answers ↔ ¬∃ e, Progress.Reaches (scriptOf pingFile)
          (Execution.call (scriptOf pingFile) "ping" [] [] {}) (.running e) ∧
            e.frame.DividesLeast) ∧
        ∀ p, Progress.Reaches (scriptOf pingFile)
          (Execution.call (scriptOf pingFile) "ping" [] [] {}) p → p.depth ≤ maxCallDepth :=
  ⟨loopFree_ping, loop_free_invocations_end loopFree_ping "ping" [] {}⟩

/-! The least integer has no literal, so it is computed before it is divided. -/

def quotientMethod : Method where
  name := "run"
  parameters := []
  body := [.result (some (.binary .divide
    (.binary .subtract (.unary .negate (.constant (.int 9223372036854775807) .none) .none)
      (.constant (.int 1) .none) .none)
    (.unary .negate (.constant (.int 1) .none) .none) .none)) .none]
  span := .none

def quotientNode : ClassNode := ⟨"Quotient", some scriptClassName, true, [quotientMethod]⟩

def quotientCode : List Instr :=
  [.pushInt 0, .negate, .pushInt 1, .arithmetic .subtract, .pushInt 1, .negate, .arithmetic .divide,
    .return, .returnNull]

def quotientFile : ClassFile :=
  { ClassFile.empty "Quotient" (some scriptClassName) with
    flags := ClassFile.scriptFlag
    constants := { integers := #[9223372036854775807, 1] }
    methods := [⟨"run", 0, 0, 0, (quotientCode.flatMap Instr.encode).toArray⟩] }

theorem loopFree_quotient : (scriptOf quotientFile).LoopFree :=
  loopFree_scriptOf quotientNode (by decide) (by decide +kernel) (by decide)

/-- Code without loops ends with neither a value nor an error. -/
theorem quotient_ends_without_answer :
    (scriptOf quotientFile).LoopFree ∧
      ∃ o, (scriptOf quotientFile).invoke 7 "run" [] {} = some o ∧ ¬o.Answers := by
  have hcrash : ((scriptOf quotientFile).invoke 7 "run" [] {}).any (fun o ↦ o.Crashed) = true := by
    decide +kernel
  obtain ⟨o, ho, hcrashed⟩ := (Option.any_eq_true _ _).mp hcrash
  refine ⟨loopFree_quotient, o, ho, fun hanswers ↦ ?_⟩
  exact Outcome.answers_iff_not_crashed.mp hanswers (of_decide_eq_true hcrashed)

end BuildScript
