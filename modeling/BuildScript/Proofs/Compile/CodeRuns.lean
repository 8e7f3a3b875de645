import BuildScript.Proofs.Compile.Simulation

/-!
# Generated code runs as its source evaluates

The proof follows the syntax tree. Code of an expression runs as the expression evaluates
(`Expr.runs`), code of a statement as the statement does (`Stmt.runs`), for every offset at which it
stands, every stack it is entered with and every state of the locals and of the script. What the
machine does with calls is a premise here, `Host.Answered`.

Only loops spend fuel, and a loop spends one unit each time around. The induction is on the fuel
that is left; the jump back to the test is the step of the machine that pays for it.
-/

namespace BuildScript

open Progress

variable {M : MethodContext} {c : Class} {n : Nat} {h : Host}

/-! ## Operators -/

namespace BinaryOp

variable {op : BinaryOp} {i : Instr} {v w : Value}

theorem decidedBy?_eq_none (h : op.instr? = some i) : op.decidedBy? = none := by
  cases op <;> first | rfl | cases h

theorem decidedBy?_eq_some (h : op.instr? = none) : op.decidedBy? = some (op == .or) := by
  cases op <;> first | rfl | cases h

/-- Where the left operand does not decide, the right one does. -/
theorem apply_of_not_decided (h : op.instr? = none) (hv : v.isTruthy ≠ (op == .or)) :
    op.apply v w = .ok (.bool w.isTruthy) := by
  cases op with
  | and =>
    have htrue : v.isTruthy = true := Bool.not_eq_false _ ▸ hv
    rw [apply, htrue, Bool.true_and]
  | or =>
    have hfalse : v.isTruthy = false := Bool.not_eq_true _ ▸ hv
    rw [apply, hfalse, Bool.false_or]
  | _ => cases h

end BinaryOp

namespace MethodContext

variable {o : Nat} {a b : List Instr} {stack : List Value} {slots : Array Value} {s : ScriptState}

theorem perform_pushTruth (b : Bool) :
    M.perform c o slots stack s (pushTruth b) = M.state o slots (.bool b :: stack) s := by
  cases b <;> rfl

theorem perform_jumpOver {n : Nat} (hle : o + n ≤ M.method.code.size) :
    M.perform c o slots stack s (jumpOver .always n) = M.state (o + n) slots stack s := by
  have hn : (Int32.ofNat n).toInt = n :=
    Int32.toInt_ofNat_of_lt (Nat.lt_of_le_of_lt (by omega) M.size_lt)
  exact perform_jump (by rw [hn]; rfl) hle

theorem perform_pushTruth_at (b : Bool) (slots : Array Value) (s : ScriptState) :
    M.perform c (o + (pushTruth b).size) slots stack s (pushTruth b) =
      M.state (o + 1) slots (.bool b :: stack) s := by
  rw [size_pushTruth, perform_pushTruth]

/-- The last instruction of a short-circuit operator pushes the truth that decides. -/
theorem Holds.decided {decided : Bool}
    (hcode : M.Holds o [testFor decided (1 + jumpSize), pushTruth !decided, jumpOver .always 1,
      pushTruth decided]) :
    M.Holds (o + 11) [pushTruth decided] := by
  have htail := hcode.tail.tail.tail
  rwa [size_pushTruth] at htail

/-- Behind both operands of a short-circuit operator: the second one is tested, and its truth is
pushed. -/
theorem Runs.secondTest {decided : Bool} {w : Value}
    (hcode : M.Holds o [testFor decided (1 + jumpSize), pushTruth !decided, jumpOver .always 1,
      pushTruth decided]) :
    M.Runs c n o (w :: stack) (Pure.pure (.bool w.isTruthy))
      fun v ↦ M.StandsAt (o + 12) (v :: stack) := by
  have hle : o + 12 ≤ M.method.code.size := by
    have hle := hcode.le_size
    simpa [jumpSize] using hle
  have hundecided : M.Holds (o + 5) [pushTruth !decided, jumpOver .always 1, pushTruth decided] :=
    hcode.tail
  have hleave : M.Holds (o + 6) [jumpOver .always 1, pushTruth decided] := by
    have htail := hundecided.tail
    rwa [size_pushTruth] at htail
  have htest : ∀ slots s,
      M.perform c (o + 5) slots (w :: stack) s (testFor decided (1 + jumpSize)) =
        M.state (if w.isTruthy = decided then o + 11 else o + 5) slots stack s := by
    intro slots s
    exact perform_jumpIf decided (by rw [jumpSize]; omega)
  -- Either way the code ends at `o + 12`: behind the last instruction, or by jumping over it.
  refine Runs.step hcode htest ?_
  by_cases hw : w.isTruthy = decided
  · rw [if_pos hw, hw]
    exact Runs.step hcode.decided (perform_pushTruth_at decided) (Runs.pure fun s p hp ↦ hp)
  · rw [if_neg hw, Bool.eq_not.mpr hw]
    refine Runs.step hundecided (perform_pushTruth_at _) ?_
    exact Runs.step hleave (fun slots s ↦ perform_jumpOver hle) (Runs.pure fun s p hp ↦ hp)

theorem Runs.shortCircuit {op : BinaryOp} {x y : EvalM Value} (hop : op.instr? = none)
    (hcode : M.Holds o (shortCircuit (op == .or) a b))
    (hx : M.Runs c n o stack x fun v ↦ M.StandsAt (o + codeSize a) (v :: stack))
    (hy : M.Runs c n (o + codeSize a + 5) stack y
      fun w ↦ M.StandsAt (o + codeSize a + 5 + codeSize b) (w :: stack)) :
    M.Runs c n o stack
      (do
        let v ← x
        if op.decidedBy? = some v.isTruthy then return .bool v.isTruthy
        else do
          let w ← y
          EvalM.ofExcept (op.apply v w))
      fun v ↦ M.StandsAt (o + codeSize (shortCircuit (op == .or) a b)) (v :: stack) := by
  have hend : o + codeSize (BuildScript.shortCircuit (op == .or) a b) =
      o + codeSize a + 5 + codeSize b + 12 := by
    rw [codeSize_shortCircuit]
    omega
  have hle : o + codeSize a + 5 + codeSize b + 12 ≤ M.method.code.size := hend ▸ hcode.le_size
  rw [hend]
  rw [shortCircuit_eq] at hcode
  have hfirst := hcode.right
  have hsecond : M.Holds (o + codeSize a + 5 + codeSize b) [testFor (op == .or) (1 + jumpSize),
      pushTruth !(op == .or), jumpOver .always 1, pushTruth (op == .or)] := hfirst.tail.right
  refine hx.bind fun v s p hp ↦ ?_
  -- The jump of the first test goes to the instruction that pushes what was decided.
  have htest : ∀ slots s, M.perform c (o + codeSize a + 5) slots (v :: stack) s
      (testFor (op == .or) (codeSize b + jumpSize + 1 + jumpSize)) =
        M.state (if v.isTruthy = (op == .or) then o + codeSize a + 5 + codeSize b + 11
          else o + codeSize a + 5) slots stack s := by
    intro slots s
    have hdistance : codeSize b + jumpSize + 1 + jumpSize = codeSize b + 11 := by
      rw [jumpSize]
    rw [hdistance, Nat.add_assoc (o + codeSize a + 5)]
    exact perform_jumpIf _ (by omega)
  refine Runs.step hfirst htest ?_ s p hp
  have hdecides : op.decidedBy? = some v.isTruthy ↔ v.isTruthy = (op == .or) := by
    rw [BinaryOp.decidedBy?_eq_some hop, Option.some.injEq, eq_comm]
  by_cases hv : v.isTruthy = (op == .or)
  · rw [if_pos hv, if_pos (hdecides.mpr hv), hv]
    exact Runs.step hsecond.decided (perform_pushTruth_at _) (Runs.pure fun s p hp ↦ hp)
  · rw [if_neg hv, if_neg fun h ↦ hv (hdecides.mp h)]
    refine hy.bind fun w s p hp ↦ ?_
    rw [BinaryOp.apply_of_not_decided hop hv]
    exact Runs.secondTest hsecond s p hp

end MethodContext

/-! ## Expressions -/

open MethodContext

mutual

/-- Code of an expression runs as the expression evaluates, and leaves the value on the stack. -/
theorem Expr.runs {M : MethodContext} {c : Class} {n o : Nat} {h : Host} {code : List Instr}
    (hh : h.Answered c n (M.callers.length + 1)) (e : Expr)
    (he : Expr.Emits M.names M.constants e code) (hcode : M.Holds o code) (stack : List Value) :
    M.Runs c n o stack (e.eval h) fun v ↦ M.StandsAt (o + codeSize code) (v :: stack) := by
  cases e with
  | constant value span =>
    cases he with
    | constant hi =>
      rw [Expr.eval, codeSize_singleton]
      exact Runs.push hcode fun slots s ↦ perform_literal hi
  | var name span =>
    rw [Expr.eval, hh.className_eq]
    cases he with
    | slot hslot => exact Runs.read_slot hcode hslot
    | bindingVar hname hindex => exact Runs.read_binding hcode hname hindex
  | classRef name span =>
    cases he with
    | classRef hindex =>
      rw [Expr.eval]
      exact Runs.push hcode fun slots s ↦ perform_pushClass hindex
  | property object name span =>
    cases he with
    | property hobject hindex =>
      rw [Expr.eval, add_codeSize_concat]
      exact (object.runs hh hobject hcode.left stack).andThen fun v ↦
        Runs.ofExcept hcode.right fun _ _ ↦ perform_getProperty hindex
  | call name arguments span =>
    cases he with
    | call hall hcount hindex =>
      rw [Expr.eval, add_codeSize_concat]
      refine (Expr.runs_all hh arguments hall hcode.left stack).bind fun vs s p hp ↦ ?_
      obtain ⟨hlen, hp⟩ := hp
      exact Runs.call hh hcode.right hindex (hcount.trans hlen.symm) stack s p hp
  | invoke receiver name arguments span =>
    cases he with
    | @invoke _ _ _ _ first code index count hreceiver hall hcount hindex =>
      rw [Expr.eval, codeSize_append, ← Nat.add_assoc, add_codeSize_concat]
      refine (receiver.runs hh hreceiver hcode.left stack).andThen fun v ↦ ?_
      refine (Expr.runs_all hh arguments hall hcode.right.left (v :: stack)).bind fun vs s p hp ↦ ?_
      obtain ⟨hlen, hp⟩ := hp
      exact Runs.ofExcept hcode.right.right
        (fun _ _ ↦ perform_invokeVirtual hindex (hcount.trans hlen.symm)) s p hp
  | binary op left right span =>
    cases he with
    | binary hop hleft hright =>
      rw [codeSize_append, ← Nat.add_assoc, add_codeSize_concat]
      -- No operator with an instruction of its own is decided by its left operand.
      simp only [Expr.eval, BinaryOp.decidedBy?_eq_none hop, reduceCtorEq, if_false]
      refine (left.runs hh hleft hcode.left stack).andThen fun v ↦ ?_
      refine (right.runs hh hright hcode.right.left (v :: stack)).andThen fun w ↦ ?_
      exact Runs.ofExcept hcode.right.right fun _ _ ↦ perform_binary hop
    | shortCircuit hop hleft hright =>
      rw [Expr.eval]
      have hright' := (shortCircuit_eq _ _ _ ▸ hcode).right.tail.left
      exact Runs.shortCircuit hop hcode (left.runs hh hleft hcode.left stack)
        (right.runs hh hright hright' stack)
  | unary op operand span =>
    cases he with
    | unary hoperand =>
      rw [Expr.eval, add_codeSize_concat]
      exact (operand.runs hh hoperand hcode.left stack).andThen fun v ↦
        Runs.ofExcept hcode.right fun _ _ ↦ perform_unary op
  | assign target value span =>
    cases he with
    | @assign _ _ _ first i hvalue hi =>
      rw [Expr.eval]
      have hend : o + codeSize (first ++ [.dup, i]) = o + codeSize first + 1 + i.size := by
        rw [codeSize_append, codeSize_cons, codeSize_singleton, ← Nat.add_assoc, ← Nat.add_assoc]
        rfl
      rw [hend]
      refine (value.runs hh hvalue hcode.left stack).andThen fun v ↦ ?_
      have hwrite : M.Runs c n (o + codeSize first + 1) (v :: v :: stack) (EvalM.write target v)
          fun _ ↦ M.StandsAt (o + codeSize first + 1 + i.size) (v :: stack) :=
        Runs.write hcode.right.tail hi
      exact Runs.step hcode.right (fun _ _ ↦ rfl) (hwrite.andThen fun _ ↦ Runs.pure fun _ _ hp ↦ hp)
  | list elements span =>
    cases he with
    | list hall hcount =>
      rw [Expr.eval, add_codeSize_concat]
      refine (Expr.runs_all hh elements hall hcode.left stack).bind fun vs s p hp ↦ ?_
      obtain ⟨hlen, hp⟩ := hp
      exact Runs.push hcode.right (fun _ _ ↦ perform_newList (hcount.trans hlen.symm)) s p hp

/-- Code of expressions leaves their values on the stack, the last one topmost. -/
theorem Expr.runs_all {M : MethodContext} {c : Class} {n o : Nat} {h : Host} {code : List Instr}
    (hh : h.Answered c n (M.callers.length + 1)) (es : List Expr)
    (hes : Expr.EmitsAll M.names M.constants es code) (hcode : M.Holds o code)
    (stack : List Value) :
    M.Runs c n o stack (Expr.evalAll h es) fun vs s p ↦
      vs.length = es.length ∧ M.StandsAt (o + codeSize code) (vs.reverse ++ stack) s p := by
  cases es with
  | nil =>
    cases hes
    rw [Expr.evalAll]
    exact Runs.pure fun s p hp ↦ ⟨rfl, hp⟩
  | cons e es =>
    cases hes with
    | @cons _ _ a b he hes =>
      rw [Expr.evalAll, codeSize_append, ← Nat.add_assoc]
      refine (e.runs hh he hcode.left stack).andThen fun v ↦ ?_
      refine (Expr.runs_all hh es hes hcode.right (v :: stack)).bind fun vs s p hp ↦ ?_
      obtain ⟨hlen, hp⟩ := hp
      -- The first value was pushed first, and so lies below the others.
      refine Runs.pure (fun s p hp ↦ ⟨by simp [hlen], ?_⟩) s p hp
      rwa [List.reverse_cons, List.append_assoc, List.singleton_append]

end

/-- Code of an optional expression. -/
theorem Expr.runs_optional {o : Nat} {code : List Instr}
    (hh : h.Answered c n (M.callers.length + 1)) {e? : Option Expr}
    (he : Expr.EmitsOptional M.names M.constants e? code) (hcode : M.Holds o code)
    (stack : List Value) :
    M.Runs c n o stack (Expr.evalOptional h e?)
      fun v ↦ M.StandsAt (o + codeSize code) (v :: stack) := by
  cases he with
  | none => exact Runs.push hcode fun _ _ ↦ rfl
  | some he => exact Expr.runs hh _ he hcode stack

/-! ## Statements -/

namespace MethodContext

/-- Where the machine is after a statement: behind its code, or behind the whole method. -/
def Ends (M : MethodContext) (o : Nat) (stack : List Value) :
    Completion → Activation → Progress → Prop
  | .normal, s, p => M.StandsAt o stack s p
  | .returned v, s, p => p = Execution.resume M.callers s.script v

namespace Runs

variable {o k : Nat} {a b code : List Instr} {stack : List Value} {v : Value} {α : Type}

theorem returned (hcode : M.Holds o (.return :: code)) (o' : Nat) :
    M.Runs c n o (v :: stack) (Pure.pure (.returned v)) (M.Ends o' stack) := by
  rintro s p ⟨slots, hagrees, rfl⟩
  exact ⟨_, rfl, reaches_perform hcode slots (v :: stack) s.script⟩

/-- A test runs the code behind it if it finds a true value, and jumps over `k` bytes if not. -/
theorem test {x y : EvalM α} {post : α → Activation → Progress → Prop}
    (hcode : M.Holds o (jumpOver .ifFalse k :: code)) (hk : k ≤ codeSize code)
    (hx : M.Runs c n (o + 5) stack x post) (hy : M.Runs c n (o + 5 + k) stack y post) :
    M.Runs c n o (v :: stack) (if v.isTruthy then x else y) post := by
  have hle := hcode.le_size
  rw [codeSize_cons, size_jumpOver] at hle
  refine Runs.step hcode (fun _ _ ↦ perform_jumpIf false (by rw [size_jumpOver]; omega)) ?_
  by_cases hv : v.isTruthy = true
  · rw [if_pos hv, if_neg (by rw [hv]; exact Bool.noConfusion)]
    exact hx
  · rw [if_neg hv, if_pos (Bool.eq_false_iff.mpr hv)]
    exact hy

/-- A jump behind the code of a statement, unless the statement returns. -/
theorem jumpBehind {o' : Nat} {stack' : List Value} {x : EvalM Completion}
    (hcode : M.Holds o (jumpOver .always k :: code)) (hk : k ≤ codeSize code)
    (hx : M.Runs c n o' stack' x (M.Ends o stack)) :
    M.Runs c n o' stack' x (M.Ends (o + 5 + k) stack) := by
  have hle := hcode.le_size
  rw [codeSize_cons, size_jumpOver] at hle
  refine hx.extend fun completion s q hq ↦ ?_
  cases completion with
  | normal =>
    obtain ⟨slots, hagrees, rfl⟩ := hq
    have hjump : M.perform c (o + 5) slots stack s.script (jumpOver .always k) =
        M.state (o + 5 + k) slots stack s.script := perform_jumpOver (by omega)
    exact ⟨_, ⟨slots, hagrees, rfl⟩, hjump ▸ reaches_perform hcode slots stack s.script⟩
  | returned v => exact ⟨q, hq, .refl⟩

/-- The jump at the end of a loop's body leads back to the test. -/
theorem perform_back {test : List Instr} {slots : Array Value} {s : ScriptState}
    (hle : o + codeSize test + 5 + codeSize a + 5 ≤ M.method.code.size) :
    M.perform c (o + codeSize test + 5 + codeSize a + 5) slots stack s
        (.jump .always (.ofInt (-(codeSize test + jumpSize + codeSize a + jumpSize)))) =
      M.state o slots stack s := by
  have hlt := M.size_lt
  refine perform_jump ?_ (by omega)
  rw [jumpSize, Int32.toInt_ofInt_of_le (by omega) (by omega)]
  omega

/-- A loop whose test and body run as they evaluate. Each time around counts as a step, so a loop
that spends its fuel is matched by a run that is still going on. -/
theorem loop {test : List Instr} {x : EvalM Value} {y : EvalM Completion}
    (hcode : M.Holds o (test ++ jumpOver .ifFalse (codeSize a + jumpSize) ::
      (a ++ [.jump .always (.ofInt (-(codeSize test + jumpSize + codeSize a + jumpSize)))])))
    (hx : M.Runs c n o stack x fun v ↦ M.StandsAt (o + codeSize test) (v :: stack))
    (hy : M.Runs c n (o + codeSize test + 5) stack y
      (M.Ends (o + codeSize test + 5 + codeSize a) stack)) :
    ∀ m ≤ n, M.Runs c m o stack (EvalM.loop x y m)
      (M.Ends (o + codeSize test + 5 + codeSize a + 5) stack) := by
  have hbody := hcode.right.tail
  have hle : o + codeSize test + 5 + codeSize a + 5 ≤ M.method.code.size := by
    have hle := hbody.right.le_size
    rwa [codeSize_singleton] at hle
  intro m
  induction m with
  | zero =>
    rintro - s p ⟨slots, -, rfl⟩
    exact survives_zero _
  | succ m ih =>
    intro hm
    rw [EvalM.loop]
    refine (hx.mono hm).andThen fun v ↦ ?_
    refine Runs.test hcode.right ?_ ?_ ?_
    · rw [codeSize_append, codeSize_singleton]
      exact Nat.le_refl _
    · refine (hy.mono hm).bind fun completion s p hp ↦ ?_
      cases completion with
      | normal =>
        -- The jump back is a step of the machine, and so pays for a unit of fuel.
        exact Runs.step_succ hbody.right (fun _ _ ↦ perform_back hle) (ih (by omega)) s p hp
      | returned v => exact ⟨p, hp, .refl⟩
    · exact Runs.pure fun s p hp ↦ hp

end Runs

end MethodContext

mutual

/-- Code of a statement runs as the statement does, and leaves the stack as it was. -/
theorem Stmt.runs {M : MethodContext} {c : Class} {n o : Nat} {h : Host} {code : List Instr}
    (hh : h.Answered c n (M.callers.length + 1)) (s : Stmt)
    (hs : Stmt.Emits M.names M.constants s code) (hcode : M.Holds o code) (stack : List Value) :
    M.Runs c n o stack (s.eval h n) (M.Ends (o + codeSize code) stack) := by
  cases s with
  | expression e =>
    cases hs with
    | expression he =>
      rw [Stmt.eval, add_codeSize_concat]
      exact (e.runs hh he hcode.left stack).andThen fun v ↦
        Runs.step hcode.right (fun _ _ ↦ rfl) (Runs.pure fun _ _ hp ↦ hp)
  | declare name initial span =>
    cases hs with
    | declare hinitial hi =>
      rw [Stmt.eval, add_codeSize_concat]
      exact (Expr.runs_optional hh hinitial hcode.left stack).andThen fun v ↦
        (Runs.write hcode.right hi).andThen fun _ ↦ Runs.pure fun _ _ hp ↦ hp
  | ifThen condition body span =>
    cases hs with
    | @ifThen _ _ _ test a hcondition hbody =>
      rw [Stmt.eval, codeSize_append, codeSize_cons, ← Nat.add_assoc, ← Nat.add_assoc]
      refine (condition.runs hh hcondition hcode.left stack).andThen fun v ↦ ?_
      refine Runs.test hcode.right (Nat.le_refl _) ?_ ?_
      · exact body.runs hh hbody hcode.right.tail stack
      · exact Runs.pure fun _ _ hp ↦ hp
  | ifElse condition body alternative span =>
    cases hs with
    | @ifElse _ _ _ _ test a b hcondition hbody halternative =>
      have hend : o + codeSize (test ++ jumpOver .ifFalse (codeSize a + jumpSize) ::
          (a ++ jumpOver .always (codeSize b) :: b)) =
            o + codeSize test + 5 + codeSize a + 5 + codeSize b := by
        simp only [codeSize_append, codeSize_cons, size_jumpOver]
        omega
      rw [Stmt.eval, hend]
      have hthen := hcode.right.tail
      have helse := hthen.right.tail
      refine (condition.runs hh hcondition hcode.left stack).andThen fun v ↦ ?_
      refine Runs.test hcode.right ?_ ?_ ?_
      · simp only [codeSize_append, codeSize_cons, size_jumpOver, jumpSize]
        omega
      · exact Runs.jumpBehind hthen.right (Nat.le_refl _) (body.runs hh hbody hthen.left stack)
      · exact alternative.runs hh halternative helse stack
  | loop condition body span =>
    cases hs with
    | @loop _ _ _ test a hcondition hbody =>
      have hend : o + codeSize (test ++ jumpOver .ifFalse (codeSize a + jumpSize) ::
          (a ++ [.jump .always (.ofInt (-(codeSize test + jumpSize + codeSize a + jumpSize)))])) =
            o + codeSize test + 5 + codeSize a + 5 := by
        rw [codeSize_append, codeSize_cons, codeSize_append, codeSize_singleton]
        simp only [← Nat.add_assoc]
        rfl
      rw [Stmt.eval, hend]
      exact Runs.loop hcode (condition.runs hh hcondition hcode.left stack)
        (body.runs hh hbody hcode.right.tail.left stack) n (Nat.le_refl n)
  | result value span =>
    cases hs with
    | result hvalue =>
      rw [Stmt.eval]
      exact (Expr.runs_optional hh hvalue hcode.left stack).andThen fun v ↦
        Runs.returned hcode.right _
  | block body span =>
    cases hs with
    | block hbody =>
      rw [Stmt.eval]
      exact Stmt.runs_all hh body hbody hcode stack

theorem Stmt.runs_all {M : MethodContext} {c : Class} {n o : Nat} {h : Host} {code : List Instr}
    (hh : h.Answered c n (M.callers.length + 1)) (ss : List Stmt)
    (hss : Stmt.EmitsAll M.names M.constants ss code) (hcode : M.Holds o code)
    (stack : List Value) :
    M.Runs c n o stack (Stmt.evalAll h n ss) (M.Ends (o + codeSize code) stack) := by
  cases ss with
  | nil =>
    cases hss
    rw [Stmt.evalAll]
    exact Runs.pure fun _ _ hp ↦ hp
  | cons s ss =>
    cases hss with
    | @cons _ _ a b hs hss =>
      rw [Stmt.evalAll, codeSize_append, ← Nat.add_assoc]
      refine (s.runs hh hs hcode.left stack).bind fun completion s p hp ↦ ?_
      -- A statement that returns has left the method, and the rest of the code plays no part.
      cases completion with
      | normal => exact Stmt.runs_all hh ss hss hcode.right stack s p hp
      | returned v => exact ⟨p, hp, .refl⟩

end

end BuildScript
