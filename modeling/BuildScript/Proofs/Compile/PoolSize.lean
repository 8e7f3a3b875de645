import BuildScript.Proofs.Bytecode.Layout
import BuildScript.Proofs.Compile.PoolGrowth

/-!
# The pool does not outgrow the code

A constant is only added for an instruction that names it, and such an instruction takes five bytes
at least. So a class file has at most one constant for every five bytes of its code
(`ClassNode.entries_le_of_compile`), and up to ten methods that jumps can reach all of never use up
the indices (`ClassNode.addressable_of_compile`).

The bookkeeping is that of an account. `Pays x k total` says that the bytes of code that `x` adds to
`k` bytes pay for the constants that it adds to the pool.
-/

namespace BuildScript

namespace ConstantPool

/-- The number of constants. -/
def entries (pool : ConstantPool) : Nat :=
  pool.strings.size + pool.integers.size + pool.floats.size

theorem size_intern_le {α : Type} [BEq α] [LawfulBEq α] (table : Array α) (x : α) :
    (intern table x).1.size ≤ table.size + 1 := by
  obtain ⟨_, -, heq⟩ | ⟨-, heq⟩ := intern_cases table x
  · rw [heq]
    exact Nat.le_succ _
  · rw [heq]
    exact Nat.le_of_eq (Array.size_push _)

theorem entries_addString_le (pool : ConstantPool) (s : String) :
    (pool.addString s).1.entries ≤ pool.entries + 1 := by
  have h := size_intern_le pool.strings s
  simp only [addString, entries]
  omega

theorem entries_addInteger_le (pool : ConstantPool) (n : Int64) :
    (pool.addInteger n).1.entries ≤ pool.entries + 1 := by
  have h := size_intern_le pool.integers n
  simp only [addInteger, entries]
  omega

theorem entries_addFloat_le (pool : ConstantPool) (x : Binary64) :
    (pool.addFloat x).1.entries ≤ pool.entries + 1 := by
  simp only [addFloat, entries, Array.size_push]
  omega

theorem addressable_of_entries_le {pool : ConstantPool} (h : pool.entries ≤ 2 ^ 32) :
    pool.Addressable := by
  rw [entries] at h
  exact ⟨by omega, by omega, by omega⟩

end ConstantPool

/-! ## Paying for constants -/

namespace GenM

variable {α β : Type} {x : GenM α} {k : Nat} {total : α → Nat}

/-- With `k` bytes of code before it, `x` leaves `total a` bytes; five of the new ones are there for
every constant that it adds. -/
def Pays (x : GenM α) (k : Nat) (total : α → Nat) : Prop :=
  ∀ pool a pool', x.run pool = .ok (a, pool') →
    5 * pool'.entries + k ≤ 5 * pool.entries + total a

theorem pays_pure {a : α} (h : k ≤ total a) : Pays (pure a) k total := by
  intro pool b pool' hrun
  rw [StateT.run_pure] at hrun
  cases hrun
  omega

theorem Pays.of_le {k' : Nat} (hx : x.Pays k' total) (hk : k ≤ k') : x.Pays k total := by
  intro pool a pool' hrun
  have h := hx pool a pool' hrun
  omega

theorem pays_throw {e : CompileError} : Pays (throw e : GenM α) k total := by
  intro pool a pool' hrun
  cases hrun

theorem Pays.bind {f : α → GenM β} {total' : β → Nat} (hx : x.Pays k total)
    (hf : ∀ a, (f a).Pays (total a) total') : (x >>= f).Pays k total' := by
  intro pool b pool₂ hrun
  rw [StateT.run_bind, bind_eq_ok] at hrun
  obtain ⟨⟨a, pool₁⟩, ha, hb⟩ := hrun
  have hfirst := hx pool a pool₁ ha
  have hsecond := hf a pool₁ b pool₂ hb
  omega

theorem pays_bind_lift {r : Except CompileError α} {f : α → GenM β} {total' : β → Nat}
    (hf : ∀ a, (f a).Pays k total') : ((liftM r : GenM α) >>= f).Pays k total' := by
  cases r with
  | error e => exact pays_throw
  | ok a => exact hf a

theorem pays_string (s : String) (k : Nat) : (string s).Pays k fun _ ↦ k + 5 := by
  intro pool index pool' hrun
  cases hrun
  have h := pool.entries_addString_le s
  dsimp only [Prod.swap]
  omega

theorem pays_integer (n : Int64) (k : Nat) : (integer n).Pays k fun _ ↦ k + 5 := by
  intro pool index pool' hrun
  cases hrun
  have h := pool.entries_addInteger_le n
  dsimp only [Prod.swap]
  omega

theorem pays_float (x : Binary64) (k : Nat) : (float x).Pays k fun _ ↦ k + 5 := by
  intro pool index pool' hrun
  cases hrun
  have h := pool.entries_addFloat_le x
  dsimp only [Prod.swap]
  omega

end GenM

/-! ## Generated code -/

open GenM

variable {slots : Slots}

theorem codeSize_reverse (code : List Instr) : codeSize code.reverse = codeSize code := by
  induction code with
  | nil => rfl
  | cons i code ih =>
    rw [List.reverse_cons, codeSize_append, codeSize_singleton, codeSize_cons, ih, Nat.add_comm]

theorem Literal.pays_compile (value : Literal) (k : Nat) :
    value.compile.Pays k fun i ↦ k + i.size := by
  cases value with
  | null => exact pays_pure (Nat.le_add_right _ _)
  | bool b =>
    cases b with
    | true => exact pays_pure (Nat.le_add_right _ _)
    | false => exact pays_pure (Nat.le_add_right _ _)
  | int n => exact (pays_integer n k).bind fun _ ↦ pays_pure (Nat.le_refl _)
  | float x => exact (pays_float x k).bind fun _ ↦ pays_pure (Nat.le_refl _)
  | str s => exact (pays_string s k).bind fun _ ↦ pays_pure (Nat.le_refl _)

theorem pays_compileStore (slots : Slots) (name : String) (k : Nat) :
    (compileStore slots name).Pays k fun i ↦ k + i.size := by
  rw [compileStore]
  cases slots.slot? name with
  | some slot => exact pays_pure (Nat.le_add_right _ _)
  | none => exact (pays_string name k).bind fun _ ↦ pays_pure (Nat.le_refl _)

theorem pays_argumentCount (method : String) (n k : Nat) :
    (argumentCount method n).Pays k fun _ ↦ k := by
  rw [argumentCount]
  split
  · exact pays_pure (Nat.le_refl _)
  · exact pays_throw

mutual

theorem Expr.pays_compile (e : Expr) (k : Nat) :
    (e.compile slots).Pays k fun code ↦ k + codeSize code := by
  cases e with
  | constant value span =>
    rw [Expr.compile]
    refine (value.pays_compile k).bind fun i ↦ pays_pure (Nat.le_of_eq ?_)
    rw [codeSize_singleton]
  | var name span =>
    rw [Expr.compile]
    cases slots.slot? name with
    | some slot => exact pays_pure (Nat.le_add_right _ _)
    | none => exact (pays_string name k).bind fun _ ↦ pays_pure (Nat.le_refl _)
  | classRef name span =>
    rw [Expr.compile]
    exact (pays_string name k).bind fun _ ↦ pays_pure (Nat.le_refl _)
  | property object name span =>
    rw [Expr.compile]
    refine (object.pays_compile k).bind fun code ↦ (pays_string name _).bind fun index ↦
      pays_pure (Nat.le_of_eq ?_)
    have hsize : (Instr.getProperty index).size = 5 := rfl
    rw [codeSize_append, codeSize_singleton, hsize, Nat.add_assoc]
  | call name arguments span =>
    rw [Expr.compile]
    refine (Expr.pays_compileAll [] arguments k).bind fun code ↦
      (pays_argumentCount name arguments.length _).bind fun count ↦
        (pays_string name _).bind fun index ↦ pays_pure ?_
    have hsize : (Instr.invokeMethod index count).size = 7 := rfl
    rw [codeSize_append, codeSize_singleton, hsize]
    omega
  | invoke receiver name arguments span =>
    rw [Expr.compile]
    refine (receiver.pays_compile k).bind fun first ↦ ?_
    rw [← codeSize_reverse first]
    refine (Expr.pays_compileAll first.reverse arguments k).bind fun code ↦
      (pays_argumentCount name arguments.length _).bind fun count ↦
        (pays_string name _).bind fun index ↦ pays_pure ?_
    have hsize : (Instr.invokeVirtual index count).size = 7 := rfl
    rw [codeSize_append, codeSize_singleton, hsize]
    omega
  | binary op left right span =>
    rw [Expr.compile]
    refine (left.pays_compile k).bind fun a ↦ (right.pays_compile _).bind fun b ↦ ?_
    cases op.instr? with
    | some i =>
      refine pays_pure ?_
      rw [codeSize_append, codeSize_append]
      omega
    | none =>
      refine pays_pure ?_
      simp only [shortCircuit, codeSize_append, codeSize_cons]
      omega
  | unary op operand span =>
    rw [Expr.compile]
    refine (operand.pays_compile k).bind fun code ↦ pays_pure ?_
    rw [codeSize_append]
    omega
  | assign target value span =>
    rw [Expr.compile]
    refine (value.pays_compile k).bind fun code ↦
      (pays_compileStore slots target _).bind fun i ↦ pays_pure ?_
    rw [codeSize_append, codeSize_cons, codeSize_singleton]
    omega
  | list elements span =>
    rw [Expr.compile]
    refine (Expr.pays_compileAll [] elements k).bind fun code ↦
      (pays_argumentCount _ elements.length _).bind fun count ↦ pays_pure ?_
    rw [codeSize_append]
    omega

theorem Expr.pays_compileAll (done : List Instr) (es : List Expr) (k : Nat) :
    (Expr.compileAll slots done es).Pays (k + codeSize done) fun code ↦ k + codeSize code := by
  cases es with
  | nil =>
    rw [Expr.compileAll]
    exact pays_pure (Nat.le_of_eq (by rw [codeSize_reverse]))
  | cons e es =>
    rw [Expr.compileAll]
    refine (e.pays_compile _).bind fun code ↦ ?_
    have hdone : k + codeSize done + codeSize code = k + codeSize (code.reverse ++ done) := by
      rw [codeSize_append, codeSize_reverse]
      omega
    rw [hdone]
    exact Expr.pays_compileAll _ es k

end

mutual

theorem Stmt.pays_compile (s : Stmt) (k : Nat) :
    (s.compile slots).Pays k fun code ↦ k + codeSize code := by
  cases s with
  | expression e =>
    rw [Stmt.compile]
    refine (e.pays_compile k).bind fun code ↦ pays_pure ?_
    rw [codeSize_append]
    omega
  | declare name initial span =>
    have hstore (code : List Instr) : ((compileStore slots name) >>= fun i ↦
        (pure (code ++ [i]) : GenM (List Instr))).Pays (k + codeSize code)
          fun code ↦ k + codeSize code := by
      refine (pays_compileStore slots name _).bind fun i ↦ pays_pure (Nat.le_of_eq ?_)
      rw [codeSize_append, codeSize_singleton, Nat.add_assoc]
    cases initial with
    | none =>
      rw [Stmt.compile, pure_bind]
      exact (hstore [.pushNull]).of_le (Nat.le_add_right _ _)
    | some e =>
      rw [Stmt.compile]
      exact (e.pays_compile k).bind hstore
  | ifThen condition body span =>
    rw [Stmt.compile]
    refine (condition.pays_compile k).bind fun test ↦ (body.pays_compile _).bind fun a ↦
      pays_pure ?_
    rw [codeSize_append, codeSize_cons]
    omega
  | ifElse condition body alternative span =>
    rw [Stmt.compile]
    refine (condition.pays_compile k).bind fun test ↦ (body.pays_compile _).bind fun a ↦
      (alternative.pays_compile _).bind fun b ↦ pays_pure ?_
    rw [codeSize_append, codeSize_cons, codeSize_append, codeSize_cons]
    omega
  | loop condition body span =>
    rw [Stmt.compile]
    refine (condition.pays_compile k).bind fun test ↦ (body.pays_compile _).bind fun a ↦
      pays_pure ?_
    rw [codeSize_append, codeSize_cons, codeSize_append]
    omega
  | result value span =>
    cases value with
    | none =>
      rw [Stmt.compile]
      exact pays_pure (Nat.le_add_right _ _)
    | some e =>
      rw [Stmt.compile]
      refine (e.pays_compile k).bind fun code ↦ pays_pure ?_
      rw [codeSize_append]
      omega
  | block body span =>
    rw [Stmt.compile]
    exact Stmt.pays_compileAll [] body k

theorem Stmt.pays_compileAll (done : List Instr) (ss : List Stmt) (k : Nat) :
    (Stmt.compileAll slots done ss).Pays (k + codeSize done) fun code ↦ k + codeSize code := by
  cases ss with
  | nil =>
    rw [Stmt.compileAll]
    exact pays_pure (Nat.le_of_eq (by rw [codeSize_reverse]))
  | cons s ss =>
    rw [Stmt.compileAll]
    refine (s.pays_compile _).bind fun code ↦ ?_
    have hdone : k + codeSize done + codeSize code = k + codeSize (code.reverse ++ done) := by
      rw [codeSize_append, codeSize_reverse]
      omega
    rw [hdone]
    exact Stmt.pays_compileAll _ ss k

end

/-- The bytes of code of some methods. -/
def codeBytes : List CompiledMethod → Nat
  | [] => 0
  | m :: ms => m.code.size + codeBytes ms

theorem codeBytes_append (ms ms' : List CompiledMethod) :
    codeBytes (ms ++ ms') = codeBytes ms + codeBytes ms' := by
  induction ms with
  | nil => rw [List.nil_append, codeBytes, Nat.zero_add]
  | cons m ms ih => rw [List.cons_append, codeBytes, codeBytes, ih, Nat.add_assoc]

theorem codeBytes_reverse (methods : List CompiledMethod) :
    codeBytes methods.reverse = codeBytes methods := by
  induction methods with
  | nil => rfl
  | cons m ms ih =>
    rw [List.reverse_cons, codeBytes_append, ih, codeBytes, codeBytes, codeBytes]
    omega

theorem Method.pays_compile (m : Method) (debug : Bool) (k : Nat) :
    (m.compile debug).Pays k fun compiled ↦ k + compiled.code.size := by
  rw [Method.compile]
  refine pays_bind_lift fun parameters ↦ pays_bind_lift fun slots ↦ ?_
  refine (Stmt.pays_compileAll [] m.body k).bind fun code ↦ pays_pure ?_
  dsimp only
  rw [List.size_toArray, length_flatMap_encode, codeSize_append]
  omega

theorem Method.pays_compileAll (debug : Bool) (done : List CompiledMethod) (ms : List Method) :
    (Method.compileAll debug done ms).Pays (codeBytes done) codeBytes := by
  induction ms generalizing done with
  | nil =>
    rw [Method.compileAll]
    exact pays_pure (Nat.le_of_eq (codeBytes_reverse done).symm)
  | cons m ms ih =>
    rw [Method.compileAll]
    refine (m.pays_compile debug _).bind fun compiled ↦ ?_
    rw [Nat.add_comm]
    exact ih (compiled :: done)

namespace ClassNode

variable {node : ClassNode} {debug : Bool} {file : ClassFile}

/-- For every constant of a generated class there are five bytes of code. -/
theorem entries_le_of_compile (h : node.compile debug = .ok file) :
    5 * file.constants.entries ≤ codeBytes file.methods := by
  rw [ClassNode.compile, bind_eq_ok] at h
  obtain ⟨⟨methods, constants⟩, hmethods, hfile⟩ := h
  cases hfile
  have hpays := Method.pays_compileAll debug [] node.methods {} methods constants hmethods
  dsimp only
  have hempty : ConstantPool.entries {} = 0 := rfl
  have hnone : codeBytes [] = 0 := rfl
  omega

theorem codeBytes_le {limit : Nat} (methods : List CompiledMethod)
    (h : ∀ m ∈ methods, m.code.size ≤ limit) : codeBytes methods ≤ methods.length * limit := by
  induction methods with
  | nil => exact Nat.zero_le _
  | cons m ms ih =>
    have hm := h m List.mem_cons_self
    have hms := ih fun other hother ↦ h other (List.mem_cons_of_mem _ hother)
    rw [codeBytes, List.length_cons, Nat.succ_mul]
    omega

/-- Ten methods with code that jumps can cross do not have more constants than there are indices. -/
theorem addressable_of_compile (h : node.compile debug = .ok file)
    (hsize : ∀ compiled ∈ file.methods, compiled.code.size < 2 ^ 31)
    (hcount : file.methods.length ≤ 10) : file.constants.Addressable := by
  have hentries := entries_le_of_compile h
  have hbytes := codeBytes_le file.methods fun m hm ↦ Nat.le_of_lt (hsize m hm)
  have hten : file.methods.length * 2 ^ 31 ≤ 10 * 2 ^ 31 := Nat.mul_le_mul_right _ hcount
  exact ConstantPool.addressable_of_entries_le (by omega)

end ClassNode

end BuildScript
