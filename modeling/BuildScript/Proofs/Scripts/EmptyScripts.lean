import BuildScript.Proofs.Compile.AcceptedNodes
import BuildScript.Proofs.Compile.Emission
import BuildScript.Proofs.Machine.FrameStep
import BuildScript.Proofs.Machine.MethodLookup
import BuildScript.Scripts.CompileOperation

/-!
# Empty scripts

A script none of whose statements may have an effect is called empty, and running it is left out.
That is sound: its `run` ends with a value, calls nothing, and leaves the binding and the output
alone.

Whether a statement may have an effect is read off the tree, and what `run` does is decided by
instructions, so there is a form of code in between. `InertCode` is made of pairs: a constant is
pushed, and the next instruction drops it, stores it in a local or returns it. Statements without
effects have inert code, because the names they declare are locals. And inert code runs straight
on, one pair after the other, with an empty stack in between.

Indices of constants are cut off to 32 bits, so in a pool that is too large they may lead to another
constant than the one that was meant. They always lead to some constant, which is all that matters
here; no bound on the size of the script is needed.
-/

namespace BuildScript

open Progress

/-! ## Inert code -/

/-- The instruction pushes a constant, and the pool has one under its index. -/
inductive Instr.PushesConstant (K : ConstantPool) : Instr → Prop where
  | null : PushesConstant K .pushNull
  | yes : PushesConstant K .pushTrue
  | no : PushesConstant K .pushFalse
  | int {i} : i.toNat < K.integers.size → PushesConstant K (.pushInt i)
  | float {i} : i.toNat < K.floats.size → PushesConstant K (.pushFloat i)
  | str {i} : i.toNat < K.strings.size → PushesConstant K (.pushStr i)

/-- Whether the instruction calls a method, be it of the script or of a value. -/
def Instr.isCall : Instr → Bool
  | invokeMethod _ _ | invokeVirtual _ _ => true
  | _ => false

/-- Constants are pushed one by one, and each is dropped, stored in one of `count` locals or
returned before the next one. -/
inductive InertCode (K : ConstantPool) (count : Nat) : List Instr → Prop where
  | nil : InertCode K count []
  | drop {push code} : push.PushesConstant K → InertCode K count code →
      InertCode K count (push :: .pop :: code)
  | store {push slot code} : push.PushesConstant K → slot.toNat < count → InertCode K count code →
      InertCode K count (push :: .storeLocal slot :: code)
  | result {push code} : push.PushesConstant K → InertCode K count code →
      InertCode K count (push :: .return :: code)

theorem InertCode.append {K : ConstantPool} {count : Nat} {a b : List Instr}
    (ha : InertCode K count a) (hb : InertCode K count b) : InertCode K count (a ++ b) := by
  induction ha with
  | nil => exact hb
  | drop hpush _ ih => exact .drop hpush ih
  | store hpush hslot _ ih => exact .store hpush hslot ih
  | result hpush _ ih => exact .result hpush ih

/-! ## Statements without effects have inert code -/

section Generation

open GenM

/-- An index leads to some entry of the table even if it was cut off. -/
theorem toNat_lt_size_of_intern {α : Type} [BEq α] [LawfulBEq α] {table K : Array α} {x : α}
    (hK : (ConstantPool.intern table x).1.toList <+: K.toList) :
    (ConstantPool.intern table x).2.toNat < K.size := by
  obtain ⟨-, j, hindex, hj⟩ := ConstantPool.intern_spec table x
  have hlt : j < (ConstantPool.intern table x).1.size := (Array.getElem?_eq_some_iff.mp hj).1
  have hcut : j.toUInt32.toNat ≤ j := Nat.mod_le _ _
  have hle := hK.length_le
  rw [Array.length_toList, Array.length_toList] at hle
  rw [hindex]
  omega

theorem Literal.yields_push (value : Literal) :
    value.compile.Yields fun K i ↦ i.PushesConstant K := by
  cases value with
  | null => exact yields_pure fun K ↦ .null
  | bool b =>
    cases b with
    | true => exact yields_pure fun K ↦ .yes
    | false => exact yields_pure fun K ↦ .no
  | int n =>
    rintro pool i pool' h
    cases h
    exact ⟨ConstantPool.extends_addInteger n, fun K hK ↦ .int (toNat_lt_size_of_intern hK.integers)⟩
  | float x =>
    rintro pool i pool' h
    cases h
    refine ⟨ConstantPool.extends_addFloat x, fun K hK ↦ .float ?_⟩
    have hcut : pool.floats.size.toUInt32.toNat ≤ pool.floats.size := Nat.mod_le _ _
    have hle := hK.floats.length_le
    simp only [ConstantPool.addFloat, Array.length_toList, Array.size_push] at hle
    exact Nat.lt_of_le_of_lt hcut hle
  | str s =>
    rintro pool i pool' h
    cases h
    exact ⟨ConstantPool.extends_addString s, fun K hK ↦ .str (toNat_lt_size_of_intern hK.strings)⟩

variable {slots : Slots} {names : List String}

theorem Expr.yields_push {e : Expr} (he : e.isConstant = true) :
    (e.compile slots).Yields fun K code ↦ ∃ push, code = [push] ∧ push.PushesConstant K := by
  cases e with
  | constant value =>
    rw [Expr.compile]
    exact value.yields_push.bind fun i ↦ yields_pure fun K hi ↦ ⟨i, rfl, hi⟩
  | _ => cases he

/-- What is declared is a local, so it is stored in a slot and not in the binding. -/
theorem yields_storeLocal (h : slots.Lists names) {name : String} (hname : name ∈ names) :
    (compileStore slots name).Yields fun _ i ↦
      ∃ slot, i = .storeLocal slot ∧ slot.toNat < names.length := by
  refine (yields_compileStore h name).mono fun K i hi ↦ ?_
  cases hi with
  | slot hslot => exact ⟨_, rfl, (List.getElem?_eq_some_iff.mp hslot).1⟩
  | bindingVar hother => exact absurd hname hother

mutual

theorem Stmt.yields_inert (h : slots.Lists names) (s : Stmt) (hs : s.mayHaveEffect = false)
    (hnames : ∀ n ∈ s.declared, n ∈ names) :
    (s.compile slots).Yields fun K code ↦ InertCode K names.length code := by
  cases s with
  | expression e =>
    have he : e.isConstant = true := by simpa [Stmt.mayHaveEffect] using hs
    rw [Stmt.compile]
    refine (Expr.yields_push he).bind fun code ↦ yields_pure fun K hcode ↦ ?_
    obtain ⟨push, rfl, hpush⟩ := hcode
    exact .drop hpush .nil
  | declare name initial span =>
    have hname : name ∈ names := hnames name (by simp [Stmt.declared, Stmt.collectDeclared])
    cases initial with
    | none =>
      rw [Stmt.compile, pure_bind]
      refine (yields_storeLocal h hname).bind fun _ ↦ yields_pure fun K hi ↦ ?_
      obtain ⟨slot, rfl, hslot⟩ := hi
      exact .store .null hslot .nil
    | some e =>
      have he : e.isConstant = true := by simpa [Stmt.mayHaveEffect] using hs
      rw [Stmt.compile]
      refine (Expr.yields_push he).bind fun code ↦ (yields_storeLocal h hname).bind fun _ ↦
        yields_pure fun K hi hcode ↦ ?_
      obtain ⟨push, rfl, hpush⟩ := hcode
      obtain ⟨slot, rfl, hslot⟩ := hi
      exact .store hpush hslot .nil
  | ifThen | ifElse | loop => cases hs
  | result value span =>
    cases value with
    | none =>
      rw [Stmt.compile]
      exact yields_pure fun K ↦ .result .null .nil
    | some e =>
      have he : e.isConstant = true := by simpa [Stmt.mayHaveEffect] using hs
      rw [Stmt.compile]
      refine (Expr.yields_push he).bind fun code ↦ yields_pure fun K hcode ↦ ?_
      obtain ⟨push, rfl, hpush⟩ := hcode
      exact .result hpush .nil
  | block body span =>
    rw [Stmt.mayHaveEffect] at hs
    rw [Stmt.declared_block] at hnames
    rw [Stmt.compile]
    refine (Stmt.yields_inertAll h [] body hs hnames).mono fun K code hcode ↦ ?_
    obtain ⟨all, rfl, hall⟩ := hcode
    exact hall

theorem Stmt.yields_inertAll (h : slots.Lists names) (done : List Instr) (ss : List Stmt)
    (hss : Stmt.anyMayHaveEffect ss = false) (hnames : ∀ n ∈ ss.flatMap Stmt.declared, n ∈ names) :
    (Stmt.compileAll slots done ss).Yields fun K code ↦
      ∃ all, code = done.reverse ++ all ∧ InertCode K names.length all := by
  cases ss with
  | nil =>
    rw [Stmt.compileAll]
    exact yields_pure fun K ↦ ⟨[], (List.append_nil _).symm, .nil⟩
  | cons s ss =>
    rw [Stmt.anyMayHaveEffect, Bool.or_eq_false_iff] at hss
    rw [List.flatMap_cons, List.forall_mem_append] at hnames
    rw [Stmt.compileAll]
    refine (Stmt.yields_inert h s hss.1 hnames.1).bind fun code ↦
      (Stmt.yields_inertAll h (code.reverse ++ done) ss hss.2 hnames.2).mono fun K _ hall hcode ↦ ?_
    obtain ⟨all, rfl, hall⟩ := hall
    exact ⟨code ++ all, by simp, hcode.append hall⟩

end

/-- The method's code is inert up to the instruction that returns null. -/
structure CompiledMethod.Inert (K : ConstantPool) (compiled : CompiledMethod) : Prop where
  exists_code : ∃ code, InertCode K compiled.localCount.toNat code ∧
    Instr.StandAt compiled.code 0 (code ++ [.returnNull])

/-- A generated method is inert if nothing in its body may have an effect. -/
theorem Method.yields_inert (m : Method) (debug : Bool)
    (hbody : Stmt.anyMayHaveEffect m.body = false) :
    (m.compile debug).Yields fun K compiled ↦ compiled.Inert K := by
  rw [Method.compile]
  refine yields_bind_lift fun parameters hparameters ↦ yields_bind_lift fun slots hslots ↦ ?_
  have hlists := (Slots.Lists.empty.addSlots hparameters).addSlots hslots
  have hnames : ∀ n ∈ m.body.flatMap Stmt.declared, n ∈ m.localNames := by
    intro n hn
    rw [← declaredNames_eq_flatMap] at hn
    exact mem_localNames.mpr (.inr hn)
  refine (Stmt.yields_inertAll hlists [] m.body hbody hnames).bind fun code ↦
    yields_pure fun K hcode ↦ ?_
  obtain ⟨_, rfl, hall⟩ := hcode
  refine ⟨code, ?_, ?_⟩
  · rw [hlists.toNat_count]
    exact hall
  · have hstand := Instr.standAt_flatMap_encode (code ++ [.returnNull]) [] []
    rwa [List.nil_append, List.append_nil] at hstand

theorem Method.yields_emits_and_inert (m : Method) (debug : Bool) :
    (m.compile debug).Yields fun K compiled ↦ m.Emits K compiled ∧
      (Stmt.anyMayHaveEffect m.body = false → compiled.Inert K) := by
  intro pool compiled pool' h
  obtain ⟨hext, hemits⟩ := m.yields_compile debug pool compiled pool' h
  exact ⟨hext, fun K hK ↦
    ⟨hemits K hK, fun hbody ↦ (m.yields_inert debug hbody pool compiled pool' h).2 K hK⟩⟩

end Generation

/-! ## Runs of inert code -/

/-- The only frame stands at an instruction that calls nothing, and the script's state is `s`. -/
structure Execution.Quiet (s : ScriptState) (e : Execution) : Prop where
  callers_eq : e.callers = []
  state_eq : e.state = s
  not_isCall : ∀ i, Instr.at? e.frame.method.code e.frame.offset = some (.ok i) → i.isCall = false

/-- Quiet steps lead from one state to the other. -/
inductive QuietlyReaches (c : Class) (s : ScriptState) : Progress → Progress → Prop where
  | refl (p) : QuietlyReaches c s p p
  | step {e q} : e.Quiet s → QuietlyReaches c s (e.step c) q → QuietlyReaches c s (.running e) q

namespace QuietlyReaches

variable {c : Class} {s : ScriptState} {p q : Progress}

theorem reaches (h : QuietlyReaches c s p q) : Reaches c p q := by
  induction h with
  | refl => exact .refl
  | step _ _ ih => exact ih.head

/-- There is one run only, so all states of a run that ends quietly are quiet. -/
theorem quiet_of_reaches {o : Outcome} (h : QuietlyReaches c s p (.finished o)) {e : Execution}
    (hr : Reaches c p (.running e)) : e.Quiet s := by
  generalize hq : Progress.finished o = q at h
  induction h with
  | refl =>
    subst hq
    rcases hr.cases_head with heq | ⟨_, hstep, _⟩
    · cases heq
    · cases hstep
  | step hquiet _ ih =>
    rcases hr.cases_head with heq | ⟨_, hstep, hrest⟩
    · cases heq
      exact hquiet
    · cases hstep
      exact ih hrest hq

end QuietlyReaches

section Runs

variable {c : Class} {s : ScriptState} {method : CompiledMethod} {K : ConstantPool}
  {o : Nat} {locals : Array Value} {stack : List Value} {i : Instr}

/-- The method runs alone. -/
def Execution.alone (method : CompiledMethod) (K : ConstantPool) (s : ScriptState) (o : Nat)
    (locals : Array Value) (stack : List Value) : Execution :=
  ⟨⟨method, K, o, locals, stack⟩, [], s⟩

theorem Execution.quiet_alone (hat : Instr.at? method.code o = some (.ok i))
    (hi : i.isCall = false) : (alone method K s o locals stack).Quiet s where
  callers_eq := rfl
  state_eq := rfl
  not_isCall j hj := by
    have hsame : some (Except.ok i) = some (Except.ok j) := hat.symm.trans hj
    cases hsame
    exact hi

theorem Execution.step_alone (hat : Instr.at? method.code o = some (.ok i)) :
    (alone method K s o locals stack).step c =
      match Frame.execute c.name ⟨method, K, o + i.size, locals, stack⟩ s i with
      | .continue f s => .running ⟨f, [], s⟩
      | .call name arguments f s => Execution.call c name arguments [f] s
      | .return v s => .finished ⟨.ok v, s⟩
      | .fail failure s => .finished ⟨.error failure, s⟩ := by
  rw [Execution.step, alone, Frame.step_of_at? hat]
  rfl

theorem Instr.PushesConstant.isCall_eq (h : i.PushesConstant K) : i.isCall = false := by
  cases h <;> rfl

/-- The constant is there, so the push succeeds. -/
theorem Instr.PushesConstant.execute (h : i.PushesConstant K) (className : String) :
    ∃ v, Frame.execute className ⟨method, K, o, locals, stack⟩ s i =
      .continue ⟨method, K, o, locals, v :: stack⟩ s := by
  cases h with
  | null | yes | no => exact ⟨_, rfl⟩
  | @int index hlt =>
    have hget : K.getInteger? index = some K.integers[index.toNat] := Array.getElem?_eq_getElem hlt
    refine ⟨.int K.integers[index.toNat], ?_⟩
    rw [Frame.execute, hget]
    rfl
  | @float index hlt =>
    have hget : K.getFloat? index = some K.floats[index.toNat] := Array.getElem?_eq_getElem hlt
    refine ⟨.float K.floats[index.toNat], ?_⟩
    rw [Frame.execute, hget]
    rfl
  | @str index hlt =>
    have hget : K.getString? index = some K.strings[index.toNat] := Array.getElem?_eq_getElem hlt
    refine ⟨.str K.strings[index.toNat], ?_⟩
    rw [Frame.execute, Frame.withString, hget]
    rfl

/-- A push leads quietly to the instruction behind it. -/
theorem Instr.PushesConstant.quietlyReaches (hpush : i.PushesConstant K)
    (hat : Instr.at? method.code o = some (.ok i)) :
    ∃ v, ∀ q, QuietlyReaches c s (.running (.alone method K s (o + i.size) locals (v :: stack))) q →
      QuietlyReaches c s (.running (.alone method K s o locals stack)) q := by
  obtain ⟨v, hv⟩ : ∃ v, Frame.execute c.name ⟨method, K, o + i.size, locals, stack⟩ s i =
      .continue ⟨method, K, o + i.size, locals, v :: stack⟩ s := hpush.execute c.name
  refine ⟨v, fun q h ↦ .step (Execution.quiet_alone hat hpush.isCall_eq) ?_⟩
  rw [Execution.step_alone hat, hv]
  exact h

/-- Inert code runs quietly to its end; what is in the locals does not matter. -/
theorem InertCode.quietlyReaches {count : Nat} {code : List Instr} (h : InertCode K count code)
    (hcount : locals.size = count) (hstand : Instr.StandAt method.code o (code ++ [.returnNull])) :
    ∃ v, QuietlyReaches c s (.running (.alone method K s o locals [])) (.finished ⟨.ok v, s⟩) := by
  induction h generalizing o locals with
  | nil =>
    refine ⟨.null, .step (Execution.quiet_alone hstand.1 rfl) ?_⟩
    rw [Execution.step_alone hstand.1]
    exact .refl _
  | drop hpush _ ih =>
    obtain ⟨hat, hat', hrest⟩ := hstand
    obtain ⟨w, hw⟩ := hpush.quietlyReaches hat
    obtain ⟨v, hv⟩ := ih hcount hrest
    refine ⟨v, hw _ (.step (Execution.quiet_alone hat' rfl) ?_)⟩
    rw [Execution.step_alone hat']
    exact hv
  | @store push slot _ hpush hslot _ ih =>
    obtain ⟨hat, hat', hrest⟩ := hstand
    obtain ⟨w, hw⟩ := hpush.quietlyReaches hat
    have hsize : (locals.setIfInBounds slot.toNat w).size = count := by
      rw [Array.size_setIfInBounds, hcount]
    obtain ⟨v, hv⟩ := ih hsize hrest
    refine ⟨v, hw _ (.step (Execution.quiet_alone hat' rfl) ?_)⟩
    rw [Execution.step_alone hat', Frame.execute, Frame.withTop]
    dsimp only
    rw [if_pos (hcount ▸ hslot)]
    exact hv
  | result hpush _ _ =>
    -- The first value that is returned ends the run, whatever code stands behind it.
    obtain ⟨hat, hat', -⟩ := hstand
    obtain ⟨w, hw⟩ := hpush.quietlyReaches hat
    refine ⟨w, hw _ (.step (Execution.quiet_alone hat' rfl) ?_)⟩
    rw [Execution.step_alone hat']
    exact .refl _

end Runs

/-! ## Empty scripts -/

theorem anyMayHaveEffect_eq (ss : List Stmt) :
    Stmt.anyMayHaveEffect ss = ss.any (·.mayHaveEffect) := by
  induction ss with
  | nil => rfl
  | cons s ss ih => rw [Stmt.anyMayHaveEffect, ih, List.any_cons]

theorem anyMayHaveEffect_eq_false_iff {ss : List Stmt} :
    Stmt.anyMayHaveEffect ss = false ↔ ∀ s ∈ ss, s.mayHaveEffect = false := by
  rw [anyMayHaveEffect_eq, List.any_eq_false]
  simp only [Bool.not_eq_true]

/-- What the compiler finds out about a script in a source. -/
theorem isEmpty_detectContent {u : SourceUnit} {script : Script} (hu : u.script = some script)
    (f : Findings) :
    (Findings.detectContent.call u f).2.2.isEmpty = !script.statements.any (·.mayHaveEffect) := by
  rw [Findings.detectContent]
  dsimp only
  rw [hu]

/-- A generated method is found under its name in the class, and what is known of all generated
methods is known of it. -/
theorem ClassNode.exists_findMethod? {node : ClassNode} {debug : Bool} {file : ClassFile}
    {P : ConstantPool → Method → CompiledMethod → Prop}
    (hP : ∀ m : Method, (m.compile debug).Yields fun K compiled ↦ P K m compiled)
    (hnode : node.verify = .ok ()) (hcompile : node.compile debug = .ok file) {c : Class}
    (hbody : c.entry.body = .compiled file) {m : Method} (hm : m ∈ node.methods) :
    ∃ index compiled, c.findMethod? m.name = some (.compiled c.entry index compiled file.constants) ∧
      P file.constants m compiled := by
  have hemits := ClassNode.emits_of_compile hcompile
  have hnames := map_name_eq_of_emits hemits.methods
  obtain ⟨index, hlt, rfl⟩ := List.mem_iff_getElem.mp hm
  have hlt' : index < file.methods.length := hemits.methods.length_eq ▸ hlt
  have hmethod := hemits.methods.get hlt hlt'
  have hfound : c.entry.findMethod? file.methods[index].name =
      some (.compiled c.entry index file.methods[index] file.constants) :=
    ClassEntry.findMethod?_of_getElem? hbody
      (hnames ▸ (ClassNode.verify_eq_ok_iff.mp hnode).1) (List.getElem?_eq_getElem hlt')
  refine ⟨index, file.methods[index], ?_,
    (ClassNode.forall₂_of_compile hP hcompile).get hlt hlt'⟩
  have hname : file.methods[index].name = node.methods[index].name := hmethod.name_eq
  rw [Class.findMethod?, Class.chain, List.findSome?_cons, ← hname, hfound]

/-- A script is found to be empty exactly if none of its statements may have an effect. Then its
`run` ends with a value, and on the way it calls nothing and is never in another state of the script
than the one it was called in, whatever the classes above it are. -/
theorem run_of_empty_script (script : Script) :
    (∀ (u : SourceUnit) (f : Findings), u.script = some script →
      ((Findings.detectContent.call u f).2.2.isEmpty = true ↔
        ∀ stmt ∈ script.statements, stmt.mayHaveEffect = false)) ∧
    ((∀ stmt ∈ script.statements, stmt.mayHaveEffect = false) →
      ∀ (name base : String) (debug : Bool) (file : ClassFile),
        (ClassNode.ofScript name base script).verify = .ok () →
        (ClassNode.ofScript name base script).compile debug = .ok file →
        ∀ (c : Class) (s : ScriptState), c.entry.body = .compiled file →
          (∃ fuel v, c.invoke fuel ClassNode.runMethod [] s = some ⟨.ok v, s⟩) ∧
          ∀ e, Reaches c (Execution.call c ClassNode.runMethod [] [] s) (.running e) →
            e.Quiet s) := by
  constructor
  · intro u f hu
    rw [isEmpty_detectContent hu, Bool.not_eq_true', ← anyMayHaveEffect_eq,
      anyMayHaveEffect_eq_false_iff]
  · intro hempty name base debug file hnode hcompile c s hbody
    obtain ⟨index, compiled, hfound, hemits, hinert⟩ :=
      ClassNode.exists_findMethod? (fun m ↦ m.yields_emits_and_inert debug) hnode hcompile hbody
        (m := ⟨ClassNode.runMethod, [], script.statements, ⟨0, 0, 1, 1⟩⟩)
        (List.mem_append_right _ (List.mem_singleton_self _))
    obtain ⟨code, hcode, hstand⟩ := hinert (anyMayHaveEffect_eq_false_iff.mpr hempty)
    -- `run` takes no arguments, so the call enters it.
    have hcall : Execution.call c ClassNode.runMethod [] [] s =
        .running (.alone compiled file.constants s 0
          (Frame.enter compiled file.constants []).locals []) := by
      have hcount : compiled.paramCount.toNat = 0 := hemits.paramCount_eq
      rw [Execution.call, hfound]
      dsimp only
      rw [if_neg (by rw [hcount]; exact not_not_intro rfl), if_neg (by decide)]
      rfl
    obtain ⟨v, hv⟩ := hcode.quietlyReaches (c := c) (s := s) (o := 0)
      (Frame.size_locals_enter compiled file.constants []) hstand
    rw [← hcall] at hv
    obtain ⟨fuel, hfuel⟩ := hv.reaches.exists_run
    exact ⟨⟨fuel, v, hfuel⟩, fun e he ↦ hv.quiet_of_reaches he⟩

/-! ## Compiling a method step by step -/

theorem GenM.bind_lift_ok {α β : Type} (a : α) (f : α → GenM β) :
    (liftM (Except.ok a : Except CompileError α) : GenM α) >>= f = f a := rfl

/-- What a method is compiled to, once its names have slots. -/
theorem Method.run_compile {m : Method} {parameters slots : Slots} {pool pool' : ConstantPool}
    {code : List Instr} (debug : Bool)
    (hparameters : addSlots m.name {} (m.parameters.map (·.name)) = .ok parameters)
    (hslots : addSlots m.name parameters (declaredNames m.body) = .ok slots)
    (hcode : (Stmt.compileAll slots [] m.body).run pool = .ok (code, pool')) :
    (m.compile debug).run pool = .ok (⟨m.name, parameters.count.toUInt16, slots.count.toUInt16,
      if debug then m.span.line else 0,
      ((code ++ [Instr.returnNull]).flatMap Instr.encode).toArray⟩, pool') := by
  rw [Method.compile, hparameters, GenM.bind_lift_ok, hslots, GenM.bind_lift_ok, StateT.run_bind,
    hcode]
  rfl

theorem Method.run_compileAll_cons {m : Method} {ms : List Method} {compiled : CompiledMethod}
    {done : List CompiledMethod} {pool pool' : ConstantPool} {debug : Bool}
    (h : (m.compile debug).run pool = .ok (compiled, pool')) :
    (Method.compileAll debug done (m :: ms)).run pool =
      (Method.compileAll debug (compiled :: done) ms).run pool' := by
  rw [Method.compileAll, StateT.run_bind, h]
  rfl

/-! A script that declares locals in nested blocks and returns early. Its method would print. The
name `x` is bound already, and stays what it is. -/

def silentScript : Script where
  statements := [.block [.declare "x" none .none,
      .block [.declare "y" (some (.constant (.int 2) .none)) .none] .none] .none,
    .expression (.constant (.str "text") .none), .result (some (.constant (.int 2) .none)) .none]
  methods := [⟨"shout", [], [.expression (.call "println" [.constant (.str "text") .none] .none)],
    .none⟩]
  span := .none

def silentCode : List Instr :=
  [.pushNull, .storeLocal 0, .pushInt 0, .storeLocal 1, .pushStr 0, .pop, .pushInt 0, .return,
    .returnNull]

def shoutCode : List Instr := [.pushStr 0, .invokeMethod 1 1, .pop, .returnNull]

def silentFile : ClassFile :=
  { ClassFile.empty "Silent" (some scriptClassName) with
    flags := ClassFile.scriptFlag
    constants := { strings := #["text", "println"], integers := #[2] }
    methods := [⟨"shout", 0, 0, 0, (shoutCode.flatMap Instr.encode).toArray⟩,
      ⟨"run", 0, 2, 0, (silentCode.flatMap Instr.encode).toArray⟩] }

/-- The slots of the names that the script declares. -/
def silentSlots : Slots := ⟨(({} : Std.HashMap String UInt16).insert "x" 0).insert "y" 1, 2⟩

/-- The constants of the first method. -/
def shoutConstants : ConstantPool := { strings := #["text", "println"] }

theorem addSlots_silent : Method.addSlots "run" {} ["x", "y"] = .ok silentSlots := by
  have hx : Slots.add {} "run" "x" = .ok ⟨({} : Std.HashMap String UInt16).insert "x" 0, 1⟩ := by
    rw [Slots.add, Std.HashMap.contains_empty]
    rfl
  have hy : Slots.add ⟨({} : Std.HashMap String UInt16).insert "x" 0, 1⟩ "run" "y" =
      .ok silentSlots := by
    rw [Slots.add, Std.HashMap.contains_insert, Std.HashMap.contains_empty]
    rfl
  rw [Method.addSlots, hx]
  change Method.addSlots "run" _ ["y"] = _
  rw [Method.addSlots, hy]
  rfl

-- Slots are kept by the hashes of names, which are not computed in proofs. Without them the code can
-- be evaluated.
theorem compileAll_silent : (Stmt.compileAll silentSlots [] silentScript.statements).run
    shoutConstants = .ok (silentCode.dropLast, silentFile.constants) := by
  have hx : silentSlots.slot? "x" = some 0 := by
    rw [Slots.slot?, silentSlots, Std.HashMap.getElem?_insert, Std.HashMap.getElem?_insert]
    rfl
  have hy : silentSlots.slot? "y" = some 1 := by
    rw [Slots.slot?, silentSlots, Std.HashMap.getElem?_insert]
    rfl
  simp only [silentScript, Stmt.compileAll, Stmt.compile, compileStore, hx, hy]
  decide +kernel

theorem compile_silentScript :
    (ClassNode.ofScript "Silent" scriptClassName silentScript).compile false = .ok silentFile := by
  have hshout : ∀ m ∈ silentScript.methods, (m.compile false).run {} =
      .ok (⟨"shout", 0, 0, 0, (shoutCode.flatMap Instr.encode).toArray⟩, shoutConstants) := by
    decide +kernel
  have hrun (span : Span) :
      (Method.compile ⟨"run", [], silentScript.statements, span⟩ false).run shoutConstants =
        .ok (⟨"run", 0, 2, 0, (silentCode.flatMap Instr.encode).toArray⟩, silentFile.constants) :=
    Method.run_compile (m := ⟨"run", [], silentScript.statements, span⟩) false rfl addSlots_silent
      compileAll_silent
  have hmethods (span : Span) : (Method.compileAll false []
      (silentScript.methods ++ [⟨"run", [], silentScript.statements, span⟩])).run {} =
        .ok (silentFile.methods, silentFile.constants) :=
    (Method.run_compileAll_cons (hshout _ List.mem_cons_self)).trans
      (Method.run_compileAll_cons (hrun span))
  rw [ClassNode.compile, ClassNode.ofScript, ClassNode.runMethod, hmethods]
  rfl

def silentClass : Class :=
  .compiled 1 silentFile (some (.native 0 scriptClassName none [("println", printLine)]))

theorem silentScript_runs :
    (∀ stmt ∈ silentScript.statements, stmt.mayHaveEffect = false) ∧
      (ClassNode.ofScript "Silent" scriptClassName silentScript).verify = .ok () ∧
      (ClassNode.ofScript "Silent" scriptClassName silentScript).compile false = .ok silentFile ∧
      ∃ fuel v, silentClass.invoke fuel ClassNode.runMethod [] ⟨⟨[("x", .int 5)]⟩, "printed"⟩ =
        some ⟨.ok v, ⟨⟨[("x", .int 5)]⟩, "printed"⟩⟩ := by
  have hempty : ∀ stmt ∈ silentScript.statements, stmt.mayHaveEffect = false := by decide
  have hnode : (ClassNode.ofScript "Silent" scriptClassName silentScript).verify = .ok () := by
    decide +kernel
  exact ⟨hempty, hnode, compile_silentScript, ((run_of_empty_script silentScript).2 hempty _ _ _ _
    hnode compile_silentScript silentClass _ rfl).1⟩

end BuildScript
