import BuildScript.Proofs.Compile.AcceptedNodes
import BuildScript.Proofs.Compile.CodeRuns
import BuildScript.Proofs.Compile.PoolSize

/-!
# Generated classes mean what their sources mean

Invoking a generated method ends with an outcome exactly if evaluating its source does, and the two
outcomes are the same: the value or the failure, the binding and the text printed.

## The induction

A call may lead to any class of the chain, so nothing can be said of one method alone. What is
proved by induction is `Program.answered`: if `depth` more calls may be active, the machine answers
every call as the program does. A generated method that is called has a host with `depth - 1` left,
and `Stmt.runs_all` takes care of its body.
-/

namespace BuildScript

open Progress

/-! ## The locals of a call -/

section Lookup

variable {ns : List String} {vs : List Value} {name : String}

theorem lookup_zip (hnodup : ns.Nodup) (hlen : vs.length = ns.length) {i : Nat}
    (hi : ns[i]? = some name) : (ns.zip vs).lookup name = vs[i]? := by
  induction ns generalizing vs i with
  | nil => cases hi
  | cons n ns ih =>
    obtain ⟨hn, hnodup⟩ := List.nodup_cons.mp hnodup
    cases vs with
    | nil => cases hlen
    | cons v vs =>
      cases i with
      | zero =>
        cases hi
        rw [List.zip_cons_cons, List.lookup_cons_self, List.getElem?_cons_zero]
      | succ i =>
        have hne : name ≠ n := by
          rintro rfl
          exact hn (List.mem_of_getElem? hi)
        rw [List.zip_cons_cons, List.lookup_cons, beq_eq_false_iff_ne.mpr hne]
        exact ih hnodup (Nat.succ.inj hlen) hi

theorem lookup_zip_of_not_mem (h : name ∉ ns) : (ns.zip vs).lookup name = none := by
  rw [List.lookup_eq_none_iff]
  rintro ⟨n, v⟩ hmem
  have hn : n ∈ ns := (List.of_mem_zip hmem).1
  rw [bne_iff_ne]
  rintro rfl
  exact h hn

theorem lookup_map_null (ns : List String) (name : String) :
    (ns.map fun n ↦ (n, Value.null)).lookup name = if name ∈ ns then some .null else none := by
  induction ns with
  | nil => rfl
  | cons n ns ih =>
    by_cases hn : name = n
    · subst hn
      rw [List.map_cons, List.lookup_cons_self, if_pos List.mem_cons_self]
    · rw [List.map_cons, List.lookup_cons, beq_eq_false_iff_ne.mpr hn, ih]
      simp [hn]

end Lookup

namespace Method

variable {K : ConstantPool} {m : Method} {compiled : CompiledMethod} {arguments : List Value}

theorem get?_startLocals (m : Method) (arguments : List Value) (name : String) :
    (m.startLocals arguments).get? name =
      (((m.parameters.map (·.name)).zip arguments).lookup name).or
        (if name ∈ declaredNames m.body then some .null else none) := by
  rw [startLocals, Binding.get?, List.lookup_append, lookup_map_null]

/-- A call of a generated method begins with the locals of its source: the arguments under the first
names, and null under the others. -/
theorem Emits.agrees_enter (h : m.Emits K compiled) (hnodup : (m.parameters.map (·.name)).Nodup)
    (hlen : arguments.length = m.parameters.length) :
    Agrees m.localNames (m.startLocals arguments) (Frame.enter compiled K arguments).locals := by
  have hparameters : withNames [] (m.parameters.map (·.name)) = m.parameters.map (·.name) :=
    withNames_of_nodup hnodup
  obtain ⟨rest, hrest⟩ : m.parameters.map (·.name) <+: m.localNames := by
    rw [localNames, hparameters]
    exact prefix_withNames _ _
  have hlocals : (Frame.enter compiled K arguments).locals =
      arguments.toArray ++ Array.replicate rest.length .null := by
    have hcount : compiled.localCount.toNat = arguments.length + rest.length := by
      rw [h.localCount_eq, ← hrest, List.length_append, List.length_map, hlen]
    rw [Frame.enter, hcount]
    dsimp only
    rw [List.take_of_length_le (Nat.le_add_right _ _), Nat.add_sub_cancel_left]
  have hlen' : arguments.length = (m.parameters.map (·.name)).length := by
    rw [hlen, List.length_map]
  rw [hlocals]
  constructor
  · intro i name hi
    have hmem := List.mem_of_getElem? hi
    rw [← hrest, List.getElem?_append] at hi
    rw [get?_startLocals, Array.getElem?_append, List.size_toArray, hlen']
    split at hi
    · next hlt =>
      -- A parameter: it has the slot of its argument.
      have hvalue : arguments[i]? = some arguments[i] := List.getElem?_eq_getElem _
      refine ⟨arguments[i], ?_, ?_⟩
      · rw [lookup_zip hnodup hlen' hi, hvalue, Option.some_or]
      · rw [if_pos hlt, List.getElem?_toArray, hvalue]
    · next hge =>
      -- A name that only the body declares: no parameter hides it, and its slot holds null.
      have hother : name ∉ m.parameters.map (·.name) := fun hname ↦
        (List.nodup_append.mp (hrest ▸ h.nodup)).2.2 name hname name (List.mem_of_getElem? hi) rfl
      have hdeclared : name ∈ declaredNames m.body := (mem_localNames.mp hmem).resolve_left hother
      refine ⟨.null, ?_, ?_⟩
      · rw [lookup_zip_of_not_mem hother, Option.none_or, if_pos hdeclared]
      · rw [if_neg hge, Array.getElem?_replicate, if_pos (List.getElem?_eq_some_iff.mp hi).1]
  · intro name hname
    have hname := not_or.mp (mt mem_localNames.mpr hname)
    rw [get?_startLocals, lookup_zip_of_not_mem hname.1, if_neg hname.2, Option.none_or]

variable {c : Class} {n : Nat} {h : Host} {callers : List Frame}

/-- A generated method that has been entered runs as its source evaluates. -/
theorem Emits.answers (hm : m.Emits K compiled) (hsize : compiled.code.size < 2 ^ 31)
    (hK : K.Addressable) (hnodup : (m.parameters.map (·.name)).Nodup)
    (hlen : arguments.length = m.parameters.length) (hh : h.Answered c n (callers.length + 1))
    (s : ScriptState) :
    Answers c n (.running ⟨.enter compiled K arguments, callers, s⟩) callers
      (m.evaluate h n arguments s) := by
  obtain ⟨code, hbody, hstand, hcodesize⟩ := hm.exists_code
  let M : MethodContext := ⟨compiled, K, m.localNames, callers, hsize, hK, hm.nodup⟩
  have hcode : M.Holds 0 (code ++ [.returnNull]) :=
    ⟨hstand, Nat.le_of_eq ((Nat.zero_add _).trans hcodesize)⟩
  have hruns := Stmt.runs_all (M := M) hh m.body hbody hcode.left [] ⟨m.startLocals arguments, s⟩ _
    ⟨_, hm.agrees_enter hnodup hlen, rfl⟩
  rw [evaluate]
  cases heval : Stmt.evalAll h n m.body ⟨m.startLocals arguments, s⟩ with
  | done completion s' =>
    rw [heval] at hruns
    obtain ⟨q, hq, hreaches⟩ := hruns
    cases completion with
    | normal =>
      -- The body does not return, so the instruction behind it does.
      obtain ⟨slots, -, rfl⟩ := hq
      exact hreaches.trans (MethodContext.reaches_perform hcode.right slots [] s'.script)
    | returned v =>
      cases hq
      exact hreaches
  | failed e s' =>
    rw [heval] at hruns
    exact hruns
  | unfinished =>
    rw [heval] at hruns
    exact hruns

end Method

/-- Code without source runs as it is evaluated. -/
theorem Frame.answers {c : Class} {n : Nat} {h : Host} {callers : List Frame}
    (hh : h.Answered c n (callers.length + 1)) :
    ∀ k ≤ n, ∀ (f : Frame) (s : ScriptState),
      Answers c k (.running ⟨f, callers, s⟩) callers (Frame.evaluate h k f s) := by
  intro k
  induction k with
  | zero =>
    intro _ f s
    exact survives_zero _
  | succ k ih =>
    intro hk f s
    have hk' : k ≤ n := Nat.le_of_succ_le hk
    refine Answers.step ?_
    rw [Frame.evaluate, hh.className_eq, Execution.step]
    cases f.step c.name s with
    | «continue» f s => exact ih hk' f s
    | call name arguments f s =>
      -- What was said of the call holds for all of `n` steps, of which `k` are left.
      have hcall := hh.answers name arguments (f :: callers) s rfl
      dsimp only
      cases houtcome : h.call name arguments s with
      | none =>
        rw [houtcome] at hcall
        exact Survives.mono hcall hk'
      | some outcome =>
        rw [houtcome] at hcall
        obtain ⟨r, s⟩ := outcome
        cases r with
        | ok v => exact Answers.of_reaches hcall (ih hk' (f.push v) s)
        | error e => exact hcall
    | «return» v s => exact .refl
    | fail e s => exact .refl

/-! ## Classes and their sources -/

/-- Jumps and indices reach everything in the class file. -/
structure ClassFile.Fits (file : ClassFile) : Prop where
  code : ∀ compiled ∈ file.methods, compiled.code.size < 2 ^ 31
  constants : file.constants.Addressable

/-- For up to ten methods the bound on the code is enough. -/
theorem ClassFile.Fits.of_compile {node : ClassNode} {debug : Bool} {file : ClassFile}
    (h : node.compile debug = .ok file)
    (hsize : ∀ compiled ∈ file.methods, compiled.code.size < 2 ^ 31)
    (hcount : file.methods.length ≤ 10) : file.Fits :=
  ⟨hsize, ClassNode.addressable_of_compile h hsize hcount⟩

/-- The class has been made from the source. -/
inductive ClassBody.Implements : ClassBody → ClassSource → Prop where
  | native (methods) : Implements (.native methods) (.native methods)
  | tree {node debug file} : node.verify = .ok () → node.compile debug = .ok file → file.Fits →
      Implements (.compiled file) (.tree node)
  | binary (file) : Implements (.compiled file) (.binary file)

/-- What is found in a class has been made from what is found in its source. -/
inductive FoundMethod.Implements : FoundMethod → SourceMethod → Prop where
  | native (run) : Implements (.native run) (.native run)
  | declared {owner index compiled constants m} : Method.Emits constants m compiled →
      compiled.code.size < 2 ^ 31 → constants.Addressable → (m.parameters.map (·.name)).Nodup →
      Implements (.compiled owner index compiled constants) (.declared m)
  | binary (owner index method constants) :
      Implements (.compiled owner index method constants) (.binary method constants)

/-- Looking a method up in a class and in its source leads to the same method. -/
theorem ClassEntry.findMethod?_implements {entry : ClassEntry} {source : ClassSource}
    (h : entry.body.Implements source) (name : String) :
    Option.Rel FoundMethod.Implements (entry.findMethod? name) (source.method? name) := by
  obtain ⟨id, entryName, body⟩ := entry
  dsimp only at h
  cases h with
  | native methods =>
    rw [findMethod?, ClassSource.method?]
    dsimp only
    cases methods.lookup name with
    | none => exact .none
    | some run => exact .some (.native run)
  | @tree node debug file hverify hcompile hfits =>
    have hemits := ClassNode.emits_of_compile hcompile
    have hindex : node.methods.findIdx? (·.name == name) =
        file.methods.findIdx? (·.name == name) := by
      have hnames := congrArg (List.findIdx? (· == name)) (map_name_eq_of_emits hemits.methods)
      rw [List.findIdx?_map, List.findIdx?_map] at hnames
      exact hnames.symm
    rw [findMethod?, ClassSource.method?, List.find?_eq_bind_findIdx?_getElem?, hindex]
    dsimp only
    cases hi : file.methods.findIdx? (·.name == name) with
    | none => exact .none
    | some i =>
      obtain ⟨hlt, -⟩ := List.findIdx?_eq_some_iff_getElem.mp hi
      have hcompiled : file.methods[i]? = some file.methods[i] := List.getElem?_eq_getElem hlt
      obtain ⟨m, hm, hmethod⟩ := hemits.exists_method hcompiled
      rw [Option.bind_some, Option.bind_some, hcompiled, hm]
      exact .some (.declared hmethod (hfits.code _ (List.getElem_mem hlt)) hfits.constants
        ((ClassNode.verify_eq_ok_iff.mp hverify).2 m (List.mem_of_getElem? hm)))
  | binary file =>
    rw [findMethod?, ClassSource.method?, ClassFile.method?, List.find?_eq_bind_findIdx?_getElem?]
    dsimp only
    cases hi : file.methods.findIdx? (·.name == name) with
    | none => exact .none
    | some i =>
      rw [Option.bind_some, Option.bind_some]
      cases file.methods[i]? with
      | none => exact .none
      | some method => exact .some (.binary _ i method file.constants)

theorem findSome?_implements {entries : List ClassEntry} {sources : List ClassSource}
    (h : List.Forall₂ (fun entry source ↦ entry.body.Implements source) entries sources)
    (name : String) :
    Option.Rel FoundMethod.Implements (entries.findSome? (·.findMethod? name))
      (sources.findSome? (·.method? name)) := by
  induction h with
  | nil => exact .none
  | @cons entry source _ _ hentry _ ih =>
    have hfirst := ClassEntry.findMethod?_implements hentry name
    rw [List.findSome?_cons, List.findSome?_cons]
    generalize entry.findMethod? name = found at hfirst
    generalize source.method? name = method at hfirst
    cases hfirst with
    | none => exact ih
    | some hmethod => exact .some hmethod

/-- The class has been made from the program, superclass for superclass. -/
structure Class.Implements (c : Class) (p : Program) : Prop where
  name_eq : p.className = c.name
  chain : List.Forall₂ (fun entry source ↦ entry.body.Implements source) c.chain p.sources

/-! ## Calls -/

namespace Program

variable {p : Program} {c : Class} {n : Nat}

/-- The checks in front of a call. Both sides look at the number of arguments first and at the depth
only then, and what passes is left to the premise. -/
theorem answers_checked {frames : List Frame} {depth count given : Nat} {q : Progress}
    {missing overflow : RunError} {s : ScriptState} {x : Nat → Option Outcome} :
    frames.length + depth = maxCallDepth →
    (count = given → ∀ rest, depth = rest + 1 → Answers c n q frames (x rest)) → Answers c n
      (if count ≠ given then .finished ⟨.error (.error missing), s⟩
        else if maxCallDepth ≤ frames.length then .finished ⟨.error (.error overflow), s⟩ else q)
      frames
      (if count ≠ given then some ⟨.error (.error missing), s⟩
        else
          match depth with
          | 0 => some ⟨.error (.error overflow), s⟩
          | rest + 1 => x rest) := by
  intro hframes hx
  by_cases hlen : count = given
  · rw [if_neg (not_not_intro hlen), if_neg (not_not_intro hlen)]
    cases depth with
    | zero =>
      rw [if_pos (by omega)]
      exact .refl
    | succ rest =>
      rw [if_neg (by omega)]
      exact hx hlen rest rfl
  · rw [if_pos hlen, if_pos hlen]
    exact .refl

/-- One call. Its premise is about the calls that the called method makes, and those have one frame
more waiting. -/
theorem answers_call (h : c.Implements p) {depth : Nat} {frames : List Frame}
    (hframes : frames.length + depth = maxCallDepth)
    (hhost : ∀ rest, depth = rest + 1 → (p.host n rest).Answered c n (frames.length + 1))
    (name : String) (arguments : List Value) (s : ScriptState) :
    Answers c n (Execution.call c name arguments frames s) frames
      (p.call n depth name arguments s) := by
  have hfound : Option.Rel FoundMethod.Implements (c.findMethod? name) (p.method? name) :=
    findSome?_implements h.chain name
  have hhost' : ∀ rest, depth = rest + 1 →
      Host.Answered ⟨c.name, p.call n rest⟩ c n (frames.length + 1) := by
    intro rest hrest
    have hh := hhost rest hrest
    rwa [host, h.name_eq] at hh
  rw [Execution.call, Program.call.eq_def, h.name_eq]
  generalize c.findMethod? name = found at hfound
  generalize p.method? name = method at hfound
  cases hfound with
  | none => exact .refl
  | some hmethod =>
    cases hmethod with
    | native run =>
      dsimp only
      obtain ⟨r, s'⟩ := run c.name arguments s
      cases r with
      | ok v => exact .refl
      | error e => exact .refl
    | @declared owner index compiled constants m hm hsize hK hnodup =>
      have hcount : compiled.paramCount.toNat = m.parameters.length := by
        rw [hm.paramCount_eq, withNames_of_nodup hnodup, List.nil_append, List.length_map]
      dsimp only
      rw [hcount]
      exact answers_checked hframes fun hlen rest hrest ↦
        hm.answers hsize hK hnodup hlen.symm (hhost' rest hrest) s
    | binary owner index method constants =>
      dsimp only
      exact answers_checked hframes fun _ rest hrest ↦
        Frame.answers (hhost' rest hrest) n (Nat.le_refl n) _ s

/-- The machine answers calls as the program does, if as many frames wait as leave `depth` of the
greatest number. -/
theorem answered (h : c.Implements p) (n depth : Nat) (hdepth : depth ≤ maxCallDepth) :
    (p.host n depth).Answered c n (maxCallDepth - depth) := by
  induction depth with
  | zero =>
    refine ⟨h.name_eq, fun name arguments frames s hframes ↦ ?_⟩
    refine answers_call h hframes (fun rest hrest ↦ ?_) name arguments s
    exact absurd hrest (Nat.zero_ne_add_one rest)
  | succ depth ih =>
    refine ⟨h.name_eq, fun name arguments frames s hframes ↦ ?_⟩
    refine answers_call h (by omega) (fun rest hrest ↦ ?_) name arguments s
    have hwaiting : frames.length + 1 = maxCallDepth - depth := by omega
    rw [hwaiting, ← Nat.succ.inj hrest]
    exact ih (by omega)

end Program

/-! ## Runs and evaluations -/

theorem Answers.reaches_finished {c : Class} {n : Nat} {q : Progress} {o : Outcome}
    (h : Answers c n q [] (some o)) : Reaches c q (.finished o) := by
  obtain ⟨r, s⟩ := o
  cases r with
  | ok v => exact h
  | error e => exact h

/-- A run of the machine ends with an outcome exactly if the evaluation does. Neither side tells the
other how much fuel it takes: a run that is still going on when the evaluation has spent its fuel
belongs to an evaluation that needs more. -/
theorem Class.Implements.invoke_iff_call {c : Class} {p : Program} (h : c.Implements p)
    (name : String) (arguments : List Value) (s : ScriptState) (o : Outcome) :
    (∃ fuel, c.invoke fuel name arguments s = some o) ↔
      ∃ fuel, p.call fuel maxCallDepth name arguments s = some o := by
  have hanswers (n : Nat) : Answers c n (Execution.call c name arguments [] s) []
      (p.call n maxCallDepth name arguments s) :=
    (p.answered h n maxCallDepth (Nat.le_refl _)).answers name arguments [] s rfl
  constructor
  · rintro ⟨fuel, hrun⟩
    refine ⟨fuel, ?_⟩
    have hfuel := hanswers fuel
    rw [Class.invoke] at hrun
    cases hcall : p.call fuel maxCallDepth name arguments s with
    | none =>
      -- A run that has ended within `fuel` steps has not survived them.
      rw [hcall] at hfuel
      have hsurvives : Execution.run c fuel (Execution.call c name arguments [] s) = none := hfuel
      rw [hsurvives] at hrun
      cases hrun
    | some o' =>
      rw [hcall] at hfuel
      obtain ⟨k, hk⟩ := hfuel.reaches_finished.exists_run
      rw [Execution.run_unique hrun hk]
  · rintro ⟨fuel, hcall⟩
    exact (hcall ▸ hanswers fuel).reaches_finished.exists_run

theorem find?_name_of_nodup {ms : List Method} (hnodup : (ms.map (·.name)).Nodup) {m : Method}
    (hm : m ∈ ms) : ms.find? (·.name == m.name) = some m := by
  induction ms with
  | nil => cases hm
  | cons other ms ih =>
    rw [List.map_cons, List.nodup_cons] at hnodup
    rcases List.mem_cons.mp hm with rfl | hm
    · exact List.find?_cons_of_pos (beq_self_eq_true _)
    · have hne : other.name ≠ m.name := fun heq ↦
        hnodup.1 (heq ▸ List.mem_map_of_mem hm)
      rw [List.find?, beq_eq_false_iff_ne.mpr hne]
      exact ih hnodup.2 hm

/-- Invoking a method of a generated class ends with an outcome exactly if evaluating the method
does, whatever the classes above it are. -/
theorem invoke_iff_evaluate {node : ClassNode} {debug : Bool} {file : ClassFile} {c : Class}
    {ancestors : List ClassSource} (hnode : node.verify = .ok ())
    (hcompile : node.compile debug = .ok file) (hfits : file.Fits)
    (hbody : c.entry.body = .compiled file)
    (hancestors :
      List.Forall₂ (fun entry source ↦ entry.body.Implements source) c.ancestors ancestors)
    {m : Method} (hm : m ∈ node.methods) {arguments : List Value}
    (hlen : arguments.length = m.parameters.length) (s : ScriptState) (o : Outcome) :
    (∃ fuel, c.invoke fuel m.name arguments s = some o) ↔
      ∃ fuel, m.evaluate (Program.host ⟨c.name, .tree node :: ancestors⟩ fuel (maxCallDepth - 1))
        fuel arguments s = some o := by
  have hsource : c.entry.body.Implements (.tree node) := by
    rw [hbody]
    exact .tree hnode hcompile hfits
  have himplements : c.Implements ⟨c.name, .tree node :: ancestors⟩ :=
    ⟨rfl, .cons hsource hancestors⟩
  have hfound : Program.method? ⟨c.name, .tree node :: ancestors⟩ m.name = some (.declared m) := by
    have hfind := find?_name_of_nodup (ClassNode.verify_eq_ok_iff.mp hnode).1 hm
    rw [Program.method?, List.findSome?_cons, ClassSource.method?, hfind, Option.map_some]
  rw [himplements.invoke_iff_call]
  refine exists_congr fun fuel ↦ ?_
  have hcall : Program.call ⟨c.name, .tree node :: ancestors⟩ fuel maxCallDepth m.name arguments s =
      m.evaluate (Program.host ⟨c.name, .tree node :: ancestors⟩ fuel (maxCallDepth - 1))
        fuel arguments s := by
    rw [Program.call.eq_def, hfound]
    dsimp only
    rw [if_neg (not_not_intro hlen.symm)]
    rfl
  rw [hcall]

/-! A class whose method asks a method of its native superclass. -/

def sumMethod : Method where
  name := "sum"
  parameters := []
  body := [.ifThen (.binary .and (.constant (.bool true) .none) (.call "two" [] .none) .none)
    (.result (some (.binary .add (.constant (.int 1) .none) (.call "two" [] .none) .none)) .none)
    .none]
  span := .none

def sumNode : ClassNode := ⟨"Sum", some "Numbers", false, [sumMethod]⟩

def sumCode : List Instr :=
  [.pushTrue, .jump .ifFalse 18, .invokeMethod 0 0, .jump .ifFalse 6, .pushTrue, .jump .always 1,
    .pushFalse, .jump .ifFalse 14, .pushInt 0, .invokeMethod 0 0, .arithmetic .add, .return,
    .returnNull]

def sumFile : ClassFile :=
  { ClassFile.empty "Sum" (some "Numbers") with
    constants := { strings := #["two"], integers := #[1] }
    methods := [⟨"sum", 0, 0, 0, (sumCode.flatMap Instr.encode).toArray⟩] }

theorem compile_sumNode : sumNode.compile false = .ok sumFile := by decide +kernel

theorem sumFile_fits : sumFile.Fits := .of_compile compile_sumNode (by decide) (by decide)

def numbers : List (String × NativeMethod) := [("two", fun _ _ s ↦ (.ok (.int 2), s))]

def sumClass : Class := ⟨⟨0, "Sum", .compiled sumFile⟩, [⟨1, "Numbers", .native numbers⟩]⟩

theorem sumClass_returns_three :
    sumNode.verify = .ok () ∧ sumNode.compile false = .ok sumFile ∧ sumFile.Fits ∧
      sumMethod ∈ sumNode.methods ∧
        ∃ fuel, sumClass.invoke fuel "sum" [] {} = some ⟨.ok (.int 3), {}⟩ := by
  have hnode : sumNode.verify = .ok () := by decide +kernel
  have hmem : sumMethod ∈ sumNode.methods := List.mem_singleton_self _
  refine ⟨hnode, compile_sumNode, sumFile_fits, hmem, ?_⟩
  refine (invoke_iff_evaluate (c := sumClass) hnode compile_sumNode sumFile_fits rfl
    (.cons (.native numbers) .nil) hmem rfl {} ⟨.ok (.int 3), {}⟩).mpr ⟨0, ?_⟩
  rfl

end BuildScript
