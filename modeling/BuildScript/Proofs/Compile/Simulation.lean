import BuildScript.Proofs.Compile.Emission
import BuildScript.Proofs.Compile.Evaluation
import BuildScript.Proofs.Machine.Steps

/-!
# Simulation

The machine against the evaluator. `Simulates` compares a state of the machine with what comes of an
evaluation, and it has one case for each of the three things that can come of it: the machine gets
to a state that fits the result, it ends with the same failure, or it is still running after `n`
steps. The last case makes the comparison go both ways. An evaluation that never has enough fuel
belongs to a run that never ends.

`MethodContext.Runs` says it of a piece of generated code, from whatever locals and whatever script
state the piece is entered with. It has a rule for each way of putting evaluations together, so code
is followed through an evaluation step by step.
-/

namespace BuildScript

open Progress

/-! ## One state and one evaluation -/

/-- The machine in state `p` does what the evaluation says. `post` holds of the states that fit a
result. -/
def Simulates {α : Type} (c : Class) (n : Nat) (p : Progress)
    (post : α → Activation → Progress → Prop) : Evaluation α → Prop
  | .done a s => ∃ q, post a s q ∧ Reaches c p q
  | .failed e s => Reaches c p (.finished ⟨.error e, s⟩)
  | .unfinished => Survives c n p

namespace Simulates

variable {α β : Type} {c : Class} {m n : Nat} {p q : Progress}
  {post post' : α → Activation → Progress → Prop} {r : Evaluation α}

theorem of_reaches (hpq : Reaches c p q) (h : Simulates c n q post r) : Simulates c n p post r := by
  cases r with
  | done a s =>
    obtain ⟨q', hpost, hq⟩ := h
    exact ⟨q', hpost, hpq.trans hq⟩
  | failed e s => exact hpq.trans h
  | unfinished => exact Reaches.survives hpq h

theorem mono (h : Simulates c n p post r) (hmn : m ≤ n) : Simulates c m p post r := by
  cases r with
  | done a s => exact h
  | failed e s => exact h
  | unfinished => exact Survives.mono h hmn

/-- The machine may go on from where it fits a result. -/
theorem extend (h : Simulates c n p post r)
    (hpost : ∀ a s q, post a s q → ∃ q', post' a s q' ∧ Reaches c q q') :
    Simulates c n p post' r := by
  cases r with
  | done a s =>
    obtain ⟨q, hq, hreaches⟩ := h
    obtain ⟨q', hq', hreaches'⟩ := hpost a s q hq
    exact ⟨q', hq', hreaches.trans hreaches'⟩
  | failed e s => exact h
  | unfinished => exact h

/-- A step of the machine counts, so a run that survives `n` steps behind it survives one more. -/
theorem step {e : Execution} (h : Simulates c n (e.step c) post r) :
    Simulates c (n + 1) (.running e) post r := by
  cases r with
  | done a s =>
    obtain ⟨q, hq, hreaches⟩ := h
    exact ⟨q, hq, hreaches.head⟩
  | failed e' s => exact Reaches.head h
  | unfinished => exact Survives.succ h

theorem bind {x : EvalM α} {f : α → EvalM β} {post' : β → Activation → Progress → Prop}
    {s : Activation} (hx : Simulates c n p post (x s))
    (hf : ∀ a s q, post a s q → Simulates c n q post' (f a s)) :
    Simulates c n p post' ((x >>= f) s) := by
  have heq : (x >>= f) s = EvalM.bind x f s := rfl
  rw [heq, EvalM.bind]
  cases hr : x s with
  | done a s' =>
    rw [hr] at hx
    obtain ⟨q, hpost, hreaches⟩ := hx
    exact of_reaches hreaches (hf a s' q hpost)
  | failed e s' =>
    rw [hr] at hx
    exact hx
  | unfinished =>
    rw [hr] at hx
    exact hx

end Simulates

/-! ## Locals -/

/-- The array holds the locals: under the index of each name its value. -/
structure Agrees (names : List String) (locals : Binding) (slots : Array Value) : Prop where
  listed : ∀ (i : Nat) (name : String), names[i]? = some name →
    ∃ v, locals.get? name = some v ∧ slots[i]? = some v
  unlisted : ∀ name, name ∉ names → locals.get? name = none

theorem Agrees.set {names : List String} {locals : Binding} {slots : Array Value}
    (h : Agrees names locals slots) (hnodup : names.Nodup) {i : Nat} {name : String}
    (hi : names[i]? = some name) (v : Value) :
    Agrees names (locals.set name v) (slots.setIfInBounds i v) where
  listed := by
    intro j other hj
    obtain ⟨w, hget, hslot⟩ := h.listed j other hj
    have hlt : j < slots.size := (Array.getElem?_eq_some_iff.mp hslot).1
    rw [Binding.get?_set, Array.getElem?_setIfInBounds]
    by_cases hother : other = name
    · subst hother
      have hij : i = j := (List.getElem?_inj (List.getElem?_eq_some_iff.mp hi).1 hnodup).mp
        (hi.trans hj.symm)
      subst hij
      exact ⟨v, if_pos rfl, by rw [if_pos rfl, if_pos hlt]⟩
    · -- Different names have different slots, so the other local is not overwritten.
      have hij : i ≠ j := by
        rintro rfl
        rw [hi, Option.some.injEq] at hj
        exact hother hj.symm
      exact ⟨w, by rw [if_neg hother, hget], by rw [if_neg hij, hslot]⟩
  unlisted := by
    intro other hother
    have hne : other ≠ name := by
      rintro rfl
      exact hother (List.mem_of_getElem? hi)
    rw [Binding.get?_set, if_neg hne, h.unlisted other hother]

/-! ## A generated method that runs -/

/-- What stays the same while a generated method runs: its code and constants, the names of its
locals, and the frames that wait for it. -/
structure MethodContext where
  method : CompiledMethod
  constants : ConstantPool
  names : List String
  callers : List Frame
  size_lt : method.code.size < 2 ^ 31
  addressable : constants.Addressable
  nodup : names.Nodup

namespace MethodContext

/-- The state at an offset of the method. -/
def state (M : MethodContext) (o : Nat) (slots : Array Value) (stack : List Value)
    (s : ScriptState) : Progress :=
  .running ⟨⟨M.method, M.constants, o, slots, stack⟩, M.callers, s⟩

/-- The machine stands at the offset with the locals and the script state of the activation. -/
def StandsAt (M : MethodContext) (o : Nat) (stack : List Value) (s : Activation) (p : Progress) :
    Prop :=
  ∃ slots, Agrees M.names s.locals slots ∧ p = M.state o slots stack s.script

/-- The instructions are a part of the method's code. -/
structure Holds (M : MethodContext) (o : Nat) (code : List Instr) : Prop where
  standAt : Instr.StandAt M.method.code o code
  le_size : o + codeSize code ≤ M.method.code.size

variable {M : MethodContext} {o : Nat} {a b code : List Instr} {i : Instr}

theorem Holds.left (h : M.Holds o (a ++ b)) : M.Holds o a where
  standAt := (Instr.standAt_append.mp h.standAt).1
  le_size := by
    have hle := h.le_size
    rw [codeSize_append] at hle
    omega

theorem Holds.right (h : M.Holds o (a ++ b)) : M.Holds (o + codeSize a) b where
  standAt := (Instr.standAt_append.mp h.standAt).2
  le_size := by
    have hle := h.le_size
    rw [codeSize_append] at hle
    omega

theorem Holds.tail (h : M.Holds o (i :: code)) : M.Holds (o + i.size) code where
  standAt := h.standAt.2
  le_size := by
    have hle := h.le_size
    rw [codeSize_cons] at hle
    omega

/-- Where the machine is after what an instruction has done to the method's frame. -/
def follow (M : MethodContext) (c : Class) : Effect → Progress
  | .continue f s => .running ⟨f, M.callers, s⟩
  | .call name arguments f s => Execution.call c name arguments (f :: M.callers) s
  | .return v s => Execution.resume M.callers s v
  | .fail e s => .finished ⟨.error e, s⟩

/-- Where the machine is after an instruction; `o` is already the offset of the next one in line. -/
def perform (M : MethodContext) (c : Class) (o : Nat) (slots : Array Value) (stack : List Value)
    (s : ScriptState) (i : Instr) : Progress :=
  M.follow c (Frame.execute c.name ⟨M.method, M.constants, o, slots, stack⟩ s i)

theorem step_eq_perform {c : Class} (h : M.Holds o (i :: code)) (slots : Array Value)
    (stack : List Value) (s : ScriptState) :
    Execution.step c ⟨⟨M.method, M.constants, o, slots, stack⟩, M.callers, s⟩ =
      M.perform c (o + i.size) slots stack s i := by
  have hat : Instr.at? M.method.code o = some (.ok i) := h.standAt.1
  have hstep : Frame.step c.name ⟨M.method, M.constants, o, slots, stack⟩ s =
      Frame.execute c.name ⟨M.method, M.constants, o + i.size, slots, stack⟩ s i := by
    rw [Frame.step]
    dsimp only
    rw [hat]
  rw [Execution.step, hstep]
  rfl

theorem reaches_perform {c : Class} (h : M.Holds o (i :: code)) (slots : Array Value)
    (stack : List Value) (s : ScriptState) :
    Reaches c (M.state o slots stack s) (M.perform c (o + i.size) slots stack s i) := by
  rw [← step_eq_perform h]
  exact .single (.step _)

/-! ## Runs of a piece of code -/

/-- Entered at offset `o` with the given stack, the machine does what the evaluation says, whatever
the locals and the script state are. -/
def Runs {α : Type} (M : MethodContext) (c : Class) (n o : Nat) (stack : List Value) (x : EvalM α)
    (post : α → Activation → Progress → Prop) : Prop :=
  ∀ s p, M.StandsAt o stack s p → Simulates c n p post (x s)

namespace Runs

variable {α β : Type} {c : Class} {m n o' : Nat} {stack stack' : List Value} {x : EvalM α}
  {post post' : α → Activation → Progress → Prop}

theorem mono (h : M.Runs c n o stack x post) (hmn : m ≤ n) : M.Runs c m o stack x post :=
  fun s p hp ↦ (h s p hp).mono hmn

theorem extend (h : M.Runs c n o stack x post)
    (hpost : ∀ a s q, post a s q → ∃ q', post' a s q' ∧ Reaches c q q') :
    M.Runs c n o stack x post' :=
  fun s p hp ↦ (h s p hp).extend hpost

theorem pure {a : α} (h : ∀ s p, M.StandsAt o stack s p → post a s p) :
    M.Runs c n o stack (pure a) post :=
  fun s p hp ↦ ⟨p, h s p hp, .refl⟩

theorem bind {f : α → EvalM β} {post' : β → Activation → Progress → Prop}
    (hx : M.Runs c n o stack x post)
    (hf : ∀ a s q, post a s q → Simulates c n q post' (f a s)) :
    M.Runs c n o stack (x >>= f) post' :=
  fun s p hp ↦ (hx s p hp).bind hf

/-- Code behind a piece that leaves the machine at `o'`, with a stack that depends on the result. -/
theorem andThen {f : α → EvalM β} {post' : β → Activation → Progress → Prop}
    {stack' : α → List Value} (hx : M.Runs c n o stack x fun a ↦ M.StandsAt o' (stack' a))
    (hf : ∀ a, M.Runs c n o' (stack' a) (f a) post') : M.Runs c n o stack (x >>= f) post' :=
  hx.bind fun a s q hq ↦ hf a s q hq

/-- An instruction that only moves operands and goes on at `o'`. It counts as a step. -/
theorem step_succ (h : M.Holds o (i :: code))
    (hperform : ∀ slots s, M.perform c (o + i.size) slots stack s i = M.state o' slots stack' s)
    (hx : M.Runs c n o' stack' x post) : M.Runs c (n + 1) o stack x post := by
  rintro s p ⟨slots, hagrees, rfl⟩
  refine Simulates.step ?_
  rw [step_eq_perform h, hperform]
  exact hx s _ ⟨slots, hagrees, rfl⟩

theorem step (h : M.Holds o (i :: code))
    (hperform : ∀ slots s, M.perform c (o + i.size) slots stack s i = M.state o' slots stack' s)
    (hx : M.Runs c n o' stack' x post) : M.Runs c n o stack x post :=
  (step_succ h hperform hx).mono (Nat.le_succ n)

end Runs

/-! ## What single instructions do -/

/-- Where the machine is when an instruction has computed a result. -/
def result (M : MethodContext) (o : Nat) (slots : Array Value) (stack : List Value)
    (s : ScriptState) : Except Failure Value → Progress
  | .ok v => M.state o slots (v :: stack) s
  | .error e => .finished ⟨.error e, s⟩

section Instructions

variable {c : Class} {slots : Array Value} {stack : List Value} {s : ScriptState} {index : UInt32}
  {count : UInt16} {name : String} {v w : Value} {vs : List Value}

theorem follow_pushResult (r : Except Failure Value) :
    M.follow c (Frame.pushResult ⟨M.method, M.constants, o, slots, stack⟩ s r) =
      M.result o slots stack s r := by
  cases r <;> rfl

theorem perform_literal {value : Literal} (h : Literal.Emits M.constants value i) :
    M.perform c o slots stack s i = M.state o slots (.ofLiteral value :: stack) s := by
  cases h with
  | null | yes | no => rfl
  | int hn => simp only [perform, Frame.execute, hn M.addressable, Option.map_some]; rfl
  | float hx => simp only [perform, Frame.execute, hx M.addressable, Option.map_some]; rfl
  | str hs => simp only [perform, Frame.execute, Frame.withString, hs M.addressable]; rfl

theorem perform_pushClass (h : M.constants.HasString index name) :
    M.perform c o slots stack s (.pushClass index) =
      M.state o slots (.classRef name :: stack) s := by
  simp only [perform, Frame.execute, Frame.withString, h M.addressable]
  rfl

theorem perform_getProperty (h : M.constants.HasString index name) :
    M.perform c o slots (v :: stack) s (.getProperty index) =
      M.result o slots stack s ((v.property name).mapError .error) := by
  simp only [perform, Frame.execute, Frame.withString, h M.addressable]
  exact follow_pushResult _

theorem perform_binary {op : BinaryOp} (h : op.instr? = some i) :
    M.perform c o slots (w :: v :: stack) s i = M.result o slots stack s (op.apply v w) := by
  have hexecute : Frame.execute c.name ⟨M.method, M.constants, o, slots, w :: v :: stack⟩ s i =
      Frame.pushResult ⟨M.method, M.constants, o, slots, stack⟩ s (op.apply v w) := by
    cases op <;> cases h <;> rfl
  rw [perform, hexecute, follow_pushResult]

theorem perform_unary (op : UnaryOp) :
    M.perform c o slots (v :: stack) s op.instr = M.result o slots stack s (op.apply v) := by
  cases op with
  | negate => exact follow_pushResult _
  | not => rfl

theorem split?_reverse (hcount : count.toNat = vs.length) :
    LittleEndian.split? count.toNat (vs.reverse ++ stack) = some (vs.reverse, stack) :=
  LittleEndian.split?_append (by rw [List.length_reverse, hcount]) stack

theorem perform_invokeMethod (h : M.constants.HasString index name)
    (hcount : count.toNat = vs.length) :
    M.perform c o slots (vs.reverse ++ stack) s (.invokeMethod index count) =
      Execution.call c name vs (⟨M.method, M.constants, o, slots, stack⟩ :: M.callers) s := by
  simp only [perform, Frame.execute, Frame.withString, h M.addressable, Frame.withTops,
    split?_reverse hcount, List.reverse_reverse]
  rfl

theorem perform_invokeVirtual (h : M.constants.HasString index name)
    (hcount : count.toNat = vs.length) :
    M.perform c o slots (vs.reverse ++ v :: stack) s (.invokeVirtual index count) =
      M.result o slots stack s ((v.invoke name vs).mapError .error) := by
  simp only [perform, Frame.execute, Frame.withString, h M.addressable, Frame.withTops,
    split?_reverse hcount, List.reverse_reverse]
  exact follow_pushResult _

theorem perform_newList (hcount : count.toNat = vs.length) :
    M.perform c o slots (vs.reverse ++ stack) s (.newList count) =
      M.state o slots (.list vs :: stack) s := by
  simp only [perform, Frame.execute, Frame.withTops, split?_reverse hcount, List.reverse_reverse]
  rfl

theorem frame_jump {t : Nat} {target : Int} (ht : (t : Int) = target)
    (hle : t ≤ M.method.code.size) :
    M.follow c (Frame.jump ⟨M.method, M.constants, o, slots, stack⟩ s target) =
      M.state t slots stack s := by
  subst ht
  rw [Frame.jump, if_neg (by dsimp only; omega)]
  rfl

theorem perform_jump {distance : Int32} {t : Nat} (ht : (t : Int) = o + distance.toInt)
    (hle : t ≤ M.method.code.size) :
    M.perform c o slots stack s (.jump .always distance) = M.state t slots stack s :=
  frame_jump ht hle

/-- A conditional jump tests for the truth that decides. -/
theorem perform_jumpIf {n : Nat} (decided : Bool) (hle : o + n ≤ M.method.code.size) :
    M.perform c o slots (v :: stack) s (jumpOver (if decided then .ifTrue else .ifFalse) n) =
      M.state (if v.isTruthy = decided then o + n else o) slots stack s := by
  have hn : (Int32.ofNat n).toInt = n :=
    Int32.toInt_ofNat_of_lt (Nat.lt_of_le_of_lt (by omega) M.size_lt)
  have hjump : M.follow c (Frame.jump ⟨M.method, M.constants, o, slots, stack⟩ s
      (o + (Int32.ofNat n).toInt)) = M.state (o + n) slots stack s :=
    frame_jump (by rw [hn]; rfl) hle
  cases decided with
  | true =>
    by_cases hv : v.isTruthy = true
    · simpa [perform, jumpOver, Frame.execute, Frame.withTop, hv] using hjump
    · simp [perform, jumpOver, Frame.execute, Frame.withTop, hv]
      rfl
  | false =>
    by_cases hv : v.isTruthy = true
    · simp [perform, jumpOver, Frame.execute, Frame.withTop, hv]
      rfl
    · simpa [perform, jumpOver, Frame.execute, Frame.withTop, hv] using hjump

end Instructions

/-! ## Single instructions and evaluations -/

namespace Runs

variable {c : Class} {n : Nat} {stack stack' : List Value} {name : String} {v : Value}

/-- An instruction that pushes a value. -/
theorem push (h : M.Holds o (i :: code))
    (hperform : ∀ slots s, M.perform c (o + i.size) slots stack s i =
      M.state (o + i.size) slots (v :: stack') s) :
    M.Runs c n o stack (Pure.pure v) fun v ↦ M.StandsAt (o + i.size) (v :: stack') :=
  step h hperform (pure fun _ _ hp ↦ hp)

/-- An instruction that computes a result or fails. -/
theorem ofExcept {r : Except Failure Value} (h : M.Holds o (i :: code))
    (hperform : ∀ slots s, M.perform c (o + i.size) slots stack s i =
      M.result (o + i.size) slots stack' s r) :
    M.Runs c n o stack (EvalM.ofExcept r) fun v ↦ M.StandsAt (o + i.size) (v :: stack') := by
  rintro s p ⟨slots, hagrees, rfl⟩
  have hreaches := reaches_perform (c := c) h slots stack s.script
  rw [hperform] at hreaches
  cases r with
  | ok v => exact ⟨_, ⟨slots, hagrees, rfl⟩, hreaches⟩
  | error e => exact hreaches

theorem read_slot {slot : UInt16} (h : M.Holds o (.loadLocal slot :: code))
    (hslot : M.names[slot.toNat]? = some name) :
    M.Runs c n o stack (EvalM.read c.name name) fun v ↦ M.StandsAt (o + 3) (v :: stack) := by
  rintro s p ⟨slots, hagrees, rfl⟩
  obtain ⟨v, hget, hvalue⟩ := hagrees.listed _ _ hslot
  have hread : EvalM.read c.name name s = .done v s := by simp only [EvalM.read, hget]
  have hperform : M.perform c (o + 3) slots stack s.script (.loadLocal slot) =
      M.state (o + 3) slots (v :: stack) s.script := by
    simp only [perform, Frame.execute, hvalue]
    rfl
  rw [hread]
  exact ⟨_, ⟨slots, hagrees, rfl⟩, hperform ▸ reaches_perform h slots stack s.script⟩

theorem read_binding {index : UInt32} (h : M.Holds o (.loadVar index :: code))
    (hname : name ∉ M.names) (hindex : M.constants.HasString index name) :
    M.Runs c n o stack (EvalM.read c.name name) fun v ↦ M.StandsAt (o + 5) (v :: stack) := by
  rintro s p ⟨slots, hagrees, rfl⟩
  have hreaches := reaches_perform (c := c) h slots stack s.script
  simp only [perform, Frame.execute, Frame.withString, hindex M.addressable] at hreaches
  simp only [EvalM.read, hagrees.unlisted name hname]
  cases hget : s.script.binding.get? name with
  | some v =>
    rw [hget] at hreaches
    exact ⟨_, ⟨slots, hagrees, rfl⟩, hreaches⟩
  | none =>
    rw [hget] at hreaches
    exact hreaches

theorem write (h : M.Holds o (i :: code)) (hi : EmitsStore M.names M.constants name i) :
    M.Runs c n o (v :: stack) (EvalM.write name v) fun _ ↦ M.StandsAt (o + i.size) stack := by
  rintro s p ⟨slots, hagrees, rfl⟩
  have hreaches := reaches_perform (c := c) h slots (v :: stack) s.script
  cases hi with
  | @slot slot hslot =>
    obtain ⟨w, hget, hvalue⟩ := hagrees.listed _ _ hslot
    have hlt : slot.toNat < slots.size := (Array.getElem?_eq_some_iff.mp hvalue).1
    have hwrite : EvalM.write name v s = .done () { s with locals := s.locals.set name v } := by
      rw [EvalM.write, if_pos (by rw [Binding.contains, hget]; rfl)]
    have hperform : M.perform c (o + 3) slots (v :: stack) s.script (.storeLocal slot) =
        M.state (o + 3) (slots.setIfInBounds slot.toNat v) stack s.script := by
      simp only [perform, Frame.execute, Frame.withTop, if_pos hlt]
      rfl
    rw [hwrite]
    exact ⟨_, ⟨_, hagrees.set M.nodup hslot v, rfl⟩, hperform ▸ hreaches⟩
  | @bindingVar index hname hindex =>
    have hget := hagrees.unlisted name hname
    have hwrite : EvalM.write name v s = .done ()
        { s with script := { s.script with binding := s.script.binding.set name v } } := by
      rw [EvalM.write, if_neg (by rw [Binding.contains, hget]; exact Bool.false_ne_true)]
    have hperform : M.perform c (o + 5) slots (v :: stack) s.script (.storeVar index) =
        M.state (o + 5) slots stack { s.script with binding := s.script.binding.set name v } := by
      simp only [perform, Frame.execute, Frame.withString, Frame.withTop, hindex M.addressable]
      rfl
    rw [hwrite]
    exact ⟨_, ⟨slots, hagrees, rfl⟩, hperform ▸ hreaches⟩

end Runs

end MethodContext

/-! ## Calls -/

/-- The machine, having begun a call on behalf of the frames, comes to the outcome. -/
def Answers (c : Class) (n : Nat) (p : Progress) (frames : List Frame) : Option Outcome → Prop
  | some ⟨.ok v, s⟩ => Reaches c p (Execution.resume frames s v)
  | some ⟨.error e, s⟩ => Reaches c p (.finished ⟨.error e, s⟩)
  | none => Survives c n p

namespace Answers

variable {c : Class} {n : Nat} {p q : Progress} {frames : List Frame} {outcome : Option Outcome}

theorem of_reaches (hpq : Reaches c p q) (h : Answers c n q frames outcome) :
    Answers c n p frames outcome := by
  match outcome, h with
  | some ⟨.ok _, _⟩, h => exact hpq.trans h
  | some ⟨.error _, _⟩, h => exact hpq.trans h
  | none, h => exact Reaches.survives hpq h

theorem step {e : Execution} (h : Answers c n (e.step c) frames outcome) :
    Answers c (n + 1) (.running e) frames outcome := by
  match outcome, h with
  | some ⟨.ok _, _⟩, h => exact Reaches.head h
  | some ⟨.error _, _⟩, h => exact Reaches.head h
  | none, h => exact Survives.succ h

end Answers

/-- The machine calls methods as the host does, with `depth` frames waiting. -/
structure Host.Answered (h : Host) (c : Class) (n depth : Nat) : Prop where
  className_eq : h.className = c.name
  answers : ∀ (name : String) (arguments : List Value) (frames : List Frame) (s : ScriptState),
    frames.length = depth →
      Answers c n (Execution.call c name arguments frames s) frames (h.call name arguments s)

theorem MethodContext.Runs.call {M : MethodContext} {c : Class} {n o : Nat} {h : Host}
    (hh : h.Answered c n (M.callers.length + 1)) {index : UInt32} {count : UInt16}
    {code : List Instr} (hcode : M.Holds o (.invokeMethod index count :: code)) {name : String}
    (hindex : M.constants.HasString index name) {vs : List Value} (hcount : count.toNat = vs.length)
    (stack : List Value) :
    M.Runs c n o (vs.reverse ++ stack) (EvalM.call h name vs)
      fun v ↦ M.StandsAt (o + 7) (v :: stack) := by
  rintro s p ⟨slots, hagrees, rfl⟩
  have hreaches := reaches_perform (c := c) hcode slots (vs.reverse ++ stack) s.script
  rw [perform_invokeMethod hindex hcount] at hreaches
  -- The frame waits behind the call, without the arguments; the result is pushed on its stack.
  have hanswers := hh.answers name vs
    (⟨M.method, M.constants, o + 7, slots, stack⟩ :: M.callers) s.script rfl
  refine Simulates.of_reaches hreaches ?_
  rw [EvalM.call]
  cases hcall : h.call name vs s.script with
  | none =>
    rw [hcall] at hanswers
    exact hanswers
  | some outcome =>
    rw [hcall] at hanswers
    obtain ⟨r, script⟩ := outcome
    cases r with
    | ok v => exact ⟨_, ⟨slots, hagrees, rfl⟩, hanswers⟩
    | error e => exact hanswers

end BuildScript
