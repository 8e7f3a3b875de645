import BuildScript.Bytecode.ClassFile
import BuildScript.Machine.RunError
import BuildScript.Text.Quoted

/-!
# Classes

A class is native, its methods being given as functions, or compiled, backed by a class file.

## Design

A `Class` holds the whole chain of its superclasses, nearest first. The chain is a list and so it is
finite: no lookup along it can fail to end, whatever the class files say. Loading gives every class
an identity, by which two classes of one name can be told apart.
-/

namespace BuildScript

/-- The variables of a script that are not locals, in the order in which they were first set. -/
structure Binding where
  pairs : List (String × Value) := []
deriving Repr, Inhabited

namespace Binding

def get? (b : Binding) (name : String) : Option Value := b.pairs.lookup name

def contains (b : Binding) (name : String) : Bool := (b.get? name).isSome

/-- Sets a variable among others. -/
def put (name : String) (v : Value) : List (String × Value) → List (String × Value)
  | [] => [(name, v)]
  | (n, w) :: rest => if n = name then (n, v) :: rest else (n, w) :: put name v rest

def set (b : Binding) (name : String) (v : Value) : Binding := ⟨put name v b.pairs⟩

theorem get?_set (b : Binding) (name other : String) (v : Value) :
    (b.set name v).get? other = if other = name then some v else b.get? other := by
  obtain ⟨pairs⟩ := b
  simp only [set, get?]
  induction pairs with
  | nil => simp [put, List.lookup_cons]; split <;> simp_all
  | cons p rest ih =>
    obtain ⟨n, w⟩ := p
    by_cases hn : n = name
    · subst hn
      by_cases ho : other = n
      · simp [put, ho]
      · simp [put, ho, List.lookup_cons, beq_eq_false_iff_ne.2 ho]
    · by_cases ho : other = n
      · subst ho
        simp [put, hn]
      · simp [put, hn, List.lookup_cons, beq_eq_false_iff_ne.2 ho, ih]

end Binding

/-- What running code can change: the binding and the text printed so far. -/
structure ScriptState where
  binding : Binding := {}
  output : String := ""
deriving Repr, Inhabited

def ScriptState.print (s : ScriptState) (text : String) : ScriptState :=
  { s with output := s.output ++ text }

/-- A method given as a function of the running class's name, the arguments and the state. -/
abbrev NativeMethod :=
  String → List Value → ScriptState → Except RunError Value × ScriptState

inductive ClassBody where
  | native (methods : List (String × NativeMethod))
  | compiled (file : ClassFile)

/-- One class of a chain. -/
structure ClassEntry where
  /-- The identity: different for any two classes that were made apart. -/
  id : Nat
  name : String
  body : ClassBody

structure Class where
  entry : ClassEntry
  /-- The superclass, its superclass, and so on. -/
  ancestors : List ClassEntry

/-- A method found in a class, with the constants it uses if it is compiled. -/
inductive FoundMethod where
  | native (run : NativeMethod)
  | compiled (owner : ClassEntry) (index : Nat) (method : CompiledMethod) (constants : ConstantPool)

namespace ClassEntry

def isNative (e : ClassEntry) : Bool :=
  match e.body with
  | .native _ => true
  | .compiled _ => false

def file? (e : ClassEntry) : Option ClassFile :=
  match e.body with
  | .native _ => none
  | .compiled file => some file

/-- Names of the methods that the class declares itself. Of native methods of one name only the
first can be called, so it stands for all. -/
def declaredMethods (e : ClassEntry) : List String :=
  match e.body with
  | .native methods => (methods.map (·.1)).eraseDups
  | .compiled file => file.methods.map (·.name)

/-- The method of that name which the class declares itself. -/
def findMethod? (e : ClassEntry) (name : String) : Option FoundMethod :=
  match e.body with
  | .native methods => (methods.lookup name).map .native
  | .compiled file =>
    (file.methods.findIdx? (·.name == name)).bind fun i ↦
      file.methods[i]?.map fun m ↦ .compiled e i m file.constants

end ClassEntry

namespace Class

/-- The class itself and its superclasses. -/
def chain (c : Class) : List ClassEntry := c.entry :: c.ancestors

def ofEntry (e : ClassEntry) (superclass : Option Class) : Class :=
  ⟨e, (superclass.map chain).getD []⟩

def compiled (id : Nat) (file : ClassFile) (superclass : Option Class) : Class :=
  ofEntry ⟨id, file.name, .compiled file⟩ superclass

def native (id : Nat) (name : String) (superclass : Option Class)
    (methods : List (String × NativeMethod)) : Class :=
  ofEntry ⟨id, name, .native methods⟩ superclass

def id (c : Class) : Nat := c.entry.id

def name (c : Class) : String := c.entry.name

def superclass? (c : Class) : Option Class :=
  match c.ancestors with
  | [] => none
  | e :: es => some ⟨e, es⟩

def isNative (c : Class) : Bool := c.entry.isNative

def sourceFile? (c : Class) : Option String := c.entry.file?.bind (·.sourceFile)

/-- Whether the class or one of its superclasses has the name. -/
def descendsFrom (c : Class) (name : String) : Bool := c.chain.any (·.name == name)

/-- The nearest method of that name along the chain. -/
def findMethod? (c : Class) (name : String) : Option FoundMethod :=
  c.chain.findSome? (·.findMethod? name)

/-- A description for logs. -/
def describe (c : Class) : String :=
  let superName :=
    match c.superclass? with
    | some s => "Some(" ++ quote s.name ++ ")"
    | none => "None"
  "Class \x7b name: " ++ quote c.name ++ ", super_class: " ++ superName ++ ", native: " ++
    (if c.isNative then "true" else "false") ++ " \x7d"

end Class

/-! ## Methods of the script class -/

/-- Prints a value, or nothing, and ends the line. -/
def printLine : NativeMethod := fun _ arguments s ↦
  match arguments with
  | [] => (.ok .null, s.print "\n")
  | [v] => (.ok .null, s.print (v.text ++ "\n"))
  | _ => (.error (.missingMethod scriptClassName "println" arguments.length), s)

def printValue : NativeMethod := fun _ arguments s ↦
  match arguments with
  | [v] => (.ok .null, s.print v.text)
  | _ => (.error (.missingMethod scriptClassName "print" arguments.length), s)

end BuildScript
