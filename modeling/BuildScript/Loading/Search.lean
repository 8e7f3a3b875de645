import BuildScript.Loading.World

/-!
# Searching for classes

A loader asks its parent first and then looks among its own classes, so no class on a class path can
take the place of one of the platform. A class path loader reads a class file, verifies it, loads
its superclass, and keeps the class from then on.

## Design

Nothing in class files prevents two classes from naming each other as superclass, and then the
search for superclasses never ends. So `load` takes a bound for the depth of the search and has the
answer `none` if it is too small; `World.load` supplies a bound that every search that ends stays
below, since such a search links each class file at most once for each loader.
-/

namespace BuildScript

/-- An operation on the world that may fail to load a class; `none` if the bound for its depth was
too small. -/
abbrev LoadM := ExceptT LoadError (StateT World Option)

namespace LoadM

def outOfDepth {α : Type} : LoadM α := fun _ ↦ none

end LoadM

/-- The class file of a name in the first of the roots that has one. The class has to have the name
and to be well formed. -/
def readClassFile (files : FileTree) (name : String) : List Path → Except LoadError (Option ClassFile)
  | [] => .ok none
  | root :: roots => do
    let path := root.classFile name
    match files.read path with
    | .error .notFound => readClassFile files name roots
    | .error e => throw (.io path e)
    | .ok bytes =>
      let file ← (ClassFile.decode bytes).mapError (.malformed path)
      if file.name != name then throw (.nameMismatch path name file.name)
      file.verify.mapError (.verify path)
      return some file

/-- Makes a class of a file and keeps it in a class path loader, unless the loader has one of that
name. -/
def World.defineIn (w : World) (id : LoaderId) (file : ClassFile) (superclass : Option Class) :
    Class × World :=
  let c := Class.compiled w.classCount file superclass
  let w := { w with classCount := w.classCount + 1 }
  match w.loader? id with
  | some (.classPath roots parent defined) =>
    match defined.lookup file.name with
    | some existing => (existing, w)
    | none =>
      let loader := Loader.classPath roots parent (defined ++ [(file.name, c)])
      (c, { w with loaders := w.loaders.setIfInBounds id loader })
  | _ => (c, w)

mutual

/-- Loads a class, the parent first. -/
def loadWithin : Nat → LoaderId → String → LoadM Class
  | 0, _, _ => LoadM.outOfDepth
  | n + 1, id, name => do
    let parent := ((← get).loader? id).bind (·.parent?)
    let inherited ←
      match parent with
      | none => pure none
      | some p =>
        try some <$> loadWithin n p name
        catch
          | .classNotFound _ => pure none
          | e => throw e
    match inherited with
    | some c => return c
    | none =>
      match ← findWithin n id name with
      | some c => return c
      | none => throw (.classNotFound name)

/-- Finds a class that the loader has itself, without asking its parent. -/
def findWithin : Nat → LoaderId → String → LoadM (Option Class)
  | 0, _, _ => LoadM.outOfDepth
  | n + 1, id, name => do
    let w ← get
    match w.loader? id with
    | none => return none
    | some (.system classes) => return classes.lookup name
    | some (.filtering delegate filter) =>
      if filter.allows name then
        try some <$> loadWithin n delegate name
        catch
          | .classNotFound _ => return none
          | e => throw e
      else return none
    | some (.classPath roots _ defined) =>
      match defined.lookup name with
      | some c => return some c
      | none =>
        match readClassFile w.files name roots with
        | .error e => throw e
        | .ok none => return none
        | .ok (some file) => some <$> linkWithin n id file

/-- Loads the superclass of a file and defines the class. -/
def linkWithin : Nat → LoaderId → ClassFile → LoadM Class
  | 0, _, _ => LoadM.outOfDepth
  | n + 1, id, file => do
    let superclass ←
      match file.superName with
      | none => pure none
      | some superName =>
        try some <$> loadWithin n id superName
        catch e => throw (.missingSuperclass file.name superName e)
    modifyGet (·.defineIn id file superclass)

end

/-- Defines a class from memory, or gives the class of that name which the loader has defined. -/
def defineWithin (n : Nat) (id : LoaderId) (file : ClassFile) : LoadM Class := do
  match ((← get).loader? id).bind (·.defined.lookup file.name) with
  | some existing => return existing
  | none =>
    match file.verify with
    | .error e => throw (.verify ⟨"<memory>/" ++ file.name⟩ e)
    | .ok _ => linkWithin n id file

namespace World

/-- No search that ends goes deeper. -/
def searchDepth (w : World) : Nat := 4 * (w.files.nodes.length + 2) * (w.loaders.size + 2)

/-- Runs a search with a depth that suffices for all that end. -/
def search {α : Type} (w : World) (op : Nat → LoadM α) : Except LoadError α × World :=
  match op w.searchDepth w with
  | some (result, w) => (result, w)
  | none => (.error (.classNotFound ""), { w with endless := true })

/-- Loads a class, the parents of the loader first. -/
def load (w : World) (id : LoaderId) (name : String) : Except LoadError Class × World :=
  w.search fun n ↦ loadWithin n id name

/-- Finds a class of the loader itself. -/
def find (w : World) (id : LoaderId) (name : String) : Except LoadError (Option Class) × World :=
  w.search fun n ↦ findWithin n id name

/-- Defines a class from memory. -/
def defineClass (w : World) (id : LoaderId) (file : ClassFile) : Except LoadError Class × World :=
  w.search fun n ↦ defineWithin n id file

end World

/-- Classes of class files in order, unverified, by name. A superclass is one of the classes before,
or else one that is known from elsewhere. -/
def Class.linked (known : String → Option Class) (classCount : Nat) (files : List ClassFile) :
    List (String × Class) :=
  files.foldl (fun made file ↦
    let superclass := file.superName.bind fun name ↦ (made.lookup name).or (known name)
    (file.name, .compiled (classCount + made.length) file superclass) :: made) []

/-- A class as a subclass of another; classes are compared by name. -/
def Class.asSubclass (c base : Class) : Except LoadError Class :=
  if c.descendsFrom base.name then .ok c else .error (.incompatibleClass c.name base.name)

end BuildScript
