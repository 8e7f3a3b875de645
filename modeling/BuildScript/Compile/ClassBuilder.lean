import BuildScript.Bytecode.ClassFile

/-!
# Class builders

Class files put together from parts that arrive one by one. Replaying a class file into a builder
gives the class again, so something that stands between the two can change parts on the way.
-/

namespace BuildScript

/-- A part of a class file. -/
inductive ClassPart where
  | header (name : String) (superName : Option String) (flags : UInt32)
  | source (sourceFile : Option String)
  | constants (pool : ConstantPool)
  | method (m : CompiledMethod)

/-- The parts of a class file in the order in which they are replayed. -/
def ClassFile.parts (c : ClassFile) : List ClassPart :=
  .header c.name c.superName c.flags :: .source c.sourceFile :: .constants c.constants ::
    c.methods.map .method

/-- Takes a part in. Methods are added to those before; any other part replaces what was there. -/
def ClassFile.accept (c : ClassFile) : ClassPart → ClassFile
  | .header name superName flags => { c with name, superName, flags }
  | .source sourceFile => { c with sourceFile }
  | .constants constants => { c with constants }
  | .method m => { c with methods := c.methods ++ [m] }

/-- The class that the parts make up. Magic and version are the standard ones. -/
def ClassFile.ofParts (parts : List ClassPart) : ClassFile :=
  parts.foldl ClassFile.accept (ClassFile.empty "" none)

/-- Records a file name as the source of a class, whatever the compiler chose. -/
def ClassPart.stamp (sourceFile : Option String) : ClassPart → ClassPart
  | source _ => source sourceFile
  | part => part

end BuildScript
