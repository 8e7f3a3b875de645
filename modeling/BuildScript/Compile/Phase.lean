/-!
# Phases

The phases of a compilation, which every source passes through together with the others.
-/

namespace BuildScript

inductive Phase where
  | initialization
  /-- Texts become syntax trees. -/
  | parsing
  /-- Syntax trees are customised. -/
  | conversion
  /-- Names of classes are resolved. -/
  | semanticAnalysis
  /-- The syntax trees are complete. -/
  | canonicalization
  /-- Class nodes are made and verified. -/
  | instructionSelection
  /-- Class files are made. -/
  | classGeneration
  /-- Class files are written. -/
  | output
  | finalization
deriving DecidableEq, Repr

namespace Phase

/-- The phases in order. -/
def all : List Phase :=
  [initialization, parsing, conversion, semanticAnalysis, canonicalization, instructionSelection,
    classGeneration, output, finalization]

/-- The place of a phase in the order. -/
def index (p : Phase) : Nat := all.idxOf p

def name : Phase → String
  | initialization => "initialization"
  | parsing => "parsing"
  | conversion => "conversion"
  | semanticAnalysis => "semantic analysis"
  | canonicalization => "canonicalization"
  | instructionSelection => "instruction selection"
  | classGeneration => "class generation"
  | output => "output"
  | finalization => "finalization"

def ofName? (s : String) : Option Phase := all.find? fun p ↦ p.name == s

end Phase

end BuildScript
