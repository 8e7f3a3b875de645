import BuildScript.Bytecode.Wire

/-!
# Constant pools

The constants that the methods of a class share, one table for each kind. Strings and integers are
kept once; a float always gets an entry of its own, so that no comparison of floats decides what
code means. Strings double as names.
-/

namespace BuildScript

structure ConstantPool where
  strings : Array String := #[]
  integers : Array Int64 := #[]
  floats : Array Binary64 := #[]
deriving DecidableEq, Repr, Inhabited

namespace ConstantPool

/-- The index of `x` in the table, which is extended if it does not hold it. -/
def intern {α : Type} [BEq α] (table : Array α) (x : α) : Array α × UInt32 :=
  match table.findIdx? (· == x) with
  | some i => (table, i.toUInt32)
  | none => (table.push x, table.size.toUInt32)

def addString (pool : ConstantPool) (s : String) : ConstantPool × UInt32 :=
  let (strings, index) := intern pool.strings s
  ({ pool with strings }, index)

def addInteger (pool : ConstantPool) (n : Int64) : ConstantPool × UInt32 :=
  let (integers, index) := intern pool.integers n
  ({ pool with integers }, index)

def addFloat (pool : ConstantPool) (x : Binary64) : ConstantPool × UInt32 :=
  ({ pool with floats := pool.floats.push x }, pool.floats.size.toUInt32)

def getString? (pool : ConstantPool) (index : UInt32) : Option String := pool.strings[index.toNat]?

def getInteger? (pool : ConstantPool) (index : UInt32) : Option Int64 :=
  pool.integers[index.toNat]?

def getFloat? (pool : ConstantPool) (index : UInt32) : Option Binary64 := pool.floats[index.toNat]?

def encode (pool : ConstantPool) : List UInt8 :=
  Wire.table Wire.text pool.strings.toList ++
    (Wire.table Wire.integer pool.integers.toList ++ Wire.table Wire.float pool.floats.toList)

def reader : Reader ConstantPool := do
  let strings ← Reader.table Reader.text
  let integers ← Reader.table Reader.integer
  let floats ← Reader.table Reader.float
  return { strings, integers, floats }

end ConstantPool

end BuildScript
