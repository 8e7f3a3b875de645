import BuildScript.Number.Binary64

/-!
# TOML documents

A document is a table. Entries come into it by key-value lines, by table headers and by headers of
table arrays, and the rules about what may be defined twice are stated here, apart from the text.

## Design

A table remembers how it came to be, since that decides what may still be added to it. All changes
walk down a path of keys, so they are recursions on the path.
-/

namespace BuildScript.Toml

/-- How a table came to be. -/
inductive Origin where
  /-- It was written in braces and is complete. -/
  | inline
  /-- It has a header of its own. -/
  | header
  /-- Only a table below it has a header. -/
  | implied
  /-- It stands in front of a dot in a key. -/
  | dotted
deriving DecidableEq, Repr

inductive Value where
  | string (s : String)
  | integer (n : Int64)
  | float (x : Binary64)
  | boolean (b : Bool)
  /-- A date, a time, or both, as written. -/
  | dateTime (text : String)
  | array (elements : List Value)
  | table (origin : Origin) (entries : List (String × Value))
  /-- Tables that share one header, last first. -/
  | tables (tables : List (List (String × Value)))
deriving Repr, Inhabited

/-- The entries of a table, in the order in which they were first mentioned. -/
abbrev Entries := List (String × Value)

namespace Entries

def get? (es : Entries) (key : String) : Option Value := es.lookup key

/-- Gives a key another value; a new key comes last. -/
def put (key : String) (v : Value) : Entries → Entries
  | [] => [(key, v)]
  | (k, w) :: es => if k = key then (k, v) :: es else (k, w) :: put key v es

/-- Adds an entry, unless the key has a value. -/
def add? (es : Entries) (key : String) (v : Value) : Option Entries :=
  if (es.get? key).isSome then none else some (es.put key v)

/-- Adds an entry below tables named by the front of a dotted key. Such tables are created by the
dots alone: a table with a header, whether its own or one below it, is not added to by a dotted
key. -/
def addDotted? : List String → String → Value → Entries → Option Entries
  | [], key, v, es => es.add? key v
  | p :: ps, key, v, es =>
    match es.get? p with
    | none => (addDotted? ps key v []).map fun inner ↦ es.put p (.table .dotted inner)
    | some (.table .dotted inner) =>
      (addDotted? ps key v inner).map fun inner ↦ es.put p (.table .dotted inner)
    | some (.table .implied inner) =>
      if ps.isEmpty then none
      else (addDotted? ps key v inner).map fun inner ↦ es.put p (.table .implied inner)
    | some (.tables (last :: before)) =>
      if ps.isEmpty then none
      else (addDotted? ps key v last).map fun last ↦ es.put p (.tables (last :: before))
    | _ => none

/-- Changes the table at a path of a header. Tables that are missing on the way are implied; of
tables that share a header the last one is meant. -/
def within? (change : Entries → Option Entries) : List String → Entries → Option Entries
  | [], es => change es
  | p :: ps, es =>
    match es.get? p with
    | none => (within? change ps []).map fun inner ↦ es.put p (.table .implied inner)
    | some (.table .inline _) => none
    | some (.table origin inner) =>
      (within? change ps inner).map fun inner ↦ es.put p (.table origin inner)
    | some (.tables (last :: before)) =>
      (within? change ps last).map fun last ↦ es.put p (.tables (last :: before))
    | _ => none

/-- Opens a table by its header. A table has one header at most. -/
def openTable? (parents : List String) (key : String) : Entries → Option Entries :=
  within? (fun es ↦
    match es.get? key with
    | none => some (es.put key (.table .header []))
    | some (.table .implied inner) => some (es.put key (.table .header inner))
    | _ => none) parents

/-- Opens the next of the tables that share a header. -/
def openNext? (parents : List String) (key : String) : Entries → Option Entries :=
  within? (fun es ↦
    match es.get? key with
    | none => some (es.put key (.tables [[]]))
    | some (.tables before) => some (es.put key (.tables ([] :: before)))
    | _ => none) parents

end Entries

end BuildScript.Toml
