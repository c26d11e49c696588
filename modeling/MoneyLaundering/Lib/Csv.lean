import MoneyLaundering.Lib.Bytes

/-!
# Rows of comma-separated values

The reader of Python's `csv` module for the default dialect: fields between commas, double quotes
around fields, two of them for one inside. A row is read from one line of text, character by
character and then the end of the line.
-/

namespace Csv

inductive ReadState where
  | startRecord | startField | inField | inQuotedField | quoteInQuotedField | eatCrnl
  deriving DecidableEq

structure Reader where
  state : ReadState := .startRecord
  field : List Char := []
  fields : List (List Char) := []

/-- `csv.field_size_limit()`. -/
def fieldLimit : Nat := 131072

def Reader.addChar (r : Reader) (c : Char) (state : ReadState) : Except String Reader := do
  Except.raiseIf (fieldLimit ≤ r.field.length) "field larger than field limit (131072)"
  return { r with field := r.field ++ [c], state }

def Reader.saveField (r : Reader) (state : ReadState) : Reader :=
  { state, field := [], fields := r.fields ++ [r.field] }

/-- The end of a record: at the end of the line, or at a line break inside it. -/
def Reader.endRecord (r : Reader) : Option Char → Reader
  | none => r.saveField .startRecord
  | some _ => r.saveField .eatCrnl

/-- At the beginning of a field. -/
def Reader.beginField (r : Reader) : Option Char → Except String Reader
  | none => return r.endRecord none
  | some c =>
    if c = '\n' ∨ c = '\r' then return r.endRecord (some c)
    else if c = '"' then return { r with state := .inQuotedField }
    else if c = ',' then return r.saveField .startField
    else r.addChar c .inField

/-- One character, or the end of the line. -/
def Reader.processChar (r : Reader) (c : Option Char) : Except String Reader :=
  match r.state, c with
  | .startRecord, none => return r
  | .startRecord, some c =>
    if c = '\n' ∨ c = '\r' then return { r with state := .eatCrnl } else r.beginField (some c)
  | .startField, c => r.beginField c
  | .inField, none => return r.endRecord none
  | .inField, some c =>
    if c = '\n' ∨ c = '\r' then return r.endRecord (some c)
    else if c = ',' then return r.saveField .startField
    else r.addChar c .inField
  | .inQuotedField, none => return r
  | .inQuotedField, some c =>
    if c = '"' then return { r with state := .quoteInQuotedField } else r.addChar c .inQuotedField
  | .quoteInQuotedField, none => return r.endRecord none
  | .quoteInQuotedField, some c =>
    if c = '"' then r.addChar c .inQuotedField
    else if c = ',' then return r.saveField .startField
    else if c = '\n' ∨ c = '\r' then return r.endRecord (some c)
    else r.addChar c .inField
  | .eatCrnl, none => return { r with state := .startRecord }
  | .eatCrnl, some c =>
    if c = '\n' ∨ c = '\r' then return r
    else .error
      "new-line character seen in unquoted field - do you need to open the file with newline=''?"

/-- The row of a line that is the whole input. A quote that is still open at the end is closed
there. -/
def readRow (line : List Char) : Except String (List (List Char)) := do
  let r ← (line.map some ++ [none]).foldlM Reader.processChar {}
  return if r.state = .inQuotedField then r.fields ++ [r.field] else r.fields

example : readRow "a,\"b,\"\"c\"\"\",".toList = .ok ["a".toList, "b,\"c\"".toList, []] := by rfl

end Csv
