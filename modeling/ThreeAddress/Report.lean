import ThreeAddress.Compilation.Basic

/-!
# Reports

What a compilation made, as plain text. A report has a section for each thing that was made: the table
of symbols and its statistics, the instructions, the final words of the variables, and the failure.

## Main definitions

* `SymbolTable.render`, `Statistics.render`, `Code.listing` and `renderBindings` are the parts.
* `Compilation.report` is the whole report.
-/

namespace ThreeAddress

namespace SymbolTable

/-- A row of the table: three padded columns, and the line. -/
def row (name kind value line : String) : String :=
  Text.padRight 10 name ++ Text.padRight 12 kind ++ Text.padRight 12 value ++ line

/-- The row of a symbol; a missing value is undefined, and a missing line is a dash. -/
def symbolRow (s : Symbol) : String :=
  row s.name s.kind.word
    (match s.value with
      | some value => Decimal.ofWord value
      | none => "undefined")
    (match s.line with
      | some line => Decimal.ofNat line
      | none => "-")

/-- The line under the heading. -/
def ruler : String :=
  String.ofList (List.replicate 40 '-')

/-- The table as text, with one row for each symbol. -/
def render (symbols : SymbolTable) : String :=
  "\n".intercalate (row "name" "kind" "value" "line" :: ruler :: symbols.toList.map symbolRow)

end SymbolTable

/-- The numbers of symbols as text. -/
def Statistics.render (s : Statistics) : String :=
  "\n".intercalate
    ["total symbols: " ++ Decimal.ofNat s.total, "user variables: " ++ Decimal.ofNat s.userVariables,
      "temporaries: " ++ Decimal.ofNat s.temporaries,
      "initialized variables: " ++ Decimal.ofNat s.initializedVariables]

namespace Code

/-- The instructions as numbered lines, where the first one has number `first`. -/
def numberedFrom (first : Nat) : List Instruction → List String
  | [] => []
  | i :: rest =>
    (Text.padLeft 4 (Decimal.ofNat first) ++ ". " ++ i.render) :: numberedFrom (first + 1) rest

/-- The instructions as text, numbered from one. -/
def listing (code : Code) : String :=
  "\n".intercalate (numberedFrom 1 code.toList)

end Code

/-- The words of variables as text, one on each line. -/
def renderBindings (words : List (String × Int64)) : String :=
  "\n".intercalate (words.map fun entry => entry.1 ++ " = " ++ Decimal.ofWord entry.2)

namespace Compilation

/-- The sections for the table of symbols, if there is one. -/
def symbolSections (c : Compilation) : List String :=
  match c.symbols with
  | some symbols =>
    ["symbol table\n" ++ symbols.render, "statistics\n" ++ symbols.statistics.render]
  | none => []

/-- The section for the instructions, if there are any. -/
def codeSections (c : Compilation) : List String :=
  match c.code with
  | some code => ["three-address code\n" ++ code.listing]
  | none => []

/-- The section for the final words of the variables, if the run came to its end. -/
def executionSections (c : Compilation) : List String :=
  match c.execution with
  | some execution =>
    ["final variables (" ++ Decimal.ofNat execution.steps ++ " steps)\n" ++ renderBindings c.bindings]
  | none => []

/-- The section for the failure, if there is one. -/
def failureSections (c : Compilation) : List String :=
  match c.failure with
  | some failure => ["error: " ++ failure.message]
  | none => []

/-- The whole report, with an empty line between two sections. -/
def report (c : Compilation) : String :=
  "\n\n".intercalate (c.symbolSections ++ c.codeSections ++ c.executionSections ++ c.failureSections)

end Compilation

end ThreeAddress
