import ThreeAddress.Text.Padded
import ThreeAddress.Text.Source

/-!
# Diagnostics

An error of some kind, located in a source or not, with the activities it interrupted.

## Main definitions

* `Diagnostic` holds the kind, the snippet of the source and the contexts.
* `Diagnostic.locatedAt` gives an error its place, `Diagnostic.addContext` one more context.
* `Diagnostic.render` is the text for a reader: the kind, the snippet with a caret under the place, and
  one line for each context.
-/

namespace ThreeAddress

/-- An error of kind `κ`; the contexts are the activities it interrupted, innermost first. -/
structure Diagnostic (κ : Type) where
  kind : κ
  file : Option String
  snippet : Option Snippet
  contexts : List String

namespace Diagnostic

variable {κ : Type}

/-- An error that has no place yet. -/
def ofKind (kind : κ) : Diagnostic κ :=
  ⟨kind, none, none, []⟩

/-- The same error at byte `offset` of a source; an earlier place is forgotten. -/
def withSource (d : Diagnostic κ) (offset : Nat) (source : Source) : Diagnostic κ :=
  { d with file := source.file, snippet := source.locate? offset }

/-- An error of the given kind at the beginning of a span. -/
def locatedAt (kind : κ) (span : Span) (source : Source) : Diagnostic κ :=
  (ofKind kind).withSource span.offset source

/-- The same error, which also interrupted the outer activity `context`. -/
def addContext (d : Diagnostic κ) (context : String) : Diagnostic κ :=
  { d with contexts := d.contexts ++ [context] }

/-- The place of the error, if it has one. -/
def position (d : Diagnostic κ) : Option Position :=
  d.snippet.map Snippet.position

/-- The name of the file as a reader is told it. -/
def fileName (d : Diagnostic κ) : String :=
  d.file.getD "<unknown source>"

/-- The place, the line of the source, and a caret under the column. -/
def renderSnippet (fileName : String) (s : Snippet) : String :=
  "\n   --> " ++ fileName ++ ":" ++ s.position.render
    ++ "\n    |\n" ++ Text.padLeft 3 (Decimal.ofNat s.position.line) ++ " | " ++ s.line
    ++ "\n    | " ++ Text.padLeft s.position.col "^"

/-- The text of the error, where `message` is the text of a kind. -/
def render (message : κ → String) (d : Diagnostic κ) : String :=
  message d.kind
    ++ (match d.snippet with
      | some s => renderSnippet d.fileName s
      | none => "")
    ++ String.join (d.contexts.map fun context => "\nwhile " ++ context)

@[simp] theorem kind_addContext (d : Diagnostic κ) (context : String) :
    (d.addContext context).kind = d.kind := rfl

@[simp] theorem snippet_addContext (d : Diagnostic κ) (context : String) :
    (d.addContext context).snippet = d.snippet := rfl

@[simp] theorem contexts_addContext (d : Diagnostic κ) (context : String) :
    (d.addContext context).contexts = d.contexts ++ [context] := rfl

end Diagnostic

end ThreeAddress
