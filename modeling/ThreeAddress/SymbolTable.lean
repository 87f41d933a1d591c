import ThreeAddress.OrderedMap
import ThreeAddress.Text.Decimal
import ThreeAddress.Text.Quoted

/-!
# Symbol tables

One flat table of all names that a program uses, in the order in which they came: the variables that it
declares, and the temporaries that hold the values of its operators.

## Main definitions

* `Symbol` with its `Content`, and `SymbolTable`.
* `SymbolTable.declare`, `SymbolTable.update` and `SymbolTable.fresh` change a table.
* `SymbolTable.Request` is what a table can be asked for, and `SymbolTable.perform` answers it in place.
* `SymbolTable.statistics` counts the symbols.
-/

namespace ThreeAddress

/-- What a name stands for. -/
inductive SymbolKind where
  | declared
  | temporary
deriving DecidableEq

/-- The word for a kind of symbol. -/
def SymbolKind.word : SymbolKind → String
  | declared => "variable"
  | temporary => "temporary"

/-- What a symbol holds: its value if it has one, and whether it counts as initialized. -/
structure Content where
  value : Option Int64
  initialized : Bool
deriving DecidableEq

namespace Content

/-- What a new symbol holds; one that comes with a value is initialized. -/
def ofValue (value : Option Int64) : Content :=
  ⟨value, value.isSome⟩

/-- Where the content of a new symbol is asked for, its value is enough. -/
instance : Coe (Option Int64) Content :=
  ⟨ofValue⟩

end Content

/-- A name with its kind, what it holds, and the line of its declaration if it has one. -/
structure Symbol where
  name : String
  kind : SymbolKind
  content : Content
  line : Option Nat
deriving DecidableEq

namespace Symbol

/-- A symbol as it comes to a table. -/
def new (name : String) (kind : SymbolKind) (value : Option Int64) (line : Option Nat) : Symbol :=
  ⟨name, kind, value, line⟩

/-- The value of the symbol, if it has one. -/
def value (s : Symbol) : Option Int64 :=
  s.content.value

/-- Whether the symbol counts as initialized. -/
def isInitialized (s : Symbol) : Bool :=
  s.content.initialized

/-- Temporaries are told by their kind, not by their name. -/
def isTemporary (s : Symbol) : Bool :=
  s.kind = .temporary

/-- The symbol with a new value, which initializes it. -/
def assign (s : Symbol) (value : Int64) : Symbol :=
  { s with content := ⟨some value, true⟩ }

section

variable (name : String) (kind : SymbolKind) (value : Option Int64) (line : Option Nat)

@[simp] theorem name_new : (new name kind value line).name = name := rfl

@[simp] theorem kind_new : (new name kind value line).kind = kind := rfl

@[simp] theorem value_new : (new name kind value line).value = value := rfl

@[simp] theorem line_new : (new name kind value line).line = line := rfl

@[simp] theorem isInitialized_new : (new name kind value line).isInitialized = value.isSome := rfl

end

section

variable (s : Symbol) (value : Int64)

@[simp] theorem name_assign : (s.assign value).name = s.name := rfl

@[simp] theorem value_assign : (s.assign value).value = some value := rfl

@[simp] theorem isInitialized_assign : (s.assign value).isInitialized = true := rfl

@[simp] theorem isTemporary_assign : (s.assign value).isTemporary = s.isTemporary := rfl

end

end Symbol

/-- What can be wrong with the use of a name. -/
inductive NameFault where
  | redeclared (name : String) (line : Option Nat)
  | undeclared (name : String)
deriving DecidableEq

/-- The text of a fault. -/
def NameFault.message : NameFault → String
  | redeclared name line =>
    "variable " ++ Quoted.ofString name ++ " was already declared"
      ++ (match line with
        | some n => " (line " ++ Decimal.ofNat n ++ ")"
        | none => "")
  | undeclared name => "variable " ++ Quoted.ofString name ++ " is not declared"

/-- How many symbols of each sort a table has. -/
structure Statistics where
  total : Nat
  userVariables : Nat
  temporaries : Nat
  initializedVariables : Nat
deriving DecidableEq

namespace Statistics

/-- The numbers of no symbols. -/
def zero : Statistics :=
  ⟨0, 0, 0, 0⟩

/-- The numbers with one symbol more; only a variable counts as initialized. -/
def count (n : Statistics) (s : Symbol) : Statistics :=
  match s.kind with
  | .temporary => { n with total := n.total + 1, temporaries := n.temporaries + 1 }
  | .declared =>
    { n with
      total := n.total + 1
      userVariables := n.userVariables + 1
      initializedVariables := n.initializedVariables + if s.isInitialized then 1 else 0 }

end Statistics

/-- Symbols by name, and the number of temporaries that were asked for. -/
structure SymbolTable where
  symbols : OrderedMap String Symbol
  allocated : Nat

namespace SymbolTable

/-- The table without symbols. -/
def empty : SymbolTable :=
  ⟨.empty, 0⟩

/-- The symbol of a name. -/
def get? (t : SymbolTable) (name : String) : Option Symbol :=
  t.symbols.get? name

/-- Tells whether a name has a symbol. -/
def contains (t : SymbolTable) (name : String) : Bool :=
  (t.get? name).isSome

/-- The symbols, in the order in which they came. -/
def toList (t : SymbolTable) : List Symbol :=
  t.symbols.entries.map Prod.snd

/-- The number of symbols. -/
def size (t : SymbolTable) : Nat :=
  t.toList.length

/-- The variables, in the order in which they came. -/
def userVariables (t : SymbolTable) : List Symbol :=
  t.toList.filter fun s => !s.isTemporary

/-- The temporaries, in the order in which they came. -/
def temporaries (t : SymbolTable) : List Symbol :=
  t.toList.filter Symbol.isTemporary

/-- The table with a symbol under its name. -/
def put (t : SymbolTable) (s : Symbol) : SymbolTable :=
  { t with symbols := t.symbols.insert s.name s }

/-- Adds a symbol; a name that has one already is refused. -/
def declare (t : SymbolTable) (s : Symbol) : Except NameFault SymbolTable :=
  if t.contains s.name then .error (.redeclared s.name s.line) else .ok (t.put s)

/-- Gives the symbol of a name a value. -/
def update (t : SymbolTable) (name : String) (value : Int64) : Except NameFault SymbolTable :=
  match t.get? name with
  | some s => .ok { t with symbols := t.symbols.insert name (s.assign value) }
  | none => .error (.undeclared name)

/-- The name of temporary number `n`. A percent sign begins no name of a source, so the names of
temporaries and of variables never meet there. -/
def temporaryName (n : Nat) : String :=
  "%t" ++ Decimal.ofNat n

/-- The next temporary. If its name has a symbol already, that is the one. -/
def fresh (t : SymbolTable) : Symbol × SymbolTable :=
  let name := temporaryName t.allocated
  let counted := { t with allocated := t.allocated + 1 }
  match t.get? name with
  | some s => (s, counted)
  | none =>
    let s := Symbol.new name .temporary none none
    (s, counted.put s)

/-! ## Requests in place -/

/-- What a table can be asked for. -/
inductive Request where
  | declare (name : String) (kind : SymbolKind) (value : Option Int64) (line : Option Nat)
  | update (name : String) (value : Int64)
  | fresh
deriving DecidableEq

/-- An action on a table. A refusal keeps what was changed before it. -/
abbrev Action :=
  EStateM NameFault SymbolTable

/-- Puts a symbol under its name. -/
def write (s : Symbol) : Action Unit :=
  modify fun t => t.put s

/-- Gives the symbol `s` of a name another content. -/
def overwrite (name : String) (s : Symbol) (content : Content) : Action Unit :=
  modify fun t => { t with symbols := t.symbols.insert name { s with content := content } }

/-- Answers a request in place, and yields the symbol that it is about. -/
def perform : Request → Action Symbol
  | .declare name kind value line => do
    if (← get).contains name then throw (.redeclared name line)
    else
      let s := Symbol.new name kind value line
      write s
      return s
  | .update name value => do
    match (← get).get? name with
    | none => throw (.undeclared name)
    | some s =>
      overwrite name s ⟨some value, s.isInitialized⟩
      overwrite name s ⟨some value, true⟩
      return s.assign value
  | .fresh => do
    let name := temporaryName (← get).allocated
    modify fun t => { t with allocated := t.allocated + 1 }
    match (← get).get? name with
    | some s => return s
    | none =>
      let s := Symbol.new name .temporary none none
      write s
      return s

/-- How many symbols of each sort the table has. -/
def statistics (t : SymbolTable) : Statistics :=
  t.toList.foldl Statistics.count .zero

end SymbolTable

end ThreeAddress
