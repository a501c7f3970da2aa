import CppNames.Encoding.Reading
import CppNames.Text.Span
import CppNames.Tree.Build

namespace CppNames

/-!
# Symbols

A symbol is something that a name stands for.  It may be declared several times; then it
remembers every node that declares it, and points to the node that defines it or, if
none does, to the first.
-/

/-- The index of a scope in its table. -/
structure ScopeId where
  index : Nat
  deriving DecidableEq, Repr, Inhabited

/-- The index of a symbol in its table. -/
structure SymbolId where
  index : Nat
  deriving DecidableEq, Repr, Inhabited

/-- A scope's index as it is printed. -/
def ScopeId.text (id : ScopeId) : String := s!"scope#{id.index}"

/-- A symbol's index as it is printed. -/
def SymbolId.text (id : SymbolId) : String := s!"symbol#{id.index}"

/-- How many arguments a function takes. -/
structure Signature where
  parameters : Nat
  defaults : Nat
  ellipsis : Bool
  deriving DecidableEq, Repr, Inhabited

/-- What a symbol is. -/
inductive SymbolKind where
  | object (defined : Bool)
  /-- A const variable of an integral type with a constant initializer. -/
  | constant (value : Option Int64)
  | enumerator (value : Option Int64)
  | classType (defined : Bool)
  | enumType
  | typedefName (aliased : Option SymbolId)
  | typeParameter
  | function (signature : Signature) (defined : Bool)
  | functionTemplate (signature : Signature) (defined : Bool)
  | classTemplate (defined : Bool)
  | namespaceName
  deriving DecidableEq, Repr, Inhabited

namespace SymbolKind

/-- Whether the symbol names a type. -/
def isTypeName : SymbolKind → Bool
  | .classType _ | .enumType | .typedefName _ | .typeParameter | .classTemplate _ => true
  | _ => false

/-- Whether the symbol is a function or a function template. -/
def isFunction : SymbolKind → Bool
  | .function .. | .functionTemplate .. => true
  | _ => false

/-- Whether the symbol cannot be seen in front of `::`. -/
def isValue : SymbolKind → Bool
  | .object _ | .constant _ | .enumerator _ | .function .. => true
  | _ => false

/-- Whether an elaborated type specifier can name the symbol. -/
def isElaborated : SymbolKind → Bool
  | .classType _ | .enumType => true
  | _ => false

/-- Whether the symbol is a class, an enumeration or a class template, the types whose
names objects and functions may share. -/
def isTagged : SymbolKind → Bool
  | .classType _ | .enumType | .classTemplate _ => true
  | _ => false

/-- The signature of a function or a function template. -/
def signature? : SymbolKind → Option Signature
  | .function signature _ | .functionTemplate signature _ => some signature
  | _ => none

/-- The value of a constant or an enumerator. -/
def value? : SymbolKind → Option Int64
  | .constant value | .enumerator value => value
  | _ => none

/-- Whether a declaration of this kind is a definition. -/
def isDefined : SymbolKind → Bool
  | .object defined | .classType defined | .classTemplate defined => defined
  | .function _ defined | .functionTemplate _ defined => defined
  | _ => true

/-- The words for the kind. -/
def words : SymbolKind → String
  | .object _ => "variable"
  | .constant _ => "constant"
  | .enumerator _ => "enumerator"
  | .classType _ => "class"
  | .enumType => "enum"
  | .typedefName _ => "typedef"
  | .typeParameter => "type parameter"
  | .function .. => "function"
  | .functionTemplate .. => "function template"
  | .classTemplate _ => "class template"
  | .namespaceName => "namespace"

end SymbolKind

/-- Something that a name stands for. -/
structure Symbol where
  /-- The name under which it is declared: a simple name, or a template-id for a
  specialization. -/
  name : Encoding
  kind : SymbolKind
  /-- The declared type; classes and enumerations are their own type. -/
  type : Encoding
  /-- The scope that it is declared in. -/
  scope : ScopeId
  /-- The node that defines it, or else the first that declares it. -/
  node : Tree.NodeId
  /-- The place of that node's name. -/
  span : Option Span
  /-- The nodes that declare it, in order. -/
  declarations : List Tree.NodeId
  /-- The scope that a namespace, a class or a function has. -/
  defines : Option ScopeId
  deriving DecidableEq, Repr, Inhabited

namespace Symbol

/-- The symbol that one declaration declares. -/
def ofDeclaration (name : Encoding) (kind : SymbolKind) (type : Encoding) (scope : ScopeId)
    (node : Tree.NodeId) (span : Option Span) : Symbol where
  name := name
  kind := kind
  type := type
  scope := scope
  node := node
  span := span
  declarations := [node]
  defines := none

/-- The name as in a program. -/
def nameText (symbol : Symbol) : Outcome String :=
  match symbol.name.identifier? with
  | some text => .ok text
  | none => symbol.name.shown

/-- Whether a definition was seen. -/
def isDefined (symbol : Symbol) : Bool := symbol.kind.isDefined

/-- Whether the symbol names a type. -/
def isTypeName (symbol : Symbol) : Bool := symbol.kind.isTypeName

/-- Whether the symbol is a function or a function template. -/
def isFunction (symbol : Symbol) : Bool := symbol.kind.isFunction

end Symbol

end CppNames
