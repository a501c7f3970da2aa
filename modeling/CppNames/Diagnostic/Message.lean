namespace CppNames

/-!
# The message catalogue

Every problem that the analysis can report has one entry here: a code, a severity
and a template.  A template holds numbered placeholders in braces, which the
arguments of a report replace.  Codes below 1100 are lexical, the other codes below
2000 are grammatical, the 2000s concern declarations and lookup, and the 3000s
evaluation and calls.
-/

/-- How serious a reported problem is. -/
inductive Severity where
  | error
  | warning
  | note
  deriving DecidableEq, Repr, Inhabited

/-- The word for a severity in a printed report. -/
def Severity.text : Severity → String
  | .error => "error"
  | .warning => "warning"
  | .note => "note"

/-- The entries of the message catalogue. -/
inductive Message where
  | unterminatedString
  | unterminatedCharacter
  | unterminatedComment
  | invalidCharacter
  | expected
  | unexpectedToken
  | declarationExpected
  | expressionExpected
  | typeExpected
  | identifierExpected
  | nestingTooDeep
  | redeclaration
  | redefinition
  | previousDeclaration
  | ambiguousReference
  | cannotFindName
  | notNamespaceOrClass
  | notNamespace
  | noDeclarationMatches
  | memberAccessNotResolved
  | usingDirectiveInClass
  | notConstantExpression
  | noViableFunction
  | ambiguousCall
  | notCallable
  deriving DecidableEq, Repr, Inhabited

namespace Message

/-- The number by which a report names its message. -/
def code : Message → Nat
  | .unterminatedString => 1001
  | .unterminatedCharacter => 1002
  | .unterminatedComment => 1003
  | .invalidCharacter => 1004
  | .expected => 1101
  | .unexpectedToken => 1102
  | .declarationExpected => 1103
  | .expressionExpected => 1104
  | .typeExpected => 1105
  | .identifierExpected => 1106
  | .nestingTooDeep => 1107
  | .redeclaration => 2001
  | .redefinition => 2002
  | .previousDeclaration => 2003
  | .ambiguousReference => 2004
  | .cannotFindName => 2005
  | .notNamespaceOrClass => 2006
  | .notNamespace => 2007
  | .noDeclarationMatches => 2008
  | .memberAccessNotResolved => 2009
  | .usingDirectiveInClass => 2010
  | .notConstantExpression => 3001
  | .noViableFunction => 3002
  | .ambiguousCall => 3003
  | .notCallable => 3004

/-- The severity with which a message is reported. -/
def severity : Message → Severity
  | .previousDeclaration => .note
  | .memberAccessNotResolved | .notConstantExpression => .warning
  | _ => .error

/-- The text of a message, with `\x7b0\x7d` standing for its first argument. -/
def template : Message → String
  | .unterminatedString => "Unterminated string literal."
  | .unterminatedCharacter => "Unterminated character literal."
  | .unterminatedComment => "Unterminated comment."
  | .invalidCharacter => "Invalid character '\x7b0\x7d'."
  | .expected => "'\x7b0\x7d' expected."
  | .unexpectedToken => "Unexpected token '\x7b0\x7d'."
  | .declarationExpected => "Declaration expected."
  | .expressionExpected => "Expression expected."
  | .typeExpected => "Type expected."
  | .identifierExpected => "Identifier expected."
  | .nestingTooDeep => "Nesting exceeds the maximum depth of \x7b0\x7d."
  | .redeclaration => "'\x7b0\x7d' is already declared in this scope."
  | .redefinition => "Redefinition of '\x7b0\x7d'."
  | .previousDeclaration => "Previous declaration of '\x7b0\x7d' is here."
  | .ambiguousReference => "Reference to '\x7b0\x7d' is ambiguous; candidates: \x7b1\x7d."
  | .cannotFindName => "Cannot find name '\x7b0\x7d'."
  | .notNamespaceOrClass => "'\x7b0\x7d' is not a namespace or class."
  | .notNamespace => "'\x7b0\x7d' is not a namespace."
  | .noDeclarationMatches =>
    "No prior declaration matches the qualified definition of '\x7b0\x7d'."
  | .memberAccessNotResolved => "Member access '\x7b0\x7d' is not resolved."
  | .usingDirectiveInClass => "A using-directive is not allowed in a class scope."
  | .notConstantExpression => "'\x7b0\x7d' is not an integral constant expression."
  | .noViableFunction => "No viable function for call to '\x7b0\x7d'."
  | .ambiguousCall => "Call to '\x7b0\x7d' is ambiguous; candidates: \x7b1\x7d."
  | .notCallable => "'\x7b0\x7d' is not a function."

/-- The catalogue in the order of its codes. -/
def catalogue : List Message :=
  [.unterminatedString, .unterminatedCharacter, .unterminatedComment, .invalidCharacter,
   .expected, .unexpectedToken, .declarationExpected, .expressionExpected, .typeExpected,
   .identifierExpected, .nestingTooDeep, .redeclaration, .redefinition, .previousDeclaration,
   .ambiguousReference, .cannotFindName, .notNamespaceOrClass, .notNamespace,
   .noDeclarationMatches, .memberAccessNotResolved, .usingDirectiveInClass,
   .notConstantExpression, .noViableFunction, .ambiguousCall, .notCallable]

/-- The message with a given code. -/
def ofCode? (code : Nat) : Option Message := catalogue.find? (·.code == code)

theorem ofCode?_code (message : Message) : ofCode? message.code = some message := by
  cases message <;> decide

end Message

/-! ## Filling a template -/

/-- The text with every occurrence of a nonempty pattern replaced, found from the
left and without overlap. -/
def replaceAll (pattern replacement : List Char) : List Char → List Char
  | [] => []
  | c :: rest =>
    if pattern.isPrefixOf (c :: rest) then
      replacement ++ replaceAll pattern replacement (rest.drop (pattern.length - 1))
    else
      c :: replaceAll pattern replacement rest
  termination_by text => text.length
  decreasing_by
    all_goals simp only [List.length_cons, List.length_drop]; omega

/-- The placeholder that stands for the argument with a given number. -/
def placeholder (number : Nat) : List Char := '{' :: (toString number).toList ++ ['}']

/-- Replaces the placeholders from a given number on.  Each replacement runs over the
whole text so far, so a placeholder inside an argument is filled by a later
argument. -/
def fillFrom (number : Nat) (text : List Char) : List String → List Char
  | [] => text
  | argument :: rest =>
    fillFrom (number + 1) (replaceAll (placeholder number) argument.toList text) rest

/-- The template with its placeholders replaced by the arguments in turn. -/
def fillTemplate (template : String) (arguments : List String) : String :=
  String.ofList (fillFrom 0 template.toList arguments)

end CppNames
