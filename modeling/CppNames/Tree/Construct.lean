namespace CppNames

/-!
# Constructs

A list of a parse tree is marked with the construct that it spells.  `cons` marks a
plain list, which groups elements and means nothing by itself.
-/

/-- What a list of a parse tree spells. -/
inductive Construct where
  | cons
  | brace
  | block
  | classBody
  | declaration
  | declarator
  | parameterDeclaration
  | typedefDecl
  | templateDecl
  | typeParameter
  | namespaceSpec
  | usingDirective
  | usingDeclaration
  | linkageSpec
  | classSpec
  | enumSpec
  | accessSpec
  | name
  | typeId
  | exprStatement
  | returnStatement
  | ifStatement
  | whileStatement
  | doStatement
  | forStatement
  | breakStatement
  | continueStatement
  | commaExpr
  | assignExpr
  | condExpr
  | infixExpr
  | castExpr
  | unaryExpr
  | throwExpr
  | sizeofExpr
  | typeidExpr
  | newExpr
  | deleteExpr
  | arrayExpr
  | funcallExpr
  | postfixExpr
  | dotMemberExpr
  | arrowMemberExpr
  | parenExpr
  | fstyleCastExpr
  deriving DecidableEq, Repr, Inhabited

namespace Construct

/-- The statements among the constructs, with their names. -/
def statements : List (String × Construct) :=
  [("ExprStatement", .exprStatement), ("ReturnStatement", .returnStatement),
   ("IfStatement", .ifStatement), ("WhileStatement", .whileStatement),
   ("DoStatement", .doStatement), ("ForStatement", .forStatement),
   ("BreakStatement", .breakStatement), ("ContinueStatement", .continueStatement)]

/-- The expressions among the constructs, with their names. -/
def expressions : List (String × Construct) :=
  [("CommaExpr", .commaExpr), ("AssignExpr", .assignExpr), ("CondExpr", .condExpr),
   ("InfixExpr", .infixExpr), ("CastExpr", .castExpr), ("UnaryExpr", .unaryExpr),
   ("ThrowExpr", .throwExpr), ("SizeofExpr", .sizeofExpr), ("TypeidExpr", .typeidExpr),
   ("NewExpr", .newExpr), ("DeleteExpr", .deleteExpr), ("ArrayExpr", .arrayExpr),
   ("FuncallExpr", .funcallExpr), ("PostfixExpr", .postfixExpr),
   ("DotMemberExpr", .dotMemberExpr), ("ArrowMemberExpr", .arrowMemberExpr),
   ("ParenExpr", .parenExpr), ("FstyleCastExpr", .fstyleCastExpr)]

/-- The constructs that are neither statements nor expressions, with their names. -/
def others : List (String × Construct) :=
  [("Cons", .cons), ("Brace", .brace), ("Block", .block), ("ClassBody", .classBody),
   ("Declaration", .declaration), ("Declarator", .declarator),
   ("ParameterDeclaration", .parameterDeclaration), ("Typedef", .typedefDecl),
   ("TemplateDecl", .templateDecl), ("TypeParameter", .typeParameter),
   ("NamespaceSpec", .namespaceSpec), ("UsingDirective", .usingDirective),
   ("UsingDeclaration", .usingDeclaration), ("LinkageSpec", .linkageSpec),
   ("ClassSpec", .classSpec), ("EnumSpec", .enumSpec), ("AccessSpec", .accessSpec),
   ("Name", .name), ("TypeId", .typeId)]

/-- All constructs with the names that printed trees show. -/
def table : List (String × Construct) := others ++ statements ++ expressions

/-- The name of a construct in a printed tree. -/
def label (construct : Construct) : String :=
  ((table.find? (·.2 == construct)).map (·.1)).getD ""

/-- The construct with a given name. -/
def ofLabel? (label : String) : Option Construct :=
  (table.find? (·.1 == label)).map (·.2)

/-- Whether the construct is a statement. -/
def isStatement (construct : Construct) : Bool := statements.any (·.2 == construct)

/-- Whether the construct is an expression. -/
def isExpression (construct : Construct) : Bool := expressions.any (·.2 == construct)

end Construct

end CppNames
