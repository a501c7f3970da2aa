import CppNames.Grammar.Declaration

namespace CppNames
namespace Grammar

/-!
# Statements

Every statement other than a declaration or an expression begins with a keyword or a
brace.
-/

/-- A condition in parentheses. -/
def condition (g : Productions) : Production (List Tree.Plain) := do
  let opening ← expect .openParen "("
  let value ← g.expression
  let closing ← expect .closeParen ")"
  return [opening, value, closing]

/-- The alternative of a choice, if there is one. -/
def alternative (g : Productions) : Production (List Tree.Plain) := do
  match ← take? .kwElse with
  | none => return []
  | some keyword => return [keyword, ← g.statement]

/-- A choice. -/
def ifStatement (g : Productions) : Production Tree.Plain := do
  let keyword ← take
  let test ← condition g
  let chosen ← g.statement
  let otherwise ← alternative g
  return Tree.list .ifStatement ([keyword] ++ test ++ [chosen] ++ otherwise)

/-- A loop with its condition in front. -/
def whileStatement (g : Productions) : Production Tree.Plain := do
  let keyword ← take
  let test ← condition g
  let body ← g.statement
  return Tree.list .whileStatement ([keyword] ++ test ++ [body])

/-- A loop with its condition behind. -/
def doStatement (g : Productions) : Production Tree.Plain := do
  let keyword ← take
  let body ← g.statement
  let whileKeyword ← expect .kwWhile "while"
  let test ← condition g
  let semicolon ← expect .semicolon ";"
  return Tree.list .doStatement ([keyword, body, whileKeyword] ++ test ++ [semicolon])

/-- An expression, or nothing in front of a given token. -/
def optionalExpression (g : Productions) (closing : Token.Kind) : Production Tree.Plain := do
  if ← sees closing then return Tree.nil else g.expression

/-- A loop with a first statement, a condition and a step, of which the last two may be
missing. -/
def forStatement (g : Productions) : Production Tree.Plain := do
  let keyword ← take
  let opening ← expect .openParen "("
  let first ← g.statement
  let test ← optionalExpression g .semicolon
  let semicolon ← expect .semicolon ";"
  let step ← optionalExpression g .closeParen
  let closing ← expect .closeParen ")"
  let body ← g.statement
  return Tree.list .forStatement
    [keyword, opening, first, test, semicolon, step, closing, body]

/-- A return with or without a value. -/
def returnStatement (g : Productions) : Production Tree.Plain := do
  let keyword ← take
  let value ← optionalExpression g .semicolon
  let semicolon ← expect .semicolon ";"
  return Tree.list .returnStatement [keyword, value, semicolon]

/-- A keyword that is a statement of its own. -/
def jumpStatement (construct : Construct) : Production Tree.Plain := do
  let keyword ← take
  let semicolon ← expect .semicolon ";"
  return Tree.list construct [keyword, semicolon]

/-- An expression as a statement. -/
def expressionStatement (g : Productions) : Production Tree.Plain := do
  let value ← g.expression
  let semicolon ← expect .semicolon ";"
  return Tree.list .exprStatement [value, semicolon]

/-- The keywords that begin a declaration inside a function body. -/
def startsDeclaration (kind : Token.Kind) : Bool :=
  [.kwClass, .kwStruct, .kwUnion, .kwEnum].contains kind || kind.isDeclSpecifier ||
    kind.isCvQualifier || kind.isBuiltinType

/-- A statement that no keyword of its own begins: a declaration or an expression. -/
def plainStatement (g : Productions) (next : Token.Kind) : Production Tree.Plain := do
  if startsDeclaration next then simpleDeclaration g .block
  else if [.identifier, .colonColon].contains next && (← asks atDeclaration) then
    simpleDeclaration g .block
  else expressionStatement g

/-- A statement. -/
def statement (g : Productions) : Production Tree.Plain :=
  nested do
    match ← kind with
    | .openBrace => block g
    | .kwIf => ifStatement g
    | .kwWhile => whileStatement g
    | .kwDo => doStatement g
    | .kwFor => forStatement g
    | .kwReturn => returnStatement g
    | .kwBreak => jumpStatement .breakStatement
    | .kwContinue => jumpStatement .continueStatement
    | .semicolon => return Tree.list .exprStatement [Tree.nil, ← take]
    | .kwUsing => usingForm g
    | .kwTypedef => typedefDeclaration g
    | next => plainStatement g next

end Grammar
end CppNames
