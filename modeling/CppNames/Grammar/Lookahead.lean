import CppNames.Grammar.Cursor

namespace CppNames
namespace Grammar

/-!
# Looking ahead

Some constructs can be told apart only by tokens further on.  The questions below are
functions of the tokens in front and of the names declared so far; they take nothing.
-/

/-! ## Names ahead -/

/-- The tokens behind the `>` that matches a `<` in front.  Angles inside parentheses do
not count, and a list of template arguments holds no `;` and no brace. -/
def behindAngles? : (angles parens : Int) → List Token → Option (List Token)
  | _, _, [] => none
  | angles, parens, token :: rest =>
    let next (angles parens : Int) :=
      if angles ≤ 0 then some rest else behindAngles? angles parens rest
    match token.kind with
    | .less => next (if parens = 0 then angles + 1 else angles) parens
    | .greater => next (if parens = 0 then angles - 1 else angles) parens
    | .greaterGreater => next (if parens = 0 then angles - 2 else angles) parens
    | .openParen => next angles (parens + 1)
    | .closeParen => next angles (parens - 1)
    | .semicolon | .openBrace | .closeBrace | .endOfFile => none
    | _ => next angles parens

/-- The tokens behind a component of a name and the template arguments it may have. -/
def behindComponent? (templateNames : List String) (name : String) (behind : List Token) :
    Option (List Token) :=
  if kindOf behind == .less && templateNames.contains name then behindAngles? 0 0 behind
  else some behind

/-- The tokens behind the components of a name, with its last identifier.  The first
argument bounds the number of components. -/
def behindComponents? (templateNames : List String) :
    Nat → List Token → Option (List Token × String)
  | 0, _ => none
  | _ + 1, [] => none
  | count + 1, token :: rest =>
    if token.kind = .identifier then do
      let behind ← behindComponent? templateNames token.text rest
      if kindOf behind == .colonColon && kindOf (behind.drop 1) == .identifier then
        behindComponents? templateNames count (behind.drop 1)
      else some (behind, token.text)
    else none

/-- The tokens behind a name, which may be qualified and have template arguments, with
its last identifier. -/
def behindName? (state : State) (tokens : List Token) : Option (List Token × String) :=
  let start := if kindOf tokens == .colonColon then tokens.drop 1 else tokens
  behindComponents? state.templateNames (start.length + 1) start

/-! ## Questions -/

/-- Whether the keyword begins a type that is not just a name. -/
def isTypeKeyword (kind : Token.Kind) : Bool :=
  kind.isBuiltinType || kind.isCvQualifier ||
    [.kwClass, .kwStruct, .kwUnion, .kwEnum, .kwTypename].contains kind

/-- Whether tokens begin with a type. -/
def startsType (state : State) (tokens : List Token) : Bool :=
  let kind := kindOf tokens
  if isTypeKeyword kind then true
  else if kind == .identifier || kind == .colonColon then
    match behindName? state tokens with
    | some (behind, last) => state.typeNames.contains last && kindOf behind != .openParen
    | none => false
  else false

/-- Whether the next token begins a type. -/
def atType (state : State) : Bool := startsType state state.tokens

/-- Whether a statement that begins with a name declares something. -/
def atDeclaration (state : State) : Bool :=
  match behindName? state state.tokens with
  | none => false
  | some (behind, last) =>
    match kindOf behind with
    | .identifier => true
    | .openParen => false
    | _ => state.typeNames.contains last

/-- Whether the name in front is itself the declarator of a constructor, a destructor or
a conversion function. -/
def atSpecialMember (state : State) : Bool :=
  match behindName? state state.tokens with
  | none => false
  | some (behind, _) =>
    match kindOf behind with
    | .openParen => true
    | .colonColon => [.tilde, .kwOperator].contains (kindOf (behind.drop 1))
    | _ => false

/-- Whether a parenthesis with a type behind it is in front. -/
def atParenthesizedType (state : State) : Bool :=
  kindOf state.tokens == .openParen && startsType state (state.tokens.drop 1)

/-- Whether the parenthesis in front, behind a declared name, opens a parameter list and
not the arguments of an initializer.  Where only a name stands in the parentheses, they
hold a parameter outside function bodies and an argument inside. -/
def atParameters (state : State) : Bool :=
  let inside := state.tokens.drop 1
  let next := kindOf inside
  if next == .closeParen || next == .ellipsis || next == .colonColon ||
      next.isDeclSpecifier || startsType state inside then true
  else if next == .identifier then
    match kindOf (inside.drop 1) with
    | .identifier | .star | .amp | .colonColon | .less | .openBracket => true
    | .closeParen | .comma => state.blockDepth == 0
    | _ => false
  else false

/-- Whether the next token may begin an expression. -/
def atExpression (state : State) : Bool :=
  !([.semicolon, .closeParen, .closeBracket, .closeBrace, .comma, .colon, .endOfFile].contains
    (kindOf state.tokens))

end Grammar
end CppNames
