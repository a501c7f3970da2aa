namespace CppNames
namespace Token

/-!
# Kinds of tokens

A token is the end of the text, an identifier, a literal, a keyword or a punctuator.
Keywords and punctuators are fixed texts, listed once in the tables `keywords` and
`punctuators`; what is a keyword, and which punctuator a text begins with, is read off
those tables.
-/

/-- What a token is. -/
inductive Kind where
  | unknown
  | endOfFile
  | identifier
  | integerLiteral
  | floatLiteral
  | charLiteral
  | stringLiteral
  | kwNamespace
  | kwUsing
  | kwClass
  | kwStruct
  | kwUnion
  | kwEnum
  | kwTypedef
  | kwTemplate
  | kwTypename
  | kwConst
  | kwVolatile
  | kwStatic
  | kwExtern
  | kwInline
  | kwVirtual
  | kwExplicit
  | kwFriend
  | kwMutable
  | kwRegister
  | kwAuto
  | kwPublic
  | kwPrivate
  | kwProtected
  | kwOperator
  | kwReturn
  | kwIf
  | kwElse
  | kwWhile
  | kwDo
  | kwFor
  | kwBreak
  | kwContinue
  | kwSizeof
  | kwTypeid
  | kwNew
  | kwDelete
  | kwThrow
  | kwThis
  | kwTrue
  | kwFalse
  | kwBool
  | kwChar
  | kwWChar
  | kwShort
  | kwInt
  | kwLong
  | kwSigned
  | kwUnsigned
  | kwFloat
  | kwDouble
  | kwVoid
  | openBrace
  | closeBrace
  | openParen
  | closeParen
  | openBracket
  | closeBracket
  | semicolon
  | colon
  | colonColon
  | comma
  | dot
  | arrow
  | dotStar
  | arrowStar
  | ellipsis
  | question
  | plus
  | minus
  | star
  | slash
  | percent
  | amp
  | bar
  | caret
  | tilde
  | exclaim
  | less
  | greater
  | lessEquals
  | greaterEquals
  | equalsEquals
  | exclaimEquals
  | ampAmp
  | barBar
  | lessLess
  | greaterGreater
  | plusPlus
  | minusMinus
  | equals
  | plusEquals
  | minusEquals
  | starEquals
  | slashEquals
  | percentEquals
  | ampEquals
  | barEquals
  | caretEquals
  | lessLessEquals
  | greaterGreaterEquals
  deriving DecidableEq, Repr, Inhabited

/-- The keywords with their kinds. -/
def keywords : List (String × Kind) :=
  [("namespace", .kwNamespace), ("using", .kwUsing), ("class", .kwClass),
   ("struct", .kwStruct), ("union", .kwUnion), ("enum", .kwEnum),
   ("typedef", .kwTypedef), ("template", .kwTemplate), ("typename", .kwTypename),
   ("const", .kwConst), ("volatile", .kwVolatile), ("static", .kwStatic),
   ("extern", .kwExtern), ("inline", .kwInline), ("virtual", .kwVirtual),
   ("explicit", .kwExplicit), ("friend", .kwFriend), ("mutable", .kwMutable),
   ("register", .kwRegister), ("auto", .kwAuto), ("public", .kwPublic),
   ("private", .kwPrivate), ("protected", .kwProtected), ("operator", .kwOperator),
   ("return", .kwReturn), ("if", .kwIf), ("else", .kwElse), ("while", .kwWhile),
   ("do", .kwDo), ("for", .kwFor), ("break", .kwBreak), ("continue", .kwContinue),
   ("sizeof", .kwSizeof), ("typeid", .kwTypeid), ("new", .kwNew),
   ("delete", .kwDelete), ("throw", .kwThrow), ("this", .kwThis), ("true", .kwTrue),
   ("false", .kwFalse), ("bool", .kwBool), ("char", .kwChar), ("wchar_t", .kwWChar),
   ("short", .kwShort), ("int", .kwInt), ("long", .kwLong), ("signed", .kwSigned),
   ("unsigned", .kwUnsigned), ("float", .kwFloat), ("double", .kwDouble),
   ("void", .kwVoid)]

/-- The operators that assign. -/
def assignmentOperators : List (String × Kind) :=
  [("=", .equals), ("+=", .plusEquals), ("-=", .minusEquals), ("*=", .starEquals),
   ("/=", .slashEquals), ("%=", .percentEquals), ("&=", .ampEquals),
   ("|=", .barEquals), ("^=", .caretEquals), ("<<=", .lessLessEquals),
   (">>=", .greaterGreaterEquals)]

/-- The punctuators with their kinds. -/
def punctuators : List (String × Kind) :=
  [("\x7b", .openBrace), ("\x7d", .closeBrace), ("(", .openParen), (")", .closeParen),
   ("[", .openBracket), ("]", .closeBracket), (";", .semicolon), (":", .colon),
   ("::", .colonColon), (",", .comma), (".", .dot), ("->", .arrow), (".*", .dotStar),
   ("->*", .arrowStar), ("...", .ellipsis), ("?", .question), ("+", .plus),
   ("-", .minus), ("*", .star), ("/", .slash), ("%", .percent), ("&", .amp),
   ("|", .bar), ("^", .caret), ("~", .tilde), ("!", .exclaim), ("<", .less),
   (">", .greater), ("<=", .lessEquals), (">=", .greaterEquals),
   ("==", .equalsEquals), ("!=", .exclaimEquals), ("&&", .ampAmp), ("||", .barBar),
   ("<<", .lessLess), (">>", .greaterGreater), ("++", .plusPlus),
   ("--", .minusMinus)] ++ assignmentOperators

namespace Kind

/-- The kind of the keyword with a given text. -/
def ofKeyword? (text : String) : Option Kind :=
  (keywords.find? (·.1 == text)).map (·.2)

/-- Whether the kind is a keyword. -/
def isKeyword (kind : Kind) : Bool := keywords.any (·.2 == kind)

/-- Whether the kind is a literal. -/
def isLiteral : Kind → Bool
  | .integerLiteral | .floatLiteral | .charLiteral | .stringLiteral => true
  | _ => false

/-- Whether the kind is a punctuator. -/
def isPunctuation (kind : Kind) : Bool := punctuators.any (·.2 == kind)

/-- Whether the kind is an operator that assigns. -/
def isAssignmentOperator (kind : Kind) : Bool := assignmentOperators.any (·.2 == kind)

/-- Whether the keyword spells a builtin type, alone or together with others. -/
def isBuiltinType : Kind → Bool
  | .kwBool | .kwChar | .kwWChar | .kwShort | .kwInt | .kwLong | .kwSigned
  | .kwUnsigned | .kwFloat | .kwDouble | .kwVoid => true
  | _ => false

/-- Whether the keyword is `const` or `volatile`. -/
def isCvQualifier : Kind → Bool
  | .kwConst | .kwVolatile => true
  | _ => false

/-- Whether the keyword is a storage class or a function specifier. -/
def isDeclSpecifier : Kind → Bool
  | .kwStatic | .kwExtern | .kwInline | .kwVirtual | .kwExplicit | .kwFriend
  | .kwMutable | .kwRegister | .kwAuto | .kwTypedef => true
  | _ => false

/-- Whether the keyword is `public`, `private` or `protected`. -/
def isAccessSpecifier : Kind → Bool
  | .kwPublic | .kwPrivate | .kwProtected => true
  | _ => false

/-- Whether the keyword is reserved in C++ and an identifier in C. -/
def isCxxOnly : Kind → Bool
  | .kwNamespace | .kwUsing | .kwClass | .kwTemplate | .kwTypename | .kwVirtual
  | .kwExplicit | .kwFriend | .kwMutable | .kwPublic | .kwPrivate | .kwProtected
  | .kwOperator | .kwTypeid | .kwNew | .kwDelete | .kwThrow | .kwThis | .kwTrue
  | .kwFalse | .kwBool => true
  | _ => false

end Kind

/-- The keyword kind of a word where C++ is read, or where C reserves the word too, and
an identifier otherwise. -/
def Kind.ofWord (cxx : Bool) (text : String) : Kind :=
  match Kind.ofKeyword? text with
  | some kind => if cxx || !kind.isCxxOnly then kind else .identifier
  | none => .identifier

end Token
end CppNames
