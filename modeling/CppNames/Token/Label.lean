import CppNames.Token.Kind

namespace CppNames
namespace Token

/-!
# Names of token kinds

A report names the kind of a token by a word of its own, which is not the text of the
token.
-/

/-- The kinds with the names that reports use. -/
def labels : List (String × Kind) :=
  [("Unknown", .unknown), ("EndOfFile", .endOfFile), ("Identifier", .identifier),
   ("IntegerLiteral", .integerLiteral), ("FloatLiteral", .floatLiteral),
   ("CharLiteral", .charLiteral), ("StringLiteral", .stringLiteral),
   ("Namespace", .kwNamespace), ("Using", .kwUsing), ("Class", .kwClass),
   ("Struct", .kwStruct), ("Union", .kwUnion), ("Enum", .kwEnum), ("Typedef", .kwTypedef),
   ("Template", .kwTemplate), ("Typename", .kwTypename), ("Const", .kwConst),
   ("Volatile", .kwVolatile), ("Static", .kwStatic), ("Extern", .kwExtern),
   ("Inline", .kwInline), ("Virtual", .kwVirtual), ("Explicit", .kwExplicit),
   ("Friend", .kwFriend), ("Mutable", .kwMutable), ("Register", .kwRegister),
   ("Auto", .kwAuto), ("Public", .kwPublic), ("Private", .kwPrivate),
   ("Protected", .kwProtected), ("Operator", .kwOperator), ("Return", .kwReturn),
   ("If", .kwIf), ("Else", .kwElse), ("While", .kwWhile), ("Do", .kwDo), ("For", .kwFor),
   ("Break", .kwBreak), ("Continue", .kwContinue), ("Sizeof", .kwSizeof),
   ("Typeid", .kwTypeid), ("New", .kwNew), ("Delete", .kwDelete), ("Throw", .kwThrow),
   ("This", .kwThis), ("True", .kwTrue), ("False", .kwFalse), ("Bool", .kwBool),
   ("Char", .kwChar), ("WChar", .kwWChar), ("Short", .kwShort), ("Int", .kwInt),
   ("Long", .kwLong), ("Signed", .kwSigned), ("Unsigned", .kwUnsigned), ("Float", .kwFloat),
   ("Double", .kwDouble), ("Void", .kwVoid), ("OpenBrace", .openBrace),
   ("CloseBrace", .closeBrace), ("OpenParen", .openParen), ("CloseParen", .closeParen),
   ("OpenBracket", .openBracket), ("CloseBracket", .closeBracket),
   ("Semicolon", .semicolon), ("Colon", .colon), ("ColonColon", .colonColon),
   ("Comma", .comma), ("Dot", .dot), ("Arrow", .arrow), ("DotStar", .dotStar),
   ("ArrowStar", .arrowStar), ("Ellipsis", .ellipsis), ("Question", .question),
   ("Plus", .plus), ("Minus", .minus), ("Star", .star), ("Slash", .slash),
   ("Percent", .percent), ("Amp", .amp), ("Bar", .bar), ("Caret", .caret),
   ("Tilde", .tilde), ("Exclaim", .exclaim), ("Less", .less), ("Greater", .greater),
   ("LessEquals", .lessEquals), ("GreaterEquals", .greaterEquals),
   ("EqualsEquals", .equalsEquals), ("ExclaimEquals", .exclaimEquals), ("AmpAmp", .ampAmp),
   ("BarBar", .barBar), ("LessLess", .lessLess), ("GreaterGreater", .greaterGreater),
   ("PlusPlus", .plusPlus), ("MinusMinus", .minusMinus), ("Equals", .equals),
   ("PlusEquals", .plusEquals), ("MinusEquals", .minusEquals), ("StarEquals", .starEquals),
   ("SlashEquals", .slashEquals), ("PercentEquals", .percentEquals),
   ("AmpEquals", .ampEquals), ("BarEquals", .barEquals), ("CaretEquals", .caretEquals),
   ("LessLessEquals", .lessLessEquals), ("GreaterGreaterEquals", .greaterGreaterEquals)]

/-- The name of a kind in a report. -/
def Kind.label (kind : Kind) : String := ((labels.find? (·.2 == kind)).map (·.1)).getD ""

/-- The kind with a given name. -/
def Kind.ofLabel? (label : String) : Option Kind :=
  (labels.find? (·.1 == label)).map (·.2)

end Token
end CppNames
