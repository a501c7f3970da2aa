namespace CppNames

/-!
# Options

What an analysis reads a source text as, and which of its steps it takes.
-/

/-- The language of a source text. -/
inductive Language where
  | cxx
  /-- The words that only C++ reserves are identifiers. -/
  | c
  /-- The text is only parsed, and no names are bound. -/
  | none
  deriving DecidableEq, Repr

namespace Language

/-- The word for a language in written options. -/
def word : Language → String
  | .cxx => "cxx"
  | .c => "c"
  | .none => "none"

/-- The language with a given word. -/
def ofWord? (word : String) : Option Language :=
  [cxx, c, none].find? (·.word == word)

theorem ofWord?_word (language : Language) : ofWord? language.word = some language := by
  cases language <;> decide

end Language

/-- The options of an analysis. -/
structure Options where
  language : Language := .cxx
  /-- Whether a lookup from inside a class searches its base classes. -/
  searchBaseClasses : Bool := true
  /-- Whether casts and `sizeof` have constant values. -/
  extendedConstantFolding : Bool := false
  /-- Whether a call chooses one of the functions that its callee names. -/
  resolveCalls : Bool := true
  /-- Whether to warn of member names behind `.` and `->`. -/
  reportMemberAccess : Bool := true
  /-- How deep constructs may be nested. -/
  maxNestingDepth : Nat := 256
  deriving DecidableEq, Repr

namespace Options

/-- Whether names are bound. -/
def bindsNames (options : Options) : Bool := options.language != .none

/-- Whether the words that only C++ reserves are keywords. -/
def isCxx (options : Options) : Bool := options.language == .cxx

/-- The word for a truth in written options. -/
def truthWord (value : Bool) : String := if value then "true" else "false"

/-- Text in double quotes. -/
def quoted (text : String) : String := "\"" ++ text ++ "\""

/-- The options with their names, as they are written. -/
def entries (options : Options) : List (String × String) :=
  [("language", quoted options.language.word),
   ("searchBaseClasses", truthWord options.searchBaseClasses),
   ("extendedConstantFolding", truthWord options.extendedConstantFolding),
   ("resolveCalls", truthWord options.resolveCalls),
   ("reportMemberAccess", truthWord options.reportMemberAccess),
   ("maxNestingDepth", toString options.maxNestingDepth)]

/-- The names of the options, in order. -/
def names : List String := ({} : Options).entries.map (·.1)

/-- The options as one line of JSON. -/
def written (options : Options) : String :=
  let parts := options.entries.map fun (name, value) => quoted name ++ ":" ++ value
  "\x7b" ++ ",".intercalate parts ++ "\x7d"

end Options

end CppNames
