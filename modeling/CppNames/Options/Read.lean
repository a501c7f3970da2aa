import CppNames.Options.Basic
import CppNames.Options.Mark

namespace CppNames
namespace Options

/-!
# Reading options

Options are written as an object with their names, each at most once, or as an array of
their values in order.  What is left out has its default.
-/

/-- Why a text has no options. -/
inductive ReadError where
  /-- The text does not hold the values of options. -/
  | malformed
  /-- An option has a value that it cannot have. -/
  | invalid (option reason : String)
  /-- The file with the options cannot be read. -/
  | unreadable (path : String)
  deriving DecidableEq, Repr

/-- The error in one sentence. -/
def ReadError.message : ReadError → String
  | .malformed => "invalid options"
  | .invalid option reason => "option '" ++ option ++ "' " ++ reason
  | .unreadable path => "cannot read options file '" ++ path ++ "'"

/-- The value of one option. -/
inductive Value where
  | word (value : String)
  | truth (value : Bool)
  | natural (value : Nat)
  deriving DecidableEq, Repr

/-- The value that some marks write.  A word may stand alone, or in braces in front of
`null`. -/
def Value.ofMarks? : List Mark → Option Value
  | [.text text] => some (.word text)
  | [.openBrace, .text text, .colon, .null, .closeBrace] => some (.word text)
  | [.truth value] => some (.truth value)
  | [.natural value] => some (.natural value)
  | _ => none

/-- The options with the value of one of them changed. -/
def set? (options : Options) (name : String) (value : Value) : Option Options :=
  match name, value with
  | "language", .word word =>
    (Language.ofWord? word).map fun language => { options with language := language }
  | "searchBaseClasses", .truth value => some { options with searchBaseClasses := value }
  | "extendedConstantFolding", .truth value =>
    some { options with extendedConstantFolding := value }
  | "resolveCalls", .truth value => some { options with resolveCalls := value }
  | "reportMemberAccess", .truth value => some { options with reportMemberAccess := value }
  | "maxNestingDepth", .natural value =>
    if value < capacity 32 then some { options with maxNestingDepth := value } else none
  | _, _ => none

/-- The default options with the values of some of them changed. -/
def ofEntries? (entries : List (String × Value)) : Option Options :=
  entries.foldlM (fun options (name, value) => options.set? name value) {}

/-- The parts of a list of marks between its commas. -/
def commaParts : List Mark → List (List Mark)
  | [] => [[]]
  | .comma :: rest => [] :: commaParts rest
  | mark :: rest =>
    match commaParts rest with
    | [] => [[mark]]
    | first :: others => (mark :: first) :: others

/-- The members of an object or an array, given what stands between its brackets. -/
def members (inside : List Mark) : List (List Mark) :=
  if inside.isEmpty then [] else commaParts inside

/-- One member of an object. -/
def entry? : List Mark → Option (String × Value)
  | .text name :: .colon :: value => (Value.ofMarks? value).map fun value => (name, value)
  | _ => none

/-- The options of an object. -/
def ofObject? (inside : List Mark) : Option Options := do
  let entries ← (members inside).mapM entry?
  if (entries.map (·.1)).Nodup then ofEntries? entries else none

/-- The options of an array. -/
def ofArray? (inside : List Mark) : Option Options := do
  let values ← (members inside).mapM Value.ofMarks?
  if values.length ≤ names.length then ofEntries? (names.zip values) else none

/-- The options that some marks write. -/
def ofMarks? (marks : List Mark) : Option Options :=
  match marks, marks.getLast? with
  | .openBrace :: rest, some .closeBrace => ofObject? rest.dropLast
  | .openBracket :: rest, some .closeBracket => ofArray? rest.dropLast
  | _, _ => none

/-- Reads options from a text. -/
def read (text : String) : Except ReadError Options :=
  match marks? text >>= ofMarks? with
  | none => .error .malformed
  | some options =>
    if options.maxNestingDepth = 0 then
      .error (.invalid "maxNestingDepth" "must be at least 1")
    else .ok options

/-- Reads options from what a file holds, which is nothing if it cannot be read. -/
def ofFile (path : String) (content : Option String) : Except ReadError Options :=
  match content with
  | none => .error (.unreadable path)
  | some text => read text

end Options
end CppNames
