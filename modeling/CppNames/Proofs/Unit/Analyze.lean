import CppNames.Proofs.Binding.Bind
import CppNames.Proofs.Grammar.Parse
import CppNames.Unit.Analyze

namespace CppNames

/-!
# Passes over parsed texts

The parser, the binder and the pass over uses know of one another only through the tree and
the scopes noted on it.  Put together, what the parser answers is what binding relies on, and
what binding leaves is what the pass over uses relies on.
-/

open Reference (Passes Walkable)

/-- The tree of a text fits throughout. -/
theorem fits_of_parse {file source : String} {options : ParseOptions} {parsed : Parsed}
    (parses : parse file source options = .ok parsed) : parsed.tree.Throughout Tree.Fits := by
  rcases parse_shaped parses with ⟨plain, read, shaped, same⟩
  apply Tree.Throughout.fits_of_strip
  rw [same, Tree.strip_numbered]
  exact shaped.fits

/-- Binding a tree that fits ends without meeting a malformed construct, and where it ends
with a result, its notes let the pass over uses through. -/
theorem bind_passes {tree : Node} (fits : tree.Throughout Tree.Fits) (file : String)
    (options : BindOptions) (start : Bound) :
    Passes (bind file options tree start).2 ∧ ∀ log, (bind file options tree start).2 = .ok log →
      ∀ element ∈ tree.present, Walkable (bind file options tree start).1.annotations element := by
  have leaves := Binding.bindTree_binds fits ⟨file, options, Table.global⟩
    ⟨start.table, start.annotations, none, []⟩
  unfold bind
  dsimp only
  cases result : Binding.bindTree tree ⟨file, options, Table.global⟩
      ⟨start.table, start.annotations, none, []⟩ with
  | error error after =>
    rw [result] at leaves
    rcases leaves with ⟨fault, rfl⟩
    exact ⟨.fault fault, fun log impossible => nomatch impossible⟩
  | ok value after =>
    rw [result] at leaves
    exact ⟨.ok _, fun log _ => leaves.2 after.annotations (.refl _)⟩

/-- Finding uses in a tree whose elements are walkable meets no malformed construct. -/
theorem findReferences_passes {tree : Node} {annotations : Annotations}
    (walkable : ∀ element ∈ tree.present, Walkable annotations element) (table : Table)
    (file : String) (resolveCalls : Bool) :
    Passes (findReferences ⟨table, annotations, file, resolveCalls⟩ tree) :=
  Reference.passes_visitElements fun element member =>
    walkable element member _ (.refl annotations) _ _

theorem Reference.Passes.mapError {α ε : Type} (function : ε → Fault) (result : Except ε α) :
    Passes (result.mapError fun error => .fault (function error)) := by
  cases result with
  | error error => exact .fault _
  | ok value => exact .ok value

/-- What has a result whatever its errors are renamed to. -/
theorem ok_of_mapError {α ε δ : Type} {rename : ε → δ} {result : Except ε α} {value : α}
    (renamed : result.mapError rename = .ok value) : result = .ok value := by
  cases result with
  | error error => cases renamed
  | ok other =>
    cases renamed
    rfl

theorem Source.resolved_passes (source : Source) (options : Options) {tree : Node}
    (fits : tree.Throughout Tree.Fits) : Passes (source.resolved options tree) := by
  have bound := bind_passes fits source.file
    ⟨options.reportMemberAccess, options.extendedConstantFolding⟩ ⟨emptyTable options, []⟩
  refine .bindOk bound.1 fun log same => ?_
  exact .bind (findReferences_passes (bound.2 log same) _ _ _) fun found => .ok _

theorem Source.analyze_passes (source : Source) (options : Options) :
    Passes (source.analyze options) := by
  refine .bindOk (.mapError _ _) fun parsed same => ?_
  have parses := ok_of_mapError same
  have behind : ∀ findings : Table × Findings, Passes (do
      let declarations ← findings.1.declarations.mapError .fault
      return ({
        tree := parsed.tree
        table := findings.1
        references := findings.2.references
        report := {
          file := source.file
          log := (parsed.log ++ findings.2.log).sorted
          misfits := parsed.errors
          declarations := declarations
          unresolved := Report.unresolvedAmong findings.2.references
          referenceCount := findings.2.references.length } } : Analysis)) :=
    fun findings => .bind (.mapError (fun fault => fault) _) fun declarations => .ok _
  dsimp only
  split
  · exact .bind (source.resolved_passes options (fits_of_parse parses)) behind
  · exact .bind (.ok _) behind

/-- No text is malformed.  The tree that parsing answers can be bound into every table under
all options, and where binding ends with a result its uses can be found under all options,
without meeting a construct that lacks something.  So analysing a text never stops at one.
Where the parser has no answer there is no tree to say this of. -/
theorem passes_of_parse (file source : String) (parsing : ParseOptions) (binding : BindOptions)
    (resolveCalls : Bool) (start : Bound) :
    (match parse file source parsing with
      | .error _ => True
      | .ok parsed =>
        let bound := bind file binding parsed.tree start
        Passes bound.2 ∧ ∀ log, bound.2 = .ok log →
          Passes (findReferences ⟨bound.1.table, bound.1.annotations, file, resolveCalls⟩
            parsed.tree)) ∧
      ∀ options : Options, Passes (Source.analyze ⟨file, source⟩ options) := by
  refine ⟨?_, fun options => Source.analyze_passes _ options⟩
  split
  · trivial
  · next parsed parses =>
    have bound := bind_passes (fits_of_parse parses) file binding start
    exact ⟨bound.1, fun log ended => findReferences_passes (bound.2 log ended) _ _ _⟩

end CppNames
