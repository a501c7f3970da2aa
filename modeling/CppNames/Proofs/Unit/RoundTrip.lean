import CppNames.Proofs.Grammar.Parse
import CppNames.Proofs.Tree.Faithful

namespace CppNames

/-!
# Round trips

The text written for a tree should be read as the source was.  Where nothing was reported this
comes down to the tokens of the tree: the round trip succeeds exactly if they are the tokens
of the source, some `>>` being split.  The parser falls short of that where `Tree.Spells` has
a rule for it: at the `typename` of a using-declaration and at storage classes that do not
stand in front.
-/

open Grammar (Halved)
open Token (WellRead shown)
open CppNames.Tree (flat isFixed isWritable)

/-- Whether the kinds and texts that are read from the text of a tree are those of the
source. -/
def RoundTrips (file : String) (cxx : Bool) (source : String) (tree : Node) : Prop :=
  ∃ text, tree.written = .ok text ∧
    (tokenize file cxx text).1.map shown = (tokenize file cxx source).1.map shown

/-! ## The tokens of a text without reports -/

theorem tokenize_quiet {file source : String} {cxx : Bool}
    (quiet : (tokenize file cxx source).2 = []) :
    ∃ pos, (tokenize file cxx source).1 =
        (tokenize file cxx source).1.dropLast ++ [Token.endAt pos] ∧
      Scanner.WellScanned (.ofText file cxx source) (tokenize file cxx source).1.dropLast := by
  rcases (Scanner.ofText file cxx source).scanAll_reads quiet with ⟨tokens, pos, all, scanned⟩
  have same : (tokenize file cxx source).1 = tokens ++ [Token.endAt pos] := all
  rw [same, List.dropLast_concat]
  exact ⟨pos, rfl, scanned⟩

/-- Where nothing was reported all tokens of the text were read for the tree. -/
theorem spells_of_parse {file source : String} {options : ParseOptions} {parsed : Parsed}
    (parses : parse file source options = .ok parsed)
    (quiet : (tokenize file options.cxx source).2 = []) (accepted : parsed.errors = []) :
    ∃ plain spelled, parsed.tree = plain.numbered ∧ Tree.Spells plain spelled ∧
      Halved (tokenize file options.cxx source).1.dropLast spelled := by
  rcases tokenize_quiet quiet with ⟨pos, _, scanned⟩
  rcases of_parse parses with ⟨tree, state, runs, rfl⟩
  have noEnd := fun token member => (scanned.wellRead token member).noEnd
  rcases Grammar.unit_readsAll runs noEnd rfl with ⟨spelled, shaped, whole⟩
  exact ⟨tree, spelled, rfl, shaped.spells, whole (List.map_eq_nil_iff.mp accepted)⟩

/-! ## Round trips -/

/-- The tokens of a tree are read again as those of the source only if they are the tokens
read for it. -/
theorem roundTrips_of_spells {file source : String} {cxx : Bool} {plain : Tree.Plain} {tree : Node}
    {spelled : List Token} (quiet : (tokenize file cxx source).2 = [])
    (same : tree.tokens = plain.tokens) (spells : Tree.Spells plain spelled)
    (halved : Halved (tokenize file cxx source).1.dropLast spelled) :
    RoundTrips file cxx source tree ↔ isWritable tree.tokens = true ∧
      Halved (tokenize file cxx source).1.dropLast tree.tokens := by
  rcases tokenize_quiet quiet with ⟨pos, all, scanned⟩
  have spelledRead := Tree.wellRead_of_halved halved scanned.wellRead
  have held : ∀ token ∈ tree.tokens, WellRead cxx token := fun token member =>
    spelledRead token (spells.subperm.subset (same ▸ member))
  have source : (tokenize file cxx source).1.map shown =
      (tokenize file cxx source).1.dropLast.map shown ++ [(.endOfFile, "")] := by
    rw [all, List.map_append, List.dropLast_concat]
    rfl
  constructor
  · rintro ⟨text, written, reads⟩
    unfold Tree.written at written
    split at written
    · next writable =>
      cases written
      rw [Tree.tokenize_written held, source] at reads
      have agree := List.append_cancel_right reads
      rw [← Tree.merged_of_halved halved scanned.wellRead scanned.parted] at agree
      have equal : flat tree.tokens = flat spelled := by
        rw [← Tree.flat_merged held, ← Tree.flat_merged spelledRead, agree]
      rw [same] at equal
      refine ⟨writable, ?_⟩
      rw [same, spells.tokens_eq equal]
      exact halved
    · cases written
  · rintro ⟨writable, whole⟩
    refine ⟨Tree.writeTokens "" none tree.tokens, ?_, ?_⟩
    · unfold Tree.written
      rw [if_pos writable]
    · rw [Tree.tokenize_written held, source,
        Tree.merged_of_halved whole scanned.wellRead scanned.parted]

/-- A source that is read without reports makes the round trip exactly if the tree holds the
tokens of the source in their order, some `>>` being split.  Its tree holds no token more often
than the source, and all that is neither a `typename` nor a storage class in its order; so a
source without these words does make the round trip.  Where the source is not too long for
positions, every tree can be written. -/
theorem roundTrips_iff {file source : String} {options : ParseOptions} {parsed : Parsed}
    (parses : parse file source options = .ok parsed)
    (quiet : (tokenize file options.cxx source).2 = []) (accepted : parsed.errors = []) :
    let read := (tokenize file options.cxx source).1.dropLast
    let held := parsed.tree.tokens
    (RoundTrips file options.cxx source parsed.tree ↔ isWritable held = true ∧ Halved read held) ∧
      (∃ plain spelled, parsed.tree = plain.numbered ∧ Halved read spelled ∧
        Tree.Spells plain spelled ∧ held.Subperm spelled ∧
        held.filter isFixed = spelled.filter isFixed) ∧
      ((∀ token ∈ read, isFixed token = true) → Halved read held) ∧
      (isPosition (byteLength source.toList) = true → isWritable held = true) := by
  intro read held
  rcases tokenize_quiet quiet with ⟨pos, _, scanned⟩
  rcases spells_of_parse parses quiet accepted with ⟨plain, spelled, numbered, spells, halved⟩
  have same : held = plain.tokens := by
    have tokens := Tree.tokens_strip parsed.tree
    rw [numbered, Tree.strip_numbered, ← numbered] at tokens
    exact tokens.symm
  have heldOnce : held.Subperm spelled := same ▸ spells.subperm
  have fixed : held.filter isFixed = spelled.filter isFixed := same ▸ spells.filter_isFixed
  have spelledRead := Tree.wellRead_of_halved halved scanned.wellRead
  refine ⟨roundTrips_of_spells quiet same spells halved,
    ⟨plain, spelled, numbered, halved, spells, heldOnce, fixed⟩, fun plainWords => ?_,
    fun position => ?_⟩
  · have spelledFixed : ∀ token ∈ spelled, isFixed token = true :=
      halved.all (fun _ _ _ => ⟨rfl, rfl⟩) plainWords
    have heldFixed : ∀ token ∈ held, isFixed token = true := fun token member =>
      spelledFixed token (heldOnce.subset member)
    rw [List.filter_eq_self.mpr heldFixed, List.filter_eq_self.mpr spelledFixed] at fixed
    rw [fixed]
    exact halved
  · have within := Tree.within_of_halved halved scanned.wellRead scanned.within
    refine Tree.isWritable_of_within (fun token member => spelledRead token (heldOnce.subset member))
      (fun token member => within token (heldOnce.subset member)) ?_
    unfold Scanner.stop Scanner.ofText
    rw [Nat.zero_add]
    exact position

/-- The `typename` of a using-declaration is lost on the way. -/
theorem not_roundTrips_of_typename : ∃ parsed,
    parse "" "using typename A::x;" {} = .ok parsed ∧
      (tokenize "" true "using typename A::x;").2 = [] ∧ parsed.errors = [] ∧
      ¬ RoundTrips "" true "using typename A::x;" parsed.tree := by
  have quiet : (tokenize "" true "using typename A::x;").2 = [] := by decide +kernel
  have six : (tokenize "" true "using typename A::x;").1.dropLast.length = 6 := by decide +kernel
  have five : (parse "" "using typename A::x;" {}).toOption.map
      (fun parsed => (parsed.errors, parsed.tree.tokens.length)) = some ([], 5) := by decide +kernel
  cases parses : parse "" "using typename A::x;" {} with
  | error stop => rw [parses] at five; cases five
  | ok parsed =>
    rw [parses] at five
    rcases Prod.mk.inj (Option.some.inj five) with ⟨accepted, held⟩
    refine ⟨parsed, rfl, quiet, accepted, fun trips => ?_⟩
    have most := ((roundTrips_iff parses quiet accepted).1.mp trips).2.length_le
    rw [held] at most
    exact absurd (six.symm.le.trans most) (by decide)

/-! ## Tokens without a tree -/

/-- The tokens of a text as one plain list. -/
def Tree.ofTokens (tokens : List Token) : Tree.Plain := Tree.seq (tokens.map Tree.ofToken)

theorem Tree.tokens_ofTokens (tokens : List Token) : (Tree.ofTokens tokens).tokens = tokens := by
  unfold Tree.ofTokens
  rw [Tree.tokens_seq, List.flatMap_map]
  exact List.flatMap_singleton' tokens

/-- Writing and reading are inverse on the tokens of a text that is read without reports, in
either language and however its `>>` are split: what is written for the list of these tokens
is read without reports and gives the kinds and texts of the source again.  Only the size of
the source can keep the list from being written, when its positions cannot be told. -/
theorem rereads_of_halved {file source : String} {cxx : Bool} {split : List Token}
    (quiet : (tokenize file cxx source).2 = [])
    (halved : Halved (tokenize file cxx source).1.dropLast split) :
    (isPosition (byteLength source.toList) = true →
        ∃ text, (Tree.ofTokens split).written = .ok text) ∧
      ∀ text, (Tree.ofTokens split).written = .ok text → ∀ again,
        (tokenize again cxx text).2 = [] ∧
          (tokenize again cxx text).1.map shown = (tokenize file cxx source).1.map shown := by
  rcases tokenize_quiet quiet with ⟨pos, all, scanned⟩
  have read : ∀ token ∈ split, WellRead cxx token :=
    Tree.wellRead_of_halved halved scanned.wellRead
  have within := Tree.within_of_halved halved scanned.wellRead scanned.within
  constructor
  · intro position
    have writable : isWritable split = true := by
      refine Tree.isWritable_of_within read within ?_
      unfold Scanner.stop Scanner.ofText
      rw [Nat.zero_add]
      exact position
    refine ⟨Tree.writeTokens "" none split, ?_⟩
    unfold Tree.written
    rw [Tree.tokens_ofTokens, if_pos writable]
  · intro text written again
    unfold Tree.written at written
    rw [Tree.tokens_ofTokens] at written
    split at written
    · cases written
      refine ⟨Tree.quiet_written read again, ?_⟩
      rw [Tree.tokenize_written read, Tree.merged_of_halved halved scanned.wellRead scanned.parted,
        all, List.map_append, List.dropLast_concat]
      rfl
    · cases written

/-- Of the two `>>` here the first is split, and the `>>=` stays apart from its halves. -/
theorem rereads_of_halved_closing :
    let read := (tokenize "" true "B<C<1.e+5f>>>>=x>>y").1.dropLast
    let split := read.take 5 ++ Grammar.splitFirst (read.drop 5)
    (tokenize "" true "B<C<1.e+5f>>>>=x>>y").2 = [] ∧ Halved read split ∧
      split.length = read.length + 1 ∧
      (Tree.ofTokens split).written = .ok "B < C < 1.e+5f >> >>= x >> y" ∧
      (tokenize "" true "B < C < 1.e+5f >> >>= x >> y").1.map shown =
        (tokenize "" true "B<C<1.e+5f>>>>=x>>y").1.map shown := by
  intro read split
  have quiet : (tokenize "" true "B<C<1.e+5f>>>>=x>>y").2 = [] := by decide +kernel
  have halved : Halved read split := by
    have parts := (Halved.refl (read.take 5)).append (Grammar.halved_splitFirst (read.drop 5))
    rw [List.take_append_drop] at parts
    exact parts
  have written : (Tree.ofTokens split).written = .ok "B < C < 1.e+5f >> >>= x >> y" := by
    decide +kernel
  exact ⟨quiet, halved, by decide +kernel, written,
    ((rereads_of_halved quiet halved).2 _ written "").2⟩

end CppNames
