import CppNames.Proofs.Grammar.Parse
import CppNames.Proofs.Token.Tiling
import CppNames.Proofs.Tree.Faithful

namespace CppNames

/-!
# Where the tokens of a tree come from

Whatever was reported on the way, the tree of a text holds tokens of the text only, and none of
them twice.  The parser reads some of the tokens that it passes, may split a `>>` before it
passes it, and may keep less than it reads or keep it in another order, but never copies a
token.  The tokens of a text lie apart from each other and a `>>` has room for its two halves,
so the tokens of the tree lie apart as well.
-/

namespace Token

/-- The token is one of a scan, or a half of one. -/
def StemsFrom (scanned : List Token) (token : Token) : Prop :=
  (token ∈ scanned ∧ token.kind ≠ .endOfFile) ∨
    ∃ shift ∈ scanned, shift.kind = .greaterGreater ∧
      (token = ⟨.greater, ">", shift.pos⟩ ∨ token = ⟨.greater, ">", shift.pos + 1⟩)

/-- Two tokens cover no byte in common, and each of them covers some. -/
structure NoOverlap (left right : Token) : Prop where
  leftCovers : left.pos < left.span.stop
  rightCovers : right.pos < right.span.stop
  apart : left.span.stop ≤ right.pos ∨ right.span.stop ≤ left.pos

theorem NoOverlap.symm {left right : Token} (apart : NoOverlap left right) :
    NoOverlap right left :=
  ⟨apart.rightCovers, apart.leftCovers, apart.apart.symm⟩

/-- Tokens that stand in order, none of them empty. -/
structure InOrder (tokens : List Token) : Prop where
  ordered : tokens.Pairwise fun left right => left.span.stop ≤ right.pos
  nonempty : ∀ token ∈ tokens, token.pos < token.span.stop

theorem InOrder.noOverlap {tokens : List Token} (inOrder : InOrder tokens) :
    tokens.Pairwise NoOverlap :=
  inOrder.ordered.imp_of_mem fun first second apart =>
    ⟨inOrder.nonempty _ first, inOrder.nonempty _ second, .inl apart⟩

theorem Laid.inOrder {source : String} {tokens : List Token} (laid : Laid source tokens) :
    InOrder tokens where
  ordered := laid.ordered.imp And.right
  nonempty token member := by
    have size : 0 < token.text.utf8ByteSize :=
      Nat.pos_of_ne_zero fun none => laid.nonempty token member (String.utf8ByteSize_eq_zero_iff.mp none)
    exact Nat.lt_add_of_pos_right size

end Token

namespace Grammar

open Token

/-- Splitting gives tokens of the text and halves of them. -/
theorem Halved.stemsFrom {scanned whole split : List Token} (halved : Halved whole split)
    (inside : ∀ token ∈ whole, token ∈ scanned ∧ token.kind ≠ .endOfFile) :
    ∀ token ∈ split, StemsFrom scanned token := by
  induction halved with
  | nil => exact fun _ member => absurd member List.not_mem_nil
  | keep token _ ih =>
    rcases List.forall_mem_cons.mp inside with ⟨first, rest⟩
    exact List.forall_mem_cons.mpr ⟨.inl first, ih rest⟩
  | @halve token left right whole split halves _ ih =>
    rcases List.forall_mem_cons.mp inside with ⟨first, rest⟩
    rcases eq_of_halves? halves with ⟨shift, rfl, rfl⟩
    refine List.forall_mem_cons.mpr ⟨.inr ⟨token, first.1, shift, .inl rfl⟩,
      List.forall_mem_cons.mpr ⟨.inr ⟨token, first.1, shift, .inr rfl⟩, ih rest⟩⟩

/-- A `>>` that covers two bytes makes room for its halves. -/
theorem Halved.inOrder {whole split : List Token} (halved : Halved whole split)
    (inOrder : InOrder whole)
    (shifts : ∀ token ∈ whole, token.kind = .greaterGreater → token.text = ">>") :
    InOrder split := by
  induction halved with
  | nil => exact inOrder
  | keep token halved ih =>
    rcases List.pairwise_cons.mp inOrder.ordered with ⟨first, rest⟩
    rcases List.forall_mem_cons.mp inOrder.nonempty with ⟨size, sizes⟩
    have behind := ih ⟨rest, sizes⟩ (List.forall_mem_cons.mp shifts).2
    refine ⟨.cons ?_ behind.ordered, List.forall_mem_cons.mpr ⟨size, behind.nonempty⟩⟩
    exact halved.all (fun _ _ later => ⟨later, Nat.le_succ_of_le later⟩) first
  | @halve token left right whole split halves halved ih =>
    rcases List.pairwise_cons.mp inOrder.ordered with ⟨first, rest⟩
    rcases List.forall_mem_cons.mp inOrder.nonempty with ⟨_, sizes⟩
    rcases List.forall_mem_cons.mp shifts with ⟨text, texts⟩
    have behind := ih ⟨rest, sizes⟩ texts
    rcases eq_of_halves? halves with ⟨shift, rfl, rfl⟩
    have stop : token.span.stop = token.pos + 2 := by
      change token.pos + token.text.utf8ByteSize = _
      rw [text shift]
      rfl
    have later : ∀ other ∈ split, token.pos + 2 ≤ other.pos := by
      rw [← stop]
      exact halved.all (fun _ _ later => ⟨later, Nat.le_succ_of_le later⟩) first
    have one : (">" : String).utf8ByteSize = 1 := rfl
    refine ⟨.cons ?_ (.cons later behind.ordered), ?_⟩
    · refine List.forall_mem_cons.mpr ⟨Nat.le_refl _, fun other member => ?_⟩
      have far := later other member
      change token.pos + 1 ≤ other.pos
      omega
    · exact List.forall_mem_cons.mpr ⟨Nat.lt_succ_self _,
        List.forall_mem_cons.mpr ⟨Nat.lt_succ_self _, behind.nonempty⟩⟩

/-- What the tree of a text holds was read in order from the text. -/
theorem unit_holds {tree : Tree.Plain} {before after : State}
    (runs : unit before = .ok tree after) :
    ∃ split, Halved before.tokens split ∧ tree.tokens.Subperm split := by
  have ends := unit_reads before trivial
  rw [runs] at ends
  rcases ends with ⟨read, shaped, progress⟩
  rcases progress.passed with ⟨passed, halved, sublist, _⟩
  exact ⟨passed ++ after.tokens, halved, shaped.spells.subperm.trans
    (sublist.trans (List.sublist_append_left _ _)).subperm⟩

end Grammar

open Token

/-- What a tree holds are tokens of the text, some of them split. -/
theorem halved_of_parse {file source : String} {options : ParseOptions} {parsed : Parsed}
    (parses : parse file source options = .ok parsed) :
    ∃ split, Grammar.Halved (Scanner.ofText file options.cxx source).ahead split ∧
      parsed.tree.tokens.Subperm split := by
  rcases of_parse parses with ⟨tree, state, runs, rfl⟩
  rcases Grammar.unit_holds runs with ⟨split, halved, held⟩
  rw [tokenize_eq, Grammar.tokens_ofTokens_concat] at halved
  rw [Tree.tokens_numbered]
  exact ⟨split, halved, held⟩

/-- Every token of a tree stems from the scan of the text, and any two of them lie apart,
whether or not anything was reported. -/
theorem stemsFrom_parse {file source : String} {options : ParseOptions} {parsed : Parsed}
    (parses : parse file source options = .ok parsed) :
    (∀ token ∈ parsed.tree.tokens, StemsFrom (tokenize file options.cxx source).1 token) ∧
      parsed.tree.tokens.Pairwise NoOverlap := by
  have scanned := tokenize_eq file options.cxx source
  have laid := laid_ofText file options.cxx source
  rcases halved_of_parse parses with ⟨split, halved, held⟩
  have stems : ∀ token ∈ split, StemsFrom (tokenize file options.cxx source).1 token :=
    halved.stemsFrom fun token member =>
      ⟨by rw [scanned]; exact List.mem_append_left _ member, laid.noEnd token member⟩
  have apart := (halved.inOrder laid.inOrder laid.shifts).noOverlap
  refine ⟨fun token member => stems token (held.subset member), ?_⟩
  rcases held with ⟨kept, order, part⟩
  exact order.pairwise (apart.sublist part) NoOverlap.symm

/-- A `>>` is split, a character and a token do not fit, and the storage class of the last
declaration is moved to its front. -/
theorem stemsFrom_parse_misfit :
    ∃ parsed, parse "" "template<class>class A;A<A<int>>x;@);long static y;" {} = .ok parsed ∧
      parsed.log.length = 2 ∧
      parsed.tree.tokens.map (fun token => (token.text, token.pos)) =
        [("template", 0), ("<", 8), ("class", 9), (">", 14), ("class", 15), ("A", 21),
          (";", 22), ("A", 23), ("<", 24), ("A", 25), ("<", 26), ("int", 27),
          (">", 30), (">", 31), ("x", 32), (";", 33), ("static", 42), ("long", 37),
          ("y", 49), (";", 50)] ∧
      (∀ token ∈ parsed.tree.tokens,
        StemsFrom (tokenize "" true "template<class>class A;A<A<int>>x;@);long static y;").1 token) ∧
      parsed.tree.tokens.Pairwise NoOverlap := by
  have read : (parse "" "template<class>class A;A<A<int>>x;@);long static y;" {}).toOption.map
      (fun parsed => (parsed.log.length, parsed.tree.tokens.map fun token => (token.text, token.pos))) =
      some (2, [("template", 0), ("<", 8), ("class", 9), (">", 14), ("class", 15), ("A", 21),
          (";", 22), ("A", 23), ("<", 24), ("A", 25), ("<", 26), ("int", 27),
          (">", 30), (">", 31), ("x", 32), (";", 33), ("static", 42), ("long", 37),
          ("y", 49), (";", 50)]) := by
    decide +kernel
  cases parses : parse "" "template<class>class A;A<A<int>>x;@);long static y;" {} with
  | error stop => rw [parses] at read; cases read
  | ok parsed =>
    rw [parses] at read
    rcases Prod.mk.inj (Option.some.inj read) with ⟨reports, tokens⟩
    exact ⟨parsed, rfl, reports, tokens, stemsFrom_parse parses⟩

end CppNames
