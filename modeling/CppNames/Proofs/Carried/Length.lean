import CppNames.Constant.Value
import CppNames.Proofs.Carried.Parse
import CppNames.Proofs.Constant.Literal
import CppNames.Proofs.Token.Tiling
import CppNames.Proofs.Tree.Origin

namespace CppNames

/-!
# Lengths of arrays

The type of a declarator has an array for each bound in brackets behind its name, and the length
of that array is read from the bound.  Only an integer literal gives a length, and every integer
literal of a text has digits in front, so what is known of the two readings of such a literal
applies to every bound: it has the same length as an array bound and as a constant expression just
if it is decimal and a signed value, or if it has neither.
-/

/-!
## Integer literals of a text

An integer literal begins with a digit, wherever it stands in a text and in the tree of the text:
a number that begins with a point is no integer, and no word and no mark is taken for one.
-/

section

namespace Token

/-- A token that begins with a digit if it is an integer literal. -/
def IsLed (token : Token) : Prop :=
  token.kind = .integerLiteral → ∃ first rest, token.text.toList = first :: rest ∧
    first.isDigit = true

theorem ofWord_ne_integerLiteral (cxx : Bool) (text : String) :
    Kind.ofWord cxx text ≠ .integerLiteral := by
  have keyword : ∀ entry ∈ keywords, entry.2 ≠ .integerLiteral := by decide
  rcases ofWord_eq cxx text with same | ⟨entry, member, same⟩
  · rw [same]
    decide
  · exact same ▸ keyword entry member

/-- A number that begins with a point is no integer. -/
theorem isDigit_of_number {c : Char} {rest : List Char} {closed : Bool} {count : Nat}
    (starts : (c.isDigit || (c == '.' && rest.head?.any Char.isDigit)) = true)
    (read : number (c :: rest) = ⟨.token .integerLiteral closed, count⟩) : c.isDigit = true := by
  cases digit : c.isDigit with
  | true => rfl
  | false =>
    rw [digit, Bool.false_or, Bool.and_eq_true] at starts
    obtain rfl := eq_of_beq starts.1
    have floats : (digitsExtent ('.' :: rest)).1 = true := by
      have fraction : fractionExtent ('.' :: rest) ≠ 0 := by
        have extent : fractionExtent ('.' :: rest) = 1 + runLength Char.isDigit rest := rfl
        omega
      rw [digitsExtent_eq fun more => by simp]
      simp [runLength, fraction]
    unfold number at read
    dsimp only at read
    rw [floats] at read
    cases read

/-- The first character of an integer literal is a digit. -/
theorem isDigit_of_nextPiece {cxx lineStart closed : Bool} {c : Char} {rest : List Char}
    {count : Nat}
    (read : nextPiece cxx lineStart c rest = ⟨.token .integerLiteral closed, count⟩) :
    c.isDigit = true := by
  have quoted : ∀ (length : Nat) (quote : Char) (behind : List Char),
      quotedLiteral length quote behind ≠ ⟨.token .integerLiteral closed, count⟩ := by
    intro length quote behind same
    injection same with role _
    injection role with kind _
    unfold literalKind at kind
    split at kind
    · cases kind
    · cases kind
  have word : ∀ text length, (⟨.token (Kind.ofWord cxx text) true, length⟩ : Found) ≠
      ⟨.token .integerLiteral closed, count⟩ := by
    intro text length same
    injection same with role _
    injection role with kind _
    exact ofWord_ne_integerLiteral cxx text kind
  have listed : ∀ entry ∈ punctuators, entry.2 ≠ .integerLiteral := by decide
  rw [nextPiece_solid cxx lineStart (solid_of_nextPiece read)] at read
  unfold nextToken at read
  split at read
  · next starts => exact isDigit_of_number starts read
  · split at read
    · exact absurd read (quoted _ _ _)
    · split at read
      · unfold Token.word at read
        dsimp only at read
        split at read
        · split at read
          · exact absurd read (quoted _ _ _)
          · exact absurd read (quoted _ _ _)
          · exact absurd read (word _ _)
        · exact absurd read (word _ _)
      · split at read
        · next spelled kind found =>
          cases read
          exact absurd rfl (listed _ (punctuator?_spec found).1)
        · cases read

end Token

namespace Scanner

open Token

theorem isLed_piece (scanner : Scanner) (c : Char) (rest : List Char) :
    ∀ token ∈ (scanner.piece c rest).token?, token.IsLed := by
  intro token found literal
  rcases token?_eq_some found with ⟨closed, role, text, _⟩
  have spelled : token.text.toList = (scanner.piece c rest).text := by
    rw [text, String.toList_ofList]
  have read : nextPiece scanner.cxx scanner.lineStart c rest =
      ⟨.token .integerLiteral closed, (nextPiece scanner.cxx scanner.lineStart c rest).further⟩ := by
    rw [← literal, ← role]
    rfl
  exact ⟨c, _, spelled, isDigit_of_nextPiece read⟩

theorem isLed_ahead (scanner : Scanner) : ∀ token ∈ scanner.ahead, token.IsLed := by
  have pieces : ∀ piece ∈ scanner.pieces, ∀ token ∈ piece.token?, token.IsLed := by
    fun_induction pieces scanner with
    | case1 scanner none => exact fun piece member => absurd member List.not_mem_nil
    | case2 scanner c rest more ih =>
      exact List.forall_mem_cons.mpr ⟨scanner.isLed_piece c rest, ih⟩
  intro token member
  rcases List.mem_filterMap.mp member with ⟨piece, among, found⟩
  exact pieces piece among token found

end Scanner

open Token

/-- Every integer literal in the tree of a text begins with a digit. -/
theorem isLed_of_parse {file source : String} {options : ParseOptions} {parsed : Parsed}
    (parses : parse file source options = .ok parsed) :
    ∀ token ∈ parsed.tree.tokens, token.IsLed := by
  have laid := laid_ofText file options.cxx source
  rcases halved_of_parse parses with ⟨split, halved, held⟩
  intro token member literal
  have stems := halved.stemsFrom (fun token member => ⟨member, laid.noEnd token member⟩) token
    (held.subset member)
  rcases stems with ⟨ahead, _⟩ | ⟨shift, _, _, half⟩
  · exact (Scanner.ofText file options.cxx source).isLed_ahead token ahead literal
  · rcases half with rfl | rfl <;> cases literal

end

open Grammar (arrayLength?)
open Constant (IsDecimal)

variable {ι : Type}

namespace Tree

theorem mem_of_mem_boundsIn (elements : List (Tree ι)) :
    ∀ bound ∈ boundsIn elements, bound ∈ elements := by
  fun_induction boundsIn elements with
  | case1 first second rest opens ih =>
    refine List.forall_mem_cons.mpr ⟨by simp, fun bound member => ?_⟩
    exact List.mem_cons_of_mem _ (List.mem_cons_of_mem _ (ih bound member))
  | case2 | case4 => exact fun bound member => absurd member List.not_mem_nil
  | case3 first second rest opens ends ih =>
    exact fun bound member => List.mem_cons_of_mem _ (ih bound member)

theorem token_mem_tokens {tree : Tree ι} {label : ι} {token : Token} :
    (leaf label token ∈ tree.preorder → token ∈ tree.tokens) ∧
      (leaf label token ∈ tree.preorderTail → token ∈ tree.tokens) := by
  induction tree with
  | nil => exact ⟨fun absent => absurd absent List.not_mem_nil,
      fun absent => absurd absent List.not_mem_nil⟩
  | leaf other token => simp [preorder, preorderTail, tokens]
  | cell other construct name type head tail ihHead ihTail =>
    simp only [preorder, preorderTail, tokens, List.mem_cons, List.mem_append]
    grind

theorem exists_leaf_of_isToken {tree : Tree ι} {kind : Token.Kind}
    (is : tree.isToken kind = true) : ∃ label token, tree = leaf label token ∧ token.kind = kind := by
  cases tree with
  | leaf label token => exact ⟨label, token, rfl, Option.some.inj (eq_of_beq is)⟩
  | nil | cell label construct name type head tail => cases is

end Tree

namespace Constant

/-- A node has a length as its value, as a constant expression at a site. -/
def HasValue (site : Site) (extended : Bool) (node : Node) (length : Nat) : Prop :=
  ∃ value, evaluate site extended node = .ok (some value) ∧ value.toInt = length

variable {site : Site} {extended : Bool} {length : Nat}

theorem hasValue_leaf {label : Tree.NodeId} {token : Token} (literal : token.kind = .integerLiteral) :
    HasValue site extended (.leaf label token) length ↔
      ∃ value, integer? token.text = some value ∧ value.toInt = length := by
  have own : evaluate site extended (.leaf label token) = .ok (integer? token.text) := by
    change ofToken site token = _
    unfold ofToken
    rw [literal]
  unfold HasValue
  rw [own]
  simp only [Except.ok.injEq]

theorem arrayLength?_leaf {label : Tree.NodeId} {token : Token}
    (literal : token.kind = .integerLiteral) :
    arrayLength? (Tree.leaf label token) = boundedNumeral? 10 (capacity 64) token.text.toList := by
  have is : (Tree.leaf label token).isToken .integerLiteral = true := by
    rw [Tree.isToken, Tree.kind?, Tree.token?, Option.map_some, literal]
    rfl
  exact if_pos is

/-- A literal is read alike as a bound and as a constant expression just if it is a decimal signed
value, or no length either way. -/
theorem alike_iff {label : Tree.NodeId} {token : Token} (literal : token.kind = .integerLiteral)
    (isLed : token.IsLed) :
    (∀ length, arrayLength? (Tree.leaf label token) = some length ↔
        HasValue site extended (.leaf label token) length) ↔
      (∃ length, IsDecimal token.text length ∧ length < capacity 63) ∨
        ∀ length, arrayLength? (Tree.leaf label token) ≠ some length ∧
          ¬ HasValue site extended (.leaf label token) length := by
  have noSign : token.text.toList.head? ≠ some '+' := by
    rcases isLed literal with ⟨first, rest, same, digit⟩
    rw [same]
    intro sign
    rw [Option.some.inj sign] at digit
    cases digit
  have both : ∀ length, (arrayLength? (Tree.leaf label token) = some length ∧
      HasValue site extended (.leaf label token) length) ↔
        IsDecimal token.text length ∧ length < capacity 63 := by
    intro length
    rw [arrayLength?_leaf literal, hasValue_leaf literal]
    exact alike_iff_isDecimal noSign
  constructor
  · intro alike
    by_cases some : ∃ length, HasValue site extended (.leaf label token) length
    · rcases some with ⟨length, value⟩
      exact .inl ⟨length, (both length).mp ⟨(alike length).mpr value, value⟩⟩
    · refine .inr fun length => ⟨fun reads => ?_, fun value => some ⟨length, value⟩⟩
      exact some ⟨length, (alike length).mp reads⟩
  · rintro (⟨length, decimal⟩ | none) other
    · rcases (both length).mpr decimal with ⟨reads, value, evaluates, same⟩
      constructor
      · intro again
        rw [Option.some.inj (again.symm.trans reads)]
        exact ⟨value, evaluates, same⟩
      · rintro ⟨found, again, equal⟩
        have one : found = value :=
          Option.some.inj (Except.ok.inj (again.symm.trans evaluates))
        rw [one, same] at equal
        rw [reads, Int.ofNat.inj equal]
    · exact ⟨fun reads => absurd reads (none other).1, fun value => absurd value (none other).2⟩

end Constant

/-- The type of every declarator has an array for each of its bounds.  Only integer literals give
a length, and just those of decimal digits which do not begin with a zero or stay below eight,
and which are signed values, give the same length as their value: of every other literal either
neither a length nor a value that could be one is read, or the two differ. -/
theorem arrayLengths_parse {file source : String} {options : ParseOptions} {parsed : Parsed}
    (parses : parse file source options = .ok parsed) :
    ∀ declarator ∈ parsed.tree.preorder, declarator.isA .declarator = true →
      declarator.Bounded ∧ ∀ bound ∈ declarator.bounds,
        (bound.isToken .integerLiteral = false → arrayLength? bound = none) ∧
        (bound.isToken .integerLiteral = true → ∀ site extended,
          ((∀ length, arrayLength? bound = some length ↔
              Constant.HasValue site extended bound length) ↔
            (∃ length, IsDecimal bound.text length ∧ length < capacity 63) ∨
              ∀ length, arrayLength? bound ≠ some length ∧
                ¬ Constant.HasValue site extended bound length)) := by
  intro declarator member declares
  refine ⟨(everywhere_tells_parse parses declarator member).bounded declares,
    fun bound among => ⟨fun other => ?_, fun literal site extended => ?_⟩⟩
  · exact if_neg (by rw [other]; decide)
  · rcases Tree.exists_leaf_of_isToken literal with ⟨label, token, rfl, kind⟩
    have inside : Tree.leaf label token ∈ parsed.tree.preorder := by
      apply ((Tree.preorder_sublist parsed.tree).1 declarator member).subset
      apply (Tree.parts_elements_sublist declarator).subset
      apply (Tree.preorder_sublist_of_mem (Tree.mem_of_mem_boundsIn _ _ among)).subset
      exact List.mem_singleton_self _
    exact Constant.alike_iff kind (isLed_of_parse parses token (Tree.token_mem_tokens.1 inside))

/-- A decimal bound is read alike, and one of base eight is not. -/
theorem arrayLengths_parse_octal :
    ∃ parsed, parse "" "int x[7][010];" {} = .ok parsed ∧
      ∃ declarator ∈ parsed.tree.preorder, declarator.isA .declarator = true ∧
        declarator.type?.map Encoding.text = some "A7_A10_i" ∧
        declarator.bounds.map Tree.text = ["7", "010"] ∧ declarator.Bounded ∧
        ∀ bound ∈ declarator.bounds,
          (bound.isToken .integerLiteral = false → arrayLength? bound = none) ∧
          (bound.isToken .integerLiteral = true → ∀ site extended,
            ((∀ length, arrayLength? bound = some length ↔
                Constant.HasValue site extended bound length) ↔
              (∃ length, IsDecimal bound.text length ∧ length < capacity 63) ∨
                ∀ length, arrayLength? bound ≠ some length ∧
                  ¬ Constant.HasValue site extended bound length)) := by
  have read : (parse "" "int x[7][010];" {}).toOption.map
      (fun parsed => (parsed.tree.preorder.filter (·.isA .declarator)).map fun declarator =>
        (declarator.type?.map Encoding.text, declarator.bounds.map Tree.text)) =
      some [(some "A7_A10_i", ["7", "010"])] := by
    decide +kernel
  cases parses : parse "" "int x[7][010];" {} with
  | error stop => rw [parses] at read; cases read
  | ok parsed =>
    rw [parses] at read
    have declarators := Option.some.inj read
    rcases List.map_eq_singleton_iff.mp declarators with ⟨declarator, listed, parts⟩
    have member : declarator ∈ parsed.tree.preorder.filter (·.isA .declarator) :=
      listed ▸ List.mem_singleton_self declarator
    rcases List.mem_filter.mp member with ⟨inside, declares⟩
    rcases Prod.mk.inj parts with ⟨type, bounds⟩
    exact ⟨parsed, rfl, declarator, inside, declares, type, bounds,
      arrayLengths_parse parses declarator inside declares⟩

end CppNames
