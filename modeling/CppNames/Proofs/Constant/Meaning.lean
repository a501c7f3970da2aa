import CppNames.Constant.Value
import Mathlib.Algebra.Group.Int.Defs
import Mathlib.Logic.Basic

namespace CppNames
namespace Constant

/-!
# What expressions mean

The meaning of an expression is told over the integers, clause by clause: a part without a
meaning leaves the whole without one, and of a choice, of `&&` and of `||` only those parts count
that are reached.  Evaluating an expression on words of 64 bits gives just this meaning.

Evaluation may also be told with a flag.  It then goes on with a zero wherever a value is missing
and lowers the flag, and these zeros pass through operators, choices and casts like any other
value.  Once the flag is down nothing raises it within the expression and nothing is evaluated
anymore, so the zeros are never seen; and since each expression begins with the flag raised, a
value does not depend on what was evaluated before.
-/

theorem size_first_third_lt (node : Node) (list : node.isCell = true) :
    node.third.first.size < node.size := by
  refine Nat.lt_of_le_of_lt ?_ (Tree.size_nth_lt node 2 list)
  exact Nat.le_trans (Tree.size_head_le _) (Nat.le_trans (Nat.sub_le ..) (Tree.size_drop_le ..))

/-! ## Meaning -/

/-- The meaning of an expression, if it has one, where the names in it can be looked up. -/
abbrev Meaning := OptionT Outcome Int

/-- The signed word of 64 bits that is congruent to a whole number. -/
def word (value : Int) : Int := value.bmod (capacity 64)

def truth (holds : Bool) : Int := if holds then 1 else 0

/-- An operation on the bits of two words. -/
def bitwise (operation : BitVec 64 → BitVec 64 → BitVec 64) (left right : Int) : Int :=
  (operation (.ofInt 64 left) (.ofInt 64 right)).toInt

/-- What an operator makes of two operands that are both evaluated. -/
def combined? (operator : String) (left right : Int) : Option Int :=
  match operator with
  | "+" => some (word (left + right))
  | "-" => some (word (left - right))
  | "*" => some (word (left * right))
  | "/" => if right = 0 then none else some (word (left.tdiv right))
  | "%" => if right = 0 then none else some (left.tmod right)
  | "<<" => if 0 ≤ right ∧ right < 64 then some (word (left * 2 ^ right.toNat)) else none
  | ">>" => if 0 ≤ right ∧ right < 64 then some (left / 2 ^ right.toNat) else none
  | "<" => some (truth (left < right))
  | ">" => some (truth (right < left))
  | "<=" => some (truth (left ≤ right))
  | ">=" => some (truth (right ≤ left))
  | "==" => some (truth (left = right))
  | "!=" => some (truth (left ≠ right))
  | "&" => some (bitwise (· &&& ·) left right)
  | "|" => some (bitwise (· ||| ·) left right)
  | "^" => some (bitwise (· ^^^ ·) left right)
  | _ => none

/-- What an operator makes of its only operand. -/
def applied? (operator : String) (operand : Int) : Option Int :=
  match operator with
  | "+" => some operand
  | "-" => some (word (-operand))
  | "!" => some (truth (operand = 0))
  | "~" => some (-operand - 1)
  | _ => none

/-- The width in bits of an integral type other than `bool`, and whether it has a sign. -/
structure Integral where
  width : Nat
  signed : Bool

def integral? : String → Option Integral
  | "c" | "Sc" => some ⟨8, true⟩
  | "Uc" => some ⟨8, false⟩
  | "s" | "w" => some ⟨16, true⟩
  | "Us" => some ⟨16, false⟩
  | "i" | "l" => some ⟨32, true⟩
  | "Ui" | "Ul" => some ⟨32, false⟩
  | "j" => some ⟨64, true⟩
  | "Uj" => some ⟨64, false⟩
  | _ => none

/-- The number of a type that is congruent to a whole number, kept as a word. -/
def Integral.cut (type : Integral) (value : Int) : Int :=
  word (if type.signed then value.bmod (capacity type.width)
    else value % (capacity type.width : Int))

/-- The codes of a type without its qualifiers, as a text. -/
def codes (type : Encoding) : String :=
  String.ofList (type.stripCv.bytes.map fun byte => Char.ofNat byte.toNat)

/-- What a cast makes of its operand. -/
def cast? (type : Encoding) (operand : Int) : Option Int :=
  if codes type = "b" then some (truth (operand ≠ 0))
  else (integral? (codes type)).map (·.cut operand)

/-- A value that may be missing. -/
def stated (value : Option Int) : Meaning := OptionT.mk (.ok value)

/-- A name means the value of the constant or enumerator that it denotes. -/
def meaningOfName (site : Site) (name : Encoding) : Meaning := do
  let id ← OptionT.mk (site.single? name {})
  let symbol ← OptionT.lift (site.table.symbol id)
  stated (symbol.kind.value?.map Int64.toInt)

def meaningOfToken (site : Site) (token : Token) : Meaning :=
  match token.kind with
  | .integerLiteral => stated ((integer? token.text).map Int64.toInt)
  | .floatLiteral => stated ((floating? token.text).map Int64.toInt)
  | .charLiteral => stated ((character? token.text).map Int64.toInt)
  | .kwTrue => pure 1
  | .kwFalse => pure 0
  | .identifier => meaningOfName site (.simpleName token.text)
  | _ => failure

/-- The size of the type that a `sizeof` names, where it is a signed word. -/
def sizeNamed? (operand : Node) : Option Int :=
  if operand.isA .typeId then
    (operand.type?.bind sizeOf?).bind fun size =>
      if size < capacity 63 then some (size : Int) else none
  else none

/-- What two operands and the operator between them mean.  The right operand of `&&` and of `||`
counts only where the left one does not decide. -/
def joined (operator : String) (left right : Meaning) : Meaning := do
  let first ← left
  if operator = "&&" then
    if first = 0 then pure 0 else (fun second => truth (second ≠ 0)) <$> right
  else if operator = "||" then
    if first ≠ 0 then pure 1 else (fun second => truth (second ≠ 0)) <$> right
  else do
    let second ← right
    stated (combined? operator first second)

/-- What a choice means, of which one branch counts. -/
def chosen (condition affirmed denied : Meaning) : Meaning := do
  let decision ← condition
  if decision ≠ 0 then affirmed else denied

/-- What an expression means at a site.  Casts and `sizeof` have a meaning only where they are
asked for. -/
def meaning (site : Site) (extended : Bool) (node : Node) : Meaning :=
  match node with
  | .nil => failure
  | .leaf _ token => meaningOfToken site token
  | .cell label construct name type head tail =>
    let node := Tree.cell label construct name type head tail
    match construct with
    | .name => name.elim failure (meaningOfName site)
    | .parenExpr => meaning site extended node.second
    | .unaryExpr => do
      let operand ← meaning site extended node.second
      stated (applied? node.first.text operand)
    | .infixExpr =>
      joined node.second.text (meaning site extended node.first)
        (meaning site extended node.third)
    | .condExpr =>
      chosen (meaning site extended node.first) (meaning site extended node.third)
        (meaning site extended (node.nth 4))
    | .castExpr =>
      if extended then do
        let operand ← meaning site extended (node.nth 3)
        stated (node.second.type?.bind (cast? · operand))
      else failure
    | .fstyleCastExpr =>
      if extended ∧ node.third.length = 1 then do
        let operand ← meaning site extended node.third.first
        stated (type.bind (cast? · operand))
      else failure
    | .sizeofExpr => if extended then stated (sizeNamed? node.third) else failure
    | _ => failure
  termination_by node.size
  decreasing_by
    all_goals first
      | exact Tree.size_nth_lt _ _ rfl
      | exact size_first_third_lt _ rfl

/-! ## Words -/

theorem toNat_smod_width {count : Int64} (least : 0 ≤ count.toInt) (below : count.toInt < 64) :
    (count.toBitVec.smod 64).toNat = count.toInt.toNat := by
  have signed : (count.toBitVec.smod 64).toInt = count.toInt := by
    rw [BitVec.toInt_smod, Int64.toInt_toBitVec,
      show (64 : BitVec 64).toInt = 64 from rfl, Int.fmod_eq_emod_of_nonneg _ (by decide),
      Int.emod_eq_of_lt least below]
  rw [← signed, BitVec.toInt_eq_toNat_of_msb, Int.toNat_natCast]
  rw [BitVec.msb_eq_toInt, signed]
  exact decide_eq_false (Int.not_lt.mpr least)

theorem toInt_shiftLeft {value count : Int64} (least : 0 ≤ count.toInt)
    (below : count.toInt < 64) :
    (value <<< count).toInt = word (value.toInt * 2 ^ count.toInt.toNat) := by
  rw [← Int64.toInt_toBitVec, Int64.toBitVec_shiftLeft, BitVec.shiftLeft_eq',
    toNat_smod_width least below, BitVec.toInt_shiftLeft, Nat.shiftLeft_eq, Int.natCast_mul,
    Int.natCast_pow, ← Int64.toInt_toBitVec value, BitVec.toInt_eq_toNat_bmod value.toBitVec]
  exact Int.bmod_mul_bmod.symm

theorem toInt_shiftRight {value count : Int64} (least : 0 ≤ count.toInt)
    (below : count.toInt < 64) :
    (value >>> count).toInt = value.toInt / 2 ^ count.toInt.toNat := by
  rw [← Int64.toInt_toBitVec, Int64.toBitVec_shiftRight, BitVec.toInt_sshiftRight',
    toNat_smod_width least below, Int64.toInt_toBitVec, Int.shiftRight_eq_div_pow,
    Int.natCast_pow]
  rfl

theorem bitwise_toInt (operation : BitVec 64 → BitVec 64 → BitVec 64) (left right : Int64) :
    bitwise operation left.toInt right.toInt = (operation left.toBitVec right.toBitVec).toInt := by
  unfold bitwise
  rw [← Int64.toInt_toBitVec, ← Int64.toInt_toBitVec, BitVec.ofInt_toInt, BitVec.ofInt_toInt]

theorem toInt_ofBool (holds : Bool) : (ofBool holds).toInt = truth holds := by
  cases holds <;> rfl

theorem eq_zero_iff_toInt {value : Int64} : value = 0 ↔ value.toInt = 0 := by
  rw [← Int64.toInt_inj, Int64.toInt_zero]

theorem word_toInt (value : Int64) : word value.toInt = value.toInt := Int64.toInt_bmod value

/-! ## Operators on words -/

variable {operator : String} {left right : Int64}

theorem toInt_divided? (divide : Int64 → Int64 → Int64) :
    (divided? divide left right).map Int64.toInt =
      if right.toInt = 0 then none else some (divide left right).toInt := by
  unfold divided?
  simp only [eq_zero_iff_toInt]
  split <;> rfl

theorem toInt_shifted? (shift : Int64 → Int64 → Int64) :
    (shifted? shift left right).map Int64.toInt =
      if 0 ≤ right.toInt ∧ right.toInt < 64 then some (shift left right).toInt else none := by
  unfold shifted?
  simp only [Int64.le_iff_toInt_le, Int64.lt_iff_toInt_lt, Int64.toInt_zero]
  rw [show (64 : Int64).toInt = 64 from rfl]
  split <;> rfl

/-- An operator that evaluates both operands computes on words what it means. -/
theorem toInt_binary? (notAnd : operator ≠ "&&") (notOr : operator ≠ "||") :
    (binary? operator left right).map Int64.toInt =
      combined? operator left.toInt right.toInt := by
  unfold binary?
  split
  case h_1 => exact congrArg some (Int64.toInt_add ..)
  case h_2 => exact congrArg some (Int64.toInt_sub ..)
  case h_3 => exact congrArg some (Int64.toInt_mul ..)
  case h_4 =>
    rw [toInt_divided?, Int64.toInt_div]
    rfl
  case h_5 =>
    rw [toInt_divided?, Int64.toInt_mod]
    rfl
  case h_6 =>
    rw [toInt_shifted?]
    exact ite_congr rfl (fun inside => congrArg some (toInt_shiftLeft inside.1 inside.2))
      fun _ => rfl
  case h_7 =>
    rw [toInt_shifted?]
    exact ite_congr rfl (fun inside => congrArg some (toInt_shiftRight inside.1 inside.2))
      fun _ => rfl
  case h_8 | h_9 =>
    simp only [combined?, Option.map_some, toInt_ofBool, Int64.lt_iff_toInt_lt]
  case h_10 | h_11 =>
    simp only [combined?, Option.map_some, toInt_ofBool, Int64.le_iff_toInt_le]
  case h_12 | h_13 =>
    simp only [combined?, Option.map_some, toInt_ofBool, bne, beq_eq_decide, Int64.toInt_inj, ne_eq,
      decide_not]
  case h_14 =>
    exact congrArg some (bitwise_toInt (· &&& ·) left right).symm
  case h_15 =>
    exact congrArg some (bitwise_toInt (· ||| ·) left right).symm
  case h_16 =>
    exact congrArg some (bitwise_toInt (· ^^^ ·) left right).symm
  case h_17 => exact absurd rfl notAnd
  case h_18 => exact absurd rfl notOr
  case h_19 =>
    unfold combined?
    split <;> first | rfl | contradiction

theorem toInt_unary? :
    (unary? operator right).map Int64.toInt = applied? operator right.toInt := by
  unfold unary?
  split
  case h_1 => rfl
  case h_2 => exact congrArg some (Int64.toInt_neg _)
  case h_3 =>
    simp only [applied?, Option.map_some, toInt_ofBool, beq_eq_decide, eq_zero_iff_toInt]
  case h_4 =>
    have least := Int64.le_toInt right
    have most := Int64.toInt_lt right
    refine congrArg some ((Int64.toInt_not right).trans (Int.bmod_eq_of_le ?_ ?_)) <;> omega
  case h_5 =>
    unfold applied?
    split <;> first | rfl | contradiction

theorem toInt_signedBits (bits : Nat) (value : Int64) :
    (signedBits bits value).toInt = Integral.cut ⟨bits, true⟩ value.toInt :=
  Int64.toInt_ofInt

theorem toInt_unsignedBits (bits : Nat) (value : Int64) :
    (unsignedBits bits value).toInt = Integral.cut ⟨bits, false⟩ value.toInt :=
  Int64.toInt_ofInt

/-- All of 64 bits hold a word as it is. -/
theorem cut_word (signed : Bool) (value : Int64) :
    Integral.cut ⟨64, signed⟩ value.toInt = value.toInt := by
  cases signed with
  | true => exact (congrArg word (word_toInt value)).trans (word_toInt value)
  | false => exact (Int.emod_bmod ..).trans (word_toInt value)

theorem cast?_of_codes {type : Encoding} {text : String} {integral : Integral} {value : Int}
    (reads : codes type = text) (known : integral? text = some integral) :
    cast? type value = some (integral.cut value) := by
  subst reads
  have notBool : codes type ≠ "b" := by
    intro isBool
    rw [isBool] at known
    cases known
  rw [cast?, if_neg notBool, known]
  rfl

/-- A cast computes on words what it means. -/
theorem toInt_converted? {type : Encoding} {value : Int64} :
    (converted? type value).map Int64.toInt = cast? type value.toInt := by
  unfold converted?
  rw [← codes]
  split
  case h_1 _ isBool =>
    rw [cast?, if_pos isBool]
    simp only [Option.map_some, toInt_ofBool, bne, beq_eq_decide, eq_zero_iff_toInt, ne_eq,
      decide_not]
  case h_2 _ reads | h_3 _ reads | h_5 _ reads | h_6 _ reads | h_8 _ reads | h_9 _ reads =>
    rw [cast?_of_codes reads rfl]
    exact congrArg some (toInt_signedBits ..)
  case h_4 _ reads | h_7 _ reads | h_10 _ reads | h_11 _ reads =>
    rw [cast?_of_codes reads rfl]
    exact congrArg some (toInt_unsignedBits ..)
  case h_12 _ reads | h_13 _ reads =>
    rw [cast?_of_codes reads rfl]
    exact congrArg some (cut_word ..).symm
  case h_14 notBool _ _ _ _ _ _ _ _ _ _ _ _ =>
    rw [cast?, if_neg notBool]
    unfold integral?
    split <;> first | rfl | contradiction

/-! ## Evaluation gives the meaning -/

/-- What an evaluation gives, over the integers. -/
def signed (evaluation : Evaluation) : Meaning :=
  OptionT.mk (evaluation.map (Option.map Int64.toInt))

variable {site : Site} {extended : Bool} {value : Node → Evaluation}

theorem signed_andThen {first : Evaluation} {next : Int64 → Evaluation} {start : Meaning}
    {behind : Int → Meaning} (begins : signed first = start)
    (goesOn : ∀ value, signed (next value) = behind value.toInt) :
    signed (andThen first next) = start >>= behind := by
  subst begins
  cases first with
  | error fault => rfl
  | ok found =>
    cases found with
    | none => rfl
    | some value => exact goesOn value

theorem signed_named (name : Encoding) : signed (named site name) = meaningOfName site name := by
  unfold named meaningOfName
  cases site.single? name {} with
  | error fault => rfl
  | ok found =>
    cases found with
    | none => rfl
    | some id =>
      change signed (site.table.symbol id >>= fun symbol => pure symbol.kind.value?) =
        (OptionT.lift (site.table.symbol id) >>= fun symbol =>
          stated (symbol.kind.value?.map Int64.toInt))
      cases site.table.symbol id <;> rfl

theorem signed_ofToken (token : Token) :
    signed (ofToken site token) = meaningOfToken site token := by
  unfold ofToken meaningOfToken
  cases token.kind with
  | identifier => exact signed_named _
  | _ => rfl

theorem signed_convertedTo (type : Option Encoding) (value : Int64) :
    signed (convertedTo type value) = stated (type.bind (cast? · value.toInt)) := by
  cases type with
  | none => rfl
  | some type => exact congrArg stated toInt_converted?

theorem signed_ofCallCast {node : Node} {operand : Meaning}
    (argument : signed (value node.third.first) = operand) :
    signed (ofCallCast value node) =
      if node.third.length = 1 then do
        let operand ← operand
        stated (node.type?.bind (cast? · operand))
      else failure := by
  unfold ofCallCast
  split
  · exact signed_andThen argument (signed_convertedTo node.type?)
  · rfl

theorem toInt_sizeofValue? (operand : Node) :
    (sizeofValue? operand).map Int64.toInt = sizeNamed? operand := by
  have bound (size : Nat) : (size : Int) ≤ greatest ↔ size < capacity 63 := by
    unfold greatest
    omega
  unfold sizeofValue? sizeNamed?
  simp only [bound]
  by_cases isType : operand.isA .typeId = true
  · rw [if_pos isType, if_pos isType]
    cases operand.type? with
    | none => rfl
    | some type =>
      change (sizeOf? type >>= _).map Int64.toInt = (sizeOf? type).bind _
      cases sizeOf? type with
      | none => rfl
      | some size =>
        change Option.map Int64.toInt (ite ..) = ite ..
        split
        · next fits => exact congrArg some (Int64.toInt_ofNat_of_lt fits)
        · rfl
  · rw [if_neg isType, if_neg isType]
    rfl

/-- The right operand of `&&` and `||` counts for its truth. -/
theorem signed_rightTruth {operand : Evaluation} {right : Meaning} {operator : String}
    {left : Int64} (logical : ∀ second, binary? operator left second = some (ofBool (second != 0)))
    (same : signed operand = right) :
    signed (andThen operand fun second => .ok (binary? operator left second)) =
      (fun second => truth (second ≠ 0)) <$> right := by
  rw [map_eq_pure_bind]
  refine signed_andThen same fun second => ?_
  rw [logical]
  refine congrArg (fun value => stated (some value)) ((toInt_ofBool _).trans ?_)
  simp only [bne, beq_eq_decide, eq_zero_iff_toInt, ne_eq, decide_not]

theorem signed_ofInfix {node : Node} {left right : Meaning}
    (first : signed (value node.first) = left) (third : signed (value node.third) = right) :
    signed (ofInfix value node) = joined node.second.text left right := by
  refine signed_andThen first fun decided => ?_
  generalize node.second.text = operator
  by_cases isAnd : operator = "&&"
  · subst isAnd
    by_cases zero : decided = 0
    · subst zero
      rfl
    · rw [if_pos rfl, if_neg fun same => zero (eq_zero_iff_toInt.mpr same)]
      simp only [decided?, if_neg zero]
      exact signed_rightTruth (fun _ => rfl) third
  · rw [if_neg isAnd]
    by_cases isOr : operator = "||"
    · subst isOr
      by_cases zero : decided = 0
      · subst zero
        exact signed_rightTruth (fun _ => rfl) third
      · rw [if_pos rfl, if_pos fun same => zero (eq_zero_iff_toInt.mpr same)]
        simp only [decided?, if_neg zero]
        rfl
    · rw [if_neg isOr]
      have undecided : decided? operator decided = none := by
        unfold decided?
        split <;> first | rfl | contradiction
      rw [undecided]
      exact signed_andThen third fun second => congrArg stated (toInt_binary? isAnd isOr)

theorem signed_ofChoice {node : Node} {condition affirmed denied : Meaning}
    (first : signed (value node.first) = condition) (third : signed (value node.third) = affirmed)
    (fifth : signed (value (node.nth 4)) = denied) :
    signed (ofChoice value node) = chosen condition affirmed denied := by
  refine signed_andThen first fun decision => ?_
  by_cases zero : decision = 0
  · rw [if_pos zero, if_neg (not_not.mpr (eq_zero_iff_toInt.mp zero))]
    exact fifth
  · rw [if_neg zero, if_pos fun same => zero (eq_zero_iff_toInt.mpr same)]
    exact third

/-- Evaluating gives the meaning, whatever the room for the evaluation, as long as the expression
fits. -/
theorem signed_valueWithin {size : Nat} {node : Node} (fits : node.size < size) :
    signed (valueWithin site extended size node) = meaning site extended node := by
  induction size generalizing node with
  | zero => omega
  | succ size ih =>
    cases node with
    | nil =>
      rw [meaning]
      rfl
    | leaf label token =>
      rw [meaning]
      exact signed_ofToken token
    | cell label construct name type head tail =>
      have room {part : Node} (smaller : part.size < (Tree.cell label construct name type head
          tail).size) := ih (Nat.lt_of_lt_of_le smaller (Nat.le_of_lt_succ fits))
      have part (position : Nat) := room (Tree.size_nth_lt _ position rfl)
      rw [meaning.eq_def]
      cases construct with
      | name =>
        cases name with
        | none => rfl
        | some name => exact signed_named name
      | parenExpr => exact part 1
      | unaryExpr => exact signed_andThen (part 1) fun operand => congrArg stated toInt_unary?
      | infixExpr => exact signed_ofInfix (part 0) (part 2)
      | condExpr => exact signed_ofChoice (part 0) (part 2) (part 4)
      | castExpr =>
        cases extended with
        | false => rfl
        | true => exact signed_andThen (part 3) (signed_convertedTo _)
      | fstyleCastExpr =>
        cases extended with
        | false => rfl
        | true =>
          have argument := room (size_first_third_lt _ rfl)
          refine (signed_ofCallCast argument).trans ?_
          dsimp only
          simp only [true_and]
          rfl
      | sizeofExpr =>
        cases extended with
        | false => rfl
        | true => exact congrArg stated (toInt_sizeofValue? _)
      | _ => rfl

/-! ## Evaluation with a flag -/

/-- A computation that may lower a flag, which is raised as long as nothing is missing. -/
abbrev Folding := StateT Bool Outcome

/-- Lowers the flag and goes on with a zero. -/
def giveUp : Folding Int64 := do
  set false
  return 0

/-- Gives up where a value is missing. -/
def orGiveUp : Option Int64 → Folding Int64
  | some value => return value
  | none => giveUp

/-- Folds a binary expression.  Whether the left operand decides is seen from its value, which is a
zero where the flag is down. -/
def foldInfix (fold : Node → Folding Int64) (node : Node) : Folding Int64 := do
  let left ← fold node.first
  match decided? node.second.text left with
  | some result => return result
  | none =>
    let right ← fold node.third
    if ← get then orGiveUp (binary? node.second.text left right) else return 0

/-- Folds an expression, given how its parts are folded. -/
def foldOf (site : Site) (extended : Bool) (fold : Node → Folding Int64) (node : Node) :
    Folding Int64 :=
  match node with
  | .nil => giveUp
  | .leaf _ token => do orGiveUp (← ofToken site token)
  | .cell _ construct name .. =>
    match construct with
    | .name => name.elim giveUp fun name => do orGiveUp (← named site name)
    | .parenExpr => fold node.second
    | .infixExpr => foldInfix fold node
    | .unaryExpr => do
      let operand ← fold node.second
      orGiveUp (unary? node.first.text operand)
    | .condExpr => do
      let condition ← fold node.first
      fold (if condition = 0 then node.nth 4 else node.third)
    | .castExpr =>
      if extended then do
        let operand ← fold (node.nth 3)
        orGiveUp (node.second.type?.bind (converted? · operand))
      else giveUp
    | .fstyleCastExpr =>
      if extended ∧ node.third.length = 1 then do
        let operand ← fold node.third.first
        orGiveUp (node.type?.bind (converted? · operand))
      else giveUp
    | .sizeofExpr => if extended then orGiveUp (sizeofValue? node.third) else giveUp
    | _ => giveUp

/-- Folds an expression of at most a given size, unless the flag is down already. -/
def foldWithin (site : Site) (extended : Bool) : Nat → Node → Folding Int64
  | 0, _ => giveUp
  | size + 1, node => do
    if ← get then foldOf site extended (foldWithin site extended size) node else return 0

/-- Raises the flag, folds an expression and asks the flag whether the value counts. -/
def foldAfresh (site : Site) (extended : Bool) (node : Node) : Folding (Option Int64) := do
  set true
  let value ← foldWithin site extended (node.size + 1) node
  return if ← get then some value else none

/-- The value that counts only where the flag is still raised. -/
def counted (result : Int64 × Bool) : Option Int64 := if result.2 then some result.1 else none

/-- With the flag raised, a computation gives what an evaluation gives. -/
def Counts (folding : Folding Int64) (evaluation : Evaluation) : Prop :=
  (folding.run true).map counted = evaluation

/-- Besides, a lowered flag stays down. -/
structure Follows (folding : Folding Int64) (evaluation : Evaluation) : Prop where
  counts : Counts folding evaluation
  lowered : ∃ dummy, folding.run false = .ok (dummy, false)

theorem follows_orGiveUp (value : Option Int64) : Follows (orGiveUp value) (.ok value) := by
  cases value with
  | none => exact ⟨rfl, 0, rfl⟩
  | some value => exact ⟨rfl, value, rfl⟩

variable {folding : Folding Int64} {evaluation : Evaluation} {goOn : Int64 → Folding Int64}
  {next : Int64 → Evaluation} {fold : Node → Folding Int64}

/-- The zero that goes on with a lowered flag does not count. -/
theorem Follows.andThen (first : Follows folding evaluation)
    (behind : ∀ value, Follows (goOn value) (next value)) :
    Follows (folding >>= goOn) (andThen evaluation next) := by
  constructor
  · rcases first.counts with ⟨⟩
    unfold Counts
    rw [StateT.run_bind]
    cases folding.run true with
    | error fault => rfl
    | ok result =>
      rcases result with ⟨value, _ | _⟩
      · rcases (behind value).lowered with ⟨dummy, down⟩
        exact congrArg (Except.map counted) down
      · exact (behind value).counts
  · rcases first.lowered with ⟨value, down⟩
    rcases (behind value).lowered with ⟨dummy, stays⟩
    refine ⟨dummy, ?_⟩
    rw [StateT.run_bind, down]
    exact stays

/-- A part that is looked at only with the flag raised. -/
theorem follows_guarded (counts : Counts folding evaluation) :
    Follows (do if ← get then folding else return 0) evaluation :=
  ⟨counts, 0, rfl⟩

theorem counts_orGiveUp_bind (evaluation : Evaluation) :
    Counts (do orGiveUp (← evaluation)) evaluation := by
  cases evaluation with
  | error fault => rfl
  | ok value => exact (follows_orGiveUp value).counts

theorem follows_foldInfix (parts : ∀ node, Follows (fold node) (value node)) (node : Node) :
    Follows (foldInfix fold node) (ofInfix value node) := by
  refine (parts node.first).andThen fun left => ?_
  cases decided? node.second.text left with
  | some result => exact follows_orGiveUp (some result)
  | none =>
    exact (parts node.third).andThen fun right => follows_guarded (follows_orGiveUp _).counts

theorem counts_foldOf (parts : ∀ node, Follows (fold node) (value node)) (node : Node) :
    Counts (foldOf site extended fold node) (valueOf site extended value node) := by
  cases node with
  | nil => rfl
  | leaf label token => exact counts_orGiveUp_bind _
  | cell label construct name type head tail =>
    cases construct with
    | name =>
      cases name with
      | none => rfl
      | some name => exact counts_orGiveUp_bind _
    | parenExpr => exact (parts _).counts
    | unaryExpr => exact ((parts _).andThen fun _ => follows_orGiveUp _).counts
    | infixExpr => exact (follows_foldInfix parts _).counts
    | condExpr => exact ((parts _).andThen fun condition => parts _).counts
    | castExpr =>
      cases extended with
      | false => rfl
      | true => exact ((parts _).andThen fun _ => follows_orGiveUp _).counts
    | fstyleCastExpr =>
      cases extended with
      | false => rfl
      | true =>
        change Counts (ite ..) (ofCallCast ..)
        unfold ofCallCast
        by_cases single : (Tree.cell label .fstyleCastExpr name type head tail).third.length = 1
        · rw [if_pos ⟨rfl, single⟩, if_pos single]
          exact ((parts _).andThen fun _ => follows_orGiveUp _).counts
        · rw [if_neg fun both => single both.2, if_neg single]
          rfl
    | sizeofExpr =>
      cases extended with
      | false => rfl
      | true => exact (follows_orGiveUp _).counts
    | _ => rfl

theorem follows_foldWithin (size : Nat) (node : Node) :
    Follows (foldWithin site extended size node) (valueWithin site extended size node) := by
  induction size generalizing node with
  | zero => exact follows_orGiveUp none
  | succ size ih => exact follows_guarded (counts_foldOf ih node)

theorem run_foldAfresh (valid : Bool) (node : Node) :
    (foldAfresh site extended node).run valid =
      (evaluate site extended node).map fun value => (value, value.isSome) := by
  have follows : Follows _ (valueWithin site extended _ _) :=
    follows_foldWithin (node.size + 1) node
  have counts := follows.counts
  unfold evaluate
  rw [← counts]
  unfold foldAfresh
  change (foldWithin site extended (node.size + 1) node).run true >>= _ = _
  cases (foldWithin site extended (node.size + 1) node).run true with
  | error fault => rfl
  | ok result => rcases result with ⟨value, _ | _⟩ <;> rfl

theorem run_mapM_foldAfresh (valid : Bool) (nodes : List Node) :
    (nodes.mapM (foldAfresh site extended)).run' valid = nodes.mapM (evaluate site extended) := by
  induction nodes generalizing valid with
  | nil => rfl
  | cons node rest ih =>
    rw [List.mapM_cons, List.mapM_cons]
    change Prod.fst <$> ((foldAfresh site extended node).run valid >>= _) = _
    rw [run_foldAfresh]
    cases evaluate site extended node with
    | error fault => rfl
    | ok value =>
      change Prod.fst <$> ((rest.mapM (foldAfresh site extended)).run value.isSome >>= _) =
        rest.mapM (evaluate site extended) >>= _
      rw [← ih value.isSome]
      change _ = (Prod.fst <$> (rest.mapM (foldAfresh site extended)).run value.isSome) >>= _
      cases (rest.mapM (foldAfresh site extended)).run value.isSome <;> rfl

/-- Evaluating an expression with a flag, whatever was evaluated before, and evaluating it part by
part are the same, and what they give is the meaning of the expression. -/
theorem evaluate_means (site : Site) (extended : Bool) :
    (∀ node, signed (evaluate site extended node) = meaning site extended node) ∧
      ∀ (valid : Bool) (nodes : List Node),
        (nodes.mapM (foldAfresh site extended)).run' valid =
          nodes.mapM (evaluate site extended) :=
  ⟨fun _ => signed_valueWithin (Nat.lt_succ_self _), run_mapM_foldAfresh⟩

end Constant
end CppNames
