import CppNames.Grammar.Declarator
import CppNames.Proofs.Grammar.Expression

namespace CppNames
namespace Grammar

/-!
# What declarators read

A declarator needs no scope: the scope of the parameters of a function is noted on the
declarator, and the pass over uses enters it there without asking for it.  A form that
requires a name gives a declarator that carries one.
-/

variable {g : Productions} {place : Where}

theorem Each.leaves {test : Token.Kind → Prop} {trees : List Tree.Plain} {read : List Token}
    (each : Each (IsLeaf test) trees read) : Each Simple trees read :=
  each.imp fun _ _ leaf => leaf.simple

namespace Expressions

variable {part whole : Tree.Plain → List Token → Prop} {typed : Encoded → List Token → Prop}

section

variable (holds : Expressions part whole typed g)
include holds

/-! ## Types and expressions in declarators -/

theorem thrownTypes_reads : Reads place (thrownTypes g) (Each part) := by
  refine .repeatFromNothing (Each part) .nil fun types read each => ?_
  refine .sees (.pure (by simpa [Reads.Turns] using each)) ?_
  refine .bind holds.typeId fun type readType simple => ?_
  have more := each.append (.single simple)
  refine .optional (by decide) (fun comma readComma leaf => .pure ?_) (.pure ?_)
  · simpa [Reads.Turns] using more.append (.single (holds.token leaf))
  · simpa [Reads.Turns] using more

theorem exceptionSpecification_reads :
    Reads anywhere (exceptionSpecification g) (Each part) := by
  refine .optional (by decide) (fun keyword readKeyword leaf => ?_) (.pure .nil)
  refine .bind (.expect (by decide)) fun opening readOpening leafOpening => ?_
  refine .bind holds.thrownTypes_reads fun types readTypes each => ?_
  refine .bind (.expect (by decide)) fun closing readClosing leafClosing => .pure ?_
  exact .cons (holds.token leaf) (.cons (holds.token leafOpening) (.cons (holds.inherited.seq each)
    (.cons (holds.token leafClosing) .nil)))

theorem arraySuffix_reads :
    Reads notAtEnd (arraySuffix g) fun result read =>
      Each part result.1 read ∧ ∃ length, result.2 = .array length := by
  refine .bind .takeAny fun opening readOpening leafOpening => ?_
  refine .seesBind (.pure holds.inherited.nil) holds.expression fun size readSize simple => ?_
  refine .bind (.expect (by decide)) fun closing readClosing leafClosing => .pure ⟨?_, _, rfl⟩
  exact .cons (holds.token leafOpening) (.cons simple (.cons (holds.token leafClosing) .nil))

theorem initializerArguments_reads :
    Reads notAtEnd (initializerArguments g) (Each part) := by
  refine .bind .takeAny fun opening readOpening leafOpening => ?_
  refine .bind holds.arguments_reads fun operands readOperands simple => ?_
  refine .bind (.expect (by decide)) fun closing readClosing leafClosing => .pure ?_
  exact .cons (holds.token leafOpening) (.cons simple (.cons (holds.token leafClosing) .nil))

/-! ## Initializers -/

theorem initializerItems_reads :
    Reads place (initializerItems g) (Each part) := by
  refine .repeatFromNothing (Each part) .nil fun items read each => ?_
  refine .sees (.pure (by simpa [Reads.Turns] using each)) ?_
  refine .seesBind (.nested (holds.initializers.restrict fun _ begins => begins.2))
    holds.assignment fun item readItem simple => ?_
  have more := each.append (.single simple)
  refine .optional (by decide) (fun comma readComma leaf => .pure ?_) (.pure ?_)
  · simpa [Reads.Turns] using more.append (.single (holds.token leaf))
  · simpa [Reads.Turns] using more

theorem initializerList_reads :
    Reads (inFrontOf .openBrace) (initializerList g) whole := by
  refine .bind (.takeOf (by decide)) fun opening readOpening leafOpening => ?_
  refine .bind holds.initializerItems_reads fun items read each => ?_
  refine .bind (.expect (by decide)) fun closing readClosing leafClosing => .pure ?_
  exact holds.spells (.cons (holds.token leafOpening) (.cons (holds.inherited.seq each)
    (.cons (holds.token leafClosing) .nil))) (by decide) (by simp)

theorem bitField_reads (form : DeclaratorForm) (isFunction : Bool) :
    Reads anywhere (bitField g form isFunction) (Each part) := by
  refine .sees ?_ ?_
  · split
    · refine .bind (.takeSeen (by decide)) fun colon readColon leaf => ?_
      refine .bind holds.conditionalExpression_reads fun width readWidth operand => .pure ?_
      exact .cons (holds.token leaf) (.cons (holds.element operand) .nil)
    · exact .pure .nil
  · simp only [Bool.and_false]
    exact .pure .nil

theorem initializer_reads (form : DeclaratorForm) :
    Reads anywhere (initializer g form) (Each part) := by
  unfold initializer
  split
  · exact .pure .nil
  · refine .optional (by decide) (fun equals readEquals leaf => ?_) (.pure .nil)
    have rest : ∀ value read, part value read → Reads anywhere (pure [equals, value])
        fun result readBehind => Each part result (readEquals ++ (read ++ readBehind)) :=
      fun value read simple => .pure (.cons (holds.token leaf) (.cons simple .nil))
    refine .sees ?_ ?_
    · exact .bind (holds.initializers.restrict fun _ begins => begins.2) rest
    · exact .bind holds.assignment rest

end

end Expressions

/-! ## In front of the name -/

theorem pointers_reads (base : Encoding) :
    Reads place (pointers base) fun result => Each Simple result.1 := by
  refine .repeatFromNothing (fun result : List Tree.Plain × Encoding => Each Simple result.1) .nil
    fun result read each => ?_
  refine .kind fun found => ?_
  split
  · refine .bind (.takeSeen (by decide)) fun star readStar leaf => ?_
    refine .bind (.takeRun rfl) fun qualifiers readQualifiers leaves => .pure ?_
    simpa [Reads.Turns] using each.append (.cons leaf.simple leaves.leaves)
  · refine .bind (.takeSeen (by decide)) fun amp readAmp leaf => .pure ?_
    simpa [Reads.Turns] using each.append (.single leaf.simple)
  · exact .pure (by simpa [Reads.Turns] using each)

/-- What the name of a declarator gives. -/
def NamePart (form : DeclaratorForm) (named : Option Encoded) (read : List Token) : Prop :=
  (form.requiresName = true → named.isSome = true) ∧
    Each Simple (named.map (·.tree)).toList read

theorem declaredName_reads (parses : Parses g) (form : DeclaratorForm) :
    Reads anywhere (declaredName g form) (NamePart form) := by
  refine .kind fun found => ?_
  split
  · refine .bind (name_reads parses false).ofAnywhere fun named read name => .pure ?_
    refine ⟨fun _ => rfl, ?_⟩
    rw [List.append_nil]
    exact .single name.toSimple
  · split
    · exact .fail
    · next optional =>
      refine .pure ⟨fun required => absurd required optional, .nil⟩

/-! ## Behind the name -/

theorem parameterItems_reads (parses : Parses g) :
    Reads place (parameterItems g) fun items => Each Simple items.elements := by
  refine .repeatFromNothing (fun items : ParameterItems => Each Simple items.elements) .nil
    fun items read each => ?_
  refine .optional (by decide) (fun dots readDots leaf => .pure ?_) ?_
  · simpa [Reads.Turns] using each.append (.single leaf.simple)
  · refine .bind parses.parameter fun parameter readParameter simple => ?_
    have more := each.append (.single simple)
    refine .optional (by decide) (fun comma readComma leaf => .pure ?_) ?_
    · simpa [Reads.Turns] using more.append (.single leaf.simple)
    · refine .optional (by decide) (fun dots readDots leaf => .pure ?_) (.pure ?_)
      · simpa [Reads.Turns] using more.append (.single leaf.simple)
      · simpa [Reads.Turns] using more

theorem parameterClause_reads (parses : Parses g) :
    Reads anywhere (parameterClause g) fun clause =>
      Each Simple [clause.opening, clause.parameters, clause.closing] := by
  refine .bind (.expect (by decide)) fun opening readOpening leafOpening => ?_
  refine .seesBind (.pure .nil) (parameterItems_reads parses) fun items readItems each => ?_
  refine .bind (.expect (by decide)) fun closing readClosing leafClosing => .pure ?_
  exact .cons leafOpening.simple (.cons each.simple_seq (.cons leafClosing.simple .nil))

theorem functionSuffix_reads (parses : Parses g) :
    Reads anywhere (functionSuffix g) fun result => Each Simple result.1 := by
  refine .bind (parameterClause_reads parses) fun clause readClause each => ?_
  refine .bind (.takeRun rfl) fun qualifiers readQualifiers leaves => ?_
  refine .bind parses.expressions.exceptionSpecification_reads
    fun exceptions readExceptions thrown => .pure ?_
  simpa using (each.append leaves.leaves).append thrown

theorem suffixes_reads (parses : Parses g) (form : DeclaratorForm) :
    Reads place (suffixes g form) fun behind => Each Simple behind.elements := by
  refine .repeatFromNothing (fun behind : Suffixes => Each Simple behind.elements) .nil
    fun behind read each => ?_
  refine .kind fun found => ?_
  split
  · refine .asks fun parameters => ?_
    split
    · refine .bind (parses.expressions.initializerArguments_reads.ofSeen (by decide))
        fun elements readElements more => .pure ?_
      simpa [Reads.Turns] using each.append more
    · refine .bind (functionSuffix_reads parses).ofAnywhere fun result readResult more => .pure ?_
      simpa [Reads.Turns] using each.append more
  · refine .bind (parses.expressions.arraySuffix_reads.ofSeen (by decide))
      fun result readResult more => .pure ?_
    simpa [Reads.Turns] using each.append more.1
  · exact .pure (by simpa [Reads.Turns] using each)

/-! ## Declarators -/

/-- What a declarator gives. -/
structure IsDeclarator (form : DeclaratorForm) (tree : Tree.Plain) (read : List Token) : Prop
    extends Operand tree read where
  declares : tree.isA .declarator = true
  named : form.requiresName = true → tree.name?.isSome = true

theorem declarator_reads (parses : Parses g) (base : Encoding) (form : DeclaratorForm) :
    Reads anywhere (declarator g base form) fun declared => IsDeclarator form declared.tree := by
  refine .bind (pointers_reads base) fun front readFront each => ?_
  refine .bind (declaredName_reads parses form) fun named readNamed part => ?_
  refine .bind (suffixes_reads parses form) fun behind readBehind suffixes => ?_
  have made : ∀ width readWidth, Each Simple width readWidth → ∀ value readValue,
      Each Simple value readValue → ∀ type,
      IsDeclarator form (Tree.encodedList .declarator (named.map (·.encoding)) (some type)
        (front.1 ++ (named.map (·.tree)).toList ++ behind.elements ++ width ++ value))
        (readFront ++ (readNamed ++ (readBehind ++ (readWidth ++ (readValue ++ []))))) := by
    intro width readWidth eachWidth value readValue eachValue type
    have whole := (((each.append part.2).append suffixes).append eachWidth).append eachValue
    refine ⟨?_, rfl, fun required => ?_⟩
    · have operand : Operand (Tree.encodedList .declarator (named.map (·.encoding)) (some type) _) _ :=
        whole.operand_encodedList (by decide) (by simp)
      simpa using operand
    · change (named.map (·.encoding)).isSome = true
      rw [Option.isSome_map]
      exact part.1 required
  have none : Reads anywhere (pure []) (Each Simple) := .pure .nil
  cases behind.initialized with
  | true =>
    refine .bind none fun width readWidth eachWidth => ?_
    refine .bind none fun value readValue eachValue => .pure ?_
    exact made width readWidth eachWidth value readValue eachValue _
  | false =>
    refine .bind (parses.expressions.bitField_reads form _) fun width readWidth eachWidth => ?_
    refine .bind (parses.expressions.initializer_reads form)
      fun value readValue eachValue => .pure ?_
    exact made width readWidth eachWidth value readValue eachValue _

end Grammar
end CppNames
