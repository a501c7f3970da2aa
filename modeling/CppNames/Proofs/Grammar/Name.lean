import CppNames.Grammar.Name
import CppNames.Proofs.Grammar.Reading
import CppNames.Proofs.Tree.Spelling

namespace CppNames
namespace Grammar

/-!
# What names read

A name is a single identifier or a closed list, so no pass looks into it for scopes.  Its
first token is an identifier, `::`, `~` or `operator`, none of which is a storage class.
-/

/-!
## What productions answer

Every production answers a tree that the later passes can rely on and that spells the tokens
read for it.  `Shaped` puts both together.  Expressions and declarators are moreover
`Simple`: no scope is needed anywhere in them.  The lemmas below build both along the lists
that productions build, and `Parses` collects what is known of the recursive productions.
-/

section

/-- A tree that the passes can rely on and that spells some tokens. -/
structure Shaped (tree : Tree.Plain) (read : List Token) : Prop where
  fits : tree.Throughout Tree.Fits
  spells : tree.Spells read

/-- A shaped tree in which no scope is needed. -/
structure Simple (tree : Tree.Plain) (read : List Token) : Prop extends Shaped tree read where
  unscoped : tree.Unscoped

/-- A simple tree that is there. -/
structure Operand (tree : Tree.Plain) (read : List Token) : Prop extends Simple tree read where
  there : tree.isNil = false

/-- A shaped tree that is there. -/
structure Item (tree : Tree.Plain) (read : List Token) : Prop extends Shaped tree read where
  there : tree.isNil = false

/-- Tokens of which the first is no storage class. -/
def Starts (read : List Token) : Prop :=
  ∃ first rest, read = first :: rest ∧ first.kind.isDeclSpecifier = false

theorem Starts.append {read : List Token} (starts : Starts read) (readBehind : List Token) :
    Starts (read ++ readBehind) := by
  rcases starts with ⟨first, rest, rfl, plain⟩
  exact ⟨first, rest ++ readBehind, rfl, plain⟩

/-- A name, as an operand that begins with no storage class. -/
structure Name (tree : Tree.Plain) (read : List Token) : Prop extends Operand tree read where
  starts : Starts read

variable {tree : Tree.Plain} {read readBehind : List Token} {trees : List Tree.Plain}
  {construct : Construct} {name type : Option Encoding}

/-! ## Tokens -/

theorem IsLeaf.operand {test : Token.Kind → Prop} (leaf : IsLeaf test tree read) :
    Operand tree read := by
  rcases leaf with ⟨token, _, rfl, rfl⟩
  exact ⟨⟨⟨trivial, .leaf () token⟩, .leaf () token⟩, rfl⟩

theorem IsLeaf.simple {test : Token.Kind → Prop} (leaf : IsLeaf test tree read) :
    Simple tree read :=
  leaf.operand.toSimple

theorem IsLeaf.shaped {test : Token.Kind → Prop} (leaf : IsLeaf test tree read) :
    Shaped tree read :=
  leaf.simple.toShaped

theorem IsLeaf.starts {test : Token.Kind → Prop} (leaf : IsLeaf test tree read)
    (plain : ∀ kind, test kind → kind.isDeclSpecifier = false) : Starts read := by
  rcases leaf with ⟨token, holds, _, rfl⟩
  exact ⟨token, [], rfl, plain _ holds⟩

theorem simple_nil : Simple .nil [] := ⟨⟨trivial, .nil⟩, .nil⟩

/-! ## Lists -/

theorem Each.fits (each : Each Shaped trees read) :
    ∀ element ∈ trees, element.Throughout Tree.Fits := by
  induction each with
  | nil => exact fun element member => absurd member (List.not_mem_nil)
  | cons holds _ ih => exact List.forall_mem_cons.mpr ⟨holds.fits, ih⟩

theorem Each.unscoped (each : Each Simple trees read) : ∀ element ∈ trees, element.Unscoped := by
  induction each with
  | nil => exact fun element member => absurd member (List.not_mem_nil)
  | cons holds _ ih => exact List.forall_mem_cons.mpr ⟨holds.unscoped, ih⟩

theorem Each.shaped (each : Each Simple trees read) : Each Shaped trees read :=
  each.imp fun _ _ holds => holds.toShaped

theorem Each.spells_seq (each : Each Shaped trees read) : (Tree.seq trees).Spells read := by
  induction each with
  | nil => exact .nil
  | cons holds _ ih => exact .cell holds.spells ih

theorem Each.spells_encodedList (each : Each Shaped trees read) :
    (Tree.encodedList construct name type trees).Spells read := by
  cases each with
  | nil => exact .cell .nil .nil
  | cons holds rest => exact .cell holds.spells rest.spells_seq

theorem Each.shaped_seq (each : Each Shaped trees read) : Shaped (Tree.seq trees) read :=
  ⟨Tree.throughout_seq each.fits, each.spells_seq⟩

theorem Each.simple_seq (each : Each Simple trees read) : Simple (Tree.seq trees) read :=
  ⟨each.shaped.shaped_seq, Tree.unscoped_seq each.unscoped⟩

/-- A list of a construct that asks nothing of its parts. -/
theorem Each.shaped_encodedList (each : Each Shaped trees read)
    (fits : (Tree.encodedList construct name type trees).Fits) :
    Shaped (Tree.encodedList construct name type trees) read :=
  ⟨Tree.throughout_encodedList each.fits fits, each.spells_encodedList⟩

theorem Each.item_encodedList (each : Each Shaped trees read)
    (fits : (Tree.encodedList construct name type trees).Fits) :
    Item (Tree.encodedList construct name type trees) read :=
  ⟨each.shaped_encodedList fits, rfl⟩

/-- An unscoped list that is no declaration fits. -/
theorem fits_of_isTransparent (transparent : construct.isTransparent = true)
    (unscoped : (Tree.encodedList construct name type trees).Unscoped) :
    (Tree.encodedList construct name type trees).Fits := by
  cases construct with
  | namespaceSpec | classSpec | enumSpec | declaration | templateDecl | forStatement
    | usingDirective | usingDeclaration => cases transparent
  | _ => exact fun _ => unscoped

theorem Each.operand_encodedList (each : Each Simple trees read)
    (transparent : construct.isTransparent = true)
    (callee : construct = .funcallExpr → (trees.headD .nil).isNil = false) :
    Operand (Tree.encodedList construct name type trees) read := by
  have unscoped : (Tree.encodedList construct name type trees).Unscoped :=
    Tree.unscoped_encodedList transparent callee each.unscoped
  exact ⟨⟨each.shaped.shaped_encodedList (fits_of_isTransparent transparent unscoped), unscoped⟩, rfl⟩

theorem Each.simple_grouped (each : Each Simple trees read) : Simple (grouped trees) read := by
  cases each with
  | nil => exact simple_nil
  | cons holds rest =>
    cases rest with
    | nil =>
      rw [List.append_nil]
      exact holds
    | cons next rest => exact (Each.cons holds (.cons next rest)).simple_seq

/-! ## The recursive productions -/

/-- What is known of the productions through which the grammar is recursive. -/
structure Parses (g : Productions) : Prop where
  typeId : Reads anywhere g.typeId fun type => Simple type.tree
  assignment : Reads anywhere g.assignment Simple
  expression : Reads anywhere g.expression Simple
  cast : Reads anywhere g.cast Simple
  binary : ∀ level, Reads anywhere (g.binary level) Simple
  initializers : Reads (inFrontOf .openBrace) g.initializers Simple
  parameter : Reads anywhere g.parameter fun parameter => Simple parameter.tree
  declaration : ∀ place, Reads anywhere (g.declaration place) Item
  statement : Reads anywhere g.statement Item

theorem parses_exhausted : Parses .exhausted := by
  constructor
  all_goals
    intros
    exact Reads.throw (by simp)

end

variable {g : Productions} {place : Where}

/-! ## Template arguments -/

theorem templateArgument_reads (parses : Parses g) :
    Reads anywhere (templateArgument g) fun argument => Simple argument.tree := by
  refine .asks fun isType => ?_
  split
  · exact parses.typeId
  · refine .bind parses.assignment fun tree read simple => ?_
    refine .pure ?_
    rw [List.append_nil]
    exact simple

theorem templateArgumentList_reads (parses : Parses g) :
    Reads place (templateArgumentList g) fun parts => Each Simple parts.elements := by
  refine .behindSilent .splitShift fun _ => ?_
  refine .sees (.pure .nil) ?_
  refine .repeatFromNothing (fun parts => Each Simple parts.elements) .nil
    fun parts read each => ?_
  refine .bind (templateArgument_reads parses) fun argument readArgument simple => ?_
  refine .optional (by decide) (fun comma readComma leaf => .pure ?_) (.pure ?_)
  · simpa [Reads.Turns] using (each.append (.single simple)).append (.single leaf.simple)
  · simpa [Reads.Turns] using each.append (.single simple)

theorem templateArguments_reads (parses : Parses g) :
    Reads (inFrontOf .less) (templateArguments g) fun parts => Each Simple parts.elements := by
  refine .bind (.takeOf (by decide)) fun opening readOpening leaf => ?_
  refine .bind (.inTemplate (templateArgumentList_reads parses)) fun arguments read each => ?_
  refine .bind (.expect (by decide)) fun closing readClosing leafClosing => ?_
  exact .pure (.cons leaf.simple (.cons each.simple_seq (.cons leafClosing.simple .nil)))

/-! ## Components -/

/-- A component of a name has elements, and begins with no storage class. -/
structure Component (elements : List Tree.Plain) (read : List Token) : Prop where
  each : Each Simple elements read
  starts : Starts read

theorem identifierComponent_reads (parses : Parses g) (inType : Bool) :
    Reads (inFrontOf .identifier) (identifierComponent g inType) fun component =>
      Component component.elements := by
  refine .bind (.takeOf (by decide)) fun identifier read leaf => ?_
  have starts := leaf.starts fun kind same => by rw [same]; rfl
  refine .asks fun isTemplate => ?_
  refine .sees ?_ ?_
  · simp only [Bool.true_and]
    split
    · refine .bind ((templateArguments_reads parses).restrict fun tokens begins => begins.2)
        fun arguments readArguments each => ?_
      refine .pure ⟨?_, starts.append _⟩
      rw [List.append_nil]
      exact .cons leaf.simple each
    · refine .pure ⟨.cons leaf.simple .nil, starts.append _⟩
  · exact .pure ⟨.cons leaf.simple .nil, starts.append _⟩

theorem destructorComponent_reads :
    Reads (inFrontOf .tilde) destructorComponent fun component => Component component.elements := by
  refine .bind (.takeOf (by decide)) fun tilde read leaf => ?_
  refine .bind (.expect (by decide)) fun identifier readIdentifier leafIdentifier => ?_
  refine .pure ⟨.cons leaf.simple (.cons leafIdentifier.simple .nil), ?_⟩
  exact (leaf.starts fun kind same => by rw [same]; rfl).append _

theorem bracketOperator_reads {closing : Token.Kind} {shown : String}
    (more : closing ≠ .endOfFile) :
    Reads notAtEnd (bracketOperator closing shown)
      fun result => Each Simple result.1 := by
  refine .bind .takeAny fun first readFirst leaf => ?_
  refine .bind (.expect more) fun second readSecond leafSecond => ?_
  exact .pure (.cons leaf.simple (.cons leafSecond.simple .nil))

theorem allocationOperator_reads :
    Reads notAtEnd allocationOperator
      fun result => Each Simple result.1 := by
  refine .bind .takeAny fun keyword readKeyword leaf => ?_
  have alone : Each Simple [keyword] (readKeyword ++ []) := .cons leaf.simple .nil
  refine .sees (.kindBehind fun found => ?_) (.kindBehind fun found => .pure alone)
  simp only [Bool.true_and]
  split
  · next closes =>
    refine .takeThen (· = .openBracket) (inFrontOf .closeBracket)
      (fun tokens begins => ⟨begins.1.2, by rw [begins.1.2]; decide, ?_⟩)
      fun opening readOpening leafOpening => ?_
    · exact begins.2.trans (eq_of_beq closes)
    · refine .bind (.takeOf (by decide)) fun closing readClosing leafClosing => ?_
      exact .pure (.cons leaf.simple (.cons leafOpening.simple (.cons leafClosing.simple .nil)))
  · exact .pure alone

theorem operatorSuffix_reads (parses : Parses g) :
    Reads anywhere (operatorSuffix g) fun result => Each Simple result.1 := by
  refine .kind fun found => ?_
  split
  · exact (bracketOperator_reads (by decide)).ofSeen (by decide)
  · exact (bracketOperator_reads (by decide)).ofSeen (by decide)
  · exact allocationOperator_reads.ofSeen (by decide)
  · exact allocationOperator_reads.ofSeen (by decide)
  · split
    · next punctuation =>
      refine .bind (.take (fun _ => True) fun tokens begins => ⟨trivial, ?_⟩)
        fun operator read leaf => .pure (.cons leaf.simple .nil)
      rw [begins.2]
      intro same
      rw [same] at punctuation
      cases punctuation
    · refine (Reads.bind parses.typeId fun type read simple => ?_).ofAnywhere
      exact .reading fun shown => .pure (.cons simple .nil)

theorem operatorComponent_reads (parses : Parses g) :
    Reads (inFrontOf .kwOperator) (operatorComponent g) fun component =>
      Component component.elements := by
  refine .bind (.takeOf (by decide)) fun keyword read leaf => ?_
  refine .bind (operatorSuffix_reads parses) fun suffix readSuffix each => ?_
  refine .pure ⟨?_, (leaf.starts fun kind same => by rw [same]; rfl).append _⟩
  rw [List.append_nil]
  exact .cons leaf.simple each

theorem nameComponent_reads (parses : Parses g) (inType : Bool) :
    Reads anywhere (nameComponent g inType) fun component => Component component.elements := by
  refine .kind fun found => ?_
  split
  · exact (identifierComponent_reads parses inType).restrict fun tokens begins => begins.2
  · exact destructorComponent_reads.restrict fun tokens begins => begins.2
  · exact (operatorComponent_reads parses).restrict fun tokens begins => begins.2
  · exact .fail

/-! ## Names -/

/-- The elements of a name after some components, of which there may be none yet. -/
structure Components (elements : List Tree.Plain) (read : List Token) : Prop where
  each : Each Simple elements read
  starts : read = [] ∨ Starts read

theorem Components.append {elements behind : List Tree.Plain} {read readBehind : List Token}
    (components : Components elements read) (component : Component behind readBehind) :
    Component (elements ++ behind) (read ++ readBehind) where
  each := components.each.append component.each
  starts := by
    rcases components.starts with none | starts
    · rw [none]
      exact component.starts
    · exact starts.append _

theorem nameComponents_reads (parses : Parses g) (inType : Bool) {start : NameParts}
    (before : List Token) (begins : Components start.elements before) :
    Reads anywhere (nameComponents g inType start) fun parts read =>
      Component parts.elements (before ++ read) := by
  refine .repeatFrom (fun parts : NameParts => Components parts.elements)
    (fun parts : NameParts => Component parts.elements) begins fun parts read components => ?_
  refine .bind (nameComponent_reads parses inType) fun component readComponent holds => ?_
  have whole := components.append holds
  have ended : Reads anywhere (pure (Turn.done
      (⟨parts.elements ++ component.elements, parts.encodings ++ [component.encoding]⟩ : NameParts)))
      fun turn readBehind => Reads.Turns (fun parts : NameParts => Components parts.elements)
        (fun parts : NameParts => Component parts.elements) read turn
        (readComponent ++ readBehind) :=
    .pure (by simpa [Reads.Turns] using whole)
  refine .sees (.kindBehind fun found => ?_) (.kindBehind fun found => ended.ofAnywhere)
  simp only [Bool.true_and]
  split
  · refine .bind (.take (fun _ => True) fun tokens begins => ⟨trivial, ?_⟩)
      fun colons readColons leaf => ?_
    · rw [begins.1.2]
      decide
    · refine .optional (by decide) (fun keyword readKeyword leafKeyword => .pure ?_) (.pure ?_)
      · have more := (whole.each.append (.single leaf.simple)).append (.single leafKeyword.simple)
        have starts := (whole.starts.append readColons).append readKeyword
        exact ⟨by simpa using more, .inr (by simpa using starts)⟩
      · have more := whole.each.append (.single leaf.simple)
        exact ⟨by simpa using more, .inr (by simpa using whole.starts.append readColons)⟩
  · exact ended.ofAnywhere

theorem name_nameTree {elements : List Tree.Plain} {encoding : Encoding} {read : List Token}
    (component : Component elements read) : Name (nameTree elements encoding) read := by
  have list : Name (Tree.encodedList .name (some encoding) none elements) read := by
    refine ⟨⟨⟨?_, .closed rfl⟩, rfl⟩, component.starts⟩
    exact component.each.shaped.shaped_encodedList fun hides => absurd hides (by decide)
  unfold nameTree
  split
  · next single =>
    split
    · next identifier =>
      refine ⟨⟨?_, ?_⟩, component.starts⟩
      · have grouped := component.each.simple_grouped
        exact grouped
      · cases single with
        | nil => cases identifier
        | _ => rfl
    · exact list
  · exact list

theorem name_reads (parses : Parses g) (inType : Bool) :
    Reads anywhere (name g inType) fun named => Name named.tree := by
  refine .optional (by decide) (fun colons readColons leaf => ?_) ?_
  · have starts := leaf.starts fun kind same => by rw [same]; rfl
    refine .bind (nameComponents_reads parses inType readColons
      ⟨.single leaf.simple, .inr starts⟩) fun parts read component => .pure ?_
    rw [List.append_nil]
    exact name_nameTree component
  · refine .bind (nameComponents_reads parses inType [] ⟨.nil, .inl rfl⟩)
      fun parts read component => .pure ?_
    rw [List.append_nil]
    exact name_nameTree component

end Grammar
end CppNames
