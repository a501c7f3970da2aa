import CppNames.Proofs.Travel.Declaration

namespace CppNames
namespace Grammar

/-!
# The names that become known as templates

Behind a template header the parser waits for a class specifier, and registers the name of the first
one that it comes to.  It does not look where this one stands.  It may declare the template, and it
may as well be in a parameter list, in a return type or in a function body of the declaration, or in
a declaration behind one that was given up.  Besides, the name of the function that the declaration
declares is registered.  No other name is.
-/

variable {start state before after : State} {text : String}

/-! ## Waiting for a class -/

/-- A step on which no class specifier begins.  A name may go into the registry. -/
def Idle (before after : State) : Prop :=
  Advance before after ∨ ∃ text, after = before.withTemplate text

/-- The state lies behind a template header, and no class specifier began in between. -/
def Waits (start state : State) : Prop :=
  ∃ before opened, Reached start before ∧ ReadsHeader before opened ∧
    Relation.ReflTransGen Idle opened.headed state

theorem Advance.underHeader (advance : Advance before after) :
    after.underHeader = before.underHeader := by
  cases advance with
  | aside aside => exact aside.underHeader
  | _ => rfl

theorem Advance.templateNames (advance : Advance before after) :
    after.templateNames = before.templateNames := by
  cases advance with
  | aside aside => exact aside.templateNames
  | _ => rfl

theorem Idle.underHeader (idle : Idle before after) :
    after.underHeader = before.underHeader := by
  rcases idle with advance | ⟨text, rfl⟩
  · exact advance.underHeader
  · rfl

theorem Waits.idle (waits : Waits start before) (idle : Idle before after) :
    Waits start after := by
  rcases waits with ⟨front, opened, reached, header, way⟩
  exact ⟨front, opened, reached, header, way.tail idle⟩

/-- The flag is set wherever a header waits. -/
theorem Waits.underHeader (waits : Waits start state) : state.underHeader = true := by
  rcases waits with ⟨_, _, _, _, way⟩
  induction way with
  | refl => rfl
  | tail _ idle ih => exact idle.underHeader.trans ih

/-! ## What is registered -/

/-- The text is the last identifier in the name of the first class specifier behind a template
header. -/
def NamesFirstClass (start : State) (text : String) : Prop :=
  ∃ state behind, Waits start state ∧ isClassKey (kindOf state.tokens) = true ∧
    ReadsName state.behindClassKey behind text

/-- The text names the function that the declaration behind a template header declares. -/
def NamesFunction (start : State) (text : String) : Prop :=
  ∃ before opened behind, Reached start before ∧ ReadsHeader before opened ∧
    ReadsFunction opened.headed behind text

/-- What the parser knows of templates: the header that waits, and the names of the registry. -/
structure Registers (start state : State) : Prop where
  waits : state.underHeader = true → Waits start state
  origin : ∀ text ∈ state.templateNames, NamesFirstClass start text ∨ NamesFunction start text

theorem Registers.advance (registers : Registers start before) (advance : Advance before after) :
    Registers start after where
  waits under := (registers.waits (advance.underHeader.symm.trans under)).idle (.inl advance)
  origin := by
    rw [advance.templateNames]
    exact registers.origin

/-- One more name in the registry. -/
theorem Registers.withTemplate (registers : Registers start state)
    (named : NamesFirstClass start text ∨ NamesFunction start text) :
    Registers start (state.withTemplate text) where
  waits under := (registers.waits under).idle (.inr ⟨text, rfl⟩)
  origin := List.forall_mem_cons.mpr ⟨named, registers.origin⟩

/-- A state in which no header waits. -/
theorem Registers.unheaded (registers : Registers start state) :
    Registers start state.unheaded where
  waits under := Bool.noConfusion under
  origin := registers.origin

/-- Wherever a parser is on its way, the flag is set where a header waits for a class, and each name
of the registry is there for one of the two reasons. -/
theorem registers_of_reached (none : start.templateNames = []) (plain : start.underHeader = false)
    (reached : Reached start state) : Registers start state := by
  induction reached with
  | start =>
    refine ⟨fun under => ?_, fun text member => ?_⟩
    · rw [plain] at under
      cases under
    · rw [none] at member
      exact absurd member List.not_mem_nil
  | step _ advance ih => exact ih.advance advance
  | specifier _ _ ih => exact ⟨fun under => Bool.noConfusion under, ih.origin⟩
  | @learnClass state behind _ _ isKey under readsName _ ihState ihBehind =>
    exact ihBehind.withTemplate (.inl ⟨state, behind, ihState.waits under, isKey, readsName⟩)
  | @enter before opened reached readsHeader _ _ ih =>
    exact ⟨fun _ => ⟨before, opened, reached, readsHeader, .refl⟩, ih.origin⟩
  | leave _ ih => exact ih.unheaded
  | @learnFunction before opened behind _ reached readsHeader readsFunction _ _ ih =>
    exact ih.withTemplate (.inr ⟨before, opened, behind, reached, readsHeader, readsFunction⟩)

/-! ## What becomes of the first class specifier -/

/-- No name leaves the registry. -/
theorem Reached.templateNames (reached : Reached start state) :
    start.templateNames <:+ state.templateNames := by
  induction reached with
  | start => exact List.suffix_rfl
  | step _ advance ih =>
    rw [advance.templateNames]
    exact ih
  | specifier _ _ ih => exact ih
  | learnClass _ _ _ _ _ _ ih => exact ih.trans (List.suffix_cons _ _)
  | enter _ _ _ _ ih => exact ih
  | leave _ ih => exact ih
  | learnFunction _ _ _ _ _ ih => exact ih.trans (List.suffix_cons _ _)

/-- Where a header waits, a class specifier registers its name, wherever it stands. -/
theorem mem_templateNames_classSpecifier {level : Nat} {named : Encoded} {behind : State}
    (under : state.underHeader = true)
    (begins : [Token.Kind.identifier, .colonColon].contains (kindOf state.behindClassKey.tokens) = true)
    (names : name (productions level) true state.behindClassKey = .ok named behind)
    (last : lastIdentifier? named.tree = some text) :
    text ∈ (stateAfter (classSpecifier (productions level) state)).templateNames := by
  have learns : className (productions level) state.underHeader state.behindClassKey =
      .ok (named.tree, named.encoding)
        { behind.withTemplate text with typeNames := text :: behind.typeNames } := by
    have asked : kind state.behindClassKey =
      .ok (kindOf state.behindClassKey.tokens) state.behindClassKey := rfl
    unfold className
    rw [bind_of_ok asked, if_pos begins, bind_of_ok names, last, under]
    rfl
  have reached : Reached
      (stateAfter (className (productions level) state.underHeader state.behindClassKey))
      (stateAfter (classSpecifier (productions level) state)) :=
    (journeys_productions level).behindClassName .start
  rw [learns] at reached
  exact reached.templateNames.subset (List.mem_cons_self ..)

/-- The registry of template names, however the tokens of a text are parsed.  A name is there
because it ends the name of the first class specifier behind a template header, wherever in the
declaration or behind it this one stands, or because it names the function that the declaration
declares.  The flag is set where a header waits, and as long as it waits every class specifier with
a name registers it. -/
theorem templateNames_of_unit (maxDepth : Nat) (tokens : List Token) :
    (∀ text ∈ (stateAfter (unit (State.ofTokens maxDepth tokens))).templateNames,
      NamesFirstClass (State.ofTokens maxDepth tokens) text ∨
        NamesFunction (State.ofTokens maxDepth tokens) text) ∧
    ∀ state, Reached (State.ofTokens maxDepth tokens) state →
      (state.underHeader = true ↔ Waits (State.ofTokens maxDepth tokens) state) ∧
      ∀ level named behind text, Waits (State.ofTokens maxDepth tokens) state →
        [Token.Kind.identifier, .colonColon].contains (kindOf state.behindClassKey.tokens) = true →
        name (productions level) true state.behindClassKey = .ok named behind →
        lastIdentifier? named.tree = some text →
        text ∈ (stateAfter (classSpecifier (productions level) state)).templateNames := by
  refine ⟨(registers_of_reached rfl rfl (unit_reached _)).origin, fun state reached => ⟨⟨?_, ?_⟩, ?_⟩⟩
  · exact (registers_of_reached rfl rfl reached).waits
  · exact Waits.underHeader
  · intro level named behind text waits begins names last
    exact mem_templateNames_classSpecifier waits.underHeader begins names last

/-- The class of a parameter is registered along with the function. -/
example : (stateAfter (unit (State.ofTokens 256
    (tokenize "" true "template<class T>void f(struct S*p);").1))).templateNames = ["f", "S"] := by
  decide +kernel

end Grammar
end CppNames
