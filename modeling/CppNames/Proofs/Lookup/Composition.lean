import CppNames.Lookup.Name
import CppNames.Proofs.Encoding.Component

namespace CppNames
namespace Table

/-!
# Qualified names, one component at a time

A qualified name is looked up from the left to the right.  A declaration finds its scope in
another way: the components in front of the last one are put together to a name again, and
the scope that this name denotes is asked for the last component.  Both ways meet in `denoted`,
which leads through the components of a qualifier.

They differ in one thing only.  Where a component depends on a template parameter, the lookup
ends, but the shorter name is still shown for a report that is never made.  So a qualifier can
fail to have a scope, by its last component, where the whole name has an answer.
-/

variable {table : Table} {scope : ScopeId} {context : LookupContext}

/-- The lookup of a last component behind what the components in front of it denote. -/
def lookupBehind (table : Table) (last : Encoding) (context : LookupContext) :
    Except LookupError Denoted → Outcome (Except LookupError SymbolSet)
  | .error error => .ok (.error error)
  | .ok none => .ok (.ok .ofParameter)
  | .ok (some target) => do return .ok (← table.lookupQualified target (← last.lookupKey) context)

/-- Further components behind what the components in front of them denote. -/
def further (table : Table) (rest : List Encoding) :
    Except LookupError Denoted → Outcome (Except LookupError Denoted)
  | .ok (some next) => table.descend next rest
  | other => .ok other

/-- What a component denotes, given the outcome of its lookup. -/
def denotedBy (table : Table) (component : Encoding) :
    Except LookupError SymbolSet → Outcome (Except LookupError Denoted)
  | .error error => .ok (.error error)
  | .ok found => table.scopeOf found component

/-! ## Components behind others -/

theorem bind_further_nil (before : Outcome (Except LookupError Denoted)) :
    before >>= table.further [] = before := by
  rcases before with fault | error | _ | target <;> rfl

theorem descend_cons (component : Encoding) (rest : List Encoding) :
    table.descend scope (component :: rest) = (do
      let key ← component.lookupKey
      let found ← table.lookupQualified scope key { scope := true }
      table.scopeOf found component >>= table.further rest) := by
  unfold descend
  refine bind_congr fun key => bind_congr fun found => bind_congr fun next => ?_
  rcases next with error | _ | target <;> rfl

theorem denoted_cons (component : Encoding) (rest : List Encoding) :
    table.denoted scope (component :: rest) =
      (if component.isGlobalScope then table.descend global rest
      else do
        let key ← component.lookupKey
        let found ← table.lookupUnqualified scope key { scope := true }
        table.scopeOf found component >>= table.further rest) := by
  unfold denoted
  dsimp only
  refine congrArg (ite _ (table.descend global rest)) ?_
  refine bind_congr fun key => bind_congr fun found => bind_congr fun next => ?_
  rcases next with error | _ | target <;> rfl

theorem bind_further (front rest : List Encoding)
    (each : ∀ scope, table.descend scope (front ++ rest) =
      table.descend scope front >>= table.further rest)
    (before : Outcome (Except LookupError Denoted)) :
    before >>= table.further (front ++ rest) =
      before >>= table.further front >>= table.further rest := by
  rcases before with fault | error | _ | target
  · rfl
  · rfl
  · rfl
  · exact each target

theorem descend_append (front rest : List Encoding) :
    table.descend scope (front ++ rest) = table.descend scope front >>= table.further rest := by
  induction front generalizing scope with
  | nil => rfl
  | cons component front ih =>
    rw [List.cons_append, descend_cons, descend_cons]
    simp only [bind_assoc, bind_further front rest fun _ => ih]

theorem denoted_append {front : List Encoding} (named : front ≠ []) (rest : List Encoding) :
    table.denoted scope (front ++ rest) = table.denoted scope front >>= table.further rest := by
  rcases List.exists_cons_of_ne_nil named with ⟨component, front, rfl⟩
  rw [List.cons_append, denoted_cons, denoted_cons]
  split
  · exact descend_append front rest
  · simp only [bind_assoc, bind_further front rest fun _ => descend_append front rest]

/-! ## Names and their qualifiers -/

section Names

open Encoding (IsComponent qualified limit)

variable {front : List Encoding} {last : Encoding}

theorem components_qualified {parts : List Encoding} (several : 2 ≤ parts.length)
    (told : parts.length ≤ limit) (components : ∀ part ∈ parts, IsComponent part) :
    (qualified parts).components = .ok parts := by
  unfold Encoding.components Encoding.partOr
  rw [Encoding.names_qualified_take several components, List.take_of_length_le told]
  rfl

theorem lastComponent_qualified {parts : List Encoding} (several : 2 ≤ (parts ++ [last]).length)
    (told : (parts ++ [last]).length ≤ limit)
    (components : ∀ part ∈ parts ++ [last], IsComponent part) :
    (qualified (parts ++ [last])).lastComponent = .ok last := by
  unfold Encoding.lastComponent Encoding.partOr Encoding.lastName
  rw [if_pos (Encoding.isQualified_qualified several),
    Encoding.names_qualified_take several components, List.take_of_length_le told]
  simp only [Except.map, List.getLastD_concat]
  rfl

theorem isGlobalScope_qualified {parts : List Encoding} (several : 2 ≤ parts.length) :
    (qualified parts).isGlobalScope = false := by
  cases isGlobal : (qualified parts).isGlobalScope with
  | false => rfl
  | true =>
    have marked := Encoding.isQualified_qualified several
    rw [eq_of_beq isGlobal] at marked
    exact absurd marked (by decide)

theorem two_le_length_concat (named : front ≠ []) : 2 ≤ (front ++ [last]).length := by
  rw [List.length_append, List.length_singleton]
  exact Nat.succ_le_succ (List.length_pos_of_ne_nil named)

/-- The lookup of a qualified name, as a lookup behind what its qualifier denotes. -/
theorem lookup_qualified (named : front ≠ []) (told : (front ++ [last]).length ≤ limit)
    (components : ∀ part ∈ front ++ [last], IsComponent part) :
    table.lookup (qualified (front ++ [last])) scope context =
      table.denoted scope front >>= table.lookupBehind last context := by
  have several : 2 ≤ (front ++ [last]).length := two_le_length_concat named
  unfold lookup
  rw [if_pos (Encoding.isQualified_qualified several),
    components_qualified several told components]
  simp only [bind, Except.bind, List.getLast?_concat, List.dropLast_concat]
  rcases table.denoted scope front with fault | error | _ | target <;> rfl

/-- A single component denotes the same scope as a qualifier and as a name. -/
theorem lookupScope_component {component : Encoding} (single : IsComponent component) :
    table.lookupScope component scope = table.denoted scope [component] := by
  unfold lookupScope
  rw [denoted_cons]
  split
  · rfl
  · have last : component.lastComponent = .ok component := by
      unfold Encoding.lastComponent Encoding.partOr Encoding.lastName
      rw [if_neg (by simp [single.isQualified_eq])]
      rfl
    unfold lookup
    rw [if_neg (by simp [single.isQualified_eq]), last]
    rcases component.lookupKey with fault | key
    · rfl
    simp only [bind, Except.bind]
    rcases table.lookupUnqualified scope key { scope := true } with fault | found
    · rfl
    · exact (bind_further_nil _).symm

/-- The scope of a qualifier is what its components denote, unless it depends on a template
parameter and its last component cannot be shown. -/
theorem lookupScope_qualified {component : Encoding} (told : (front ++ [component]).length ≤ limit)
    (components : ∀ part ∈ front ++ [component], IsComponent part) :
    table.lookupScope (qualified (front ++ [component])) scope =
        table.denoted scope (front ++ [component]) ∨
      ∃ fault, component.shown = .error fault ∧
        table.lookupScope (qualified (front ++ [component])) scope = .error fault ∧
        table.denoted scope (front ++ [component]) = .ok (.ok none) := by
  rcases eq_or_ne front [] with rfl | named
  · exact .inl (lookupScope_component (components _ List.mem_cons_self))
  have several : 2 ≤ (front ++ [component]).length := two_le_length_concat named
  have run : table.lookupScope (qualified (front ++ [component])) scope =
      table.denoted scope front >>= fun before =>
        table.lookupBehind component { scope := true } before >>= table.denotedBy component := by
    unfold lookupScope
    rw [if_neg (by simp [isGlobalScope_qualified several]), lookup_qualified named told components,
      lastComponent_qualified several told components, bind_assoc]
    refine bind_congr fun before => bind_congr fun found => ?_
    rcases found with error | found <;> rfl
  rw [run, denoted_append named]
  rcases table.denoted scope front with fault | error | _ | target
  · exact .inl rfl
  · exact .inl rfl
  · -- The name that depends on a parameter is shown before the search ends.
    have ends : table.scopeOf .ofParameter component =
        component.shown >>= fun _ => .ok (.ok none) := rfl
    change table.scopeOf .ofParameter component = _ ∨ _
    rcases shows : component.shown with fault | text
    · refine .inr ⟨fault, rfl, ?_, rfl⟩
      exact ends.trans (by rw [shows]; rfl)
    · refine .inl ?_
      exact ends.trans (by rw [shows]; rfl)
  · refine .inl ?_
    change table.lookupBehind component { scope := true } (.ok (some target)) >>=
      table.denotedBy component = table.descend target [component]
    rw [descend_cons]
    simp only [lookupBehind, bind_assoc, pure_bind, bind_further_nil]
    rfl

/-- Qualified names compose.  What the name behind a qualifier finds depends on the scope of the
qualifier alone: an error stays, a dependent qualifier makes the name dependent, and in a scope
the last component is looked up as a member.  Where the qualifier has no answer, the name has none
either, unless the qualifier is dependent and its last component cannot be shown. -/
theorem lookup_composes {component : Encoding} (told : (front ++ [component, last]).length ≤ limit)
    (components : ∀ part ∈ front ++ [component, last], IsComponent part) :
    (∀ answer, table.lookupScope (qualified (front ++ [component])) scope = .ok answer →
      table.lookup (qualified (front ++ [component, last])) scope context =
        table.lookupBehind last context answer) ∧
    (∀ fault, table.lookupScope (qualified (front ++ [component])) scope = .error fault →
      table.lookup (qualified (front ++ [component, last])) scope context = .error fault ∨
      component.shown = .error fault ∧
        table.lookup (qualified (front ++ [component, last])) scope context =
          .ok (.ok .ofParameter)) := by
  have split : front ++ [component, last] = (front ++ [component]) ++ [last] := by simp
  rw [split] at told components ⊢
  have shorter : (front ++ [component]).length ≤ limit :=
    Nat.le_trans (by simp) told
  rw [lookup_qualified (List.concat_ne_nil _ _) told components]
  have fewer : ∀ part ∈ front ++ [component], IsComponent part :=
    fun part member => components part (List.mem_append_left _ member)
  rcases lookupScope_qualified shorter fewer with same | ⟨fault, hides, none, dependent⟩
  · rw [same]
    constructor
    · intro answer denotes
      rw [denotes]
      rfl
    · intro fault denotes
      rw [denotes]
      exact .inl rfl
  · rw [none, dependent]
    constructor
    · intro answer denotes
      cases denotes
    · intro other same
      cases same
      exact .inr ⟨hides, rfl⟩

end Names

/-- The table of `namespace A { template <class T> class V { int x; }; }` without the template
parameter. -/
def templateInside : Table where
  scopes := #[⟨.namespaceBody .empty [] [], none, [⟨1⟩], [⟨⟨[0x81, 0x41]⟩, [⟨0⟩]⟩]⟩,
    ⟨.namespaceBody ⟨[0x81, 0x41]⟩ [] [], some ⟨0⟩, [⟨2⟩], [⟨⟨[0x81, 0x56]⟩, [⟨1⟩]⟩]⟩,
    ⟨.classBody ⟨[0x81, 0x56]⟩ 0 [], some ⟨1⟩, [], [⟨⟨[0x81, 0x78]⟩, [⟨2⟩]⟩]⟩]
  symbols := #[
    { Symbol.ofDeclaration ⟨[0x81, 0x41]⟩ .namespaceName .empty ⟨0⟩ 0 none with defines := some ⟨1⟩ },
    { Symbol.ofDeclaration ⟨[0x81, 0x56]⟩ (.classTemplate true) .empty ⟨1⟩ 0 none with
      defines := some ⟨2⟩ },
    .ofDeclaration ⟨[0x81, 0x78]⟩ (.object true) ⟨[0x69]⟩ ⟨2⟩ 0 none]
  nodeScopes := []
  searchesBases := true

/-- The member of a template in a namespace, behind `::A::V<int>`. -/
theorem lookup_composes_templateInside :
    templateInside.lookup (.qualified [.globalScope, .simpleName "A",
      .templateId "V" [.builtin 'i'], .simpleName "x"]) ⟨2⟩ {} = .ok (.ok ⟨[⟨2⟩], false⟩) := by
  have qualifier : templateInside.lookupScope (.qualified [.globalScope, .simpleName "A",
      .templateId "V" [.builtin 'i']]) ⟨2⟩ = .ok (.ok (some ⟨2⟩)) := by decide +kernel
  have components : ∀ part ∈ [.globalScope, .simpleName "A"] ++
      [.templateId "V" [.builtin 'i'], .simpleName "x"], Encoding.IsComponent part := by
    simp only [List.cons_append, List.nil_append, List.forall_mem_cons]
    exact ⟨.globalScope, .simpleName _, .templateId _ _, .simpleName _, by simp⟩
  exact ((lookup_composes (by decide) components).1 _ qualifier).trans (by decide +kernel)

end Table
end CppNames
