import CppNames.Grammar.Parse
import CppNames.Proofs.Binding.Passes
import CppNames.Proofs.Grammar.Parse
import CppNames.Proofs.Lookup.Enclosing

namespace CppNames

/-!
# The forest of scopes

The scopes of a table lie inside one another.  The walk outwards from a scope ends, unless it
comes to a scope that lies inside itself.  After one pass over a parse tree no scope does.

A later pass finds the headers of the templates with a function body inside, and moves them to
the class that the name of the function then leads to.  That class may have been completed inside
the very body.  A header is then moved into itself, and this is the only way in which a circle
comes about.
-/

namespace Table

variable {table : Table}

theorem ends_or_circle (nests : table.Nests) {id : ScopeId} (inside : table.HasScope id) :
    table.Ends id ∨ ∃ circle, Relation.ReflTransGen table.Around id circle ∧
      Relation.TransGen table.Around circle circle := by
  have leads : ∀ inner outer, table.Around inner outer → table.HasScope outer := by
    rintro inner outer ⟨scope, read, around⟩
    exact nests.outer inner scope outer read around
  exact ends_or_circle_of_around leads inside

/-- Around a circle one comes back from everywhere. -/
theorem back_of_circle {id other : ScopeId} (circle : Relation.TransGen table.Around id id)
    (way : Relation.ReflTransGen table.Around id other) :
    Relation.ReflTransGen table.Around other id := by
  induction way with
  | refl => exact .refl
  | tail _ step ih =>
    have onwards : ∀ {next}, Relation.TransGen table.Around id id → table.Around id next →
        Relation.ReflTransGen table.Around next id := by
      intro next circle step
      rcases Relation.TransGen.head'_iff.mp circle with ⟨first, link, rest⟩
      exact around_unique step link ▸ rest
    rcases Relation.ReflTransGen.cases_head ih with same | ⟨first, link, rest⟩
    · exact onwards circle (same ▸ step)
    · exact around_unique step link ▸ rest

end Table

namespace Binding

open Table

variable {setting : Setting} {pending : Option ScopeId} {table : Table}

theorem acyclic_of_ranked (ranked : Ranked table) : table.Acyclic := by
  rcases ranked with ⟨rank, descends⟩
  exact acyclic_of_descends descends

/-- A scope that lies inside itself lies inside the header of a template. -/
theorem Formed.header_of_circle (formed : Formed setting pending table) {id : ScopeId}
    (circle : Relation.TransGen table.Around id id) :
    ∃ header declaration, Relation.ReflTransGen table.Around id header ∧
      Relation.TransGen table.Around header header ∧
      table.HasShape header (.header declaration) := by
  by_contra absent
  -- without a header on it, the circle would lead to ever older scopes
  have older : ∀ {other}, Relation.TransGen table.Around id other → other.index < id.index := by
    have single : ∀ {inner outer}, Relation.ReflTransGen table.Around id inner →
        table.Around inner outer → outer.index < inner.index := by
      rintro inner outer way ⟨scope, read, around⟩
      refine formed.older inner scope outer read around ?_
      cases shape : scope.region.shape with
      | header declaration =>
        have back := back_of_circle circle way
        refine absurd ⟨inner, declaration, way, ?_, scope, read, shape⟩ absent
        exact (Relation.TransGen.trans_right back circle).trans_left way
      | _ => rfl
    intro other way
    induction way with
    | single step => exact single .refl step
    | tail way step ih => exact Nat.lt_trans (single way.to_reflTransGen step) ih
  exact Nat.lt_irrefl _ (older circle)

/-- The setting for the first pass over a tree. -/
def Setting.ofFirstPass (tree : Node) : Setting := { Setting.ofTrees [tree] with first := true }

theorem suits_ofFirstPass {tree : Node} (distinct : (tree.preorder.map Tree.id).Nodup)
    (coherent : Tree.Coherent [tree]) (searchesBases : Bool) :
    Suits (Setting.ofFirstPass tree) (Bound.fresh searchesBases).table tree.preorder where
  spells := (suits_ofTrees coherent (List.mem_singleton_self tree) .initial).spells
  noted _ _ := trivial
  declaring _ _ := trivial
  aliasing _ _ _ := trivial
  fresh _ := ⟨distinct, fun _ _ _ => rfl⟩
  inside stands := False.elim stands
  inner := (suits_ofTrees coherent (List.mem_singleton_self tree) .initial).inner

end Binding

open Binding Table

theorem Tree.coherent_of_nodup {tree : Node} (distinct : (tree.preorder.map Tree.id).Nodup) :
    Tree.Coherent [tree] := by
  have parts : Tree.parts [tree] = tree.preorder := List.append_nil _
  intro first memberFirst second memberSecond same
  rw [parts] at memberFirst memberSecond
  rw [List.inj_on_of_nodup_map distinct memberFirst memberSecond same]

theorem Tree.mem_of_contentOf {trees : List Node} {label : Tree.NodeId} {construct : Construct}
    (content : Tree.contentOf trees label = construct) (marked : construct ≠ .cons) :
    ∃ part ∈ Tree.parts trees, part.id = label ∧ part.isA construct = true := by
  unfold Tree.contentOf at content
  cases found : (Tree.parts trees).find? (·.id == label) with
  | none =>
    rw [found] at content
    exact absurd content.symm marked
  | some part =>
    rw [found] at content
    refine ⟨part, List.mem_of_find?_eq_some found, by simpa using List.find?_some found, ?_⟩
    cases spells : part.construct? with
    | none =>
      rw [Option.bind_some, spells] at content
      exact absurd content.symm marked
    | some other =>
      rw [Option.bind_some, spells] at content
      exact content ▸ beq_of_eq spells

theorem nodup_ids_of_parse {file source : String} {options : ParseOptions} {parsed : Parsed}
    (parses : parse file source options = .ok parsed) :
    (parsed.tree.preorder.map Tree.id).Nodup := by
  rcases parse_shaped parses with ⟨plain, _, _, same⟩
  rw [same]
  exact Tree.nodup_ids_numbered plain

/-- After one pass over a parse tree, the walk outwards ends from every scope.  After any number
of passes it ends as well, unless it leads into the header of a template that lies inside
itself. -/
theorem outwards_afterPasses (file source : String) (parsing : ParseOptions)
    (searchesBases : Bool) :
    match parse file source parsing with
    | .error _ => True
    | .ok parsed =>
      (∀ (name : String) (options : BindOptions),
        let table := (bind name options parsed.tree (.fresh searchesBases)).1.table
        ∀ index < table.scopes.size, table.Ends ⟨index⟩) ∧
      ∀ runs : List (String × BindOptions),
        let table := ((Bound.fresh searchesBases).afterPasses
          (runs.map fun run => ⟨run.1, run.2, parsed.tree⟩)).table
        ∀ index < table.scopes.size, table.Ends ⟨index⟩ ∨
          ∃ header, Relation.ReflTransGen table.Around ⟨index⟩ header ∧
            Relation.TransGen table.Around header header ∧
            ∃ declaration ∈ parsed.tree.preorder, declaration.isA .templateDecl = true ∧
              table.HasShape header (.header declaration.id) := by
  split
  · trivial
  next parsed parses =>
  have distinct := nodup_ids_of_parse parses
  have coherent := Tree.coherent_of_nodup distinct
  constructor
  · intro name options table index inside
    have formed := formed_bind (formed_fresh (Setting.ofFirstPass parsed.tree) rfl rfl searchesBases)
      (suits_ofFirstPass distinct coherent searchesBases) name options
    rcases ends_or_circle formed.consistent.nests inside with ends | ⟨circle, _, closed⟩
    · exact ends
    · exact absurd closed (acyclic_of_ranked (formed.budding rfl).ranked circle)
  · intro runs table index inside
    have among : ∀ pass ∈ runs.map fun run => (⟨run.1, run.2, parsed.tree⟩ : Pass),
        pass.tree ∈ [parsed.tree] := by
      intro pass member
      rcases List.mem_map.mp member with ⟨run, _, rfl⟩
      exact List.mem_singleton_self _
    have formed := formed_afterPasses coherent among (formed_fresh _ rfl rfl searchesBases)
    rcases ends_or_circle formed.consistent.nests inside with ends | ⟨circle, way, closed⟩
    · exact .inl ends
    rcases formed.header_of_circle closed with ⟨header, label, onwards, around, has⟩
    rcases Tree.mem_of_contentOf (formed.headers header label has) (by decide) with
      ⟨declaration, member, rfl, isTemplate⟩
    refine .inr ⟨header, way.trans onwards, around, declaration, ?_, isTemplate, has⟩
    simpa [Tree.parts] using member

end CppNames
