import JsxProvenance.Proofs.Annotation.Histories
import JsxProvenance.Proofs.Annotation.IgnoreLists
import JsxProvenance.Proofs.Annotation.Order

/-! Components that are ignored by name. A visit to a root under an ignored name adds nothing, so a
run leaves the region of a root alone if all components with that root are ignored. One that is
not ignored may annotate a root that it shares with an ignored one.
-/

namespace JsxProvenance

open Ast

/-- The component is ignored as a whole: it has a name, and the name is on the list. -/
def Settings.Ignores (settings : Settings) (component : Component) : Prop :=
  component.name ≠ "" ∧ component.name ∈ settings.ignoredComponents

instance (settings : Settings) (component : Component) : Decidable (settings.Ignores component) :=
  inferInstanceAs (Decidable (_ ∧ _))

-----------------------------------------------------------------------------------------
-- Places that are given nothing
-----------------------------------------------------------------------------------------

section

variable {added : Address → List (String × String)} {place : Place}

theorem Ast.Place.length_attributes_of_nothing (nothing : added place.address = [])
    : (place.redraw (.adding added)).node.attributes.length = place.node.attributes.length := by
  rw [redraw, Node.length_attributes_redraw]
  simp [Redraw.under, Redraw.adding, nothing]

theorem Ast.Node.attributesNamed_of_not_element {n : Node} (plain : n.isElement = false)
    (name : String)
    : n.attributesNamed name = [] := by
  cases n with
  | element => cases plain
  | _ => rfl

theorem Ast.Place.attributesNamed_of_nothing (nothing : added place.address = []) (name : String)
    : (place.redraw (.adding added)).node.attributesNamed name
      = place.node.attributesNamed name := by
  cases element : place.node.isElement with
  | true =>
      rw [attributesNamed_redraw_adding added element, nothing]
      exact List.append_nil _
  | false =>
      rw [Node.attributesNamed_of_not_element element, redraw,
        Node.attributesNamed_of_not_element ((Node.isElement_redraw _ _).trans element)]

end

-----------------------------------------------------------------------------------------
-- Visits under ignored names
-----------------------------------------------------------------------------------------

namespace Ast.Program

variable {p : Program} {settings : Settings} {path : Option String}

theorem addedAt_of_ignored {c : Context} (ignored : c.Ignored) (p : Program) (a : Address)
    : p.addedAt c a = fun _ => [] := by
  unfold addedAt
  split
  · next root _ =>
      have nothing : c.pass.added root = fun _ => [] :=
        funext (Context.added_pass_of_ignored ignored root)
      rw [nothing]
      exact funext (addedUnder_nothing a)
  · rfl

/-- Visits under ignored names add nothing, by induction over the visits. -/
theorem addedBy_of_ignored {c : Context} {visited : List (Component × Place)}
    (ignored : ∀ visit ∈ visited, c.settings.Ignores visit.1) (p : Program) (a : Address)
    : p.addedBy c visited a = [] := by
  induction visited generalizing p with
  | nil => rfl
  | cons visit rest ih =>
      obtain ⟨first, others⟩ := List.forall_mem_cons.mp ignored
      have here : (c.withComponent visit.1.name).Ignored := first
      rw [addedBy, addedAt_of_ignored here, ih others, List.append_nil]

/-- Visits add nothing to the region of a root if all components with that root are ignored. -/
theorem addedBy_of_root_ignored {c : Context} {cs : List Component}
    (sublist : cs.Sublist (components p)) {root place : Place} (isRoot : p.IsRoot root)
    (ignored : ∀ component ∈ cs, root ∈ component.roots → c.settings.Ignores component)
    (reached : root.Reaches place)
    : p.addedBy c (visits cs) place.address = [] := by
  rw [addedBy_eq_visitsTo (visits_isRoot sublist) isRoot reached]
  refine addedBy_of_ignored ?_ p _
  rintro ⟨component, other⟩ visit
  obtain ⟨visit, same⟩ := List.mem_filter.mp visit
  obtain ⟨member, rooted⟩ := mem_visits.mp visit
  obtain rfl : other = root :=
    (visits_has sublist _ visit).unique isRoot.stands.has (by simpa using same)
  exact ignored component member rooted

-----------------------------------------------------------------------------------------
-- A run over ignored components
-----------------------------------------------------------------------------------------

/-- A run adds nothing to the region of a root if all components with that root are ignored. -/
theorem afterRun_of_root_ignored {root : Place} (isRoot : p.IsRoot root)
    (ignored : ∀ component ∈ discover p path settings.incompatiblePackages,
      root ∈ component.roots → settings.Ignores component)
    : ∃ added,
        p.afterRun settings path = p.redraw (.adding added)
        ∧ ∀ place, root.Reaches place → added place.address = [] := by
  unfold afterRun
  split
  · next q report returned =>
      obtain ⟨aliases, visited, _⟩ := annotate_visits returned
      have sublist := discover_sublist p path settings.incompatiblePackages
      refine ⟨_, ?_, fun place =>
        addedBy_of_root_ignored (c := { settings, aliases }) sublist isRoot ignored⟩
      rw [← annotateVisits_eq, visited]
  · exact ⟨fun _ => [], p.redraw_adding_nothing.symm, fun _ _ => rfl⟩

/-- An ignored component is left alone: no node in the region of one of its roots is given an
attribute, unless the root is also one of a component that is not ignored.
-/
theorem ignored_component_left_alone {component : Component}
    (discovered : component ∈ discover p path settings.incompatiblePackages)
    (ignored : settings.Ignores component) {root place : Place} (rooted : root ∈ component.roots)
    (others : ∀ other ∈ discover p path settings.incompatiblePackages,
      other ≠ component → root ∈ other.roots → settings.Ignores other)
    (reached : root.Reaches place)
    : ∃ after,
        (p.afterRun settings path).Has ⟨place.address, after⟩
        ∧ after.attributes.length = place.node.attributes.length
        ∧ ∀ name, after.attributesNamed name = place.node.attributesNamed name := by
  have isRoot : p.IsRoot root :=
    ⟨component, (discover_sublist p path settings.incompatiblePackages).subset discovered, rooted⟩
  have all (other : Component) (member : other ∈ discover p path settings.incompatiblePackages)
      (shares : root ∈ other.roots)
      : settings.Ignores other := by
    by_cases same : other = component
    · exact same ▸ ignored
    · exact others other member same shares
  obtain ⟨added, drawn, nothing⟩ := afterRun_of_root_ignored isRoot all
  have there := reached.has isRoot.stands.has
  refine ⟨(place.redraw (.adding added)).node, ?_, ?_, ?_⟩
  · rw [drawn]
    exact there.redraw _
  · exact Place.length_attributes_of_nothing (nothing place reached)
  · exact Place.attributesNamed_of_nothing (nothing place reached)

/-- Settings under which the class of the board is ignored. -/
def quietSettings : Settings := { boardSettings with ignoredComponents := ["Board"] }

/-- The root that is the class's own. -/
def classRoot : Address :=
  [.part 0, .part 0, .part 0, .part 1, .part 0]

/-- The list in the root that is the class's own. -/
def boardList : Node :=
  .element {} (.leaf {} (.jsxIdentifier "ul")) [] [] true (some 89)

theorem exists_board_root (address : Address)
    (among : (discover board none quietSettings.incompatiblePackages).any (fun component =>
      component.name = "Board" && component.roots.any fun root => root.address = address) = true)
    : ∃ component ∈ discover board none quietSettings.incompatiblePackages,
        component.name = "Board" ∧ ∃ root ∈ component.roots, root.address = address := by
  simpa using among

/-- The class is ignored, so the root that is its own is left alone, and with it the list there. -/
theorem ignored_component_left_alone_board
    : ∃ component ∈ discover board none quietSettings.incompatiblePackages,
        quietSettings.Ignores component
        ∧ ∃ root ∈ component.roots,
            root.Reaches ⟨classRoot ++ [.part 0], boardList⟩
            ∧ ∃ after,
                (board.afterRun quietSettings none).Has ⟨classRoot ++ [.part 0], after⟩
                ∧ after.attributes.length = 0 := by
  obtain ⟨component, member, named, root, rooted, placed⟩ :=
    exists_board_root classRoot (by decide +kernel)
  have ignored : quietSettings.Ignores component := by
    simp [Settings.Ignores, named, quietSettings]
  have alone
      : (discover board none quietSettings.incompatiblePackages).all (fun other =>
          other.roots.all fun root =>
            decide (root.address = classRoot → quietSettings.Ignores other)) = true := by
    decide +kernel
  have has : board.Has root :=
    visits_has (discover_sublist _ _ _) (component, root) (mem_visits.mpr ⟨member, rooted⟩)
  obtain rfl : root = ⟨classRoot, .group {} .jsxFragment [boardList]⟩ := has.unique rfl placed
  have reached := (Place.Reaches.refl ⟨classRoot, .group {} .jsxFragment [boardList]⟩).child
    (List.mem_singleton.mpr rfl : Place.mk (classRoot ++ [.part 0]) boardList ∈ [_])
  obtain ⟨after, there, kept, _⟩ :=
    ignored_component_left_alone member ignored rooted (fun other among _ shares => by
      simpa using List.all_eq_true.mp (List.all_eq_true.mp alone other among) _ shares) reached
  exact ⟨component, member, ignored, _, rooted, reached, after, there, kept⟩

/-- A class that is ignored shares a root with a component that is not, which annotates the root. -/
theorem ignored_component_annotated
    : ¬ ∀ (p : Program) (settings : Settings) (path : Option String),
        ∀ component ∈ discover p path settings.incompatiblePackages,
          settings.Ignores component
          → ∀ root ∈ component.roots,
              ∀ place,
                root.Reaches place
                → ∃ after,
                    (p.afterRun settings path).Has ⟨place.address, after⟩
                    ∧ after.attributes.length = place.node.attributes.length := by
  intro allAlone
  obtain ⟨component, member, named, root, rooted, placed⟩ :=
    exists_board_root sharedRoot (by decide +kernel)
  have ignored : quietSettings.Ignores component := by
    simp [Settings.Ignores, named, quietSettings]
  obtain ⟨after, there, kept⟩ :=
    allAlone board quietSettings none component member ignored root rooted root (.refl root)
  have has : board.Has root :=
    visits_has (discover_sublist _ _ _) (component, root) (mem_visits.mpr ⟨member, rooted⟩)
  have before : (board.get? sharedRoot).map (·.attributes.length) = some 0 := rfl
  have gained
      : ((board.afterRun quietSettings none).get? sharedRoot).map (·.attributes.length)
        = some 3 := by
    decide +kernel
  rw [← placed, show board.get? root.address = some root.node from has, Option.map_some,
    Option.some.injEq] at before
  rw [← placed, show (board.afterRun quietSettings none).get? root.address = some after from there,
    Option.map_some, Option.some.injEq, kept, before] at gained
  cases gained

end Ast.Program
end JsxProvenance
