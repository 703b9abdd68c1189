import JsxProvenance.Proofs.Annotation.Visits
import JsxProvenance.Proofs.Component.Roots

/-! What annotation may touch. A run appends attributes to elements in the regions of roots and
changes nothing else, and what it appends names the element, a component with that root, or the
file. So the aliases and the components of the program are the same after the run.
-/

namespace JsxProvenance

open Ast

-----------------------------------------------------------------------------------------
-- A run as visits
-----------------------------------------------------------------------------------------

theorem mem_visits {cs : List Component} {component : Component} {root : Place}
    : (component, root) ∈ visits cs ↔ component ∈ cs ∧ root ∈ component.roots := by
  simp [visits, and_comm]

theorem discover_sublist (p : Program) (path : Option String) (packages : List String)
    : (discover p path packages).Sublist (components p) := by
  unfold discover
  split
  · exact List.nil_sublist _
  · exact List.Sublist.refl _

theorem visits_isRoot {p : Program} {cs : List Component} (sublist : cs.Sublist (components p))
    : ∀ visit ∈ visits cs, p.IsRoot visit.2 := by
  rintro ⟨component, root⟩ member
  obtain ⟨among, rooted⟩ := mem_visits.mp member
  exact ⟨component, sublist.subset among, rooted⟩

theorem visits_has {p : Program} {cs : List Component} (sublist : cs.Sublist (components p))
    : ∀ visit ∈ visits cs, p.Has visit.2 :=
  fun visit member => (visits_isRoot sublist visit member).stands.has

/-- Annotation that returns has visited the roots that were discovered, under the aliases of the file
unless the program was skipped.
-/
theorem Ast.Program.annotate_visits {settings : Settings} {path : Option String} {p q : Program}
    {report : Report} (h : p.annotate settings path = .ok (q, report))
    : ∃ aliases,
        p.annotateVisits { settings, aliases }
            (visits (discover p path settings.incompatiblePackages))
          = (q, report.attributesAdded)
        ∧ (report.skipped = true ∧ discover p path settings.incompatiblePackages = []
          ∨ report.skipped = false
            ∧ discover p path settings.incompatiblePackages = components p
            ∧ Aliases.collect p = .ok aliases) := by
  rcases annotate_cases h with ⟨guarded, rfl, rfl⟩ | ⟨open', aliases, read, rfl, rfl⟩
  · have found := discover_of_guarded guarded
    refine ⟨{}, ?_, Or.inl ⟨rfl, found⟩⟩
    rw [found]
    rfl
  · have found := discover_of_open open'
    refine ⟨aliases, ?_, Or.inr ⟨rfl, found, read⟩⟩
    rw [found, annotateComponents_eq_visits]

/-- A run that returns reports the components that are discovered, and whether the file guard has left
the program alone.
-/
theorem Ast.Program.annotate_reports {settings : Settings} {path : Option String} {p q : Program}
    {report : Report} (h : p.annotate settings path = .ok (q, report))
    : report.components = (discover p path settings.incompatiblePackages).map (·.name)
      ∧ (report.skipped = true ↔ p.Guarded settings path) := by
  rcases annotate_cases h with ⟨guarded, _, rfl⟩ | ⟨open', aliases, _, _, rfl⟩
  · rw [discover_of_guarded guarded]
    exact ⟨rfl, iff_of_true rfl guarded⟩
  · rw [discover_of_open open']
    exact ⟨map_name_annotateComponents _ p _, iff_of_false nofun open'⟩

-----------------------------------------------------------------------------------------
-- What is read of a program
-----------------------------------------------------------------------------------------

theorem Ast.Program.collect_redraw_of_ok {p : Program} {aliases : Aliases}
    (read : Aliases.collect p = .ok aliases) (r : Redraw)
    : Aliases.collect (p.redraw r) = .ok aliases := by
  apply collect_eq_ok
  rw [Aliases.collect_redraw, read]
  rfl

theorem discover_redraw_adding (added : Address → List (String × String)) (p : Program)
    (path : Option String) (packages : List String)
    : discover (p.redraw (.adding added)) path packages
      = (discover p path packages).map fun c => c.redraw (.adding added) c.line := by
  unfold discover
  rw [components_redraw_adding]
  rw [apply_ite (List.map _)]
  rfl

-----------------------------------------------------------------------------------------
-- The frame
-----------------------------------------------------------------------------------------

/-- An attribute that a run may give to an element reached from a root: its own name, the name of a
component with that root, or the source file.
-/
inductive Given (settings : Settings) (cs : List Component) (root : Place) (n : Node)
    : String × String → Prop
  | own : Given settings cs root n (settings.attributeNames.element, n.elementName)
  | component {component : Component} (member : component ∈ cs) (rooted : root ∈ component.roots)
    (proper : component.name ≠ "")
    : Given settings cs root n (settings.attributeNames.component, component.name)
  | file {name : String} (source : settings.sourceFileName = some name)
    : Given settings cs root n (settings.attributeNames.sourceFile, name)

/-- What a run leaves of a program. It is drawn with additions, which elements alone are given. Each
of these is reached from a discovered root. The aliases and the components that the run has read
are the same afterwards.
-/
structure Framed (settings : Settings) (path : Option String) (p q : Program) (report : Report)
    (added : Address → List (String × String)) : Prop where
  drawn : q = p.redraw (.adding added)
  skipped : report.skipped = true → ∀ a, added a = []
  touched
    : ∀ a,
        added a ≠ []
        → ∃ aliases component root n,
            Aliases.collect p = .ok aliases
            ∧ component ∈ discover p path settings.incompatiblePackages
            ∧ root ∈ component.roots
            ∧ root.Reaches ⟨a, n⟩
            ∧ p.get? a = some n
            ∧ classify (some aliases) n = .element
            ∧ ∀ addition ∈ added a,
                Given settings (discover p path settings.incompatiblePackages) root n addition
  aliases : Aliases.collect q = Aliases.collect p
  components
    : ∀ path packages,
        discover q path packages
        = (discover p path packages).map fun c => c.redraw (.adding added) c.line

namespace Ast.Program

variable {settings : Settings} {path : Option String} {p q : Program} {report : Report}

/-- What a visit offers an element is given by the run, by cases on the three attributes. -/
theorem given_of_offers {cs : List Component} {aliases : Aliases} {component : Component}
    {root : Place} {n : Node} {name value : String} (visited : (component, root) ∈ visits cs)
    (offered : (Context.withComponent { settings, aliases } component.name).Offers n name value)
    : Given settings cs root n (name, value) := by
  obtain ⟨member, rooted⟩ := mem_visits.mp visited
  rcases offered with ⟨rfl, rfl⟩ | ⟨rfl, rfl, proper⟩ | ⟨rfl, source, _⟩
  · exact .own
  · exact .component member rooted proper
  · exact .file source

/-- A run appends attributes to elements in the regions of roots and changes nothing else. -/
theorem annotate_frame (h : p.annotate settings path = .ok (q, report))
    : ∃ added, Framed settings path p q report added := by
  obtain ⟨aliases, visited, outcome⟩ := annotate_visits h
  have sublist := discover_sublist p path settings.incompatiblePackages
  have drawn : q = p.redraw (.adding (p.addedBy { settings, aliases }
      (visits (discover p path settings.incompatiblePackages)))) := by
    rw [← annotateVisits_eq, visited]
  refine ⟨_, drawn, ?_, ?_, ?_, ?_⟩
  · intro skipped a
    rcases outcome with ⟨_, found⟩ | ⟨open', _⟩
    · rw [found]
      rfl
    · rw [open'] at skipped
      cases skipped
  · intro a gained
    obtain ⟨⟨name, value⟩, first⟩ := List.exists_mem_of_ne_nil _ gained
    obtain ⟨⟨component, root⟩, among, n, reached, element, _⟩ :=
      mem_addedBy (visits_has sublist) first
    obtain ⟨member, rooted⟩ := mem_visits.mp among
    have isRoot := visits_isRoot sublist _ among
    have there := reached.has isRoot.stands.has
    have read : Aliases.collect p = .ok aliases := by
      rcases outcome with ⟨_, found⟩ | ⟨_, _, read⟩
      · rw [found] at member
        cases member
      · exact read
    refine ⟨aliases, component, root, n, read, member, rooted, reached, there, element, ?_⟩
    rintro ⟨name, value⟩ addition
    obtain ⟨⟨other, root'⟩, among', m, reached', _, offered⟩ :=
      mem_addedBy (visits_has sublist) addition
    -- the visit that gave this attribute was to the same root, since no two reach the element
    obtain rfl : root' = root :=
      (visits_isRoot sublist _ among').unique isRoot reached' reached rfl
    obtain rfl : m = n :=
      congrArg Place.node ((reached'.has (visits_has sublist _ among')).unique there rfl)
    exact given_of_offers among' offered
  · rcases outcome with ⟨_, found⟩ | ⟨_, _, read⟩
    · rw [found] at visited
      exact congrArg (fun result => Aliases.collect result.1) visited.symm
    · rw [drawn, collect_redraw_of_ok read, read]
  · rw [drawn]
    exact discover_redraw_adding _ p

/-- A class whose render method holds a nested component, which has one of the roots of the class. -/
def board : Program where
  filename := "Board.tsx"
  body := [
    .group {} (.classDeclaration (some "Board")) [
      .wrap {} (.methodDefinition "render") <| .group {} .blockStatement [
        .wrap {} (.functionDeclaration (some "Row")) <| .group {} .blockStatement [
          .wrap {} .returnStatement <|
            .element {} (.leaf {} (.jsxIdentifier "li")) [] [
              .wrap {} .jsxExpressionContainer <|
                .element {} (.leaf {} (.jsxIdentifier "b")) [] [] true (some 62)
            ] false (some 58)
        ],
        .wrap {} .returnStatement <|
          .group {} .jsxFragment [
            .element {} (.leaf {} (.jsxIdentifier "ul")) [] [] true (some 89)
          ]
      ]
    ]
  ]

/-- Settings under which the board gains all three attributes. -/
def boardSettings : Settings := { annotateFragments := true, sourceFileName := some "Board.tsx" }

/-- The board after a run under these settings. -/
def annotatedBoard : Program :=
  (board.annotateComponents { settings := boardSettings } (components board)).1

theorem annotate_board
    : ∃ report,
        board.annotate boardSettings none = .ok (annotatedBoard, report)
        ∧ report.details = [⟨"Board", 2, 6⟩, ⟨"Row", 1, 0⟩]
        ∧ report.skipped = false := by
  have open' : ¬ board.Guarded boardSettings none := by
    rw [Guarded]
    decide
  have read : Aliases.collect board = .ok {} := rfl
  have details : (board.annotateComponents { settings := boardSettings } (components board)).2
      = [⟨"Board", 2, 6⟩, ⟨"Row", 1, 0⟩] := by
    decide +kernel
  exact ⟨_, annotate_of_collect open' read, details, rfl⟩

/-- The run gives three attributes to one root of the board, and three to the child of the other. -/
theorem annotate_frame_board
    : ∃ report added,
        board.annotate boardSettings none = .ok (annotatedBoard, report)
        ∧ report.attributesAdded = 6
        ∧ Framed boardSettings none board annotatedBoard report added := by
  obtain ⟨report, returned, details, _⟩ := annotate_board
  obtain ⟨added, framed⟩ := annotate_frame returned
  refine ⟨report, added, returned, ?_, framed⟩
  rw [Report.attributesAdded, details]
  rfl

end Ast.Program
end JsxProvenance
