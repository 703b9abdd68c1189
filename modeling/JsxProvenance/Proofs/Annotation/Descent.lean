import JsxProvenance.Proofs.Tree.Redraw
import JsxProvenance.Settings

/-! Descents from a root through the children of elements and fragments. A descent carries a state,
says what each element gains in it, and passes states on to the children in turn. What it adds is
a function of the address, so its result is a drawing of the tree, and facts about whole trees
follow from facts about one node by induction on the address.
-/

namespace JsxProvenance

open Ast

/-- The list that a descent goes on to, with the number in it that a step leads to. -/
def Ast.Node.jsxStep? : Node → Step → Option (List Node × Nat)
  | .element _ _ _ children _ _, .child i => some (children, i)
  | .group _ .jsxFragment parts, .part i => some (parts, i)
  | _, _ => none

/-- A way down from a root. -/
structure Descent (σ : Type) where
  /-- What a node gains in a state. -/
  gains : σ → Node → List (String × String)
  /-- The state in which the children of a node are met, none if the descent stops. -/
  enter : σ → Node → Option σ
  /-- The state for a child of a list. -/
  child : σ → Node → σ
  /-- The state for the siblings after a child. -/
  rest : σ → Node → σ

namespace Descent

variable {σ : Type} (d : Descent σ)

/-- The node of a list at a number, with its state. -/
def reach : σ → List Node → Nat → Option (σ × Node)
  | _, [], _ => none
  | s, n :: _, 0 => some (d.child s n, n)
  | s, n :: later, i + 1 => reach (d.rest s n) later i

/-- The node that the descent meets one step below, with its state. -/
def follow (s : σ) (n : Node) (step : Step) : Option (σ × Node) :=
  (n.jsxStep? step).bind fun (siblings, i) =>
    (d.enter s n).bind fun inside => d.reach inside siblings i

/-- What a descent from a node adds at an address. -/
def added : σ → Node → Address → List (String × String)
  | s, n, [] => d.gains s n
  | s, n, step :: rest =>
      match d.follow s n step with
      | some (below, part) => added below part rest
      | none => []

mutual

/-- The number of attributes that a descent from a node adds. -/
def count (s : σ) : Node → Nat
  | n@(.element _ _ _ children _ _) =>
      (d.gains s n).length + (d.enter s n).elim 0 fun inside => listCount inside children
  | n@(.group _ .jsxFragment parts) =>
      (d.enter s n).elim 0 fun inside => listCount inside parts
  | _ => 0

def listCount (s : σ) : List Node → Nat
  | [] => 0
  | n :: later => count (d.child s n) n + listCount (d.rest s n) later

end

end Descent

-----------------------------------------------------------------------------------------
-- What is asked of a descent
-----------------------------------------------------------------------------------------

/-- An element on the list of ignored elements does not gain the element attribute. -/
def Settings.Spares (c : Settings) (n : Node) (additions : List (String × String)) : Prop :=
  n.elementName ∈ c.ignoredElements → c.attributeNames.element ∉ additions.map (·.1)

/-- A drawing gives the element attribute to no element on the list of ignored elements. -/
def Ast.Redraw.Spares (r : Redraw) (c : Settings) (n : Node) : Prop :=
  ∀ a part, n.get? a = some part → c.Spares part (r.added a)

/-- What is asked of a descent at one node: the way down sees no drawing, and only elements gain
attributes, by the attributes they have. Given more attributes, an element gains nothing new: only
what it would have gained before and was not given.
-/
structure Descent.Lawful {σ : Type} (d : Descent σ) (c : Settings) : Prop where
  elements : ∀ s n, n.isElement = false → d.gains s n = []
  enter : ∀ s r n, d.enter s (n.redraw r) = d.enter s n
  child : ∀ s r n, d.child s (n.redraw r) = d.child s n
  rest : ∀ s r n, d.rest s (n.redraw r) = d.rest s n
  plain : ∀ s r n, r.added [] = [] → d.gains s (n.redraw r) = d.gains s n
  spares : ∀ s n, c.Spares n (d.gains s n)
  fresh
    : ∀ {s r n name},
        c.Spares n (r.added [])
        → name ∈ (d.gains s (n.redraw r)).map (·.1)
        → name ∈ (d.gains s n).map (·.1) ∧ name ∉ (r.added []).map (·.1)

theorem Ast.Redraw.Spares.below {r : Redraw} {c : Settings} {n part : Node} {step : Step}
    (spares : r.Spares c n) (h : n.step? step = some part)
    : (r.below step).Spares c part := by
  intro a found reached
  apply spares (step :: a) found
  rw [Node.get?, h]
  exact reached

namespace Descent

variable {σ : Type} {d : Descent σ} {c : Settings}

/-- A node that was given what it gains gains no more. -/
theorem Lawful.settles (lawful : d.Lawful c) {s : σ} {r : Redraw} {n : Node}
    (given : r.added [] = d.gains s n)
    : d.gains s (n.redraw r) = [] := by
  rw [← List.map_eq_nil_iff (f := (·.1)), List.eq_nil_iff_forall_not_mem]
  intro name member
  obtain ⟨gained, absent⟩ := lawful.fresh (given ▸ lawful.spares s n) member
  exact absent (given ▸ gained)

/-- A node that gains nothing gains nothing when it was given other attributes. -/
theorem Lawful.keeps (lawful : d.Lawful c) {s : σ} {r : Redraw} {n : Node}
    (spares : c.Spares n (r.added [])) (settled : d.gains s n = [])
    : d.gains s (n.redraw r) = [] := by
  rw [← List.map_eq_nil_iff (f := (·.1)), List.eq_nil_iff_forall_not_mem]
  intro name member
  have gained := (lawful.fresh spares member).1
  rw [settled] at gained
  exact List.not_mem_nil gained

/-- The nodes of a list that is drawn anew are met in the same states, by induction over it. -/
theorem reach_listRedraw (lawful : d.Lawful c) (s : σ) (r : Nat → Redraw) (nodes : List Node)
    (i : Nat)
    : d.reach s (Node.listRedraw r nodes) i
      = (d.reach s nodes i).map fun met => (met.1, met.2.redraw (r i)) := by
  induction nodes generalizing s r i with
  | nil => rfl
  | cons n later ih =>
      cases i with
      | zero => simp [Node.listRedraw, reach, lawful.child]
      | succ i => simp only [Node.listRedraw, reach, lawful.rest, ih]

/-- A node met one step below a drawing is the drawing of the node met there, by cases on the
nodes that have JSX below.
-/
theorem follow_redraw (lawful : d.Lawful c) (s : σ) (r : Redraw) (n : Node) (step : Step)
    : d.follow s (n.redraw r) step
      = (d.follow s n step).map fun met => (met.1, met.2.redraw (r.below step)) := by
  rw [follow, follow, lawful.enter]
  cases n with
  | element p name attrs children sc off =>
      cases step with
      | child i =>
          simp only [Node.redraw, Node.jsxStep?, Option.bind_some, reach_listRedraw lawful]
          cases d.enter s (.element p name attrs children sc off) <;> rfl
      | _ => rfl
  | group p form parts =>
      cases form with
      | jsxFragment =>
          cases step with
          | part i =>
              simp only [Node.redraw, Node.jsxStep?, Option.bind_some, reach_listRedraw lawful]
              cases d.enter s (.group p .jsxFragment parts) <;> rfl
          | _ => rfl
      | _ => rfl
  | _ => rfl

theorem getElem?_of_reach {s below : σ} {nodes : List Node} {i : Nat} {part : Node}
    (h : d.reach s nodes i = some (below, part))
    : nodes[i]? = some part := by
  induction nodes generalizing s i with
  | nil => cases h
  | cons n later ih =>
      cases i with
      | zero =>
          cases h
          rfl
      | succ i => exact ih h

theorem step?_of_follow {s below : σ} {n part : Node} {step : Step}
    (h : d.follow s n step = some (below, part))
    : n.step? step = some part := by
  obtain ⟨⟨siblings, i⟩, found, h⟩ := Option.bind_eq_some_iff.mp h
  obtain ⟨inside, _, h⟩ := Option.bind_eq_some_iff.mp h
  have member := getElem?_of_reach h
  cases n with
  | element p name attrs children sc off =>
      cases step <;> cases found
      exact member
  | group p form parts =>
      cases form <;> cases step <;> cases found
      exact member
  | _ => cases found

-----------------------------------------------------------------------------------------
-- What a descent adds to a drawing
-----------------------------------------------------------------------------------------

/-- A drawing that adds nothing gains what the tree gains, by induction on the address. -/
theorem added_plain (lawful : d.Lawful c) (s : σ) {r : Redraw} (n : Node)
    (plain : ∀ a, r.added a = []) (a : Address)
    : d.added s (n.redraw r) a = d.added s n a := by
  induction a generalizing s r n with
  | nil => exact lawful.plain s r n (plain [])
  | cons step rest ih =>
      rw [added, added, follow_redraw lawful]
      cases d.follow s n step with
      | none => rfl
      | some met => exact ih met.1 met.2 fun a => plain (step :: a)

/-- A tree with what a descent adds gains no more from it, by induction on the address. -/
theorem added_settles (lawful : d.Lawful c) (s : σ) {r : Redraw} (n : Node)
    (gained : ∀ a, r.added a = d.added s n a) (a : Address)
    : d.added s (n.redraw r) a = [] := by
  induction a generalizing s r n with
  | nil => exact lawful.settles (gained [])
  | cons step rest ih =>
      rw [added, follow_redraw lawful]
      cases met : d.follow s n step with
      | none => rfl
      | some found =>
          refine ih found.1 found.2 fun a => ?_
          exact (gained (step :: a)).trans (by rw [added, met])

/-- A tree that gains nothing gains nothing after a drawing that spares the ignored elements, by
induction on the address.
-/
theorem added_keeps (lawful : d.Lawful c) (s : σ) {r : Redraw} (n : Node) (spares : r.Spares c n)
    (settled : ∀ a, d.added s n a = []) (a : Address)
    : d.added s (n.redraw r) a = [] := by
  induction a generalizing s r n with
  | nil => exact lawful.keeps (spares [] n rfl) (settled [])
  | cons step rest ih =>
      rw [added, follow_redraw lawful]
      cases met : d.follow s n step with
      | none => rfl
      | some found =>
          refine ih found.1 found.2 (spares.below (step?_of_follow met)) fun a => ?_
          have nothing := settled (step :: a)
          rwa [added, met] at nothing

/-- What a descent adds spares the ignored elements, by induction on the address. -/
theorem added_spares (lawful : d.Lawful c) (s : σ) (n : Node)
    : (Redraw.adding (d.added s n)).Spares c n := by
  intro a part reached
  change c.Spares part (d.added s n a)
  induction a generalizing s n with
  | nil => exact Option.some.inj reached ▸ lawful.spares s n
  | cons step rest ih =>
      rw [added]
      cases met : d.follow s n step with
      | none => exact fun _ member => absurd member List.not_mem_nil
      | some found =>
          apply ih found.1 found.2
          rwa [Node.get?, step?_of_follow met] at reached

-----------------------------------------------------------------------------------------
-- The drawing that a descent makes
-----------------------------------------------------------------------------------------

variable (d) in
/-- What a descent adds to a node of a list. Where it stops before the list it adds nothing. -/
def listAdded (s : Option σ) (nodes : List Node) (i : Nat) : Redraw :=
  .adding fun a =>
    match s.bind fun inside => d.reach inside nodes i with
    | some (below, part) => d.added below part a
    | none => []

theorem listRedraw_listAdded_none (nodes : List Node)
    : Node.listRedraw (d.listAdded none nodes) nodes = nodes :=
  Node.listRedraw_adding_nothing nodes

/-- A descent draws an element with what it gains, and the children that are met. -/
theorem redraw_element (s : σ) (p : Position) (tag : Node) (attrs children : List Node)
    (sc : Bool) (off : Option Nat)
    : (Node.element p tag attrs children sc off).redraw
          (.adding (d.added s (.element p tag attrs children sc off)))
      = .element p tag
          (attrs ++ Node.insertedAttributes p (d.gains s (.element p tag attrs children sc off)))
          (Node.listRedraw
            (d.listAdded (d.enter s (.element p tag attrs children sc off)) children) children)
          sc off := by
  have name := tag.redraw_adding_nothing
  have attributes := Node.listRedraw_adding_nothing attrs
  change Node.element p (tag.redraw (.adding fun _ => []))
      (Node.listRedraw (fun _ => .adding fun _ => []) attrs
        ++ Node.insertedAttributes p (d.gains s (.element p tag attrs children sc off))) _ sc off
    = _
  rw [name, attributes]
  rfl

theorem redraw_fragment (s : σ) (p : Position) (parts : List Node)
    : (Node.group p .jsxFragment parts).redraw
          (.adding (d.added s (.group p .jsxFragment parts)))
      = .group p .jsxFragment
          (Node.listRedraw (d.listAdded (d.enter s (.group p .jsxFragment parts)) parts) parts) :=
  rfl

theorem redraw_of_not_jsx (s : σ) {n : Node} (plain : n.isJsx = false)
    : n.redraw (.adding (d.added s n)) = n := by
  have stuck (step : Step) : n.jsxStep? step = none := by
    cases n with
    | element => cases plain
    | group p form parts => cases form <;> first | rfl | cases plain
    | _ => rfl
  apply Node.redraw_adding_of_not_element
  · cases n with
    | element => cases plain
    | _ => rfl
  · intro step rest
    rw [added, follow, stuck, Option.bind_none]

theorem count_of_not_jsx (s : σ) {n : Node} (plain : n.isJsx = false) : d.count s n = 0 := by
  cases n with
  | element => cases plain
  | group p form parts => cases form <;> first | rfl | cases plain
  | _ => rfl

-----------------------------------------------------------------------------------------
-- Counting
-----------------------------------------------------------------------------------------

/-- A list gains nothing just if no node that is met in it does, by induction over the list. -/
theorem listCount_eq_zero_iff (s : σ) (nodes : List Node)
    : d.listCount s nodes = 0
      ↔ ∀ i below part, d.reach s nodes i = some (below, part) → d.count below part = 0 := by
  induction nodes generalizing s with
  | nil => simp [listCount, reach]
  | cons n later ih =>
      rw [listCount, Nat.add_eq_zero_iff, ih]
      constructor
      · rintro ⟨first, others⟩ (_ | i) below part met
        · cases met
          exact first
        · exact others i below part met
      · intro all
        exact ⟨all 0 _ _ rfl, fun i => all (i + 1)⟩

theorem listCount_listRedraw (lawful : d.Lawful c) (s : σ) (r : Nat → Redraw) (nodes : List Node)
    (same : ∀ i below part,
      d.reach s nodes i = some (below, part)
      → d.count below (part.redraw (r i)) = d.count below part)
    : d.listCount s (Node.listRedraw r nodes) = d.listCount s nodes := by
  induction nodes generalizing s r with
  | nil => rfl
  | cons n later ih =>
      rw [Node.listRedraw, listCount, listCount, lawful.child, lawful.rest, same 0 _ _ rfl,
        ih _ _ fun i => same (i + 1)]

/-- A drawing that adds nothing counts as much as the tree, by induction on the parts. -/
theorem count_plain (lawful : d.Lawful c) (s : σ) {r : Redraw} (n : Node)
    (plain : ∀ a, r.added a = [])
    : d.count s (n.redraw r) = d.count s n := by
  induction n using Node.partsInduction generalizing s r with
  | step n ih =>
      cases n with
      | element p name attrs children sc off =>
          have gains := lawful.plain s r (.element p name attrs children sc off) (plain [])
          have inside := lawful.enter s r (.element p name attrs children sc off)
          have below (t : σ) := listCount_listRedraw lawful t (fun i => r.below (.child i)) children
            fun i below part met =>
              ih (.child i) part (Node.mem_slots_iff.mpr (getElem?_of_reach met)) below
                fun a => plain (.child i :: a)
          simp only [Node.redraw] at gains inside ⊢
          simp only [count, gains, inside, below]
      | group p form parts =>
          cases form with
          | jsxFragment =>
              have inside := lawful.enter s r (.group p .jsxFragment parts)
              have below (t : σ) := listCount_listRedraw lawful t (fun i => r.below (.part i)) parts
                fun i below part met =>
                  ih (.part i) part (Node.mem_slots_iff.mpr (getElem?_of_reach met)) below
                    fun a => plain (.part i :: a)
              simp only [Node.redraw] at inside ⊢
              simp only [count, inside, below]
          | _ => rfl
      | leaf p form => cases form <;> rfl
      | _ => rfl

/-- Nothing is counted below a node just if nothing is added below it, provided that this holds
of each sibling on its own.
-/
theorem elim_listCount_eq_zero_iff {s : σ} {n : Node} {siblings : List Node} (step : Nat → Step)
    (leads : ∀ i, n.jsxStep? (step i) = some (siblings, i))
    (only : ∀ t, n.jsxStep? t = none ∨ ∃ i, t = step i)
    (each : ∀ (i : Nat) (below : σ) (part : Node),
      siblings[i]? = some part → (d.count below part = 0 ↔ ∀ a, d.added below part a = []))
    : ((d.enter s n).elim 0 fun inside => d.listCount inside siblings) = 0
      ↔ ∀ t rest, d.added s n (t :: rest) = [] := by
  have follow_step (i : Nat)
      : d.follow s n (step i) = (d.enter s n).bind fun inside => d.reach inside siblings i := by
    rw [follow, leads i]
    rfl
  constructor
  · intro nothing t rest
    rw [added]
    cases met : d.follow s n t with
    | none => rfl
    | some found =>
        obtain ⟨below, part⟩ := found
        rcases only t with stuck | ⟨i, rfl⟩
        · simp [follow, stuck] at met
        · rw [follow_step] at met
          obtain ⟨inside, entered, reached⟩ := Option.bind_eq_some_iff.mp met
          rw [entered, Option.elim_some, listCount_eq_zero_iff] at nothing
          have counted := nothing i below part reached
          exact (each i below part (getElem?_of_reach reached)).mp counted rest
  · intro settled
    cases entered : d.enter s n with
    | none => rfl
    | some inside =>
        rw [Option.elim_some, listCount_eq_zero_iff]
        intro i below part reached
        apply (each i below part (getElem?_of_reach reached)).mpr
        intro rest
        have nothing := settled (step i) rest
        rwa [added, follow_step, entered, Option.bind_some, reached] at nothing

/-- Nothing is added just if nothing is gained here and nothing is added below. -/
theorem added_eq_nil_iff (s : σ) (n : Node)
    : (∀ a, d.added s n a = [])
      ↔ d.gains s n = [] ∧ ∀ step rest, d.added s n (step :: rest) = [] := by
  constructor
  · exact fun all => ⟨all [], fun step rest => all (step :: rest)⟩
  · rintro ⟨here, below⟩ (_ | ⟨step, rest⟩)
    · exact here
    · exact below step rest

theorem added_of_stuck (lawful : d.Lawful c) (s : σ) {n : Node} (plain : n.isElement = false)
    (stuck : ∀ step, n.jsxStep? step = none) (a : Address)
    : d.added s n a = [] := by
  cases a with
  | nil => exact lawful.elements s n plain
  | cons step rest => rw [added, follow, stuck step, Option.bind_none]

/-- A descent counts nothing just if it adds nothing, by induction on the parts. -/
theorem count_eq_zero_iff (lawful : d.Lawful c) (s : σ) (n : Node)
    : d.count s n = 0 ↔ ∀ a, d.added s n a = [] := by
  induction n using Node.partsInduction generalizing s with
  | step n ih =>
      cases n with
      | element p name attrs children sc off =>
          rw [added_eq_nil_iff, count, Nat.add_eq_zero_iff, List.length_eq_zero_iff]
          refine and_congr Iff.rfl (elim_listCount_eq_zero_iff .child ?_ ?_ ?_)
          · exact fun i => rfl
          · rintro (_ | _ | i)
            · exact Or.inl rfl
            · exact Or.inl rfl
            · exact Or.inr ⟨i, rfl⟩
          · exact fun i below part found => ih (.child i) part (Node.mem_slots_iff.mpr found) below
      | group p form parts =>
          cases form with
          | jsxFragment =>
              rw [added_eq_nil_iff, count]
              refine (elim_listCount_eq_zero_iff .part ?_ ?_ ?_).trans
                (and_iff_right (lawful.elements s _ rfl)).symm
              · exact fun i => rfl
              · rintro (i | _ | _)
                · exact Or.inr ⟨i, rfl⟩
                · exact Or.inl rfl
                · exact Or.inl rfl
              · exact fun i below part found =>
                  ih (.part i) part (Node.mem_slots_iff.mpr found) below
          | _ => exact iff_of_true rfl (added_of_stuck lawful s rfl fun _ => rfl)
      | _ => exact iff_of_true rfl (added_of_stuck lawful s rfl fun _ => rfl)

end Descent
end JsxProvenance
