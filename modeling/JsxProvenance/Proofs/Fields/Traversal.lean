import JsxProvenance.Proofs.Fields.Injection
import JsxProvenance.Traversal

/-! The two ways down from a root over a tree that is changed in place. Below a node the children are
read from what the injection left, and a failure further down would leave what was written before.
There is none, and the tree is left as the direct definition draws it.
-/

namespace JsxProvenance

open Ast

/-- Whether a walk goes on at a node of this kind. -/
def NodeKind.isWalked (kind : NodeKind) : Bool :=
  kind == .element || kind == .fragment

/-- An injection at a node of this kind if it is an element. -/
def injectIf (kind : NodeKind) (inject : InPlace Node Injection) : InPlace Node Injection :=
  if kind = .element then inject else return {}

namespace Ast.Node

variable {n : Node}

/-- The node with other nodes among its children. -/
def withChildren (children : List Node) : Node → Node
  | element p tag attrs _ sc off => element p tag attrs children sc off
  | group p (.opaqueNode kind) _ => group p (.opaqueNode kind) children
  | group p .jsxFragment _ => group p .jsxFragment children
  | n => n

theorem size_pos (n : Node) : 0 < n.size := by
  cases n <;> simp only [size] <;> omega

theorem listSize_le_of_sublist {first second : List Node} (sublist : first.Sublist second)
    : listSize first ≤ listSize second := by
  induction sublist with
  | slnil => exact Nat.le_refl _
  | cons n _ ih => exact Nat.le_trans ih (Nat.le_add_left _ _)
  | cons_cons n _ ih => exact Nat.add_le_add_left ih _

theorem listSize_lt_of_readNodes {field : String} {nodes : List Node}
    (given : n.readNodes field = .ok nodes)
    : listSize nodes < n.size := by
  cases found : n.readParts field with
  | error missing =>
      rw [readNodes, found] at given
      cases given
  | ok slots =>
      rw [readNodes, found] at given
      obtain rfl : slots.map (·.2) = nodes := Except.ok.inj given
      obtain ⟨content, listed, sorted⟩ := mem_fields_of_read found
      cases content with
      | parts within =>
          obtain rfl := Option.some.inj sorted
          refine Nat.lt_of_le_of_lt (listSize_le_of_sublist (List.Sublist.map _ ?_))
            n.listSize_slots_lt
          rw [slots_eq_fields, List.flatMap_def]
          exact List.sublist_flatten_of_mem (List.mem_map_of_mem (f := (·.2.slots)) listed)
      | _ => cases sorted

theorem readNodes_children_appendAttributes (n : Node) (additions : List (String × String))
    : (n.appendAttributes additions).readNodes "children" = n.readNodes "children" := by
  cases n <;> rfl

end Ast.Node

variable {c : Context} {n left : Node} {kind : NodeKind}

theorem injectIf_does {inject : InPlace Node Injection} {i : Injection}
    (atElement : kind = .element → inject.Does n i (i.apply n))
    (elsewhere : kind ≠ .element → i = {})
    : (injectIf kind inject).Does n i (i.apply n) := by
  unfold injectIf
  by_cases element : kind = .element
  · rw [if_pos element]
    exact atElement element
  · rw [if_neg element, elsewhere element, Injection.apply, Node.appendAttributes_nil]
    exact .pure _

theorem injectIf_injectFull (c : Context) (n : Node)
    : (injectIf (classify (some c.aliases) n)
          (injectFull c (classify (some c.aliases) n))).Does n (fullInjection c n)
        ((fullInjection c n).apply n) := by
  refine injectIf_does (fun _ => injectFull_does rfl) fun other => ?_
  rw [fullInjection_eq, if_neg other]

/-- Whichever kind an injection is told, the children are those that the node had. -/
theorem size_of_injectIf {atElement : InPlace Node Injection} {injection : Node → Injection}
    (does
      : ∀ n : Node,
          n.isElement = true
          → atElement.Does n (injection n) (n.appendAttributes (injection n).additions))
    {i : Injection} {children : List Node}
    (written : (injectIf kind (injectWhere atElement c kind)).outcome n = (.ok i, left))
    (read : left.readNodes "children" = .ok children)
    : Node.listSize children < n.size := by
  have kept : ∃ additions, left = n.appendAttributes additions := by
    by_cases element : kind = .element
    · obtain ⟨i', done, _⟩ := injectWhere_does does c kind n
      rw [injectIf, if_pos element, done] at written
      exact ⟨_, (congrArg Prod.snd written).symm⟩
    · rw [injectIf, if_neg element] at written
      exact ⟨[], (congrArg Prod.snd written).symm.trans (n.appendAttributes_nil).symm⟩
  obtain ⟨additions, rfl⟩ := kept
  rw [Node.readNodes_children_appendAttributes] at read
  exact Node.listSize_lt_of_readNodes read

-----------------------------------------------------------------------------------------
-- The full policy
-----------------------------------------------------------------------------------------

mutual

/-- The walk of the full policy in place. -/
def walkFull (c : Context) (kind : NodeKind) (n : Node) : Except Missing Nat × Node :=
  match _ : (injectIf kind (injectFull c kind)).outcome n with
  | (.error missing, left) => (.error missing, left)
  | (.ok injection, left) =>
      match _ : left.readNodes "children" with
      | .error missing => (.error missing, left)
      | .ok children =>
          let handing := kind == .fragment && c.settings.annotateFragments && c.component != ""
          let below := walkFullList c handing children
          (below.1.map (injection.additions.length + ·), left.withChildren below.2)
termination_by (n.size, 0)
decreasing_by exact .left _ _ (size_of_injectIf (fun _ => injectElement_does c) ‹_› ‹_›)

/-- The walk of the full policy over children. The first element takes the name if it is handed on. -/
def walkFullList (c : Context) (handing : Bool) : List Node → Except Missing Nat × List Node
  | [] => (.ok 0, [])
  | n :: rest =>
      match classifyByField (some c.aliases) n with
      | .error missing => (.error missing, n :: rest)
      | .ok kind =>
          if kind.isWalked then
            let taken := handing && kind == .element
            match walkFull (if taken then c else c.withComponent "") kind n with
            | (.error missing, left) => (.error missing, left :: rest)
            | (.ok added, left) =>
                let others := walkFullList c (handing && !taken) rest
                (others.1.map (added + ·), left :: others.2)
          else
            let others := walkFullList c handing rest
            (others.1, n :: others.2)
termination_by nodes => (Node.listSize nodes, 1)
decreasing_by
  · exact .right' _ (Nat.le_add_right _ _) Nat.zero_lt_one
  · exact .left _ _ (Nat.lt_add_of_pos_left n.size_pos)
  · exact .left _ _ (Nat.lt_add_of_pos_left n.size_pos)

end

theorem classify_isWalked (aliases? : Option Aliases) (n : Node)
    : (classify aliases? n).isWalked = n.isJsx := by
  unfold classify
  cases fragment : isFragment aliases? n with
  | true => 
    cases n with
    | element => rfl
    | leaf p form => cases form <;> cases fragment
    | wrap p form => cases form <;> cases fragment
    | group p form => cases form <;> first | rfl | cases fragment
    | _ => cases fragment
  | false => 
    cases n with
    | leaf p form => cases form <;> rfl
    | group p form => cases form <;> first | rfl | cases fragment
    | _ => rfl

theorem walkFull_of_does {i : Injection} {children : List Node}
    (done : (injectIf kind (injectFull c kind)).Does n i left)
    (read : left.readNodes "children" = .ok children)
    : walkFull c kind n
      = ((walkFullList c
            (kind == .fragment && c.settings.annotateFragments && c.component != "")
            children).1.map (i.additions.length + ·),
          left.withChildren
            (walkFullList c
              (kind == .fragment && c.settings.annotateFragments && c.component != "")
              children).2) := by
  rw [walkFull]
  split
  · next written =>
      cases done.symm.trans written
  · next written =>
      cases done.symm.trans written
      split
      · next failed => cases read.symm.trans failed
      · next same =>
          cases read.symm.trans same
          rfl

theorem classify_beq_fragment (aliases? : Option Aliases) (n : Node)
    : (classify aliases? n == .fragment) = isFragment aliases? n := by
  unfold classify
  cases isFragment aliases? n with
  | true => rfl
  | false =>
      cases n with
      | leaf p form => cases form <;> rfl
      | _ => rfl

/-- The name that children are handed, whether or not it is empty. -/
theorem handed_eq (c : Context) (n : Node) (name : String)
    : (if classify (some c.aliases) n == .fragment && c.settings.annotateFragments && name != ""
        then name else "")
      = if isFragment (some c.aliases) n && c.settings.annotateFragments then name else "" := by
  rw [classify_beq_fragment]
  by_cases empty : name = ""
  · rw [empty, ite_self, ite_self]
  · rw [bne_iff_ne.mpr empty, Bool.and_true]

theorem annotateFull_of_not_jsx (c : Context) (name : String) (plain : n.isJsx = false)
    : annotateFull c name n = (n, 0) := by
  cases n with
  | element => cases plain
  | group p form parts =>
      cases form with
      | jsxFragment => cases plain
      | _ => simp [annotateFull]
  | _ => simp [annotateFull]

mutual

/-- The walk of the full policy never fails, and leaves the tree that the direct definition draws. -/
theorem walkFull_eq (c : Context) (name : String) (n : Node) (jsx : n.isJsx = true)
    : walkFull (c.withComponent name) (classify (some c.aliases) n) n
      = (.ok (annotateFull c name n).2, (annotateFull c name n).1) := by
  have done := injectIf_injectFull (c.withComponent name) n
  match n with
  | .element p tag attrs children sc off =>
      have read
          : ((fullInjection (c.withComponent name) (.element p tag attrs children sc off)).apply
              (.element p tag attrs children sc off)).readNodes "children" = .ok children := by
        rw [Injection.apply, Node.readNodes_children_appendAttributes]
        exact congrArg Except.ok (Node.map_snd_mapIdx (.child ·) children)
      refine (walkFull_of_does done read).trans ?_
      rw [walkFullList_eq c name _ children, annotateFull, ← handed_eq]
      rfl
  | .group p .jsxFragment children =>
      have read : (Node.group p .jsxFragment children).readNodes "children" = .ok children :=
        congrArg Except.ok (Node.map_snd_mapIdx (.part ·) children)
      refine (walkFull_of_does done read).trans ?_
      have handed := handed_eq c (.group p .jsxFragment children) name
      rw [show isFragment (some c.aliases) (.group p .jsxFragment children) = true from rfl,
        Bool.true_and] at handed
      rw [walkFullList_eq c name _ children, annotateFull, ← handed]
      exact congrArg (fun added => (Except.ok added, _)) (Nat.zero_add _)

theorem walkFullList_eq (c : Context) (name : String) (handing : Bool) (nodes : List Node)
    : walkFullList (c.withComponent name) handing nodes
      = (.ok (annotateFullList c (if handing then name else "") nodes).2,
          (annotateFullList c (if handing then name else "") nodes).1) := by
  match nodes with
  | [] => rw [walkFullList, annotateFullList]
  | n :: rest =>
      rw [walkFullList, annotateFullList, classifyByField_eq]
      have under (taken : Bool)
          : (if taken then c.withComponent name else (c.withComponent name).withComponent "")
            = c.withComponent (if taken then name else "") := by
        cases taken <;> rfl
      have first (taken : Bool)
          : (if taken then (if handing then name else "") else "")
            = if handing && taken then name else "" := by
        cases taken <;> cases handing <;> rfl
      have later (taken : Bool)
          : (if taken then "" else (if handing then name else ""))
            = if handing && !(handing && taken) then name else "" := by
        cases taken <;> cases handing <;> rfl
      have aliases : (c.withComponent name).aliases = c.aliases := rfl
      by_cases jsx : n.isJsx = true
      · simp only [aliases, (classify_isWalked (some c.aliases) n).trans jsx, if_true, under, first, later,
          walkFull_eq c _ n jsx, walkFullList_eq c name _ rest]
        rfl
      · have plain : n.isJsx = false := Bool.eq_false_iff.mpr jsx
        have walked := (classify_isWalked (some c.aliases) n).trans plain
        have unnamed : (classify (some c.aliases) n == .element) = false := by
          cases kind : classify (some c.aliases) n with
          | element => rw [kind] at walked; cases walked
          | _ => rfl
        simp only [aliases, walked, unnamed, Bool.false_eq_true, if_false,
          walkFullList_eq c name _ rest, annotateFull_of_not_jsx c _ plain, Nat.zero_add]

end

-----------------------------------------------------------------------------------------
-- The legacy policy
-----------------------------------------------------------------------------------------

mutual

/-- The walk of the legacy policy in place. -/
def walkLegacy (c : Context) (kind : NodeKind) (n : Node) : Except Missing Nat × Node :=
  match _ : (injectIf kind (injectLegacy c kind)).outcome n with
  | (.error missing, left) => (.error missing, left)
  | (.ok injection, left) =>
      if injection.target then (.ok injection.additions.length, left)
      else
        match _ : left.readNodes "children" with
        | .error missing => (.error missing, left)
        | .ok children =>
            let below := walkLegacyList c children
            (below.1, left.withChildren below.2)
termination_by (n.size, 0)
decreasing_by exact .left _ _ (size_of_injectIf (fun _ => injectHost_does c) ‹_› ‹_›)

/-- The walk of the legacy policy over children. -/
def walkLegacyList (c : Context) : List Node → Except Missing Nat × List Node
  | [] => (.ok 0, [])
  | n :: rest =>
      match classifyByField (some c.aliases) n with
      | .error missing => (.error missing, n :: rest)
      | .ok kind =>
          if kind.isWalked then
            match walkLegacy c kind n with
            | (.error missing, left) => (.error missing, left :: rest)
            | (.ok added, left) =>
                let others := walkLegacyList c rest
                (others.1.map (added + ·), left :: others.2)
          else
            let others := walkLegacyList c rest
            (others.1, n :: others.2)
termination_by nodes => (Node.listSize nodes, 1)
decreasing_by
  · exact .right' _ (Nat.le_add_right _ _) Nat.zero_lt_one
  · exact .left _ _ (Nat.lt_add_of_pos_left n.size_pos)
  · exact .left _ _ (Nat.lt_add_of_pos_left n.size_pos)

end

theorem injectIf_injectLegacy (c : Context) (n : Node)
    : (injectIf (classify (some c.aliases) n)
          (injectLegacy c (classify (some c.aliases) n))).Does n (legacyInjection c n)
        ((legacyInjection c n).apply n) := by
  refine injectIf_does (fun _ => injectLegacy_does rfl) fun other => ?_
  rw [legacyInjection_eq, if_neg other]

theorem walkLegacy_of_target {i : Injection}
    (done : (injectIf kind (injectLegacy c kind)).Does n i left) (target : i.target = true)
    : walkLegacy c kind n = (.ok i.additions.length, left) := by
  rw [walkLegacy]
  split
  · next written => cases done.symm.trans written
  · next written =>
      cases done.symm.trans written
      rw [if_pos target]

theorem walkLegacy_of_not_target {i : Injection} {children : List Node}
    (done : (injectIf kind (injectLegacy c kind)).Does n i left) (passed : i.target = false)
    (read : left.readNodes "children" = .ok children)
    : walkLegacy c kind n
      = ((walkLegacyList c children).1, left.withChildren (walkLegacyList c children).2) := by
  rw [walkLegacy]
  split
  · next written => cases done.symm.trans written
  · next written =>
      cases done.symm.trans written
      rw [if_neg (Bool.eq_false_iff.mp passed)]
      split
      · next failed => cases read.symm.trans failed
      · next same =>
          cases read.symm.trans same
          rfl

theorem legacyInjection_of_not_target (passed : (legacyInjection c n).target = false)
    : (legacyInjection c n).additions = [] := by
  unfold legacyInjection at passed ⊢
  split
  · rfl
  · next element =>
    rw [if_neg element] at passed
    dsimp only at passed ⊢
    split
    · rfl
    · next host =>
      rw [if_neg host] at passed
      split at passed <;> cases passed

theorem annotateLegacy_of_not_jsx (c : Context) (plain : n.isJsx = false)
    : annotateLegacy c n = (n, 0) := by
  cases n with
  | element => cases plain
  | group p form parts =>
      cases form with
      | jsxFragment => cases plain
      | _ => simp [annotateLegacy]
  | _ => simp [annotateLegacy]

mutual

/-- The walk of the legacy policy never fails, and leaves the tree that the direct definition draws. -/
theorem walkLegacy_eq (c : Context) (n : Node) (jsx : n.isJsx = true)
    : walkLegacy c (classify (some c.aliases) n) n
      = (.ok (annotateLegacy c n).2, (annotateLegacy c n).1) := by
  have done := injectIf_injectLegacy c n
  match n with
  | .element p tag attrs children sc off =>
      rw [annotateLegacy]
      cases target : (legacyInjection c (.element p tag attrs children sc off)).target with
      | true =>
          rw [walkLegacy_of_target done target]
          rfl
      | false =>
          have unwritten := legacyInjection_of_not_target target
          rw [Injection.apply, unwritten, Node.appendAttributes_nil] at done
          have read : (Node.element p tag attrs children sc off).readNodes "children" = .ok children :=
            congrArg Except.ok (Node.map_snd_mapIdx (.child ·) children)
          rw [walkLegacy_of_not_target done target read, walkLegacyList_eq c children]
          rfl
  | .group p .jsxFragment children =>
      have read : (Node.group p .jsxFragment children).readNodes "children" = .ok children :=
        congrArg Except.ok (Node.map_snd_mapIdx (.part ·) children)
      rw [walkLegacy_of_not_target done rfl read, walkLegacyList_eq c children, annotateLegacy]
      rfl

theorem walkLegacyList_eq (c : Context) (nodes : List Node)
    : walkLegacyList c nodes
      = (.ok (annotateLegacyList c nodes).2, (annotateLegacyList c nodes).1) := by
  match nodes with
  | [] => rw [walkLegacyList, annotateLegacyList]
  | n :: rest =>
      rw [walkLegacyList, annotateLegacyList, classifyByField_eq]
      by_cases jsx : n.isJsx = true
      · simp only [(classify_isWalked (some c.aliases) n).trans jsx, if_true, walkLegacy_eq c n jsx,
          walkLegacyList_eq c rest]
        rfl
      · have plain : n.isJsx = false := Bool.eq_false_iff.mpr jsx
        have walked := (classify_isWalked (some c.aliases) n).trans plain
        simp only [walked, Bool.false_eq_true, if_false, walkLegacyList_eq c rest,
          annotateLegacy_of_not_jsx c plain, Nat.zero_add]

end

-----------------------------------------------------------------------------------------
-- From a root
-----------------------------------------------------------------------------------------

/-- The annotation of a tree from its root, in place. -/
def annotateRootInPlace (c : Context) (root : Node) : Except Missing Nat × Node :=
  match classifyByField (some c.aliases) root with
  | .error missing => (.error missing, root)
  | .ok kind =>
      if !kind.isWalked then (.ok 0, root)
      else if c.component != "" && c.component ∈ c.settings.ignoredComponents then (.ok 0, root)
      else
        match c.settings.policy with
        | .full => walkFull c kind root
        | .legacy => walkLegacy c kind root

/-- The annotation from a root never fails, whatever the root is. -/
theorem annotateRootInPlace_eq (c : Context) (root : Node)
    : annotateRootInPlace c root = (.ok (annotateRoot c root).2, (annotateRoot c root).1) := by
  rw [annotateRootInPlace, annotateRoot, classifyByField_eq]
  simp only [classify_isWalked]
  cases jsx : root.isJsx with
  | false => rfl
  | true =>
      by_cases ignored : (c.component != "" && decide (c.component ∈ c.settings.ignoredComponents))
      · simp only [ignored, Bool.not_true, Bool.false_eq_true, if_false, if_true]
      · simp only [ignored, Bool.not_true, Bool.false_eq_true, if_false]
        cases c.settings.policy with
        | full => exact walkFull_eq c c.component root jsx
        | legacy => exact walkLegacy_eq c root jsx

end JsxProvenance
