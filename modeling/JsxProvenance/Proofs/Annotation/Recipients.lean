import JsxProvenance.Proofs.Annotation.Gains

/-! The node that gets the component name from a root. Under the full policy the way down from a root
carries the name to one node at most, and meets all others without a name.
-/

namespace JsxProvenance

open Ast

/-- The node that gets the component name from a root: the root itself if it is an element, and from a
fragment the first child that is an element, provided that fragments are annotated.
-/
def recipient? (settings : Settings) (aliases : Aliases) (root : Place) : Option Place :=
  match classify (some aliases) root.node with
  | .element => some root
  | .fragment =>
      if settings.annotateFragments then
        root.jsxChildren.find? fun child => classify (some aliases) child.node == .element
      else none
  | _ => none

theorem classify_of_recipient? {settings : Settings} {aliases : Aliases} {root place : Place}
    (handed : recipient? settings aliases root = some place)
    : classify (some aliases) place.node = .element := by
  unfold recipient? at handed
  split at handed
  · next element =>
      obtain rfl := Option.some.inj handed
      exact element
  · split at handed
    · simpa using List.find?_some handed
    · cases handed
  · cases handed

/-- The node that gets the name is the root or a child of it. -/
theorem reaches_of_recipient? {settings : Settings} {aliases : Aliases} {root place : Place}
    (handed : recipient? settings aliases root = some place)
    : root.Reaches place := by
  unfold recipient? at handed
  split at handed
  · obtain rfl := Option.some.inj handed
    exact .refl _
  · split at handed
    · exact (Place.Reaches.refl root).child (List.mem_of_find?_eq_some handed)
    · cases handed
  · cases handed

-----------------------------------------------------------------------------------------
-- The way of the name
-----------------------------------------------------------------------------------------

namespace fullDescent

variable {c : Context}

theorem enter_named {name inside : String} {n : Node} (proper : inside ≠ "")
    (entered : (fullDescent c).enter name n = some inside)
    : inside = name ∧ isFragment (some c.aliases) n = true ∧ c.settings.annotateFragments = true := by
  obtain rfl := Option.some.inj entered
  by_cases handed : (isFragment (some c.aliases) n && c.settings.annotateFragments) = true
  · rw [if_pos handed]
    exact ⟨rfl, by simpa using handed⟩
  · rw [if_neg handed] at proper
    exact absurd rfl proper

/-- Among siblings the name goes to elements only, by induction over them. -/
theorem reach_named {s t : String} {nodes : List Node} {i : Nat} {m : Node} (proper : t ≠ "")
    (met : (fullDescent c).reach s nodes i = some (t, m))
    : t = s ∧ classify (some c.aliases) m = .element := by
  induction nodes generalizing s i with
  | nil => cases met
  | cons n later ih =>
      cases i with
      | zero =>
          cases met
          by_cases element : classify (some c.aliases) m = .element
          · exact ⟨by simp [fullDescent, element], element⟩
          · exact absurd (by simp [fullDescent, element]) proper
      | succ i =>
          obtain ⟨same, taken⟩ := ih met
          by_cases element : classify (some c.aliases) n = .element
          · exact absurd (same.trans (by simp [fullDescent, element])) proper
          · exact ⟨same.trans (by simp [fullDescent, element]), taken⟩

/-- Among siblings the name goes to the first element, by induction over them. -/
theorem find?_siblings {name : String} (proper : name ≠ "") (nodes : List Node)
    (place : Nat → Node → Place) (same : ∀ i n, (place i n).node = n) {found : Place}
    : ((nodes.mapIdx place).find? fun child => classify (some c.aliases) child.node == .element)
        = some found
      ↔ ∃ i m, (fullDescent c).reach name nodes i = some (name, m) ∧ found = place i m := by
  induction nodes generalizing place with
  | nil => simp [Descent.reach]
  | cons n later ih =>
      rw [List.mapIdx_cons, List.find?_cons, same]
      by_cases element : classify (some c.aliases) n = .element
      · have child : (fullDescent c).child name n = name := by simp [fullDescent, element]
        have rest : (fullDescent c).rest name n = "" := by simp [fullDescent, element]
        simp only [element, BEq.rfl]
        constructor
        · intro first
          exact ⟨0, n, by rw [Descent.reach, child], (Option.some.inj first).symm⟩
        · rintro ⟨_ | i, m, met, rfl⟩
          · rw [Descent.reach, child] at met
            obtain rfl := congrArg Prod.snd (Option.some.inj met)
            rfl
          · rw [Descent.reach, rest] at met
            exact absurd (reach_named proper met).1 proper
      · have child : (fullDescent c).child name n = "" := by simp [fullDescent, element]
        have rest : (fullDescent c).rest name n = name := by simp [fullDescent, element]
        rw [beq_false_of_ne element]
        refine (ih _ fun i n => same (i + 1) n).trans ?_
        constructor
        · rintro ⟨i, m, met, placed⟩
          exact ⟨i + 1, m, by rwa [Descent.reach, rest], placed⟩
        · rintro ⟨_ | i, m, met, placed⟩
          · rw [Descent.reach, child] at met
            exact absurd (congrArg Prod.fst (Option.some.inj met)).symm proper
          · rw [Descent.reach, rest] at met
            exact ⟨i, m, met, placed⟩

/-- The name goes one step down from a fragment only, if fragments are annotated, and to an element. -/
theorem follow_named {s t : String} {n m : Node} {step : Step} (proper : t ≠ "")
    (met : (fullDescent c).follow s n step = some (t, m))
    : t = s
      ∧ isFragment (some c.aliases) n = true
      ∧ c.settings.annotateFragments = true
      ∧ classify (some c.aliases) m = .element := by
  obtain ⟨_, _, met⟩ := Option.bind_eq_some_iff.mp met
  obtain ⟨inside, entered, met⟩ := Option.bind_eq_some_iff.mp met
  obtain ⟨rfl, element⟩ := reach_named proper met
  obtain ⟨same, fragment, annotated⟩ := enter_named proper entered
  exact ⟨same, fragment, annotated, element⟩

/-- From a fragment the name goes to the first child that is an element. -/
theorem find?_jsxChildren {name : String} (proper : name ≠ "") {n : Node}
    (fragment : isFragment (some c.aliases) n = true)
    (annotated : c.settings.annotateFragments = true) (a : Address) {found : Place}
    : ((Place.jsxChildren ⟨a, n⟩).find? fun child => classify (some c.aliases) child.node == .element)
        = some found
      ↔ ∃ step m,
          (fullDescent c).follow name n step = some (name, m) ∧ found = ⟨a ++ [step], m⟩ := by
  have entered : (fullDescent c).enter name n = some name := by
    simp [fullDescent, fragment, annotated]
  cases n with
  | element p tag attrs children sc off =>
      refine (find?_siblings proper children _ fun _ _ => rfl).trans ?_
      constructor
      · rintro ⟨i, m, met, placed⟩
        exact ⟨.child i, m, by rwa [Descent.follow, entered], placed⟩
      · rintro ⟨_ | _ | i, m, met, placed⟩
        · cases met
        · cases met
        · rw [Descent.follow, entered] at met
          exact ⟨i, m, met, placed⟩
  | group p form parts =>
      cases form with
      | jsxFragment =>
          refine (find?_siblings proper parts _ fun _ _ => rfl).trans ?_
          constructor
          · rintro ⟨i, m, met, placed⟩
            exact ⟨.part i, m, by rwa [Descent.follow, entered], placed⟩
          · rintro ⟨i | _ | _, m, met, placed⟩
            · rw [Descent.follow, entered] at met
              exact ⟨i, m, met, placed⟩
            · cases met
            · cases met
      | _ => cases fragment
  | _ => cases fragment

theorem classify_eq_fragment_iff {aliases? : Option Aliases} {n : Node}
    : classify aliases? n = .fragment ↔ isFragment aliases? n = true := by
  unfold classify
  split
  · next fragment => exact iff_of_true rfl fragment
  · next plain =>
      refine iff_of_false ?_ plain
      split <;> nofun

/-- The name reaches the node that gets it and no other, by cases on the way down: it goes no step, or
one step from a fragment to an element, and from an element no further.
-/
theorem meet_named_iff {name : String} (proper : name ≠ "") {root place : Place}
    : recipient? c.settings c.aliases root = some place
      ↔ ∃ way,
          place.address = root.address ++ way
          ∧ classify (some c.aliases) place.node = .element
          ∧ (fullDescent c).meet name root.node way = some (name, place.node) := by
  constructor
  · intro handed
    have element := classify_of_recipient? handed
    unfold recipient? at handed
    split at handed
    · obtain rfl := Option.some.inj handed
      exact ⟨[], (List.append_nil _).symm, element, rfl⟩
    · next fragment =>
        split at handed
        · next annotated =>
            obtain ⟨step, m, met, rfl⟩ :=
              (find?_jsxChildren proper (classify_eq_fragment_iff.mp fragment) annotated _).mp handed
            refine ⟨[step], rfl, element, ?_⟩
            rw [Descent.meet, met]
            rfl
        · cases handed
    · cases handed
  · rintro ⟨way, placed, element, met⟩
    obtain ⟨r, n⟩ := root
    obtain ⟨a, m⟩ := place
    -- a node that is met without a name is left without one, so the name is kept all the way
    have kept {t : String} {part : Node} {rest : Address}
        (met : (fullDescent c).meet t part rest = some (name, m)) : t = name :=
      ((fullDescent_state met).resolve_right proper).symm
    cases way with
    | nil =>
        cases met
        rw [recipient?, element]
        simpa using placed.symm
    | cons step rest =>
        obtain ⟨⟨t, part⟩, followed, met⟩ := Option.bind_eq_some_iff.mp met
        obtain rfl := kept met
        obtain ⟨_, fragment, annotated, taken⟩ := follow_named proper followed
        cases rest with
        | nil =>
            cases met
            rw [recipient?, classify_eq_fragment_iff.mpr fragment]
            simp only [annotated, if_true]
            exact (find?_jsxChildren proper fragment annotated r).mpr
              ⟨step, _, followed, congrArg (Place.mk · _) placed⟩
        | cons next rest =>
            obtain ⟨⟨t, below⟩, followed, met⟩ := Option.bind_eq_some_iff.mp met
            obtain rfl := kept met
            obtain ⟨_, fragment, _⟩ := follow_named proper followed
            rw [classify_eq_fragment_iff.mpr fragment] at taken
            cases taken

end fullDescent

-----------------------------------------------------------------------------------------
-- What a visit writes
-----------------------------------------------------------------------------------------

/-- Of what an open element gains, the component attribute is the one of that name. -/
theorem Context.filter_fullInjection {c : Context} {n : Node} (h : Open c n)
    : (fullInjection c n).additions.filter (·.1 == c.settings.attributeNames.component)
      = c.componentAddition n := by
  obtain ⟨ownComponent, _, componentFile, _⟩ := c.settings.attributeNames_distinct
  have own : (c.ownAddition n).filter (·.1 == c.settings.attributeNames.component) = [] := by
    refine List.filter_eq_nil_iff.mpr fun addition member same => ?_
    have name := name_of_mem_ownAddition (List.mem_map_of_mem (f := (·.1)) member)
    exact ownComponent (name.symm.trans (beq_iff_eq.mp same))
  have file : (c.fileAddition n).filter (·.1 == c.settings.attributeNames.component) = [] := by
    refine List.filter_eq_nil_iff.mpr fun addition member same => ?_
    have name := name_of_mem_fileAddition (List.mem_map_of_mem (f := (·.1)) member)
    exact componentFile ((beq_iff_eq.mp same).symm.trans name)
  have component : (c.componentAddition n).filter (·.1 == c.settings.attributeNames.component)
      = c.componentAddition n := by
    refine List.filter_eq_self.mpr fun addition member => ?_
    exact beq_iff_eq.mpr
      (name_of_mem_componentAddition (List.mem_map_of_mem (f := (·.1)) member))
  rw [fullInjection_of_open h, List.filter_append, List.filter_append, own, file, component,
    List.nil_append, List.append_nil]

/-- A component name that is written: it is not empty, and not ignored. -/
def Settings.Writes (settings : Settings) (name : String) : Prop :=
  name ≠ "" ∧ name ∉ settings.ignoredComponents

instance (settings : Settings) (name : String) : Decidable (settings.Writes name) :=
  inferInstanceAs (Decidable (_ ∧ _))

/-- A root hands the component name to a place, whose tag is not ignored. -/
def Context.Hands (c : Context) (root place : Place) : Prop :=
  c.settings.Writes c.component
  ∧ (recipient? c.settings c.aliases root).map (·.address) = some place.address
  ∧ place.node.elementName ∉ c.settings.ignoredComponents

instance (c : Context) (root place : Place) : Decidable (c.Hands root place) :=
  inferInstanceAs (Decidable (_ ∧ _ ∧ _))

/-- There is one place of a program at an address, so the place is the one that gets the name. -/
theorem Context.hands_iff {c : Context} {p : Program} {root place : Place} (has : p.Has root)
    (there : p.Has place)
    : c.Hands root place
      ↔ c.settings.Writes c.component
        ∧ recipient? c.settings c.aliases root = some place
        ∧ place.node.elementName ∉ c.settings.ignoredComponents := by
  refine and_congr_right fun _ => and_congr_left fun _ => ?_
  constructor
  · intro given
    obtain ⟨found, handed, placed⟩ := Option.map_eq_some_iff.mp given
    exact handed.trans (congrArg some
      (((reaches_of_recipient? handed).has has).unique there placed))
  · intro handed
    exact congrArg (Option.map _) handed

theorem isIgnored_eq_false_iff {name component : String} {ignored : List String}
    : isIgnored name component ignored = false
      ↔ name ∉ ignored ∧ (component ≠ "" → component ∉ ignored) := by
  simp only [isIgnored, List.any_eq_false, Bool.or_eq_true, beq_iff_eq, Bool.and_eq_true, bne_iff_ne]
  constructor
  · intro clear
    exact ⟨fun listed => clear name listed (Or.inl rfl),
      fun proper listed => clear component listed (Or.inr ⟨proper, rfl⟩)⟩
  · rintro ⟨unlisted, clear⟩ entry listed (rfl | ⟨proper, rfl⟩)
    · exact unlisted listed
    · exact clear proper listed

namespace Ast.Program

variable {c : Context} {p : Program} {root place : Place}

/-- What annotation from a root adds to a node that is met, under the full policy. -/
theorem addedAt_of_meet (has : p.Has root) (heard : ¬ c.Ignored) (full : c.settings.policy = .full)
    (r : Redraw) {way : Address} {t : String} {n : Node}
    (met : (fullDescent c).meet c.component root.node way = some (t, n))
    : (p.redraw r).addedAt c root.address (root.address ++ way)
      = (fullInjection (c.withComponent t) (n.redraw (r.under (root.address ++ way)))).additions := by
  rw [addedAt_of_get? (get?_redraw_of_has has r), addedUnder_append, Context.pass_of_full heard full,
    Pass.added, Descent.added_eq_meet, Descent.meet_redraw (fullDescent_lawful c), met,
    Redraw.under_under]
  rfl

/-- A node that gains something from a root under the full policy is met on the way down from it. -/
theorem meet_of_addedAt (has : p.Has root) (full : c.settings.policy = .full) {r : Redraw}
    {b : Address} (gained : (p.redraw r).addedAt c root.address b ≠ [])
    : ¬ c.Ignored
      ∧ ∃ way t n,
          b = root.address ++ way
          ∧ (fullDescent c).meet c.component root.node way = some (t, n) := by
  rw [addedAt_of_get? (get?_redraw_of_has has r)] at gained
  obtain ⟨way, rfl⟩ := exists_append_of_addedUnder gained
  rw [addedUnder_append] at gained
  have heard : ¬ c.Ignored := fun ignored => gained (Context.added_pass_of_ignored ignored _ way)
  rw [Context.pass_of_full heard full, Pass.added] at gained
  rcases Descent.added_redraw_cases (fullDescent_lawful c) c.component root _ way with
    nothing | ⟨t, n, met, _⟩
  · exact absurd nothing gained
  · exact ⟨heard, way, t, n, rfl, met⟩

/-- A root that hands the component name to a place writes the component attribute there, unless it
is present. No other root writes it there, whatever was given before.
-/
def WritesHanded (p : Program) (c : Context) (root place : Place) : Prop :=
  ∀ added,
    ((p.redraw (.adding added)).addedAt c root.address place.address).filter
          (·.1 == c.settings.attributeNames.component)
      = if c.Hands root place then
          (place.redraw (.adding added)).node.missingAttribute c.settings.attributeNames.component
            c.component
        else []

theorem writesHanded_of_full (has : p.Has root) (there : p.Has place)
    (full : c.settings.policy = .full)
    : p.WritesHanded c root place := by
  intro added
  split
  · next hands =>
      obtain ⟨⟨proper, unignored⟩, handed, tag⟩ := (Context.hands_iff has there).mp hands
      obtain ⟨way, placed, element, met⟩ := (fullDescent.meet_named_iff proper).mp handed
      have heard : ¬ c.Ignored := fun ignored => unignored ignored.2
      have isOpen : Open c place.node :=
        ⟨element, isIgnored_eq_false_iff.mpr ⟨tag, fun _ => unignored⟩⟩
      rw [placed, addedAt_of_meet has heard full _ met, ← placed]
      exact Context.filter_fullInjection ((open_redraw _ _ _).mpr isOpen)
  · next refused =>
      by_contra written
      have gained : (p.redraw (.adding added)).addedAt c root.address place.address ≠ [] := by
        intro nothing
        rw [nothing] at written
        exact written rfl
      obtain ⟨heard, way, t, n, placed, met⟩ := meet_of_addedAt has full gained
      have reached := Descent.reaches_of_meet met root.address
      obtain rfl : place.node = n :=
        congrArg Place.node (there.unique (reached.has has) placed)
      rw [placed, addedAt_of_meet has heard full _ met] at written
      by_cases isOpen : Open (c.withComponent t) place.node
      · have component := Context.filter_fullInjection
          ((open_redraw _ (Redraw.under (.adding added) place.address) _).mpr isOpen)
        have proper : t ≠ "" := by
          rintro rfl
          rw [← placed] at written
          exact written component
        obtain rfl := (fullDescent_state met).resolve_right proper
        have handed : recipient? c.settings c.aliases root = some place :=
          (fullDescent.meet_named_iff proper).mpr ⟨way, placed, isOpen.1, met⟩
        exact refused ((Context.hands_iff has there).mpr
          ⟨⟨proper, fun listed => heard ⟨proper, listed⟩⟩, handed,
            (isIgnored_eq_false_iff.mp isOpen.2).1⟩)
      · rw [fullInjection_of_not_open (mt (open_redraw _ _ _).mp isOpen)] at written
        exact written rfl

end Ast.Program
end JsxProvenance
