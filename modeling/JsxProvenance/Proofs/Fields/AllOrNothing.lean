import JsxProvenance.Proofs.Annotation.Frame
import JsxProvenance.Proofs.Fields.Aliases
import JsxProvenance.Proofs.Fields.Discovery
import JsxProvenance.Proofs.Fields.Refusal
import JsxProvenance.Proofs.Fields.Traversal

/-! The whole annotation of a program that is changed in place. The scan for aliases is the only stage
that can fail, and it comes before the first attribute is written, so a run does everything or
nothing.
-/

namespace JsxProvenance

open Ast

namespace InPlace

variable {σ α β : Type} {s t : σ}

theorem outcome_bind_error {m : InPlace σ α} {missing : Missing}
    (failed : m.outcome s = (.error missing, t)) (f : α → InPlace σ β)
    : (m >>= f).outcome s = (.error missing, t) := by
  change ExceptT.bindCont f (m.outcome s).1 (m.outcome s).2 = _
  rw [failed]
  rfl

theorem outcome_read_error {e : Except Missing α} {missing : Missing} (failed : e = .error missing)
    : (liftM e : InPlace σ α).outcome s = (.error missing, s) := by
  rw [failed]
  rfl

theorem Does.modify (f : σ → σ) : Does (modify f : InPlace σ PUnit) s ⟨⟩ (f s) :=
  rfl

end InPlace

namespace Ast.Program

/-- Annotates from one root. What is left of the root is put back also if that fails. -/
def annotateAtInPlace (c : Context) (a : Address) : InPlace Program Nat := do
  let p ← get
  match p.get? a with
  | some root =>
      let result := annotateRootInPlace c root
      modify (·.modifyAt (fun _ => result.2) a)
      result.1
  | none => return 0

/-- Annotates from several roots in turn, in place. -/
def annotateAllInPlace (c : Context) : List Address → InPlace Program Nat
  | [] => return 0
  | a :: rest => do
      let first ← annotateAtInPlace c a
      let others ← annotateAllInPlace c rest
      return first + others

/-- Annotates the roots of several components in turn, in place. -/
def annotateComponentsInPlace (c : Context) : List Component → InPlace Program (List ComponentReport)
  | [] => return []
  | component :: rest => do
      let added ←
        annotateAllInPlace (c.withComponent component.name) (component.roots.map (·.address))
      let others ← annotateComponentsInPlace c rest
      return ⟨component.name, component.roots.length, added⟩ :: others

/-- The stages of a run on a program that is not left alone, in place. -/
def annotateOpen (settings : Settings) (path : Option String) : InPlace Program Report := do
  let p ← get
  let found ← discoverByField p path []
  let aliases ← Aliases.collectByField p
  let details ← annotateComponentsInPlace { settings, aliases } found
  return { details }

/-- Annotates a program in place, with every stage read field by field. -/
def annotateInPlace (settings : Settings) (path : Option String) : InPlace Program Report := do
  let p ← get
  if isKnownIncompatible (some (path.getD p.filename)) settings.incompatiblePackages then
    return { skipped := true }
  else annotateOpen settings path

variable {c : Context} {p : Program}

theorem annotateAtInPlace_does (c : Context) (p : Program) (a : Address)
    : (annotateAtInPlace c a).Does p (p.annotateAt c a).2 (p.annotateAt c a).1 := by
  refine .bind .get ?_
  unfold annotateAt
  cases p.get? a with
  | none => exact .pure 0
  | some root =>
      refine .bind (.modify _) ?_
      rw [annotateRootInPlace_eq]
      exact .read rfl

theorem annotateAllInPlace_does (c : Context) (p : Program) (addresses : List Address)
    : (annotateAllInPlace c addresses).Does p (p.annotateAll c addresses).2
        (p.annotateAll c addresses).1 := by
  induction addresses generalizing p with
  | nil => exact .pure 0
  | cons a rest ih => exact .bind (annotateAtInPlace_does c p a) (.bind (ih _) (.pure _))

theorem annotateComponentsInPlace_does (c : Context) (p : Program) (found : List Component)
    : (annotateComponentsInPlace c found).Does p (p.annotateComponents c found).2
        (p.annotateComponents c found).1 := by
  induction found generalizing p with
  | nil => exact .pure []
  | cons component rest ih =>
      exact .bind (annotateAllInPlace_does _ p _) (.bind (ih _) (.pure _))

theorem isKnownIncompatible_nil (path : Option String) : isKnownIncompatible path [] = false := by
  cases path with
  | none => rfl
  | some text => exact Bool.and_false _

/-- A run in place ends as the run on a copy does, and a fault leaves the program as it was. -/
theorem outcome_annotateInPlace (settings : Settings) (path : Option String) (p : Program)
    : (annotateInPlace settings path).outcome p
      = match p.annotate settings path with
        | .ok (q, report) => (.ok report, q)
        | .error fault => (.error fault.toMissing, p) := by
  by_cases guarded : p.Guarded settings path
  · rw [annotate_of_guarded guarded]
    unfold Guarded at guarded
    change InPlace.outcome (if isKnownIncompatible _ _ = true then _ else _) p = _
    rw [if_pos guarded]
    rfl
  · have found : discoverByField p path [] = .ok (components p) := by
      rw [discoverByField_eq, discover, isKnownIncompatible_nil]
      rfl
    have entered
        : (annotateInPlace settings path).outcome p = (annotateOpen settings path).outcome p := by
      unfold Guarded at guarded
      change InPlace.outcome (if isKnownIncompatible _ _ = true then _ else _) p = _
      rw [if_neg guarded]
    rw [entered]
    cases read : Aliases.collect p with
    | error fault =>
        have failed : Aliases.collectByField p = .error fault.toMissing := by
          rw [Aliases.collectByField_eq, read]
          rfl
        rw [annotate_of_fault guarded read]
        change InPlace.outcome (liftM (discoverByField p path []) >>= _) p = _
        rw [found]
        exact InPlace.outcome_bind_error (InPlace.outcome_read_error failed) _
    | ok aliases =>
        have known : Aliases.collectByField p = .ok aliases := by
          rw [Aliases.collectByField_eq, read]
          rfl
        rw [annotate_of_collect guarded read]
        refine InPlace.Does.bind .get (.bind (.read found) (.bind (.read known) ?_))
        exact .bind (annotateComponentsInPlace_does _ p _) (.pure _)

/-- A run does everything or nothing, and what stops it stands in the top-level statements. Where it
ends with a failed read the program is left as it was. It fails if the program is not left alone and
has a statement that cannot be read, and with the fault of the direct definition. Discovery,
classification, injection and the walks from a root never fail. Nodes of any form, or nothing, may
stand in place of any part; a plain text only stands for the name of a tag, and nothing is said of
a render method with a text as its body, which is taken to have none.
-/
theorem annotate_all_or_nothing (settings : Settings) (path : Option String) (p : Program)
    : (∀ missing left,
        (annotateInPlace settings path).outcome p = (.error missing, left) → left = p)
      ∧ (Fails ((annotateInPlace settings path).outcome p).1
        ↔ ¬ p.Guarded settings path ∧ p.Refuses)
      ∧ ((annotateInPlace settings path).outcome p
        = match p.annotate settings path with
          | .ok (q, report) => (.ok report, q)
          | .error fault => (.error fault.toMissing, p))
      ∧ (∀ packages, discoverByField p path packages = .ok (discover p path packages))
      ∧ (∀ aliases? n, classifyByField aliases? n = .ok (classify aliases? n))
      ∧ (∀ c n, annotateRootInPlace c n = (.ok (annotateRoot c n).2, (annotateRoot c n).1))
      ∧ (∀ c kind? n,
        (∃ i : Injection, (injectFull c kind?).Does n i (i.apply n))
        ∧ ∃ i : Injection, (injectLegacy c kind?).Does n i (i.apply n))
      ∧ ∀ c n,
        (injectFull c none).Does n (fullInjection c n) ((fullInjection c n).apply n)
        ∧ (injectLegacy c none).Does n (legacyInjection c n) ((legacyInjection c n).apply n) := by
  have run := outcome_annotateInPlace settings path p
  refine ⟨?_, ?_, run, discoverByField_eq p path, classifyByField_eq, annotateRootInPlace_eq, ?_, ?_⟩
  · intro missing left failed
    rw [run] at failed
    cases ended : p.annotate settings path with
    | ok result =>
        rw [ended] at failed
        cases failed
    | error fault =>
        rw [ended] at failed
        exact (congrArg Prod.snd failed).symm
  · rw [run, ← Aliases.collect_fails_iff]
    by_cases guarded : p.Guarded settings path
    · rw [annotate_of_guarded guarded]
      exact ⟨fun failed => absurd failed Fails.ok_iff.mp, fun stopped => absurd guarded stopped.1⟩
    · cases read : Aliases.collect p with
      | error fault =>
          rw [annotate_of_fault guarded read]
          exact ⟨fun _ => ⟨guarded, fault, rfl⟩, fun _ => ⟨fault.toMissing, rfl⟩⟩
      | ok aliases =>
          rw [annotate_of_collect guarded read]
          exact ⟨fun failed => absurd failed Fails.ok_iff.mp,
            fun stopped => absurd stopped.2 Fails.ok_iff.mp⟩
  · intro c kind? n
    obtain ⟨full, written, _⟩ := injectWhere_does (fun _ => injectElement_does c) c kind? n
    obtain ⟨legacy, marked, _⟩ := injectWhere_does (fun _ => injectHost_does c) c kind? n
    exact ⟨⟨full, written⟩, legacy, marked⟩
  · exact fun c n => ⟨injectFull_does rfl, injectLegacy_does rfl⟩

/-- A component after an import that holds nothing in the place of a specifier. -/
def halted : Program where
  body := [
    .group {} (.importDeclaration "react") [
      .leaf {} (.importSpecifier "default" (some "default") "R"),
      .absent
    ],
    .wrap {} (.functionDeclaration (some "Badge")) <|
      .group {} .blockStatement [
        .wrap {} .returnStatement <| .element {} (.leaf {} (.jsxIdentifier "b")) [] [] true (some 2)
      ]
  ]

/-- The scan stops at the import, and the component that was found before stays without attributes. -/
theorem annotate_all_or_nothing_halted
    : halted.Refuses
      ∧ (discover halted none []).map (·.name) = ["Badge"]
      ∧ Fails ((annotateInPlace {} none).outcome halted).1
      ∧ ∃ left,
          (annotateInPlace {} none).outcome halted = (.error ⟨"NoneType", "kind"⟩, left)
          ∧ left = halted := by
  obtain ⟨kept, fails, run, _⟩ := annotate_all_or_nothing {} none halted
  have open' : ¬ halted.Guarded {} none := by
    rw [Guarded]
    decide
  have refuses : halted.Refuses :=
    ⟨[], _, _, rfl, .specifier (by decide) (List.mem_cons_of_mem _ List.mem_cons_self) (by decide)⟩
  have stopped : (annotateInPlace {} none).outcome halted = (.error ⟨"NoneType", "kind"⟩, halted) :=
    run.trans (by rw [annotate_of_fault open' rfl]; rfl)
  exact ⟨refuses, by decide +kernel, fails.mpr ⟨open', refuses⟩, _, stopped, kept _ _ stopped⟩

end Ast.Program
end JsxProvenance
