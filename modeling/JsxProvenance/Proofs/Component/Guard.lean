import JsxProvenance.Proofs.Annotation.Outline
import JsxProvenance.Proofs.Text.Split

/-! The file guard by the segments of a path. A package's mark in a path is the folder of installed
packages, the package and something inside of it, each a whole segment. The mark starts with a
separator, so the folder is not seen as the very first segment.
-/

namespace JsxProvenance

open Ast

/-- The folder that packages are installed in. -/
def installedFolder : String :=
  "node_modules"

/-- Among segments in a row there is the folder of installed packages, then one of the packages, and
then at least one segment more.
-/
def EntersPackage (packages : List String) (segments : List (List Char)) : Prop :=
  ∃ package ∈ packages, ∃ before after,
    after ≠ []
    ∧ segments = before ++ ([installedFolder.toList, package.toList] ++ after)

/-- Segments that do not start with the folder enter a package behind the first one, if at all. -/
theorem entersPackage_tail {packages : List String} {segments : List (List Char)}
    (start : segments.head? ≠ some installedFolder.toList)
    : EntersPackage packages segments.tail ↔ EntersPackage packages segments := by
  cases segments with
  | nil => rfl
  | cons first rest =>
      constructor
      · rintro ⟨package, member, before, after, behind, found⟩
        exact ⟨package, member, first :: before, after, behind, congrArg (first :: ·) found⟩
      · rintro ⟨package, member, before, after, behind, found⟩
        cases before with
        | nil => exact absurd (congrArg List.head? found) start
        | cons _ before =>
            exact ⟨package, member, before, after, behind, (List.cons.inj found).2⟩

/-- The mark of a package is the two segments with a separator on each side. -/
theorem packageMark_eq (separator : Char) (package : String)
    : packageMark separator package
      = separator
        :: ([separator].intercalate [installedFolder.toList, package.toList] ++ [separator]) := by
  rw [packageMark, List.intercalate_cons_cons, List.intercalate_singleton, installedFolder]
  simp only [List.append_assoc, List.cons_append, List.nil_append]

/-- The mark of a package occurs in a path if its segments are found there behind the first one. -/
theorem infix_packageMark_iff {separator : Char} {package : String}
    (proper : separator ∉ package.toList) (folder : separator ∉ installedFolder.toList) (path : List Char)
    : packageMark separator package <:+: path
      ↔ ∃ before after,
          after ≠ []
          ∧ (splitAtChar separator path).tail
            = before ++ ([installedFolder.toList, package.toList] ++ after) := by
  rw [packageMark_eq]
  constructor
  · rintro ⟨start, rest, rfl⟩
    have segments
        : splitAtChar separator
            (start ++ separator :: (installedFolder.toList
              ++ separator :: (package.toList ++ separator :: rest)))
          = splitAtChar separator start
            ++ ([installedFolder.toList, package.toList] ++ splitAtChar separator rest) := by
      rw [splitAtChar_append, splitAtChar_cons_part folder, splitAtChar_cons_part proper]
      rfl
    have whole
        : start
            ++ separator
              :: ([separator].intercalate [installedFolder.toList, package.toList] ++ [separator])
            ++ rest
          = start ++ separator :: (installedFolder.toList
              ++ separator :: (package.toList ++ separator :: rest)) := by
      rw [List.intercalate_cons_cons, List.intercalate_singleton]
      simp only [List.append_assoc, List.cons_append, List.nil_append]
    refine ⟨(splitAtChar separator start).tail, splitAtChar separator rest,
      splitAtChar_ne_nil separator rest, ?_⟩
    rw [whole, segments, List.tail_append_of_ne_nil (splitAtChar_ne_nil separator start)]
  · rintro ⟨before, after, behind, found⟩
    obtain ⟨first, rest, split⟩ := List.exists_cons_of_ne_nil (splitAtChar_ne_nil separator path)
    rw [split, List.tail_cons] at found
    rw [found, ← List.cons_append] at split
    obtain ⟨start, later, rfl⟩ :=
      exists_of_splitAtChar split (List.cons_ne_nil _ _) (List.cons_ne_nil _ _) behind
    exact ⟨start, later, by simp⟩

/-- A mark with one separator does not occur in a path without it. -/
theorem not_infix_packageMark {separator : Char} {path : List Char} (absent : separator ∉ path)
    (package : String)
    : ¬ packageMark separator package <:+: path :=
  fun occurs => absent (occurs.subset List.mem_cons_self)

/-- The two characters that separate the segments of a path: one in use, and the other one. -/
def separators : List (Char × Char) :=
  [('/', '\\'), ('\\', '/')]

/-- The guard sees a package in a path if the segments behind the first one enter it. -/
theorem isKnownIncompatible_iff {separator other : Char} (known : (separator, other) ∈ separators)
    {path : String} (uniform : other ∉ path.toList) {packages : List String}
    (proper : ∀ package ∈ packages, separator ∉ package.toList)
    : isKnownIncompatible (some path) packages = true
      ↔ EntersPackage packages (splitAtChar separator path.toList).tail := by
  have folder : separator ∉ installedFolder.toList := by
    rcases List.mem_pair.mp known with same | same <;> cases same <;> decide
  have marked (package : String)
      : (occursIn (packageMark '/' package) path.toList
          || occursIn (packageMark '\\' package) path.toList) = true
        ↔ packageMark separator package <:+: path.toList := by
    rw [Bool.or_eq_true, occursIn_iff_infix, occursIn_iff_infix]
    rcases List.mem_pair.mp known with same | same <;> cases same
    · exact or_iff_left (not_infix_packageMark uniform package)
    · exact or_iff_right (not_infix_packageMark uniform package)
  have among
      : (packages.any fun package =>
          occursIn (packageMark '/' package) path.toList
            || occursIn (packageMark '\\' package) path.toList) = true
        ↔ EntersPackage packages (splitAtChar separator path.toList).tail := by
    rw [List.any_eq_true, EntersPackage]
    refine exists_congr fun package => and_congr_right fun member => ?_
    rw [marked, infix_packageMark_iff (proper package member) folder]
  rw [isKnownIncompatible, Option.any_some, Bool.and_eq_true, among]
  refine and_iff_right_of_imp ?_
  rintro ⟨package, _, before, after, _, segments⟩
  cases empty : path.toList with
  | nil => simp [empty, splitAtChar] at segments
  | cons c rest => rfl

/-- The guard of a path whose segments are separated by one character throughout. It sees a package
just if the segments behind the first one enter the package, or any of them if the first one is not
the folder. Then a program of that path is left as it is: nothing is discovered, and the report says
that the file was skipped. Else it is not skipped.
-/
theorem isKnownIncompatible_segments {separator other : Char}
    (known : (separator, other) ∈ separators) {path : String} (uniform : other ∉ path.toList)
    {packages : List String}
    (proper : ∀ package ∈ packages, ∀ pair ∈ separators, pair.1 ∉ package.toList)
    : (isKnownIncompatible (some path) packages = true
        ↔ EntersPackage packages (splitAtChar separator path.toList).tail)
      ∧ ((splitAtChar separator path.toList).head? ≠ some installedFolder.toList
        → (isKnownIncompatible (some path) packages = true
          ↔ EntersPackage packages (splitAtChar separator path.toList)))
      ∧ ∀ (p : Program) (settings : Settings) (file : Option String),
          file.getD p.filename = path
          → settings.incompatiblePackages = packages
          → (EntersPackage packages (splitAtChar separator path.toList).tail
              → discover p file packages = []
                ∧ ∃ report,
                    p.annotate settings file = .ok (p, report)
                    ∧ report.skipped = true
                    ∧ report.components = []
                    ∧ report.attributesAdded = 0)
            ∧ (¬ EntersPackage packages (splitAtChar separator path.toList).tail
              → discover p file packages = components p
                ∧ ∀ q report,
                    p.annotate settings file = .ok (q, report) → report.skipped = false) := by
  have seen := isKnownIncompatible_iff known uniform fun package member =>
    proper package member (separator, other) known
  refine ⟨seen, fun start => seen.trans (entersPackage_tail start), ?_⟩
  rintro p settings file rfl rfl
  constructor
  · intro enters
    have guarded : p.Guarded settings file := seen.mpr enters
    exact ⟨Program.discover_of_guarded guarded, _, Program.annotate_of_guarded guarded, rfl, rfl, rfl⟩
  · intro outside
    have open' : ¬ p.Guarded settings file := mt seen.mp outside
    refine ⟨Program.discover_of_open open', ?_⟩
    intro q report returned
    rcases Program.annotate_cases returned with ⟨guarded, _⟩ | ⟨_, _, _, _, rfl⟩
    · exact absurd guarded open'
    · rfl

/-- A file of an installed package, with a path that starts at the top. -/
def installedLink : Program where
  filename := "/app/node_modules/@react-navigation/native/Link.jsx"
  body := [
    .wrap {} (.functionDeclaration (some "Link")) <|
      .group {} .blockStatement [
        .wrap {} .returnStatement <| .element {} (.leaf {} (.jsxIdentifier "a")) [] [] true (some 30)
      ]
  ]

/-- The guard sees the package in the path of the file, and the file is skipped. -/
theorem isKnownIncompatible_segments_link
    : (splitAtChar '/' installedLink.filename.toList).map String.ofList
        = ["", "app", "node_modules", "@react-navigation", "native", "Link.jsx"]
      ∧ isKnownIncompatible (some installedLink.filename) knownIncompatiblePackages = true
      ∧ discover installedLink none knownIncompatiblePackages = []
      ∧ ∃ report,
          installedLink.annotate {} none = .ok (installedLink, report)
          ∧ report.skipped = true := by
  have proper
      : ∀ package ∈ knownIncompatiblePackages, ∀ pair ∈ separators, pair.1 ∉ package.toList := by
    decide
  have enters
      : EntersPackage knownIncompatiblePackages
          (splitAtChar '/' installedLink.filename.toList).tail :=
    ⟨"@react-navigation", by decide, ["app".toList], ["native".toList, "Link.jsx".toList],
      List.cons_ne_nil _ _, by decide⟩
  have known : ('/', '\\') ∈ separators := by
    decide
  have uniform : '\\' ∉ installedLink.filename.toList := by
    decide
  obtain ⟨seen, _, runs⟩ := isKnownIncompatible_segments known uniform proper
  obtain ⟨nothing, report, returned, skipped, _⟩ :=
    (runs installedLink {} none rfl rfl).1 enters
  exact ⟨by decide, seen.mpr enters, nothing, report, returned, skipped⟩

/-- The same file by a path that starts with the folder lies inside the package too, but the guard
does not see it, and the file is annotated.
-/
theorem isKnownIncompatible_relative
    : EntersPackage knownIncompatiblePackages
          (splitAtChar '/' "node_modules/@react-navigation/native/Link.jsx".toList)
      ∧ isKnownIncompatible (some "node_modules/@react-navigation/native/Link.jsx")
          knownIncompatiblePackages = false
      ∧ ∃ q report,
          installedLink.annotate {} (some "node_modules/@react-navigation/native/Link.jsx")
            = .ok (q, report)
          ∧ report.attributesAdded = 2 := by
  refine ⟨?_, by decide, ?_⟩
  · exact ⟨"@react-navigation", by decide, [], ["native".toList, "Link.jsx".toList],
      List.cons_ne_nil _ _, by decide⟩
  · have read : Aliases.collect installedLink = .ok {} := rfl
    refine ⟨_, _, Program.annotate_of_collect (by rw [Program.Guarded]; decide) read, ?_⟩
    decide +kernel

end JsxProvenance
