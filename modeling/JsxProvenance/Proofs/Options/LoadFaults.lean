import JsxProvenance.Proofs.Files.Writing
import JsxProvenance.Proofs.Options.Overrides

/-! Faults of loading settings. Most are reported as errors of the configuration, which say where
they are found. Four are not: it may be impossible to ask for the file, the file may be no text, a
literal in it may not have the form that its tag asks for, and a value that is asked for its text
may hold a number that is too long to be written. The environment causes none of them. What reads
the text of the file is left open.
-/

namespace JsxProvenance

/-- A fault of what is computed in two steps is one of the first step, or of the second one. -/
theorem error_cases_of_bind {ε α β : Type} {first : Except ε α} {next : α → Except ε β} {fault : ε}
    (computed : (first >>= next) = .error fault)
    : first = .error fault ∨ ∃ a, first = .ok a ∧ next a = .error fault := by
  cases first with
  | error other => exact Or.inl (congrArg Except.error (Except.error.inj computed))
  | ok a => exact Or.inr ⟨a, rfl, computed⟩

-----------------------------------------------------------------------------------------
-- Values that can be shown
-----------------------------------------------------------------------------------------

theorem Value.areShowable_iff {values : List Value}
    : areShowable values = true ↔ ∀ v ∈ values, v.isShowable = true := by
  induction values with
  | nil => simp [areShowable]
  | cons v rest ih => rw [areShowable, Bool.and_eq_true, ih, List.forall_mem_cons]

/-- No key and no value of the options holds a number that is too long to be written. -/
def Entries.Showable (options : Entries) : Prop :=
  ∀ entry ∈ options, entry.1.isShowable = true ∧ entry.2.isShowable = true

namespace Entries

variable {options : Entries}

/-- A value under a key that can be shown, by induction over the entries. -/
theorem Showable.put {key value : Value} (keyFits : key.isShowable = true)
    (valueFits : value.isShowable = true) (all : options.Showable)
    : (put key value options).Showable := by
  induction options with
  | nil => simpa [Entries.put, Showable] using ⟨keyFits, valueFits⟩
  | cons entry rest ih =>
      obtain ⟨first, later⟩ := List.forall_mem_cons.mp all
      rw [Entries.put]
      split
      · exact List.forall_mem_cons.mpr ⟨⟨first.1, valueFits⟩, later⟩
      · exact List.forall_mem_cons.mpr ⟨first, ih later⟩

theorem Showable.get? {name : String} {value : Value} (all : options.Showable)
    (found : options.get? name = some value)
    : value.isShowable = true := by
  induction options with
  | nil => cases found
  | cons entry rest ih =>
      obtain ⟨first, later⟩ := List.forall_mem_cons.mp all
      rw [Entries.get?] at found
      split at found
      · exact Option.some.inj found ▸ first.2
      · exact ih later found

/-- What the environment puts among the options can be shown. -/
theorem Showable.override (all : options.Showable) (e : Environment)
    : (e.override options).Showable := by
  have puts : ∀ put ∈ e.overrides, put.2.isShowable = true := by
    have names (text : String)
        : Value.areShowable ((Environment.nameList text).map .text) = true := by
      simp [Value.areShowable_iff, Value.isShowable]
    obtain ⟨native, fragments, ignored, policy⟩ := e
    cases native <;> cases fragments <;> cases ignored <;>
      cases h : policy.filter (!·.isEmpty) <;>
      simp [Environment.overrides, h, Value.isShowable, names]
  rw [Environment.override]
  generalize e.overrides = values at puts
  induction values generalizing options with
  | nil => exact all
  | cons first rest ih =>
      obtain ⟨fits, later⟩ := List.forall_mem_cons.mp puts
      exact ih (all.put rfl fits) later

theorem Showable.unknownKeys (all : options.Showable)
    : Value.areShowable options.unknownKeys = true := by
  refine Value.areShowable_iff.mpr fun key member => ?_
  obtain ⟨entry, unknown, rfl⟩ := List.mem_map.mp member
  exact (all entry (List.mem_filter.mp unknown).1).1

theorem Showable.ignoredValues (all : options.Showable)
    : Value.areShowable options.ignoredValues = true := by
  rw [Entries.ignoredValues]
  split
  · next names found =>
      rcases Option.or_eq_some_iff.mp found with joined | ⟨_, split'⟩
      · exact all.get? joined
      · exact all.get? split'
  · rfl

theorem checkShowable_eq {values : List Value} (fit : Value.areShowable values = true)
    : checkShowable values = .ok () := by
  rw [checkShowable, if_pos fit]

/-- The names are not asked for their texts before the policy is read. -/
theorem ignoredNames_ne (options : Entries) : options.ignoredNames ≠ .error .numberTooLong := by
  rw [ignoredNames]
  split <;> simp

theorem policyNamed_ne {found : Value} (fits : found.isShowable = true)
    : policyNamed found ≠ .error .numberTooLong := by
  unfold policyNamed
  split
  · simp
  · split
    · simp
    · split <;> simp
  · simp [fits]

theorem Showable.policy (all : options.Showable) : options.policy ≠ .error .numberTooLong := by
  have fits : ((options.get? "policy").getD .null).isShowable = true := by
    cases found : options.get? "policy" with
    | none => rfl
    | some value => exact all.get? found
  rw [Entries.policy]
  intro refused
  rcases error_cases_of_bind refused with named | ⟨_, _, returned⟩
  · exact policyNamed_ne fits named
  · cases returned

/-- Options whose keys and values can all be shown are not refused for a number. -/
theorem Showable.ofOptions (all : options.Showable)
    : Settings.ofOptions options ≠ .error .numberTooLong := by
  intro refused
  rcases error_cases_of_bind refused with keys | ⟨_, _, refused⟩
  · rw [checkShowable_eq all.unknownKeys] at keys
    cases keys
  rcases error_cases_of_bind refused with ignored | ⟨_, _, refused⟩
  · exact ignoredNames_ne options ignored
  rcases error_cases_of_bind refused with policy | ⟨_, _, refused⟩
  · exact all.policy policy
  rcases error_cases_of_bind refused with values | ⟨_, _, returned⟩
  · rw [checkShowable_eq all.ignoredValues] at values
    cases values
  · cases returned

end Entries

-----------------------------------------------------------------------------------------
-- Files that are there
-----------------------------------------------------------------------------------------

namespace FileTree

variable {files : FileTree} {path : Path}

theorem isThere_of_read {bytes : List UInt8} (read : files.read path = .ok bytes)
    : files.isThere path = .ok true := by
  obtain ⟨place, located, there⟩ := exists_place_of_read read
  rw [isThere, located]
  simp only [there, Option.isSome_some]

/-- A file that is there has no null in its name. -/
theorem read_ne_nullInName (there : files.isThere path = .ok true)
    : files.read path ≠ .error .nullInName := by
  rw [isThere] at there
  cases located : files.locate path with
  | error fault =>
      rw [located] at there
      dsimp only at there
      split at there <;> cases there
  | ok place =>
      rw [located] at there
      dsimp only at there
      rw [read_of_locate located, contentAt]
      intro refused
      split at refused
      · cases refused
      · cases refused
      · next fault blocked =>
          cases refused
          rw [blocked] at there
          cases there
      · cases refused

end FileTree

-----------------------------------------------------------------------------------------
-- Errors of the configuration
-----------------------------------------------------------------------------------------

namespace LoadFault

/-- An error of the configuration: where it is found, and what it says. -/
structure ConfigError where
  place : String
  problem : String
  deriving DecidableEq, Repr, Inhabited

/-- The error of the configuration that a fault is reported as, if it is reported as one. -/
def configError? : LoadFault → Option ConfigError
  | notFound path => some ⟨path.text, "file not found"⟩
  | unreadable path fault => some ⟨path.text, fault.message path⟩
  | malformed path => some ⟨path.text, "<yaml>"⟩
  | noMapping path => some ⟨path.text, "top level must be a mapping"⟩
  | options .numberTooLong => none
  | options fault => some ⟨"<options>", fault.message⟩
  | unreachable .. => none
  | notText _ => none
  | literal _ => none

/-- An error of the configuration says where it is found. -/
theorem message_of_configError {fault : LoadFault} {error : ConfigError}
    (reported : fault.configError? = some error)
    : fault.message = inFile error.place error.problem := by
  cases fault with
  | options fault => cases fault <;> cases reported <;> rfl
  | _ => cases reported <;> rfl

end LoadFault

namespace LoadedOptions

/-- Loads the options of a run with a reader and takes them as settings. -/
def loadSettingsBy (read : OptionsReader) (files : FileTree) (e : Environment) (usual : List Path)
    (named : Option Path)
    : Except LoadFault Settings := do
  let loaded ← loadBy read files e usual named
  loaded.settings

/-- Loads the options of a run from files in YAML and takes them as settings. -/
def loadSettings (files : FileTree) (e : Environment) (usual : List Path) (named : Option Path)
    : Except LoadFault Settings := do
  let loaded ← load files e usual named
  loaded.settings

section

variable (reader : OptionsReader) (files : FileTree) (e : Environment) (path : Path)

/-- What it takes that a fault of loading a file is no error of the configuration. -/
inductive Escapes : LoadFault → Prop where
  | unreachable {fault : FileFault}
    : files.isThere path = .error fault
      → Escapes (.unreachable path fault)
  | notText {bytes : List UInt8} {broken : Utf8.Broken}
    : files.read path = .ok bytes
      → Utf8.decode bytes = .error broken
      → Escapes (.notText (broken.inPortion portion bytes))
  | literal {bytes : List UInt8} {text : List Char} {fault : Yaml.LiteralFault}
    : files.read path = .ok bytes
      → Utf8.decode bytes = .ok text
      → reader (unifyLineEnds text) = .error (.literal fault)
      → Escapes (.literal fault)
  | numberTooLong {options : Entries}
    : ofFile reader files path = .ok options
      → ¬ options.Showable
      → Escapes (.options .numberTooLong)

theorem loadSettingsBy_named (usual : List Path)
    : loadSettingsBy reader files e usual (some path)
      = isThere files path >>= fun there =>
          if there then
            ofFile reader files path >>= fun options =>
              (Settings.ofOptions (e.override options)).mapError .options
          else .error (.notFound path) := by
  rw [loadSettingsBy, loadBy_eq, sourceOf]
  cases isThere files path with
  | error fault => rfl
  | ok there =>
      cases there with
      | false => rfl
      | true =>
          simp only [bind, Except.bind, pure, Except.pure, optionsIn, reduceIte]
          cases ofFile reader files path with
          | error fault => rfl
          | ok options => rfl

variable {reader files e path}

/-- A file that is there gives options, or an error of the configuration, or an escape. -/
theorem ofFile_escapes (there : files.isThere path = .ok true) {fault : LoadFault}
    (given : ofFile reader files path = .error fault) (other : fault.configError? = none)
    : Escapes reader files path fault := by
  unfold ofFile at given
  cases read : files.read path with
  | error unread =>
      rw [read] at given
      cases unread with
      | nullInName => exact absurd read (FileTree.read_ne_nullInName there)
      | _ => cases given; cases other
  | ok bytes =>
      rw [read] at given
      dsimp only at given
      cases decoded : Utf8.decode bytes with
      | error broken =>
          rw [decoded] at given
          cases given
          exact .notText read decoded
      | ok text =>
          rw [decoded] at given
          dsimp only [ofText] at given
          split at given
          · cases given; cases other
          · next literal =>
              cases given
              exact .literal read decoded literal
          · cases given
          · split at given
            · cases given
            · cases given; cases other

theorem isThere_cases (files : FileTree) (path : Path)
    : (∃ fault,
        files.isThere path = .error fault ∧ isThere files path = .error (.unreachable path fault))
      ∨ ∃ there, files.isThere path = .ok there ∧ isThere files path = .ok there := by
  rw [isThere]
  cases files.isThere path with
  | error fault => exact Or.inl ⟨fault, rfl, rfl⟩
  | ok there => exact Or.inr ⟨there, rfl, rfl⟩

/-- A fault that is no error of the configuration has one of four causes. -/
theorem escapes_of_loadSettingsBy {usual : List Path} {fault : LoadFault}
    (given : loadSettingsBy reader files e usual (some path) = .error fault)
    (other : fault.configError? = none)
    : Escapes reader files path fault := by
  rw [loadSettingsBy_named] at given
  rcases isThere_cases files path with ⟨unasked, asked, same⟩ | ⟨there, asked, same⟩
  · rw [same] at given
    cases given
    exact .unreachable asked
  rw [same] at given
  cases there with
  | false =>
      cases given
      cases other
  | true =>
      change (ofFile reader files path >>= fun options =>
          (Settings.ofOptions (e.override options)).mapError .options) = _ at given
      rcases error_cases_of_bind given with unread | ⟨options, read, refused⟩
      · exact ofFile_escapes asked unread other
      · cases settings : Settings.ofOptions (e.override options) with
        | ok s =>
            rw [settings] at refused
            cases refused
        | error reason =>
            rw [settings] at refused
            cases refused
            cases reason with
            | numberTooLong =>
                exact .numberTooLong read fun all => (all.override e).ofOptions settings
            | ignoredIsNoList found => cases other
            | unknownPolicy found => cases other

/-- A path that cannot be asked for is not reported as an error of the configuration. -/
theorem loadSettingsBy_of_unasked {usual : List Path} {fault : FileFault}
    (asked : files.isThere path = .error fault)
    : loadSettingsBy reader files e usual (some path) = .error (.unreachable path fault) := by
  rw [loadSettingsBy_named, isThere, asked]
  rfl

/-- Neither is a file that is no text. -/
theorem loadSettingsBy_of_notText {usual : List Path} {bytes : List UInt8} {broken : Utf8.Broken}
    (read : files.read path = .ok bytes) (decoded : Utf8.decode bytes = .error broken)
    : loadSettingsBy reader files e usual (some path)
      = .error (.notText (broken.inPortion portion bytes)) := by
  have given : ofFile reader files path = .error (.notText (broken.inPortion portion bytes)) := by
    rw [ofFile, read]
    dsimp only
    rw [decoded]
  rw [loadSettingsBy_named, isThere, FileTree.isThere_of_read read]
  change (ofFile reader files path >>= _) = _
  rw [given]
  rfl

/-- Loading a file that is named ends with settings, or with an error of the configuration that says
where it is found, or for one of four causes with another error, whatever the environment is and
whatever reads the text of the file, the reader of YAML included. A path
that cannot be asked for always leads to another error, and so does a file that is no text in its
first portion. That portion is read before any of it is looked at; what is wrong further on only
comes to light if nothing before it is.
-/
theorem loadSettings_escapes (reader : OptionsReader) (files : FileTree) (e : Environment)
    (usual : List Path) (path : Path)
    : (∀ fault,
        loadSettingsBy reader files e usual (some path) = .error fault
        → Escapes reader files path fault
          ∨ ∃ error,
              fault.configError? = some error
              ∧ fault.message = LoadFault.inFile error.place error.problem)
      ∧ (∀ fault,
          files.isThere path = .error fault
          → loadSettingsBy reader files e usual (some path) = .error (.unreachable path fault))
      ∧ (∀ bytes broken,
          files.read path = .ok bytes
          → Utf8.decode bytes = .error broken
          → broken.position < portion
          → loadSettingsBy reader files e usual (some path)
            = .error (.notText (broken.inPortion portion bytes)))
      ∧ loadSettings = loadSettingsBy Yaml.read := by
  refine ⟨fun fault given => ?_, fun _ => loadSettingsBy_of_unasked,
    fun _ _ read decoded _ => loadSettingsBy_of_notText read decoded, rfl⟩
  cases reported : fault.configError? with
  | none => exact Or.inl (escapes_of_loadSettingsBy given reported)
  | some error => exact Or.inr ⟨error, rfl, LoadFault.message_of_configError reported⟩

end

/-- A folder with one file, which is no text, and one folder that cannot be entered. -/
def brokenFiles : FileTree where
  workingFolder := ["work"]
  entries := [(["work", "options.yaml"], .file [0xff]), (["work", "locked"], .blocked .denied)]

/-- The byte of a file that is no text. -/
def brokenByte : Utf8.Broken where
  position := 0
  part := [0xff]
  fault := .invalidStart

theorem read_brokenFiles
    : brokenFiles.read ⟨"", ["options.yaml"]⟩ = .ok [0xff]
      ∧ Utf8.decode [0xff] = .error brokenByte :=
  ⟨rfl, rfl⟩

/-- The ends of loading a file that is no text, one in a folder that cannot be entered and one that
is not there. Only the last of them is an error of the configuration.
-/
theorem loadSettings_escapes_ends
    : loadSettings brokenFiles {} [] (some ⟨"", ["options.yaml"]⟩)
        = .error (.notText (brokenByte.inPortion portion [0xff]))
      ∧ (LoadFault.notText (brokenByte.inPortion portion [0xff])).message
        = "'utf-8' codec can't decode byte 0xff in position 0: invalid start byte"
      ∧ loadSettings brokenFiles {} [] (some ⟨"", ["locked", "options.yaml"]⟩)
        = .error (.unreachable ⟨"", ["locked", "options.yaml"]⟩ .denied)
      ∧ loadSettings brokenFiles {} [] (some ⟨"", ["missing.yaml"]⟩)
        = .error (.notFound ⟨"", ["missing.yaml"]⟩)
      ∧ ∃ error,
          (LoadFault.notFound ⟨"", ["missing.yaml"]⟩).configError? = some error
          ∧ (LoadFault.notFound ⟨"", ["missing.yaml"]⟩).message
            = LoadFault.inFile error.place error.problem := by
  obtain ⟨_, _, notText, _⟩ :=
    loadSettings_escapes Yaml.read brokenFiles {} [] ⟨"", ["options.yaml"]⟩
  obtain ⟨_, unasked, _⟩ :=
    loadSettings_escapes Yaml.read brokenFiles {} [] ⟨"", ["locked", "options.yaml"]⟩
  obtain ⟨ends, _, _⟩ := loadSettings_escapes Yaml.read brokenFiles {} [] ⟨"", ["missing.yaml"]⟩
  have missing
      : loadSettings brokenFiles {} [] (some ⟨"", ["missing.yaml"]⟩)
        = .error (.notFound ⟨"", ["missing.yaml"]⟩) := by
    have absent : brokenFiles.isThere ⟨"", ["missing.yaml"]⟩ = .ok false := rfl
    change loadSettingsBy Yaml.read _ _ _ _ = _
    rw [loadSettingsBy_named, isThere, absent]
    rfl
  refine ⟨notText [0xff] brokenByte read_brokenFiles.1 read_brokenFiles.2 (by decide),
    by decide +kernel, unasked .denied rfl, missing, ?_⟩
  exact (ends _ missing).resolve_left nofun

/-- Not every fault of loading a file is an error of the configuration, even if all of its literals
have their form: a file that is no text leads to another one.
-/
theorem loadSettings_not_only_configErrors
    : ¬ ∀ (files : FileTree) (e : Environment) (usual : List Path) (path : Path),
        (∀ bytes text fault,
            files.read path = .ok bytes
            → Utf8.decode bytes = .ok text
            → Yaml.read (unifyLineEnds text) ≠ .error (.literal fault))
        → (∃ s, loadSettings files e usual (some path) = .ok s)
          ∨ ∃ fault error,
              loadSettings files e usual (some path) = .error fault
              ∧ fault.configError? = some error := by
  intro only
  obtain ⟨read, decoded⟩ := read_brokenFiles
  have escaped
      : loadSettings brokenFiles {} [] (some ⟨"", ["options.yaml"]⟩)
        = .error (.notText (brokenByte.inPortion portion [0xff])) :=
    loadSettingsBy_of_notText read decoded
  have literals
      : ∀ bytes text fault,
          brokenFiles.read ⟨"", ["options.yaml"]⟩ = .ok bytes
          → Utf8.decode bytes = .ok text
          → Yaml.read (unifyLineEnds text) ≠ .error (.literal fault) := by
    intro bytes text fault given isText
    cases read.symm.trans given
    cases decoded.symm.trans isText
  rcases only brokenFiles {} [] ⟨"", ["options.yaml"]⟩ literals with ⟨s, loaded⟩ | configured
  · cases escaped.symm.trans loaded
  · obtain ⟨fault, error, given, reported⟩ := configured
    cases escaped.symm.trans given
    cases reported

end LoadedOptions
end JsxProvenance
