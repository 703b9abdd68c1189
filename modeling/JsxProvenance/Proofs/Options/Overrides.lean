import JsxProvenance.Options.Load

/-! Overrides by the environment. They are put among the options of the file before these are read,
so a variable decides a setting as far as the option of its name does. A switch and the list of
names are decided by theirs whatever else the file says. The policy is decided by two options, of
which the environment has only one, so that the experimental switch of a file counts before it.
What reads the text of the file is left open.
-/

namespace JsxProvenance

-----------------------------------------------------------------------------------------
-- Values under a name
-----------------------------------------------------------------------------------------

/-- The key that a name stands for is the text of it, and no other value. -/
theorem Value.sameKey_text {key : Value} {name : String}
    : key.sameKey (.text name) = true ↔ key = .text name := by
  cases key <;> simp [sameKey, asInt?, asNumber?]

namespace Entries

theorem get?_cons_text (found name : String) (value : Value) (later : Entries)
    : get? name ((.text found, value) :: later)
      = if found = name then some value else get? name later := by
  simp only [get?, Value.sameKey_text, Value.text.injEq]

/-- An option that is put is found under its name, and all others are found as before, by induction
over the entries.
-/
theorem get?_put (put' name : String) (value : Value) (options : Entries)
    : (put (.text put') value options).get? name
      = if put' = name then some value else options.get? name := by
  induction options with
  | nil => exact get?_cons_text put' name value []
  | cons entry later ih =>
      obtain ⟨key, old⟩ := entry
      by_cases here : key.sameKey (.text put') = true
      · obtain rfl := Value.sameKey_text.mp here
        rw [put, if_pos here, get?_cons_text, get?_cons_text]
        split <;> rfl
      · rw [put, if_neg here, get?, ih, get?]
        split
        · next found =>
            obtain rfl := Value.sameKey_text.mp found
            have other : ¬ put' = name := fun same => here (same ▸ found)
            rw [if_neg other]
        · rfl

end Entries

-----------------------------------------------------------------------------------------
-- The options of a run
-----------------------------------------------------------------------------------------

namespace Environment

/-- The value that the environment gives an option. -/
def value? (e : Environment) (name : String) : Option Value :=
  (e.overrides.find? (·.1 == name)).map (·.2)

/-- Options that are put in turn under different names, by induction over them. -/
theorem get?_foldl_put {puts : List (String × Value)} (apart : (puts.map (·.1)).Nodup)
    (options : Entries) (name : String)
    : (puts.foldl (fun all (key, value) => Entries.put (.text key) value all) options).get? name
      = ((puts.find? (·.1 == name)).map (·.2)).or (options.get? name) := by
  induction puts generalizing options with
  | nil => rfl
  | cons first later ih =>
      obtain ⟨key, value⟩ := first
      obtain ⟨fresh, apart⟩ := List.nodup_cons.mp apart
      rw [List.foldl_cons, ih apart, Entries.get?_put, List.find?_cons]
      by_cases here : key = name
      · have absent : later.find? (·.1 == name) = none := by
          refine List.find?_eq_none.mpr fun other member same => fresh ?_
          rw [here, ← beq_iff_eq.mp same]
          exact List.mem_map_of_mem (f := (·.1)) member
        rw [absent, if_pos here, beq_iff_eq.mpr here]
        rfl
      · rw [if_neg here, beq_false_of_ne here]

theorem nodup_overrides (e : Environment) : (e.overrides.map (·.1)).Nodup := by
  obtain ⟨native, fragments, ignored, policy⟩ := e
  cases native <;> cases fragments <;> cases ignored <;>
    cases h : policy.filter (!·.isEmpty) <;> simp [overrides, h]

/-- An option of a run is what the environment gives, and else what the file says. -/
theorem get?_override (e : Environment) (options : Entries) (name : String)
    : (e.override options).get? name = (e.value? name).or (options.get? name) :=
  get?_foldl_put e.nodup_overrides options name

/-- Each variable gives the option of its name, and no variable gives one of the two others. -/
theorem value?_eq (e : Environment)
    : e.value? "native" = e.native.map (fun text => .bool (isAffirmative text))
      ∧ e.value? "annotate-fragments"
        = e.annotateFragments.map (fun text => .bool (isAffirmative text))
      ∧ e.value? "ignoredComponents"
        = e.ignored.map (fun text => .list ((nameList text).map .text))
      ∧ e.value? "policy" = (e.policy.filter (!·.isEmpty)).map .text
      ∧ e.value? "ignored-components" = none
      ∧ e.value? "experimental" = none := by
  obtain ⟨native, fragments, ignored, policy⟩ := e
  cases native <;> cases fragments <;> cases ignored <;>
    cases h : policy.filter (!·.isEmpty) <;> simp [value?, overrides, h]

-----------------------------------------------------------------------------------------
-- What the options are read as
-----------------------------------------------------------------------------------------

variable {e : Environment} {options : Entries}

/-- A switch of a run is decided by the variable for it, and else by the file. -/
theorem isOn_override {name : String} {set? : Option String}
    (given : e.value? name = set?.map fun text => .bool (isAffirmative text))
    : (e.override options).isOn name = (set?.map isAffirmative).getD (options.isOn name) := by
  rw [Entries.isOn, get?_override, given]
  cases set? <;> simp [Entries.isOn]

/-- No variable turns the experimental switch. -/
theorem isOn_experimental_override
    : (e.override options).isOn "experimental" = options.isOn "experimental" := by
  obtain ⟨_, _, _, _, _, unset⟩ := e.value?_eq
  rw [Entries.isOn, get?_override, unset, Option.none_or, Entries.isOn]

/-- The names of a run are those of the variable, under either spelling of the option in the file. -/
theorem ignoredNames_override
    : (e.override options).ignoredNames
      = match e.ignored with
        | some text => .ok (nameList text)
        | none => options.ignoredNames := by
  obtain ⟨_, _, joined, _, split, _⟩ := e.value?_eq
  rw [Entries.ignoredNames, get?_override, get?_override, joined, split]
  cases e.ignored with
  | none => rfl
  | some text =>
      change Except.ok (((nameList text).map Value.text).map Value.asText) = _
      rw [List.map_map]
      exact congrArg Except.ok (List.map_id (nameList text))

/-- A policy variable that is set and not empty is read instead of the file's policy. -/
theorem policy_override {text : String} (set : e.policy = some text) (proper : text ≠ "")
    : (e.override options).policy
      = do
        let named ← Entries.policyNamed (.text text)
        return if options.isOn "experimental" then .legacy else named := by
  obtain ⟨_, _, _, policy, _⟩ := e.value?_eq
  have kept : e.policy.filter (!·.isEmpty) = some text := by
    simp [set, proper]
  rw [Entries.policy, get?_override, policy, kept, isOn_experimental_override]
  rfl

/-- A policy variable that is not set, or empty, leaves the policy to the file. -/
theorem policy_override_unset (unset : e.policy = none ∨ e.policy = some "")
    : (e.override options).policy = options.policy := by
  obtain ⟨_, _, _, policy, _⟩ := e.value?_eq
  have nothing : e.policy.filter (!·.isEmpty) = none := by
    rcases unset with unset | unset <;> simp [unset]
  rw [Entries.policy, get?_override, policy, nothing, isOn_experimental_override]
  rfl

end Environment

-----------------------------------------------------------------------------------------
-- Who decides
-----------------------------------------------------------------------------------------

/-- The settings of a run by the variables of its environment and the options of its file. What no
variable is set for is decided by the file alone.
-/
structure Overridden (e : Environment) (options : Entries) (s : Settings) : Prop where
  /-- A variable for a switch turns it on just if it is one of four words, and else off. -/
  native
    : ∀ text,
        e.native = some text
        → (s.alternateNames = true
          ↔ String.ofList ((trimBlanks text.toList).map Char.toLower) ∈ ["1", "true", "yes", "on"])
  nativeUnset : e.native = none → s.alternateNames = options.isOn "native"
  fragments
    : ∀ text,
        e.annotateFragments = some text
        → (s.annotateFragments = true
          ↔ String.ofList ((trimBlanks text.toList).map Char.toLower) ∈ ["1", "true", "yes", "on"])
  fragmentsUnset
    : e.annotateFragments = none → s.annotateFragments = options.isOn "annotate-fragments"
  /-- The variable for the names gives the parts between its commas, trimmed, that are not empty. -/
  ignored
    : ∀ text,
        e.ignored = some text
        → s.ignoredComponents.map String.toList
          = ((splitAtChar ',' text.toList).map trimBlanks).filter (!·.isEmpty)
  ignoredUnset : e.ignored = none → options.ignoredNames = .ok s.ignoredComponents
  /-- The variable for the policy gives the one that it names, unless the experimental switch of the
  file is on.
  -/
  policy
    : ∀ text,
        e.policy = some text
        → text ≠ ""
        → ∃ named,
            Entries.policyNamed (.text text) = .ok named
            ∧ s.policy = if options.isOn "experimental" then .legacy else named
  policyUnset : e.policy = none ∨ e.policy = some "" → options.policy = .ok s.policy

/-- A result that is computed in two steps has a result of the first step behind it. -/
theorem exists_ok_of_bind {ε α β : Type} {first : Except ε α} {next : α → Except ε β} {result : β}
    (computed : (first >>= next) = .ok result)
    : ∃ a, first = .ok a ∧ next a = .ok result := by
  cases first with
  | error fault => cases computed
  | ok a => exact ⟨a, rfl, computed⟩

/-- Options that stand for settings name their components and their policy. -/
theorem ofOptions_eq_ok {options : Entries} {s : Settings} (read : Settings.ofOptions options = .ok s)
    : options.ignoredNames = .ok s.ignoredComponents
      ∧ options.policy = .ok s.policy
      ∧ s.alternateNames = options.isOn "native"
      ∧ s.annotateFragments = options.isOn "annotate-fragments" := by
  obtain ⟨_, _, read⟩ := exists_ok_of_bind read
  obtain ⟨names, ignored, read⟩ := exists_ok_of_bind read
  obtain ⟨named, policy, read⟩ := exists_ok_of_bind read
  obtain ⟨_, _, read⟩ := exists_ok_of_bind read
  cases read
  exact ⟨ignored, policy, rfl, rfl⟩

theorem isAffirmative_iff {text : String}
    : Environment.isAffirmative text = true
      ↔ String.ofList ((trimBlanks text.toList).map Char.toLower) ∈ ["1", "true", "yes", "on"] :=
  decide_eq_true_iff

/-- The settings of a run with any options in its file are decided by its variables as far as these
are set.
-/
theorem overridden_of_ofOptions {e : Environment} {options : Entries} {s : Settings}
    (read : Settings.ofOptions (e.override options) = .ok s)
    : Overridden e options s := by
  obtain ⟨native, fragments, _⟩ := e.value?_eq
  obtain ⟨names, policy, alternate, annotated⟩ := ofOptions_eq_ok read
  rw [Environment.isOn_override native] at alternate
  rw [Environment.isOn_override fragments] at annotated
  rw [Environment.ignoredNames_override] at names
  constructor
  · intro text set
    rw [alternate, set, Option.map_some, Option.getD_some]
    exact isAffirmative_iff
  · intro unset
    rw [alternate, unset]
    rfl
  · intro text set
    rw [annotated, set, Option.map_some, Option.getD_some]
    exact isAffirmative_iff
  · intro unset
    rw [annotated, unset]
    rfl
  · intro text set
    rw [set] at names
    rw [← Except.ok.inj names, Environment.nameList, List.map_map]
    exact List.map_id'' (fun _ => String.toList_ofList) _
  · intro unset
    rwa [unset] at names
  · intro text set proper
    rw [Environment.policy_override set proper] at policy
    cases named : Entries.policyNamed (.text text) with
    | error fault =>
        rw [named] at policy
        cases policy
    | ok found =>
        rw [named] at policy
        exact ⟨found, rfl, (Except.ok.inj policy).symm⟩
  · intro unset
    rwa [Environment.policy_override_unset unset] at policy

theorem eq_ok_of_toOption {ε α : Type} {computed : Except ε α} {result : α}
    (gives : computed.toOption = some result)
    : computed = .ok result := by
  cases computed with
  | error fault => cases gives
  | ok a => exact congrArg Except.ok (Option.some.inj gives)

/-- The options in the file that a run reads, none if it reads no file. -/
def LoadedOptions.optionsIn (reader : OptionsReader) (files : FileTree)
    : Option Path → Except LoadFault Entries
  | some path => ofFile reader files path
  | none => .ok []

section

variable {reader : OptionsReader} {files : FileTree}

/-- A run finds its file, reads the options in it and puts the overrides among them. -/
theorem LoadedOptions.loadBy_eq (e : Environment) (usual : List Path) (named : Option Path)
    : loadBy reader files e usual named
      = sourceOf files usual named >>= fun source =>
          optionsIn reader files source >>= fun options =>
            .ok { source, options := e.override options } := by
  rw [loadBy]
  refine congrArg (sourceOf files usual named >>= ·) (funext fun source => ?_)
  cases source <;> rfl

/-- The options of a run are those that the file alone gives, with the overrides put among them. -/
theorem LoadedOptions.loadBy_override {e : Environment} {usual : List Path} {named : Option Path}
    {l : LoadedOptions} (loaded : loadBy reader files e usual named = .ok l)
    : ∃ options,
        loadBy reader files {} usual named = .ok { source := l.source, options }
        ∧ l.options = e.override options := by
  rw [loadBy_eq] at loaded
  obtain ⟨source, found, loaded⟩ := exists_ok_of_bind loaded
  obtain ⟨options, read, loaded⟩ := exists_ok_of_bind loaded
  cases loaded
  refine ⟨options, ?_, rfl⟩
  rw [loadBy_eq, found]
  change (optionsIn reader files source >>= _) = _
  rw [read]
  rfl

end

/-- Overrides win over the options of a file. Whatever these are, a run that gives settings has them
from the variables that are set, the policy only as far as the experimental switch of the file is
off, and from the file alone where no variable is set. The options that a run loads are such,
whatever reads them, the reader of YAML included.
-/
theorem settings_overridden (e : Environment)
    : (∀ options s, Settings.ofOptions (e.override options) = .ok s → Overridden e options s)
      ∧ (∀ reader files usual named l s,
          LoadedOptions.loadBy reader files e usual named = .ok l
          → l.settings = .ok s
          → ∃ options,
              LoadedOptions.loadBy reader files {} usual named = .ok { source := l.source, options }
              ∧ Overridden e options s)
      ∧ LoadedOptions.load = LoadedOptions.loadBy Yaml.read := by
  refine ⟨fun _ _ => overridden_of_ofOptions, ?_, rfl⟩
  intro reader files usual named l s loaded read
  obtain ⟨options, alone, overridden⟩ := LoadedOptions.loadBy_override loaded
  refine ⟨options, alone, overridden_of_ofOptions ?_⟩
  rw [LoadedOptions.settings, overridden] at read
  cases settings : Settings.ofOptions (e.override options) with
  | error fault =>
      rw [settings] at read
      cases read
  | ok found =>
      rw [settings] at read
      exact congrArg Except.ok (Except.ok.inj read)

/-- A folder with one file, whose options name an unknown policy and spell the names in two words. -/
def overriddenFiles : FileTree where
  workingFolder := ["work"]
  entries := [
    (["work", "options.yaml"],
      .file (Utf8.bytes "native: true\npolicy: fastest\nignored-components: [Foo]\n"))
  ]

/-- An environment that overrides all options of the file. -/
def overridingEnvironment : Environment where
  native := some "off"
  ignored := some "Tab.Group, Bar ,"
  policy := some "legacy"

theorem policyNamed_words
    : Entries.policyNamed (.text "legacy") = .ok .legacy
      ∧ Entries.policyNamed (.text "FULL") = .ok .full := by
  constructor
  · rw [Entries.policyNamed, if_neg (by decide +kernel), if_pos (by decide +kernel)]
  · rw [Entries.policyNamed, if_pos (by decide +kernel)]

/-- The settings are those of the environment, whatever the file says. -/
theorem settings_overridden_file
    : ∃ l s,
        LoadedOptions.load overriddenFiles overridingEnvironment [] (some ⟨"", ["options.yaml"]⟩)
          = .ok l
        ∧ l.settings = .ok s
        ∧ s.alternateNames = false
        ∧ s.ignoredComponents.map String.toList = ["Tab.Group".toList, "Bar".toList]
        ∧ s.policy = .legacy := by
  have returns
      : ((LoadedOptions.load overriddenFiles overridingEnvironment []
            (some ⟨"", ["options.yaml"]⟩)).toOption.bind fun l => l.settings.toOption).isSome
        = true := by
    decide +kernel
  obtain ⟨s, found⟩ := Option.isSome_iff_exists.mp returns
  obtain ⟨l, loaded, read⟩ := Option.bind_eq_some_iff.mp found
  have loaded := eq_ok_of_toOption loaded
  have read := eq_ok_of_toOption read
  obtain ⟨options, _, overridden⟩ :=
    (settings_overridden overridingEnvironment).2.1 Yaml.read _ _ _ _ _ loaded read
  refine ⟨l, s, loaded, read, ?_, ?_, ?_⟩
  · refine Bool.eq_false_iff.mpr (mt (overridden.native "off" rfl).mp ?_)
    decide +kernel
  · rw [overridden.ignored "Tab.Group, Bar ," rfl]
    decide
  · obtain ⟨named, legacy, policy⟩ := overridden.policy "legacy" rfl (by decide)
    rw [policyNamed_words.1] at legacy
    rw [policy, ← Except.ok.inj legacy, ite_self]

/-- A folder with one file that turns the experimental switch on. -/
def experimentalFiles : FileTree where
  workingFolder := ["work"]
  entries := [(["work", "options.yaml"], .file (Utf8.bytes "experimental: true\n"))]

/-- The experimental switch of a file counts before the policy that the environment names. -/
theorem experimental_before_environment
    : ∃ l s,
        LoadedOptions.load experimentalFiles { policy := some "FULL" } []
            (some ⟨"", ["options.yaml"]⟩)
          = .ok l
        ∧ l.settings = .ok s
        ∧ Entries.policyNamed (.text "FULL") = .ok .full
        ∧ s.policy = .legacy := by
  have returns
      : ((LoadedOptions.load experimentalFiles { policy := some "FULL" } []
            (some ⟨"", ["options.yaml"]⟩)).toOption.bind fun l => l.settings.toOption)
        = some { policy := .legacy } := by
    decide +kernel
  obtain ⟨l, loaded, read⟩ := Option.bind_eq_some_iff.mp returns
  exact ⟨l, _, eq_ok_of_toOption loaded, eq_ok_of_toOption read, policyNamed_words.2, rfl⟩

end JsxProvenance
