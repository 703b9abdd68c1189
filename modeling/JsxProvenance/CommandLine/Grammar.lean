import JsxProvenance.Text.Digit
import JsxProvenance.Text.Quoted

/-!
Command lines. A grammar says which options there are and whether one operand is taken, or an
operand with all that follows it. The words of a line are first told apart, and only then read, so
that an ambiguous option is found before anything else happens.

* A long option can be cut short to any beginning that fits one option only, and its value can
  follow after an equals sign.
* A short option's value, or further short options without a value, can be joined to it.
* After two dashes every word is an operand.
* Words that have no place are kept, for whoever called to report.
-/

namespace JsxProvenance.CommandLine

/-- What an option does. -/
inductive Effect (α : Type) where
  | mark (change : α → α)
  | take (change : String → α → α)
  /-- The reading ends here, and a text is shown instead. -/
  | showText (text : String)

/-- An option under all of its names. -/
structure OptionForm (α : Type) where
  names : List String
  effect : Effect α

def OptionForm.label {α : Type} (f : OptionForm α) : String :=
  "/".intercalate f.names

def OptionForm.takesValue {α : Type} (f : OptionForm α) : Bool :=
  match f.effect with
  | .take _ => true
  | _ => false

/-- How many operands are taken. -/
inductive Operands where
  | one
  /-- One operand with all that follows it. -/
  | rest
  deriving DecidableEq, Repr, Inhabited

/-- The command lines of a program. -/
structure Grammar (α : Type) where
  program : String
  usage : String
  options : List (OptionForm α)
  operands : Operands

/-- What is wrong with a command line. -/
inductive Problem where
  | ambiguous (option : String) (candidates : List String)
  | expectsValue (option : String)
  | ignoredValue (option value : String)
  | unknownCommand (name : String) (known : List String)
  | missing (operand : String)
  | unrecognized (words : List String)
  deriving DecidableEq, Repr, Inhabited

def Problem.message : Problem → String
  | ambiguous option candidates =>
      "ambiguous option: " ++ option ++ " could match " ++ ", ".intercalate candidates
  | expectsValue option => "argument " ++ option ++ ": expected one argument"
  | ignoredValue option value =>
      "argument " ++ option ++ ": ignored explicit argument " ++ Quoted.text value
  | unknownCommand name known =>
      "argument command: invalid choice: " ++ Quoted.text name ++ " (choose from "
        ++ ", ".intercalate (known.map Quoted.text) ++ ")"
  | missing operand => "the following arguments are required: " ++ operand
  | unrecognized words => "unrecognized arguments: " ++ " ".intercalate words

/-- Why reading a command line ended early. -/
inductive Stop where
  | shown (text : String)
  | misuse (program usage : String) (problem : Problem)
  deriving DecidableEq, Repr, Inhabited

/-- A value that is attached to an option. -/
inductive Attached where
  | none
  | afterEquals (value : List Char)
  | joined (value : List Char)
  deriving DecidableEq, Repr, Inhabited

/-- An option as a word gives it. -/
structure Given (α : Type) where
  form : OptionForm α
  name : String
  attached : Attached

/-- A word of a command line. -/
inductive Word (α : Type) where
  | operand (text : String)
  | separator
  | option (text : String) (given : Given α)
  /-- A word that looks like an option and is none. -/
  | unknown (text : String)

def Word.text {α : Type} : Word α → String
  | operand text => text
  | separator => "--"
  | option text _ => text
  | unknown text => text

/-- Whether the characters are a number below zero. One line end at the end does not count. -/
def isNegativeNumber (word : List Char) : Bool :=
  match word with
  | '-' :: rest =>
      let body := if rest.getLast? == some '\n' then rest.dropLast else rest
      let afterWhole := body.dropWhile isDecimalDigit
      match afterWhole with
      | [] => !body.isEmpty
      | '.' :: fraction => !fraction.isEmpty && fraction.all isDecimalDigit
      | _ => false
  | _ => false

/-- The text before the first equals sign, and the text after it if there is one. -/
def splitAtEquals (word : List Char) : List Char × Option (List Char) :=
  match word.dropWhile (· != '=') with
  | _ :: value => (word.takeWhile (· != '='), some value)
  | [] => (word, none)

namespace Grammar

variable {α : Type}

/-- The names of all options, each with its option. -/
def names (g : Grammar α) : List (String × OptionForm α) :=
  g.options.flatMap fun form => form.names.map (·, form)

def find? (g : Grammar α) (name : String) : Option (OptionForm α) :=
  g.names.lookup name

/-- The options that a word can be, if it is no name as it stands. -/
def candidates (g : Grammar α) (word : List Char) : List (Given α) :=
  match word with
  | '-' :: '-' :: _ =>
      let (start, value) := splitAtEquals word
      let attached := value.elim Attached.none .afterEquals
      (g.names.filter fun (name, _) => start.isPrefixOf name.toList).map fun (name, form) =>
        ⟨form, name, attached⟩
  | _ =>
      (g.names.filter fun (name, _) => name.toList == word.take 2).map fun (name, form) =>
        ⟨form, name, .joined (word.drop 2)⟩

def classify (g : Grammar α) (text : String) : Except Problem (Word α) :=
  let word := text.toList
  if word.head? != some '-' || word.length == 1 then .ok (.operand text)
  else
    let (start, value) := splitAtEquals word
    match g.find? text, value, g.find? (String.ofList start) with
    | some form, _, _ => .ok (.option text ⟨form, text, .none⟩)
    | none, some value, some form =>
        .ok (.option text ⟨form, String.ofList start, .afterEquals value⟩)
    | _, _, _ =>
        match g.candidates word with
        | [given] => .ok (.option text given)
        | [] =>
            .ok (if isNegativeNumber word || ' ' ∈ word then .operand text else .unknown text)
        | several => .error (.ambiguous text (several.map (·.name)))

def classifyAll (g : Grammar α) : List String → Except Problem (List (Word α))
  | [] => .ok []
  | text :: rest =>
      if text = "--" then .ok (.separator :: rest.map .operand)
      else do
        let word ← g.classify text
        return word :: (← g.classifyAll rest)

/-- The options that one word gives. -/
structure Bundle (α : Type) where
  /-- The options that are complete, with their values. -/
  complete : List (OptionForm α × Option String) := []
  /-- The last option, if nothing is attached to it. -/
  open? : Option (OptionForm α) := none
  /-- What is joined and is no option. -/
  unknown : List String := []

/-- The bundle with an option without a value before it. -/
def Bundle.after (b : Bundle α) (form : OptionForm α) : Bundle α :=
  { b with complete := (form, none) :: b.complete }

/-- The options of a word, from the first of them and what is attached to it. Only a short option
can have more joined to it. -/
def bundleFrom (g : Grammar α) (form : OptionForm α) (short equals : Bool)
    : List Char → Except Problem (Bundle α)
  | [] =>
      if form.takesValue then .ok { complete := [(form, some "")] }
      else .error (.ignoredValue form.label "")
  | c :: rest =>
      if form.takesValue then .ok { complete := [(form, some (String.ofList (c :: rest)))] }
      else if !short || equals || c == '-' then
        .error (.ignoredValue form.label (String.ofList (c :: rest)))
      else
        match g.find? (String.ofList ['-', c]), rest with
        | none, _ =>
            .ok { complete := [(form, none)], unknown := [String.ofList ('-' :: c :: rest)] }
        | some next, [] => .ok { complete := [(form, none)], open? := some next }
        | some next, '=' :: value => (·.after form) <$> g.bundleFrom next true true value
        | some next, d :: more => (·.after form) <$> g.bundleFrom next true false (d :: more)

def bundle (g : Grammar α) (given : Given α) : Except Problem (Bundle α) :=
  let short := !("--".toList.isPrefixOf given.name.toList)
  match given.attached with
  | .none => .ok { open? := some given.form }
  | .afterEquals value => g.bundleFrom given.form short true value
  | .joined value => g.bundleFrom given.form short false value

/-- What was read of a command line. -/
structure Reading (α : Type) where
  values : α
  /-- The operand, with all that follows it if the grammar takes that. -/
  operands : List String := []
  /-- The words that have no place. -/
  extras : List String := []

def applyAll (values : α) : List (OptionForm α × Option String) → Except Stop α
  | [] => .ok values
  | (form, value) :: rest =>
      match form.effect with
      | .mark change => applyAll (change values) rest
      | .take change => applyAll (change (value.getD "") values) rest
      | .showText text => .error (.shown text)

def misuse (g : Grammar α) (problem : Problem) : Stop :=
  .misuse g.program g.usage problem

def Reading.apply (r : Reading α) (options : List (OptionForm α × Option String))
    (unknown : List String) : Except Stop (Reading α) := do
  return { r with values := ← applyAll r.values options, extras := r.extras ++ unknown }

/-- The reading with one more word that has no place. -/
def Reading.withExtra (r : Reading α) (text : String) : Reading α :=
  { r with extras := r.extras ++ [text] }

/-- Reads words. The first argument tells whether the operand is still to come. -/
def readWords (g : Grammar α) : Bool → Reading α → List (Word α) → Except Stop (Reading α)
  | _, r, [] => .ok r
  | true, r, .operand text :: .separator :: rest =>
      match g.operands with
      | .rest => .ok { r with operands := text :: "--" :: rest.map Word.text }
      | .one => g.readWords false { r with operands := [text] } rest
  | true, r, .operand text :: rest =>
      match g.operands with
      | .rest => .ok { r with operands := text :: rest.map Word.text }
      | .one => g.readWords false { r with operands := [text] } rest
  | true, r, .separator :: .operand text :: rest =>
      match g.operands with
      | .rest => .ok { r with operands := "--" :: text :: rest.map Word.text }
      | .one => g.readWords false { r with operands := [text] } rest
  | awaits, r, .option _ given :: rest => do
      let bundle ← (g.bundle given).mapError g.misuse
      match bundle.open? with
      | none =>
          let r ← r.apply bundle.complete bundle.unknown
          g.readWords awaits r rest
      | some form =>
          if form.takesValue then
            match rest with
            | .operand value :: more =>
                let r ← r.apply (bundle.complete ++ [(form, some value)]) bundle.unknown
                g.readWords awaits r more
            | _ => .error (g.misuse (.expectsValue form.label))
          else
            let r ← r.apply (bundle.complete ++ [(form, none)]) bundle.unknown
            g.readWords awaits r rest
  | awaits, r, word :: rest => g.readWords awaits (r.withExtra word.text) rest

def read (g : Grammar α) (values : α) (line : List String) : Except Stop (Reading α) := do
  let words ← (g.classifyAll line).mapError g.misuse
  g.readWords true { values } words

end Grammar
end JsxProvenance.CommandLine
