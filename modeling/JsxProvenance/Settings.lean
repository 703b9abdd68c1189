import JsxProvenance.Text.Split

/-!
The settings of one annotation run: which attributes are written, under which names, and what is
left alone.
-/

namespace JsxProvenance

/-- How far annotation descends from a root. -/
inductive Policy where
  /-- Every element below a root is annotated, with up to three attributes. -/
  | full
  /-- Only the component attribute is written, on the first host element of each path. -/
  | legacy
  deriving DecidableEq, Repr, Inhabited

/-- The names of the three tracking attributes. -/
structure AttributeNames where
  component : String
  element : String
  sourceFile : String
  deriving DecidableEq, Repr, Inhabited

/-- The attribute names for documents. -/
def AttributeNames.web : AttributeNames :=
  ⟨"data-sentry-component", "data-sentry-element", "data-sentry-source-file"⟩

/-- The attribute names for native views. -/
def AttributeNames.native : AttributeNames :=
  ⟨"dataSentryComponent", "dataSentryElement", "dataSentrySourceFile"⟩

/-- The tags that get no element attribute: they render nothing or only shape the document. -/
def defaultIgnoredElements : List String :=
  [
    "base", "body", "br", "col", "head", "hr", "html", "link", "meta", "noscript", "script",
    "slot", "source", "style", "template", "title", "track", "wbr"
  ]

/-- The native primitives, which are host elements although they are capitalised. -/
def nativeElements : List String :=
  [
    "Image", "Text", "View", "ScrollView", "TextInput", "TouchableOpacity",
    "TouchableHighlight", "TouchableWithoutFeedback", "FlatList", "SectionList",
    "ActivityIndicator", "Button", "Switch", "Modal", "SafeAreaView", "StatusBar",
    "KeyboardAvoidingView", "RefreshControl", "Picker", "Slider"
  ]

/-- The packages whose installed files must not be annotated. -/
def knownIncompatiblePackages : List String :=
  ["react-native-testing-library", "@react-navigation"]

/-- The settings of one annotation run. -/
structure Settings where
  alternateNames : Bool := false
  annotateFragments : Bool := false
  ignoredComponents : List String := []
  sourceFileName : Option String := none
  policy : Policy := .full
  ignoredElements : List String := defaultIgnoredElements
  incompatiblePackages : List String := knownIncompatiblePackages
  deriving DecidableEq, Repr, Inhabited

/-- The attribute names in use. -/
def Settings.attributeNames (s : Settings) : AttributeNames :=
  if s.alternateNames then .native else .web

/-- The file's own name in a path. A slash is the separator if there is one, else a backslash. -/
def sourceFileName (path : Option String) : Option String :=
  path.bind fun text =>
    let chars := text.toList
    if chars.isEmpty then none
    else if '/' ∈ chars then some (String.ofList (lastSegment '/' chars))
    else if '\\' ∈ chars then some (String.ofList (lastSegment '\\' chars))
    else some text

/-- The same settings with the source file name of a path. -/
def Settings.forFile (s : Settings) (path : Option String) : Settings :=
  { s with sourceFileName := JsxProvenance.sourceFileName path }

end JsxProvenance
