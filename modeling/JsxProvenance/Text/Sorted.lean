/-!
Texts in the order of their code points.
-/

namespace JsxProvenance

/-- The texts by code point. Equal ones stay next to each other. -/
def sortedTexts (texts : List String) : List String :=
  texts.mergeSort fun a b => !decide (b < a)

end JsxProvenance
