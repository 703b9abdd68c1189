/-!
Numbers in hexadecimal, in small letters.
-/

namespace JsxProvenance.Hex

def digit (n : Nat) : Char :=
  if n < 10 then Char.ofNat (48 + n) else Char.ofNat (87 + n)

/-- The last digits of a number, so many of them. -/
def digits (count n : Nat) : List Char :=
  (List.range count).reverse.map fun i => digit (n / Nat.pow 16 i % 16)

end JsxProvenance.Hex
