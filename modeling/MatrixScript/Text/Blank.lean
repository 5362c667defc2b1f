/-!
# Blanks

White space is the Unicode property `White_Space`. Texts are trimmed and cut into fields at runs of
it.
-/

namespace MatrixScript

namespace Text

/-- The ranges of the white space code points, both ends included. -/
def blankRanges : List (Nat × Nat) :=
  [(0x9, 0xd), (0x20, 0x20), (0x85, 0x85), (0xa0, 0xa0), (0x1680, 0x1680), (0x2000, 0x200a),
   (0x2028, 0x2029), (0x202f, 0x202f), (0x205f, 0x205f), (0x3000, 0x3000)]

def isBlank (c : Char) : Bool :=
  blankRanges.any fun (low, high) => low ≤ c.toNat && c.toNat ≤ high

def trimStart (text : List Char) : List Char :=
  text.dropWhile isBlank

def trimEnd (text : List Char) : List Char :=
  (text.reverse.dropWhile isBlank).reverse

def trim (text : List Char) : List Char :=
  trimEnd (trimStart text)

/-- Puts one more character in front of a text that is cut into fields; the flag says whether the text
starts inside a field. -/
def fieldStep (c : Char) : List (List Char) × Bool → List (List Char) × Bool
  | (fields, inside) =>
    if isBlank c then (fields, false)
    else
      match inside, fields with
      | true, field :: rest => ((c :: field) :: rest, true)
      | _, _ => ([c] :: fields, true)

/-- The fields of a text: its longest pieces without blanks. -/
def fields (text : List Char) : List (List Char) :=
  (text.foldr fieldStep ([], false)).1

end Text

end MatrixScript
