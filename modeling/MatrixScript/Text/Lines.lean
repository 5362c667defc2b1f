/-!
# Lines

A text is cut into lines at its line feeds. A carriage return right before a line feed belongs to the
line end; a last line without a line feed is kept as it is, and an empty one is no line.

Texts come as characters or, when they may not be well-formed, as bytes, so the units are a parameter.
-/

namespace MatrixScript

namespace Text

variable {α : Type} [BEq α]

/-- Puts one more unit in front of a text that is cut into lines; the flag says whether the text starts
with a line feed. -/
def lineStep (feed carriage : α) (x : α) : List (List α) × Bool → List (List α) × Bool
  | (lines, atFeed) =>
    if x == feed then ([] :: lines, true)
    else if x == carriage && atFeed then (lines, false)
    else
      match lines with
      | [] => ([[x]], false)
      | line :: rest => ((x :: line) :: rest, false)

/-- The lines of a text whose line feed and carriage return are given. -/
def linesWith (feed carriage : α) (text : List α) : List (List α) :=
  (text.foldr (lineStep feed carriage) ([], false)).1

def lines (text : List Char) : List (List Char) :=
  linesWith '\n' '\r' text

/-- The lines of a text given by its bytes. -/
def byteLines (bytes : List UInt8) : List (List UInt8) :=
  linesWith 10 13 bytes

end Text

end MatrixScript
