/-!
# The journal of a run

Notes on what a run does, for those who follow it, each with its level of detail.
-/

namespace MatrixScript

/-- How much detail a note gives. -/
inductive Level where
  | warn
  | info
  | debug
  | trace
  deriving DecidableEq, Repr

namespace Level

def name : Level → String
  | warn => "WARN"
  | info => "INFO"
  | debug => "DEBUG"
  | trace => "TRACE"

/-- The rank of a level, from the least detail to the most. -/
def rank : Level → Nat
  | warn => 0
  | info => 1
  | debug => 2
  | trace => 3

end Level

structure Note where
  level : Level
  text : String
  deriving DecidableEq, Repr

def Note.render (note : Note) : String :=
  s!"{note.level.name} {note.text}"

/-- The notes of a run, in the order in which they were made. -/
abbrev Journal := Array Note

/-- The notes of a level and of those with less detail, as text. -/
def Journal.upTo (journal : Journal) (level : Level) : List String :=
  (journal.toList.filter fun note => note.level.rank ≤ level.rank).map Note.render

end MatrixScript
