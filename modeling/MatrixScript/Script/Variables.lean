import MatrixScript.DenseMatrix.Basic

/-!
# Variables

A variable is one of the letters from A to Z, in either case, and holds a matrix once it has been
assigned one.
-/

namespace MatrixScript

structure VariableName where
  index : Fin 26
  deriving DecidableEq, Repr

namespace VariableName

/-- The letter of a variable, in upper case. -/
def letter (name : VariableName) : Char :=
  Char.ofNat ('A'.toNat + name.index)

def ofChar? (c : Char) : Option VariableName :=
  let place := c.toUpper.toNat - 'A'.toNat
  if h : c.isAlpha ∧ place < 26 then some ⟨⟨place, h.2⟩⟩ else none

/-- The variable that a text names: a single letter. -/
def ofText? (text : String) : Option VariableName :=
  match text.toList with
  | [c] => ofChar? c
  | _ => none

end VariableName

structure Store where
  slots : Vector (Option (DenseMatrix Float)) 26

namespace Store

def empty : Store where
  slots := Vector.replicate 26 none

def get? (store : Store) (name : VariableName) : Option (DenseMatrix Float) :=
  store.slots[name.index]

def insert (store : Store) (name : VariableName) (value : DenseMatrix Float) : Store where
  slots := store.slots.set name.index (some value)

end Store

end MatrixScript
