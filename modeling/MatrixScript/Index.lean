/-!
# Indices

Maps between ranges of indices. An index is a `Fin`, so it carries the proof that it is in range, and
the routines on matrices and vectors only ever move from index to index with these maps.
-/

namespace MatrixScript

namespace Index

variable {n a c : Nat}

/-- The first index of the pair `i`, `i + 1`. -/
def here (i : Fin (n - 1)) : Fin n := ⟨i, by omega⟩

/-- The second index of the pair `i`, `i + 1`. -/
def next (i : Fin (n - 1)) : Fin n := ⟨i + 1, by omega⟩

/-- The indices up to the first one of the pair `i`, `i + 1`. -/
def upTo (i : Fin (n - 1)) (k : Fin (i.val + 1)) : Fin n := ⟨k, by omega⟩

def before (j : Fin n) (k : Fin j.val) : Fin n := ⟨k, by omega⟩

/-- The indices from `j` on that come before `i`. -/
def between (j i : Fin n) (k : Fin (i.val - j.val)) : Fin n := ⟨j + k, by omega⟩

def onwards (j : Fin n) (k : Fin (n - j.val)) : Fin n := ⟨j + k, by omega⟩

/-- The last index of a range in which there is one. -/
def last (j : Fin n) : Fin n := ⟨n - 1, Nat.sub_one_lt_of_lt j.isLt⟩

/-- The index after `j`, unless that is the last one. -/
def after? (j : Fin n) : Option (Fin n) :=
  if h : j.val + 1 < n then some ⟨j + 1, h⟩ else none

/-- The indices of a shorter range, from the second index of the longer one on. -/
def shifted (h : a < c) (k : Fin a) : Fin c := ⟨k + 1, by omega⟩

/-- The indices of a shorter range, at the end of the longer one. -/
def fromEnd (h : a ≤ c) (k : Fin a) : Fin c := ⟨c - a + k, by omega⟩

/-- The values of `f` and then those of `g`. -/
def append {β : Type} (f : Fin a → β) (g : Fin c → β) (p : Fin (a + c)) : β :=
  if h : p.val < a then f ⟨p, h⟩ else g ⟨p - a, by omega⟩

@[simp]
theorem append_castAdd {β : Type} (f : Fin a → β) (g : Fin c → β) (i : Fin a) :
    append f g (i.castAdd c) = f i := by
  simp [append]

@[simp]
theorem append_natAdd {β : Type} (f : Fin a → β) (g : Fin c → β) (i : Fin c) :
    append f g (i.natAdd a) = g i := by
  have h : ¬ a + i.val < a := by omega
  simp [append, h]

end Index

def setAt {α : Type} {n : Nat} (v : Vector α n) (i : Fin n) (x : α) : Vector α n :=
  v.set i.val x i.isLt

@[simp]
theorem get_setAt {α : Type} {n : Nat} (v : Vector α n) (i : Fin n) (x : α) (k : Fin n) :
    (setAt v i x).get k = if k = i then x else v.get k := by
  change (v.set i.val x i.isLt)[k.val] = if k = i then x else v[k.val]
  rw [Vector.getElem_set]
  simp only [Fin.ext_iff, eq_comm]

@[simp]
theorem get_ofFn {α : Type} {n : Nat} (f : Fin n → α) (k : Fin n) : (Vector.ofFn f).get k = f k := by
  change (Vector.ofFn f)[k.val] = f k
  rw [Vector.getElem_ofFn]

end MatrixScript
