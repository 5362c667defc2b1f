import MatrixScript.DenseMatrix.Error
import MatrixScript.Index

/-!
# Programs on plain indices

The numeric routines read their operands through indices that are in range by their
types.  Here are the means to write them with natural numbers for indices instead, as
loops that read and write cells in place: an access outside the matrix or the vector
stops such a program, also if it would hit a cell of another row.  `loop_eq_ok` is the
rule for loops: it takes the state after every number of rounds.
-/

namespace MatrixScript

/-- Why a program on plain indices stops: it leaves a matrix or a vector, or it refuses
its operands. -/
inductive Stop (α : Type) where
  | cell (shape : Shape) (row column : Nat)
  | entry (length index : Nat)
  | refused (cause : MatrixError α)

/-- A program on plain indices with numbers from `α`. -/
abbrev Checked (α β : Type) := Except (Stop α) β

variable {α β σ : Type}

@[simp] theorem ok_bind {ε γ : Type} (b : β) (f : β → Except ε γ) :
    (Except.ok b >>= f) = f b := rfl

@[simp] theorem pure_eq_ok (b : β) : (pure b : Checked α β) = .ok b := rfl

/-- The outcome of a routine, as one of a program that never leaves its operands. -/
def refusing (result : Except (MatrixError α) β) : Checked α β :=
  result.mapError .refused

@[simp] theorem refusing_ok (b : β) : refusing (.ok b : Except (MatrixError α) β) = .ok b := rfl

@[simp] theorem refusing_error (e : MatrixError α) :
    refusing (.error e : Except (MatrixError α) β) = .error (.refused e) := rfl

/-! ## Cells and entries -/

namespace Grid

variable {r c : Nat}

def set (g : Grid β r c) (i : Fin r) (j : Fin c) (x : β) : Grid β r c :=
  ofFn fun p q => if p = i ∧ q = j then x else g.get p q

@[simp] theorem get_set (g : Grid β r c) (i p : Fin r) (j q : Fin c) (x : β) :
    (g.set i j x).get p q = if p = i ∧ q = j then x else g.get p q :=
  get_ofFn _ p q

/-- The cell in a row and a column, both of which have to be there. -/
def read (g : Grid β r c) (i j : Nat) : Checked α β :=
  if h : i < r ∧ j < c then .ok (g.get ⟨i, h.1⟩ ⟨j, h.2⟩) else .error (.cell ⟨r, c⟩ i j)

def write (g : Grid β r c) (i j : Nat) (x : β) : Checked α (Grid β r c) :=
  if h : i < r ∧ j < c then .ok (g.set ⟨i, h.1⟩ ⟨j, h.2⟩ x) else .error (.cell ⟨r, c⟩ i j)

theorem read_of_lt (g : Grid β r c) {i j : Nat} (hi : i < r) (hj : j < c) :
    (g.read i j : Checked α β) = .ok (g.get ⟨i, hi⟩ ⟨j, hj⟩) :=
  dif_pos ⟨hi, hj⟩

@[simp] theorem read_val (g : Grid β r c) (i : Fin r) (j : Fin c) :
    (g.read i j : Checked α β) = .ok (g.get i j) :=
  g.read_of_lt i.isLt j.isLt

theorem write_of_lt (g : Grid β r c) {i j : Nat} (hi : i < r) (hj : j < c) (x : β) :
    (g.write i j x : Checked α (Grid β r c)) = .ok (g.set ⟨i, hi⟩ ⟨j, hj⟩ x) :=
  dif_pos ⟨hi, hj⟩

end Grid

section Entries

variable {n : Nat}

def readAt (v : Vector β n) (i : Nat) : Checked α β :=
  if h : i < n then .ok (v.get ⟨i, h⟩) else .error (.entry n i)

def writeAt (v : Vector β n) (i : Nat) (x : β) : Checked α (Vector β n) :=
  if h : i < n then .ok (setAt v ⟨i, h⟩ x) else .error (.entry n i)

theorem readAt_of_lt (v : Vector β n) {i : Nat} (hi : i < n) :
    (readAt v i : Checked α β) = .ok (v.get ⟨i, hi⟩) :=
  dif_pos hi

@[simp] theorem readAt_val (v : Vector β n) (k : Fin n) :
    (readAt v k : Checked α β) = .ok (v.get k) :=
  readAt_of_lt v k.isLt

theorem writeAt_of_lt (v : Vector β n) {i : Nat} (hi : i < n) (x : β) :
    (writeAt v i x : Checked α (Vector β n)) = .ok (setAt v ⟨i, hi⟩ x) :=
  dif_pos hi

/-- Two vectors with the same entries are the same. -/
theorem ext_get {v w : Vector β n} (h : ∀ k, v.get k = w.get k) : v = w :=
  Vector.ext fun k hk => h ⟨k, hk⟩

end Entries

/-! ## Loops -/

/-- Does something for `0`, `1` and so on, as often as is said. -/
def loop (body : Nat → σ → Checked α σ) : (count : Nat) → σ → Checked α σ
  | 0, s => .ok s
  | count + 1, s => loop body count s >>= body count

/-- If every round takes its state to the next one, the loop ends in the last one. -/
theorem loop_eq_ok {body : Nat → σ → Checked α σ} {count : Nat} (state : Nat → σ)
    {first last : σ} (hfirst : state 0 = first)
    (hround : ∀ k, k < count → body k (state k) = .ok (state (k + 1)))
    (hlast : state count = last) : loop body count first = .ok last := by
  subst hfirst hlast
  induction count with
  | zero => rfl
  | succ count ih =>
      rw [loop, ih fun k hk => hround k (by omega), ok_bind]
      exact hround count (by omega)

/-- What every round hands on to the next one holds at the end. -/
theorem exists_loop_eq_ok {body : Nat → σ → Checked α σ} {count : Nat} (R : Nat → σ → Prop)
    {first : σ} (hfirst : R 0 first)
    (hround : ∀ k, k < count → ∀ s, R k s → ∃ s', body k s = .ok s' ∧ R (k + 1) s') :
    ∃ last, loop body count first = .ok last ∧ R count last := by
  induction count with
  | zero => exact ⟨first, rfl, hfirst⟩
  | succ count ih =>
      obtain ⟨s, hloop, hs⟩ := ih fun k hk => hround k (by omega)
      obtain ⟨s', hbody, hs'⟩ := hround count (by omega) s hs
      refine ⟨s', ?_, hs'⟩
      rw [loop, hloop, ok_bind, hbody]

/-- A loop whose rounds may be refused, next to a routine whose states are kept in another
form. -/
theorem loop_eq_foldlM {τ : Type} (form : τ → σ) {n : Nat} {body : Nat → σ → Checked α σ}
    {step : τ → Fin n → Except (MatrixError α) τ}
    (h : ∀ (k : Fin n) (s : τ), body k (form s) = refusing ((step s k).map form)) (s : τ) :
    loop body n (form s) = refusing (((List.finRange n).foldlM step s).map form) := by
  induction n with
  | zero => rfl
  | succ n ih =>
      have hinit : loop body n (form s) =
          refusing (((List.finRange n).foldlM (fun s k => step s k.castSucc) s).map form) :=
        ih fun k => h k.castSucc
      rw [loop, hinit, List.finRange_succ_last, List.foldlM_append, List.foldlM_map]
      cases (List.finRange n).foldlM (fun s k => step s k.castSucc) s with
      | error e => rfl
      | ok s' =>
          have hlast : body n (form s') = refusing ((step s' (Fin.last n)).map form) :=
            h (Fin.last n) s'
          show body n (form s') = refusing (((step s' (Fin.last n)) >>= pure).map form)
          rw [hlast, bind_pure]

/-- Takes up the values of `f` one after another. -/
def fold (op : β → β → β) (init : β) (count : Nat) (f : Nat → Checked α β) : Checked α β :=
  loop (fun k s => do return op s (← f k)) count init

theorem fold_eq_ok (op : β → β → β) (init : β) {count : Nat} {f : Nat → Checked α β}
    {value : Fin count → β} (h : ∀ k : Fin count, f k = .ok (value k)) :
    fold op init count f = .ok (Fin.foldl count (fun s k => op s (value k)) init) := by
  induction count with
  | zero => rfl
  | succ count ih =>
      have hinit : fold op init count f =
          .ok (Fin.foldl count (fun s k => op s (value k.castSucc)) init) :=
        ih fun k => h k.castSucc
      have hlast : f count = .ok (value (Fin.last count)) := h (Fin.last count)
      unfold fold at hinit ⊢
      rw [loop, hinit, ok_bind, hlast, Fin.foldl_succ_last]
      rfl

/-- Replaces the first entries of a vector, each by what `f` makes of it. -/
def mapFirst {n : Nat} (v : Vector β n) (count : Nat) (f : Nat → β → Checked α β) :
    Checked α (Vector β n) :=
  loop (fun k v => do
    let x ← readAt v k
    writeAt v k (← f k x)) count v

theorem mapFirst_eq {n : Nat} {v : Vector β n} {count : Nat} (hcount : count ≤ n)
    {f : Nat → β → Checked α β} {value : Fin n → β}
    (h : ∀ k : Fin n, k.val < count → f k (v.get k) = .ok (value k)) :
    mapFirst v count f =
      .ok (Vector.ofFn fun k => if k.val < count then value k else v.get k) := by
  apply loop_eq_ok fun m => Vector.ofFn fun k => if k.val < m then value k else v.get k
  · apply ext_get
    intro k
    simp
  · intro m hm
    have hmn : m < n := by omega
    have hvalue : f m (v.get ⟨m, hmn⟩) = .ok (value ⟨m, hmn⟩) := h ⟨m, hmn⟩ hm
    rw [readAt_of_lt _ hmn, ok_bind, get_ofFn, if_neg (Nat.lt_irrefl m), hvalue, ok_bind,
      writeAt_of_lt _ hmn]
    congr 1
    apply ext_get
    intro k
    simp only [get_setAt, get_ofFn, Fin.ext_iff]
    grind
  · rfl

section Scalar

variable [Scalar α]

/-- Adds up values, from the first to the last. -/
def addUp (init : α) (count : Nat) (f : Nat → Checked α α) : Checked α α :=
  fold (· + ·) init count f

theorem addUp_eq_ok {init : α} {count : Nat} {f : Nat → Checked α α} {value : Fin count → α}
    (h : ∀ k : Fin count, f k = .ok (value k)) :
    addUp init count f = .ok (Scalar.accumulate init value) :=
  fold_eq_ok _ _ h

theorem addUp_eq_sum {count : Nat} {f : Nat → Checked α α} {value : Fin count → α}
    (h : ∀ k : Fin count, f k = .ok (value k)) :
    addUp (-0) count f = .ok (Scalar.sum value) :=
  addUp_eq_ok h

/-! ## Building vectors and grids -/

/-- The vector of the values of `f`, written entry after entry. -/
def vectorOf (n : Nat) (f : Nat → Checked α α) : Checked α (Vector α n) :=
  loop (fun k v => do writeAt v k (← f k)) n (Vector.ofFn fun _ => 0)

theorem vectorOf_eq_ok {n : Nat} {f : Nat → Checked α α} {value : Fin n → α}
    (h : ∀ k : Fin n, f k = .ok (value k)) : vectorOf n f = .ok (Vector.ofFn value) := by
  apply loop_eq_ok fun t => Vector.ofFn fun k => if k.val < t then value k else 0
  · simp
  · intro t ht
    rw [show f t = .ok (value ⟨t, ht⟩) from h ⟨t, ht⟩, ok_bind, writeAt_of_lt _ ht]
    congr 1
    apply ext_get
    intro k
    simp only [get_setAt, get_ofFn, Fin.ext_iff]
    grind
  · simp

/-- The grid of the values of `f`, written row after row. -/
def gridOf (r c : Nat) (f : Nat → Nat → Checked α α) : Checked α (Grid α r c) :=
  loop (fun i g => loop (fun j g => do g.write i j (← f i j)) c g) r (Grid.ofFn fun _ _ => 0)

theorem gridOf_eq_ok {r c : Nat} {f : Nat → Nat → Checked α α} {value : Fin r → Fin c → α}
    (h : ∀ (i : Fin r) (j : Fin c), f i j = .ok (value i j)) :
    gridOf r c f = .ok (Grid.ofFn value) := by
  apply loop_eq_ok fun s => Grid.ofFn fun i j => if i.val < s then value i j else 0
  · simp
  · intro s hs
    apply loop_eq_ok fun t => Grid.ofFn fun i j =>
      if i.val < s ∨ i.val = s ∧ j.val < t then value i j else 0
    · simp
    · intro t ht
      rw [show f s t = .ok (value ⟨s, hs⟩ ⟨t, ht⟩) from h ⟨s, hs⟩ ⟨t, ht⟩, ok_bind,
        Grid.write_of_lt _ hs ht]
      congr 1
      apply Grid.ext_get
      intro i j
      simp only [Grid.get_set, Grid.get_ofFn, Fin.ext_iff]
      grind
    · apply Grid.ext_get
      intro i j
      have hj : j.val < c := j.isLt
      simp only [Grid.get_ofFn]
      grind
  · apply Grid.ext_get
    intro i j
    simp only [Grid.get_ofFn, i.isLt, if_true]

end Scalar

end MatrixScript
