import MatrixScript.Proofs.Files.RoundTrip

/-!
# What a matrix is read from

A matrix is read from the *data lines* of a text, those with at least one field, and of
these only the first fields count.  Reading them one by one (`readData`) is what the
reading of all lines comes to, so the blank lines only give the others their numbers.
`Verdict` says what the data lines make of the whole: a matrix, a complaint about the
first line that is wrong, or a complaint that there are too few.  `SameRows` relates two
texts that differ where a matrix that can be read does not depend on them.
-/

namespace MatrixScript

namespace MatrixFile

/-- The rows of a grid, one after another, make it up again. -/
theorem ofList?_flatten_toRows {rows cols : Nat} (hrows : 1 ≤ rows) (hcols : 1 ≤ cols)
    (grid : Grid Float rows cols) :
    DenseMatrix.ofList? rows cols grid.toRows.flatten = .ok ⟨rows, cols, grid⟩ := by
  rw [Grid.flatten_toRows]
  exact DenseMatrix.ofList?_toList
    (m := ⟨rows, cols, grid⟩) (DenseMatrix.wellFormed_iff.mpr ⟨hrows, hcols⟩)

/-! ## Data lines -/

/-- A line of a text: its number in the whole text, and its fields. -/
structure DataLine where
  number : Nat
  fields : List (List Char)
  deriving DecidableEq, Repr

/-- The lines that have a field, `before` lines having come before. -/
def dataLinesFrom (before : Nat) (lines : List (List Char)) : List DataLine :=
  ((lines.zipIdx (before + 1)).map fun line => ⟨line.2, Text.fields line.1⟩).filter
    fun line => !line.fields.isEmpty

/-- The lines of a text that have a field, with their numbers in the whole text. -/
def dataLines (text : String) : List DataLine :=
  dataLinesFrom 0 (Text.lines text.toList)

theorem take_ne_nil {cols : Nat} (hcols : 1 ≤ cols) {fields : List (List Char)}
    (h : fields ≠ []) : fields.take cols ≠ [] := by
  rw [Ne, List.take_eq_nil_iff, not_or]
  exact ⟨Nat.one_le_iff_ne_zero.mp hcols, h⟩

theorem dataLinesFrom_of_blank {line : List Char} (hline : Text.fields line = []) (before : Nat)
    (lines : List (List Char)) :
    dataLinesFrom before (line :: lines) = dataLinesFrom (before + 1) lines := by
  simp [dataLinesFrom, hline]

theorem dataLinesFrom_of_data {line : List Char} (hline : Text.fields line ≠ []) (before : Nat)
    (lines : List (List Char)) :
    dataLinesFrom before (line :: lines) =
      ⟨before + 1, Text.fields line⟩ :: dataLinesFrom (before + 1) lines := by
  simp [dataLinesFrom, hline]

/-! ## One line -/

/-- What is wrong with a line from which `cols` numbers are wanted: there are too few fields or,
if not, the first of them that is no number. -/
def DataLine.fault? (cols : Nat) (line : DataLine) : Option LineFault :=
  if line.fields.length < cols then some (.fewValues cols line.fields.length)
  else
    ((line.fields.take cols).find? fun field =>
      (Decimal.float? (String.ofList field)).isNone).map fun field =>
        .notNumber (String.ofList field)

theorem mapM_readField_eq_error_iff {fields : List (List Char)} {fault : LineFault} :
    fields.mapM readField = .error fault ↔
      (fields.find? fun field => (Decimal.float? (String.ofList field)).isNone).map
        (fun field => LineFault.notNumber (String.ofList field)) = some fault := by
  induction fields with
  | nil => exact ⟨fun h => (by cases h), fun h => (by cases h)⟩
  | cons field fields ih =>
      rw [List.mapM_cons, List.find?_cons, readField]
      cases hfield : Decimal.float? (String.ofList field) with
      | none => exact ⟨fun h => (by cases h; rfl), fun h => (by cases h; rfl)⟩
      | some x =>
          rw [Option.isNone_some, ← ih]
          cases fields.mapM readField with
          | error other => exact ⟨fun h => (by cases h; rfl), fun h => (by cases h; rfl)⟩
          | ok row => exact ⟨fun h => (by cases h), fun h => (by cases h)⟩

theorem mapM_readField_eq_ok_iff {fields : List (List Char)} {row : List Float} :
    fields.mapM readField = .ok row ↔
      fields.map (fun field => Decimal.float? (String.ofList field)) = row.map some := by
  induction fields generalizing row with
  | nil =>
      cases row with
      | nil => exact ⟨fun _ => rfl, fun _ => rfl⟩
      | cons x row => exact ⟨fun h => (by cases h), fun h => (by cases h)⟩
  | cons field fields ih =>
      rw [List.mapM_cons, List.map_cons, readField]
      cases hfield : Decimal.float? (String.ofList field) with
      | none =>
          refine ⟨fun h => (by cases h), fun h => ?_⟩
          cases row <;> cases h
      | some x =>
          constructor
          · intro h
            cases hrest : fields.mapM readField with
            | error other => rw [hrest] at h; cases h
            | ok others =>
                rw [hrest] at h
                cases h
                rw [ih.mp hrest, List.map_cons]
          · intro h
            cases row with
            | nil => cases h
            | cons y row =>
                rw [List.map_cons, List.cons.injEq, Option.some.injEq] at h
                rw [ih.mpr h.2, h.1]
                rfl

/-- A line is refused for what is wrong with it. -/
theorem readFields_eq_error_iff {cols : Nat} {line : DataLine} {fault : LineFault} :
    readFields cols (line.fields.take cols) = .error fault ↔ line.fault? cols = some fault := by
  unfold readFields DataLine.fault?
  rw [List.length_take]
  by_cases hfew : line.fields.length < cols
  · rw [if_pos (by omega), if_pos hfew, Nat.min_eq_right (by omega)]
    exact ⟨fun h => (by cases h; rfl), fun h => (by cases h; rfl)⟩
  · rw [if_neg (by omega), if_neg hfew]
    exact mapM_readField_eq_error_iff

/-- Fields give a row if the first of them write the numbers of that row. -/
theorem readFields_eq_ok_iff {cols : Nat} {fields : List (List Char)} {row : List Float} :
    readFields cols (fields.take cols) = .ok row ↔
      row.length = cols ∧
        (fields.take cols).map (fun field => Decimal.float? (String.ofList field)) =
          row.map some := by
  unfold readFields
  rw [List.length_take]
  by_cases hfew : fields.length < cols
  · rw [if_pos (by omega)]
    refine ⟨fun h => (by cases h), fun ⟨hlength, hmap⟩ => ?_⟩
    have hlengths := congrArg List.length hmap
    rw [List.length_map, List.length_map, List.length_take] at hlengths
    omega
  · rw [if_neg (by omega), mapM_readField_eq_ok_iff]
    refine ⟨fun hmap => ⟨?_, hmap⟩, fun h => h.2⟩
    have hlengths := congrArg List.length hmap
    rw [List.length_map, List.length_map, List.length_take] at hlengths
    omega

/-- Nothing is wrong with a line exactly if it gives a row. -/
theorem fault?_eq_none_iff {cols : Nat} {line : DataLine} :
    line.fault? cols = none ↔ ∃ row, readFields cols (line.fields.take cols) = .ok row := by
  cases hread : readFields cols (line.fields.take cols) with
  | error fault => rw [readFields_eq_error_iff.mp hread]; simp
  | ok row =>
      cases hfault : line.fault? cols with
      | none => simp
      | some fault => rw [readFields_eq_error_iff.mpr hfault] at hread; cases hread

/-! ## All lines -/

/-- A matrix is made of the rows that are read. -/
theorem read_eq_bind (path : String) (rows cols : Nat) (lines : List Disk.Line) :
    read path rows cols lines =
      ((readRows path rows cols rows 0 [] lines).1.bind fun data =>
        (DenseMatrix.ofList? rows cols data.flatten).mapError .invalidShape,
      (readRows path rows cols rows 0 [] lines).2) := by
  unfold read
  rcases readRows path rows cols rows 0 [] lines with ⟨fault | data, left⟩
  · rfl
  · simp only [Except.bind]
    cases DenseMatrix.ofList? rows cols data.flatten with
    | error cause => rfl
    | ok m => rfl

/-- Reads rows as `readRows` does, from data lines. -/
def readData (path : String) (rows cols : Nat) :
    (wanted : Nat) → (found : List (List Float)) → List DataLine →
      Except FileError (List (List Float))
  | 0, found, _ => .ok found.reverse
  | wanted + 1, _, [] => .error (.tooShort path rows (rows - (wanted + 1)))
  | wanted + 1, found, line :: rest =>
    match readFields cols (line.fields.take cols) with
    | .error fault => .error (.malformed path line.number fault)
    | .ok row => readData path rows cols wanted (row :: found) rest

section

variable {path : String} {rows cols : Nat}

theorem readRows_of_blank {line : List Char} (hline : Text.fields line = [])
    (wanted before : Nat) (found : List (List Float)) (lines : List Disk.Line) :
    readRows path rows cols (wanted + 1) before found (.ok line :: lines) =
      readRows path rows cols (wanted + 1) (before + 1) found lines := by
  rw [readRows, hline, List.take_nil]

theorem readRows_of_data (hcols : 1 ≤ cols) {line : List Char} (hline : Text.fields line ≠ [])
    (wanted before : Nat) (found : List (List Float)) (lines : List Disk.Line) :
    readRows path rows cols (wanted + 1) before found (.ok line :: lines) =
      match readFields cols ((Text.fields line).take cols) with
      | .error fault => (.error (.malformed path (before + 1) fault), lines)
      | .ok row => readRows path rows cols wanted (before + 1) (row :: found) lines := by
  rw [readRows]
  split
  next hnil => exact absurd hnil (take_ne_nil hcols hline)
  next => rfl

/-- A step of `readRows` on a blank line passes over it, and a step on another line is one of
`readData`, so that the blank lines only count for the numbers of the others. -/
theorem readRows_eq_readData (hcols : 1 ≤ cols) (lines : List (List Char))
    (wanted before : Nat) (found : List (List Float)) :
    (readRows path rows cols wanted before found (lines.map .ok)).1 =
      readData path rows cols wanted found (dataLinesFrom before lines) := by
  induction lines generalizing wanted before found with
  | nil =>
      cases wanted with
      | zero => rfl
      | succ wanted => rfl
  | cons line lines ih =>
      rw [List.map_cons]
      cases wanted with
      | zero =>
          rw [readRows]
          cases dataLinesFrom before (line :: lines) <;> rfl
      | succ wanted =>
          by_cases hblank : Text.fields line = []
          · rw [readRows_of_blank hblank, dataLinesFrom_of_blank hblank]
            exact ih ..
          · rw [readRows_of_data hcols hblank, dataLinesFrom_of_data hblank, readData]
            cases readFields cols ((Text.fields line).take cols) with
            | error fault => rfl
            | ok row => exact ih ..

theorem readData_of_rows {data : List DataLine} {new : List (List Float)}
    (h : ∀ (i : Nat) (row : List Float), new[i]? = some row → ∃ line, data[i]? = some line ∧
      readFields cols (line.fields.take cols) = .ok row) (found : List (List Float)) :
    readData path rows cols new.length found data = .ok (found.reverse ++ new) := by
  induction new generalizing data found with
  | nil => rw [List.length_nil, readData, List.append_nil]
  | cons row new ih =>
      obtain ⟨line, hline, hrow⟩ := h 0 row rfl
      cases data with
      | nil => cases hline
      | cons first data =>
          cases hline
          rw [List.length_cons, readData, hrow]
          simp only
          rw [ih (fun i other hother => h (i + 1) other hother), List.reverse_cons,
            List.append_assoc, List.singleton_append]

theorem readData_of_malformed {start rest : List DataLine} {line : DataLine} {fault : LineFault}
    (hstart : ∀ other ∈ start, other.fault? cols = none) (hline : line.fault? cols = some fault)
    {wanted : Nat} (hwanted : start.length < wanted) (found : List (List Float)) :
    readData path rows cols wanted found (start ++ line :: rest) =
      .error (.malformed path line.number fault) := by
  induction start generalizing wanted found with
  | nil =>
      cases wanted with
      | zero => exact absurd hwanted (by simp)
      | succ wanted => rw [List.nil_append, readData, readFields_eq_error_iff.mpr hline]
  | cons first start ih =>
      obtain ⟨row, hrow⟩ := fault?_eq_none_iff.mp (hstart first List.mem_cons_self)
      rw [List.length_cons] at hwanted
      cases wanted with
      | zero => omega
      | succ wanted =>
          rw [List.cons_append, readData, hrow]
          exact ih (fun other hother => hstart other (List.mem_cons_of_mem _ hother)) (by omega) _

theorem readData_of_short {data : List DataLine} (hdata : ∀ line ∈ data, line.fault? cols = none)
    {wanted : Nat} (hwanted : data.length < wanted) (found : List (List Float)) :
    readData path rows cols wanted found data =
      .error (.tooShort path rows (rows - (wanted - data.length))) := by
  induction data generalizing wanted found with
  | nil =>
      cases wanted with
      | zero => exact absurd hwanted (by simp)
      | succ wanted => rfl
  | cons first data ih =>
      obtain ⟨row, hrow⟩ := fault?_eq_none_iff.mp (hdata first List.mem_cons_self)
      rw [List.length_cons] at hwanted
      cases wanted with
      | zero => omega
      | succ wanted =>
          rw [readData, hrow, List.length_cons, Nat.add_sub_add_right]
          exact ih (fun other hother => hdata other (List.mem_cons_of_mem _ hother)) (by omega) _

end

/-! ## The verdict -/

/-- The field writes the number. -/
def Writes (field : List Char) (x : Float) : Prop :=
  Decimal.float? (String.ofList field) = some x

/-- What is to be read as a matrix of a given size from data lines. -/
inductive Verdict (path : String) (rows cols : Nat) (data : List DataLine) :
    Except FileError (DenseMatrix Float) → Prop
  /-- Each number of the matrix stands in its row and column. -/
  | matrix (grid : Grid Float rows cols)
      (cells : ∀ (i : Fin rows) (j : Fin cols), ∃ line field, data[i.val]? = some line ∧
        line.fields[j.val]? = some field ∧ Writes field (grid.get i j)) :
      Verdict path rows cols data (.ok ⟨rows, cols, grid⟩)
  /-- There is a line that is needed and wrong, and it is the first such line. -/
  | malformed {start rest : List DataLine} {line : DataLine} {fault : LineFault}
      (split : data = start ++ line :: rest) (needed : start.length < rows)
      (start_right : ∀ other ∈ start, other.fault? cols = none)
      (wrong : line.fault? cols = some fault) :
      Verdict path rows cols data (.error (.malformed path line.number fault))
  /-- No line is wrong, but more of them are needed. -/
  | tooShort (few : data.length < rows) (all_right : ∀ line ∈ data, line.fault? cols = none) :
      Verdict path rows cols data (.error (.tooShort path rows data.length))

section

variable {path : String} {rows cols : Nat} {data : List DataLine}

/-- A row of a grid is read from a line that writes its numbers. -/
theorem readFields_row {line : DataLine} {row : Fin cols → Float}
    (h : ∀ j : Fin cols, ∃ field, line.fields[j.val]? = some field ∧ Writes field (row j)) :
    readFields cols (line.fields.take cols) = .ok (List.ofFn row) := by
  refine readFields_eq_ok_iff.mpr ⟨List.length_ofFn, ?_⟩
  apply List.ext_getElem?
  intro j
  rw [List.getElem?_map, List.getElem?_map, List.getElem?_take, List.getElem?_ofFn]
  by_cases hj : j < cols
  · obtain ⟨field, hfield, hx⟩ := h ⟨j, hj⟩
    rw [if_pos hj, hfield, dif_pos hj, Option.map_some, Option.map_some, hx]
  · rw [if_neg hj, dif_neg hj]
    rfl

/-- A line with nothing wrong writes a number in each column. -/
theorem exists_writes {line : DataLine} (h : line.fault? cols = none) (j : Fin cols) :
    ∃ field x, line.fields[j.val]? = some field ∧ Writes field x := by
  obtain ⟨row, hrow⟩ := fault?_eq_none_iff.mp h
  obtain ⟨hlength, hmap⟩ := readFields_eq_ok_iff.mp hrow
  have hcell := congrArg (fun list => list[j.val]?) hmap
  simp only [List.getElem?_map, List.getElem?_take_of_lt j.isLt,
    List.getElem?_eq_getElem (hlength.symm ▸ j.isLt : j.val < row.length)] at hcell
  cases hfield : line.fields[j.val]? with
  | none => rw [hfield] at hcell; cases hcell
  | some field =>
      rw [hfield, Option.map_some, Option.map_some, Option.some.injEq] at hcell
      exact ⟨field, _, rfl, hcell⟩

/-- There is a verdict on all data. -/
theorem exists_verdict (path : String) (rows cols : Nat) (data : List DataLine) :
    ∃ result, Verdict path rows cols data result := by
  by_cases hwrong : ∃ line ∈ data.take rows, line.fault? cols ≠ none
  · -- The first wrong line among those that are needed.
    obtain ⟨line, hfind⟩ : ∃ line,
        (data.take rows).find? (fun line => (line.fault? cols).isSome) = some line := by
      rw [← Option.isSome_iff_exists, List.find?_isSome]
      obtain ⟨line, hmem, hline⟩ := hwrong
      exact ⟨line, hmem, Option.isSome_iff_ne_none.mpr hline⟩
    obtain ⟨hline, start, rest, hsplit, hstart⟩ := List.find?_eq_some_iff_append.mp hfind
    obtain ⟨fault, hfault⟩ := Option.isSome_iff_exists.mp hline
    have hdata : data = start ++ line :: (rest ++ data.drop rows) := by
      conv_lhs => rw [← List.take_append_drop rows data, hsplit]
      simp
    have hlength := congrArg List.length hsplit
    rw [List.length_take, List.length_append, List.length_cons] at hlength
    refine ⟨_, .malformed hdata (by omega) ?_ hfault⟩
    intro other hother
    simpa using hstart other hother
  · simp only [not_exists, not_and, not_not] at hwrong
    by_cases hfew : data.length < rows
    · rw [List.take_of_length_le (by omega)] at hwrong
      exact ⟨_, .tooShort hfew hwrong⟩
    · have hcell : ∀ (i : Fin rows) (j : Fin cols), ∃ x line field, data[i.val]? = some line ∧
          line.fields[j.val]? = some field ∧ Writes field x := by
        intro i j
        have hi : i.val < data.length := by omega
        have hmem : data[i.val] ∈ data.take rows :=
          List.mem_take_iff_getElem.mpr ⟨i.val, by omega, rfl⟩
        obtain ⟨field, x, hfield, hx⟩ := exists_writes (hwrong _ hmem) j
        exact ⟨x, _, field, List.getElem?_eq_getElem hi, hfield, hx⟩
      choose cell hcell using hcell
      refine ⟨_, .matrix (Grid.ofFn cell) fun i j => ?_⟩
      rw [Grid.get_ofFn]
      exact hcell i j

/-- What is read is the verdict. -/
theorem Verdict.read_eq (hrows : 1 ≤ rows) (hcols : 1 ≤ cols) {text : String}
    {result : Except FileError (DenseMatrix Float)}
    (h : Verdict path rows cols (dataLines text) result) :
    (read path rows cols (Disk.linesOf text.toUTF8)).1 = result := by
  have hread : (read path rows cols (Disk.linesOf text.toUTF8)).1 =
      (readData path rows cols rows [] (dataLines text)).bind fun data =>
        (DenseMatrix.ofList? rows cols data.flatten).mapError .invalidShape := by
    rw [read_eq_bind, Disk.linesOf_toUTF8, readRows_eq_readData hcols]
    rfl
  rw [hread]
  cases h with
  | matrix grid cells =>
      have hdata : readData path rows cols rows [] (dataLines text) = .ok grid.toRows := by
        conv_lhs => arg 4; rw [← Grid.length_toRows grid]
        refine readData_of_rows ?_ []
        intro i row hrow
        obtain ⟨hi, rfl⟩ := Grid.getElem?_toRows_eq_some_iff.mp hrow
        obtain ⟨line, -, hline, -⟩ := cells ⟨i, hi⟩ ⟨0, hcols⟩
        refine ⟨line, hline, readFields_row fun j => ?_⟩
        obtain ⟨line', field, hline', hfield, hx⟩ := cells ⟨i, hi⟩ j
        rw [hline, Option.some.injEq] at hline'
        exact ⟨field, hline' ▸ hfield, hx⟩
      rw [hdata, Except.bind, ofList?_flatten_toRows hrows hcols]
      rfl
  | malformed split needed start_right wrong =>
      rw [split, readData_of_malformed start_right wrong needed]
      rfl
  | tooShort few all_right =>
      rw [readData_of_short all_right few, Nat.sub_sub_self (by omega)]
      rfl

end

/-! ## Texts with the same rows -/

/-- The first `wanted` data lines of two texts have the same first `cols` fields.  Between them
there may be blank lines in one text or the other, and after them anything. -/
inductive SameRows (cols : Nat) : (wanted : Nat) → (lines others : List (List Char)) → Prop
  | rest (lines others : List (List Char)) : SameRows cols 0 lines others
  | insert {wanted : Nat} {lines others : List (List Char)} {line : List Char}
      (blank : Text.fields line = []) (tail : SameRows cols wanted lines others) :
      SameRows cols wanted lines (line :: others)
  | delete {wanted : Nat} {lines others : List (List Char)} {line : List Char}
      (blank : Text.fields line = []) (tail : SameRows cols wanted lines others) :
      SameRows cols wanted (line :: lines) others
  | row {wanted : Nat} {lines others : List (List Char)} {line other : List Char}
      (data : Text.fields line ≠ [])
      (same : (Text.fields other).take cols = (Text.fields line).take cols)
      (tail : SameRows cols wanted lines others) :
      SameRows cols (wanted + 1) (line :: lines) (other :: others)

section

variable {path : String} {rows cols wanted : Nat} {lines others : List (List Char)}

/-- The data lines that are wanted have the same first fields, whatever their numbers are. -/
theorem SameRows.take_eq (hcols : 1 ≤ cols) (h : SameRows cols wanted lines others)
    (before before' : Nat) :
    ((dataLinesFrom before' others).take wanted).map (fun line => line.fields.take cols) =
      ((dataLinesFrom before lines).take wanted).map (fun line => line.fields.take cols) := by
  induction h generalizing before before' with
  | rest lines others => rw [List.take_zero, List.take_zero]
  | insert blank tail ih =>
      rw [dataLinesFrom_of_blank blank]
      exact ih ..
  | delete blank tail ih =>
      rw [dataLinesFrom_of_blank blank]
      exact ih ..
  | @row wanted lines others line other data same tail ih =>
      have hother : Text.fields other ≠ [] := by
        intro hnil
        rw [hnil, List.take_nil] at same
        exact take_ne_nil hcols data same.symm
      rw [dataLinesFrom_of_data data, dataLinesFrom_of_data hother, List.take_succ_cons,
        List.take_succ_cons, List.map_cons, List.map_cons, same, ih]

/-- A matrix that one of two texts with the same rows gives is given by the other. -/
theorem SameRows.cells (hcols : 1 ≤ cols) {text text' : String}
    (h : SameRows cols rows (Text.lines text.toList) (Text.lines text'.toList))
    {grid : Grid Float rows cols} {i : Fin rows} {j : Fin cols}
    (hcell : ∃ line field, (dataLines text)[i.val]? = some line ∧
      line.fields[j.val]? = some field ∧ Writes field (grid.get i j)) :
    ∃ line field, (dataLines text')[i.val]? = some line ∧
      line.fields[j.val]? = some field ∧ Writes field (grid.get i j) := by
  obtain ⟨line, field, hline, hfield, hx⟩ := hcell
  have hrow := congrArg (fun list => list[i.val]?) (h.take_eq hcols 0 0)
  simp only [List.getElem?_map, List.getElem?_take_of_lt i.isLt] at hrow
  unfold dataLines at hline ⊢
  rw [hline, Option.map_some, Option.map_eq_some_iff] at hrow
  obtain ⟨line', hline', hsame⟩ := hrow
  refine ⟨line', field, hline', ?_, hx⟩
  rw [← hfield, ← List.getElem?_take_of_lt j.isLt, hsame, List.getElem?_take_of_lt j.isLt]

end

/-- Reading accepts exactly its format: the result is the verdict on the data lines of the
text.  So a matrix that is read stays the same when blank lines come or go, when something
follows the fields that are read, and when anything changes after the last line that is
needed. -/
theorem read_eq_iff_verdict (path : String) {rows cols : Nat} (hrows : 1 ≤ rows)
    (hcols : 1 ≤ cols) (text : String) :
    (∀ result, (read path rows cols (Disk.linesOf text.toUTF8)).1 = result ↔
      Verdict path rows cols (dataLines text) result) ∧
    ∀ (text' : String) (m : DenseMatrix Float),
      (read path rows cols (Disk.linesOf text.toUTF8)).1 = .ok m →
      SameRows cols rows (Text.lines text.toList) (Text.lines text'.toList) →
      (read path rows cols (Disk.linesOf text'.toUTF8)).1 = .ok m := by
  have hverdict : ∀ result, (read path rows cols (Disk.linesOf text.toUTF8)).1 = result ↔
      Verdict path rows cols (dataLines text) result := by
    intro result
    refine ⟨?_, Verdict.read_eq hrows hcols⟩
    rintro rfl
    obtain ⟨result, hresult⟩ := exists_verdict path rows cols (dataLines text)
    rwa [hresult.read_eq hrows hcols]
  refine ⟨hverdict, fun text' m hread hsame => ?_⟩
  cases (hverdict _).mp hread with
  | matrix grid cells =>
      exact Verdict.read_eq hrows hcols (.matrix grid fun i j => hsame.cells hcols (cells i j))

/-- Labels after the numbers, blank lines and a line after the last row make no difference, and
the first line that is wrong is counted with the blank ones. -/
theorem read_eq_iff_verdict_two_rows :
    (∃ m, (read "m" 2 2 (Disk.linesOf "1 2\n3 4\n".toUTF8)).1 = .ok m ∧
      (read "m" 2 2 (Disk.linesOf "\n1 2 a\n \n3 4 5\nx\n".toUTF8)).1 = .ok m) ∧
    (read "m" 2 2 (Disk.linesOf "1 2\n\nx\n3 4\n".toUTF8)).1 =
      .error (.malformed "m" 3 (.fewValues 2 1)) := by
  have hmatrix := read_eq_iff_verdict "m" (by decide : 1 ≤ 2) (by decide : 1 ≤ 2) "1 2\n3 4\n"
  have hmalformed :=
    read_eq_iff_verdict "m" (by decide : 1 ≤ 2) (by decide : 1 ≤ 2) "1 2\n\nx\n3 4\n"
  refine ⟨?_, (hmalformed.1 _).mpr ?_⟩
  · let grid : Grid Float 2 2 :=
      Grid.ofFn fun i j => Decimal.Numeral.toFloat (.decimal false (2 * i + j + 1) 0)
    have hread := (hmatrix.1 _).mpr (.matrix grid fun i j => by
      rw [Grid.get_ofFn]
      match i, j with
      | 0, 0 => exact ⟨⟨1, [['1'], ['2']]⟩, ['1'], by decide, by decide, rfl⟩
      | 0, 1 => exact ⟨⟨1, [['1'], ['2']]⟩, ['2'], by decide, by decide, rfl⟩
      | 1, 0 => exact ⟨⟨2, [['3'], ['4']]⟩, ['3'], by decide, by decide, rfl⟩
      | 1, 1 => exact ⟨⟨2, [['3'], ['4']]⟩, ['4'], by decide, by decide, rfl⟩)
    refine ⟨_, hread, hmatrix.2 _ _ hread ?_⟩
    exact .insert (by decide) (.row (by decide) (by decide)
      (.insert (by decide) (.row (by decide) (by decide) (.rest _ _))))
  · have hdata : dataLines "1 2\n\nx\n3 4\n" =
        [⟨1, [['1'], ['2']]⟩] ++ ⟨3, [['x']]⟩ :: [⟨4, [['3'], ['4']]⟩] := by decide
    refine .malformed hdata (by decide) ?_ (by decide)
    intro line hline
    cases List.mem_singleton.mp hline
    decide

end MatrixFile

end MatrixScript
