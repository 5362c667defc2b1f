import MatrixScript.Proofs.Decimal.Written
import MatrixScript.Proofs.Lexing.Excerpt
import MatrixScript.Proofs.Matrix.Rows
import MatrixScript.Proofs.Matrix.Shape
import MatrixScript.Script.Machine

/-!
# Written matrices can be loaded

A file that has been written opens with the lines of what was written
(`Disk.open?_of_write?`), and from the lines of a written matrix the matrix is read
back, with each number as its decimals give it (`MatrixFile.givesBack_format`).  The
labels make no difference, because a row is read from its first fields only.
-/

namespace MatrixScript

/-! ## Files -/

namespace Disk

variable {disk : Disk} {path : FilePath}

theorem find?_map_of_eq {files : List (FilePath × ByteArray)} (content : ByteArray)
    (h : (files.find? fun file => file.1 == path).isSome) :
    ((files.map fun file => (file.1, if file.1 == path then content else file.2)).find?
      fun file => file.1 == path) = some (path, content) := by
  induction files with
  | nil => simp at h
  | cons file files ih =>
      by_cases hpath : file.1 = path
      · simp [hpath]
      · have hbeq : (file.1 == path) = false := by simpa using hpath
        rw [List.find?_cons_of_neg (by simp [hbeq])] at h
        rw [List.map_cons, List.find?_cons_of_neg (by simp [hbeq])]
        exact ih h

theorem content?_put (disk : Disk) (path : FilePath) (content : ByteArray) :
    (disk.put path content).content? path = some content := by
  unfold put
  by_cases h : (disk.content? path).isSome
  · rw [if_pos h]
    unfold content? at h ⊢
    rw [Option.isSome_map] at h
    exact congrArg (Option.map Prod.snd) (find?_map_of_eq content h)
  · rw [if_neg h]
    unfold content? at h ⊢
    rw [Option.isSome_map, Bool.not_eq_true, Option.isSome_eq_false_iff,
      Option.isNone_iff_eq_none] at h
    rw [List.find?_append, h]
    simp

theorem directories_put (disk : Disk) (path : FilePath) (content : ByteArray) :
    (disk.put path content).directories = disk.directories := by
  unfold put
  split
  next => rfl
  next => rfl

/-- There is a file at the place, or room for one. -/
inductive Place.IsFor (path : FilePath) : Place → Prop
  | file (content : ByteArray) : IsFor path (.file path content)
  | vacant : IsFor path (.vacant path)

/-- The way that leads to a place for writing leads to the file there once one has been
put. -/
theorem walk_of_writing {disk' : Disk} {content : ByteArray} {place : Place}
    (hdirectories : disk'.directories = disk.directories)
    (hcontent : disk'.content? path = some content) (hplace : place.IsFor path)
    {start : FilePath} {pieces : List String}
    (h : disk.walk .writing start pieces = .ok place) :
    disk'.walk .reading start pieces = .ok (.file path content) := by
  have hsame : ∀ other, disk'.isDirectory other = disk.isDirectory other := fun other => by
    rw [isDirectory, isDirectory, hdirectories]
  induction pieces generalizing start with
  | nil =>
      rw [walk] at h
      cases h
      cases hplace
  | cons piece rest ih =>
      rw [walk] at h ⊢
      by_cases hdot : piece = "" ∨ piece = "."
      · rw [if_pos hdot] at h ⊢
        exact ih h
      rw [if_neg hdot] at h ⊢
      by_cases hup : piece = ".."
      · rw [if_pos hup] at h ⊢
        exact ih h
      rw [if_neg hup] at h ⊢
      rw [if_neg (by simp : ¬ (Purpose.reading = Purpose.writing ∧ onlySlashes rest))]
      by_cases hslashes : Purpose.writing = Purpose.writing ∧ onlySlashes rest
      · rw [if_pos hslashes] at h
        cases h
      rw [if_neg hslashes] at h
      by_cases hlong : maxPiece < piece.utf8ByteSize
      · rw [if_pos hlong] at h
        cases h
      rw [if_neg hlong] at h ⊢
      rw [hsame]
      by_cases hdirectory : disk.isDirectory (start ++ [piece]) = true
      · rw [if_pos hdirectory] at h ⊢
        exact ih h
      rw [if_neg hdirectory] at h ⊢
      -- The last piece is reached, or the name goes on after a file.
      have hlast : rest.isEmpty = true ∧ start ++ [piece] = path := by
        cases hold : disk.content? (start ++ [piece]) <;> cases hrest : rest.isEmpty <;>
          simp only [hold, hrest] at h <;> cases h <;> cases hplace <;> exact ⟨rfl, rfl⟩
      rw [hlast.1, hlast.2, hcontent]
      rfl

theorem write?_eq_ok {disk' : Disk} {name text : String}
    (h : disk.write? name text = .ok disk') :
    ∃ place path, place.IsFor path ∧ disk.resolve .writing name = .ok place ∧
      disk'.directories = disk.directories ∧ disk'.content? path = some text.toUTF8 := by
  unfold write? at h
  split at h
  next => cases h
  next => cases h
  next path content heq =>
    cases h
    exact ⟨_, path, .file content, heq, directories_put .., content?_put ..⟩
  next path heq =>
    cases h
    exact ⟨_, path, .vacant, heq, directories_put .., content?_put ..⟩

/-- A file that has been written can be opened, and has the lines that were written. -/
theorem open?_of_write? {disk' : Disk} {name text : String}
    (h : disk.write? name text = .ok disk') :
    disk'.open? name = .ok (linesOf text.toUTF8) := by
  obtain ⟨place, path, hplace, hresolve, hdirectories, hcontent⟩ := write?_eq_ok h
  have hread : disk'.resolve .reading name = .ok (.file path text.toUTF8) := by
    unfold resolve at hresolve ⊢
    by_cases hnul : name.toList.contains '\x00' = true
    · rw [if_pos hnul] at hresolve
      cases hresolve
    rw [if_neg hnul] at hresolve ⊢
    by_cases hempty : name.isEmpty = true
    · rw [if_pos hempty] at hresolve
      cases hresolve
    rw [if_neg hempty] at hresolve ⊢
    by_cases hlong : maxName < name.utf8ByteSize
    · rw [if_pos hlong] at hresolve
      cases hresolve
    rw [if_neg hlong] at hresolve ⊢
    exact walk_of_writing hdirectories hcontent hplace hresolve
  rw [open?, hread]

/-- The lines of a text are its own, whether it is taken as characters or as bytes. -/
theorem linesOf_toUTF8 (text : String) :
    linesOf text.toUTF8 = (Text.lines text.toList).map .ok := by
  have hvalid : String.fromUTF8? text.toUTF8 = some text := by
    unfold String.fromUTF8?
    rw [String.toUTF8_eq_toByteArray, dif_pos text.isValidUTF8]
    rfl
  rw [linesOf, hvalid]

end Disk

/-! ## Matrices as lists -/

namespace DenseMatrix

variable {α : Type}

theorem toList_map {β : Type} (f : α → β) (m : DenseMatrix α) :
    (m.map f).toList = m.toList.map f := by
  rw [toList, map, Grid.map, Vector.toList_map, toList]

end DenseMatrix

/-! ## Rows of numbers -/

namespace MatrixFile

/-- What is read where a number has been written with some places. -/
def reread (places : Nat) (x : Float) : Float :=
  (Decimal.float? (Decimal.fixed places x)).getD Binary64.nan

theorem float?_fixed (places : Nat) (x : Float) :
    Decimal.float? (Decimal.fixed places x) = some (reread places x) := by
  obtain ⟨y, hy⟩ := Decimal.exists_float?_fixed places x
  rw [reread, hy, Option.getD_some]

theorem readField_fixed (places : Nat) (x : Float) :
    readField (Decimal.fixed places x).toList = .ok (reread places x) := by
  rw [readField, String.ofList_toList, float?_fixed]

/-- The numbers of a row, each with its two blanks. -/
def columns (places : Nat) (row : List Float) : List Char :=
  row.flatMap fun x => (Decimal.fixed places x).toList ++ [' ', ' ']

theorem columns_cons (places : Nat) (x : Float) (row : List Float) :
    columns places (x :: row) =
      (Decimal.fixed places x).toList ++ ' ' :: ' ' :: columns places row := by
  simp [columns]

theorem toList_foldl_fixed (places : Nat) (row : List Float) (text : String) :
    (row.foldl (fun text x => text ++ Decimal.fixed places x ++ "  ") text).toList =
      text.toList ++ columns places row := by
  induction row generalizing text with
  | nil => simp [columns]
  | cons x row ih =>
      rw [List.foldl_cons, ih, columns_cons]
      simp

theorem toList_formatRow (places : Nat) (row : List Float) (label : String) :
    (formatRow places row label).toList = columns places row ++ label.toList ++ ['\n'] := by
  rw [formatRow, String.toList_append, String.toList_append, toList_foldl_fixed]
  rfl

theorem newline_not_mem_columns (places : Nat) (row : List Float) :
    '\n' ∉ columns places row := by
  intro h
  obtain ⟨x, -, hx⟩ := List.mem_flatMap.mp h
  rcases List.mem_append.mp hx with hfield | hblank
  · have hblank := (Decimal.isField_fixed places x).solid _ hfield
    exact absurd hblank (by decide)
  · exact absurd hblank (by decide)

/-- A row starts with its numbers, whatever label follows them. -/
theorem take_fields_columns (places : Nat) (row : List Float) (label : List Char) :
    (Text.fields (columns places row ++ label)).take row.length =
      row.map fun x => (Decimal.fixed places x).toList := by
  induction row with
  | nil => simp
  | cons x row ih =>
      have hblank : Text.isBlank ' ' = true := by decide
      rw [columns_cons, List.append_assoc, List.cons_append, List.cons_append,
        Text.fields_append_blank (Decimal.isField_fixed places x) hblank,
        Text.fields_blank hblank, List.length_cons, List.take_succ_cons, List.map_cons, ih]

/-- A written row is one line, from which its numbers can be taken. -/
theorem lines_formatRow (places : Nat) (row : List Float) {label : String}
    (hlabel : '\n' ∉ label.toList) (rest : List Char) :
    ∃ line, Text.lines ((formatRow places row label).toList ++ rest) = line :: Text.lines rest ∧
      (Text.fields line).take row.length =
        row.map fun x => (Decimal.fixed places x).toList := by
  have hfeed : '\n' ∉ columns places row ++ label.toList := by
    intro h
    rcases List.mem_append.mp h with h | h
    · exact newline_not_mem_columns places row h
    · exact hlabel h
  rw [toList_formatRow, List.append_assoc _ ['\n'], List.singleton_append]
  refine ⟨_, Text.lines_append_feed hfeed rest, ?_⟩
  rw [← take_fields_columns places row label.toList]
  -- The line may have lost a carriage return, which is a blank.
  rcases Text.headD_lines_append hfeed (.inr (List.head?_cons : ('\n' :: rest).head? = _)) with
    hsame | ⟨init, hinit, hline⟩
  · rw [hsame]
  · rw [hline, hinit, Text.fields_append_of_blank (by decide)]

theorem mapM_readField (places : Nat) (row : List Float) :
    (row.map fun x => (Decimal.fixed places x).toList).mapM readField =
      .ok (row.map (reread places)) := by
  induction row with
  | nil => rfl
  | cons x row ih =>
      rw [List.map_cons, List.mapM_cons, readField_fixed, ih]
      rfl

theorem readFields_fixed (places : Nat) (row : List Float) :
    readFields row.length (row.map fun x => (Decimal.fixed places x).toList) =
      .ok (row.map (reread places)) := by
  rw [readFields, if_neg (by simp), mapM_readField]

/-! ## All rows -/

/-- The text of rows with their labels. -/
def written (places : Nat) (entries : List (List Float × String)) : List Char :=
  entries.flatMap fun entry => (formatRow places entry.1 entry.2).toList

/-- Reading goes row by row, each written row giving one row, and stops after the last. -/
theorem readRows_written (path : String) (rows places : Nat) {cols : Nat} (hcols : 1 ≤ cols)
    {entries : List (List Float × String)}
    (hrow : ∀ entry ∈ entries, entry.1.length = cols ∧ '\n' ∉ entry.2.toList)
    (number : Nat) (found : List (List Float)) :
    readRows path rows cols entries.length number found
        ((Text.lines (written places entries)).map .ok) =
      (.ok (found.reverse ++ entries.map fun entry => entry.1.map (reread places)), []) := by
  induction entries generalizing number found with
  | nil =>
      rw [written, List.flatMap_nil, show Text.lines [] = [] from rfl, List.map_nil,
        List.length_nil, readRows, List.map_nil, List.append_nil]
  | cons entry entries ih =>
      obtain ⟨hlength, hlabel⟩ := hrow entry List.mem_cons_self
      obtain ⟨line, hlines, hfields⟩ :=
        lines_formatRow places entry.1 hlabel (written places entries)
      have hne : (entry.1.map fun x => (Decimal.fixed places x).toList) ≠ [] := by
        apply List.ne_nil_of_length_pos
        rw [List.length_map]
        omega
      rw [show written places (entry :: entries) =
          (formatRow places entry.1 entry.2).toList ++ written places entries from
            List.flatMap_cons, hlines, List.map_cons, List.length_cons, readRows, ← hlength,
        hfields]
      split
      next hnil => exact absurd hnil hne
      next =>
        rw [readFields_fixed, hlength]
        apply (ih (fun other hother => hrow other (List.mem_cons_of_mem entry hother)) _ _).trans
        rw [List.reverse_cons, List.append_assoc, List.singleton_append, List.map_cons]

/-- The rows of a matrix with their labels. -/
def labelled (labels : List String) (m : DenseMatrix Float) : List (List Float × String) :=
  m.toRows.zipIdx.map fun entry => (entry.1, labels[entry.2]?.getD "")

theorem toList_foldl_formatRow (places : Nat) (labels : List String)
    {step : String → List Float × Nat → String}
    (hstep : ∀ text row i, step text (row, i) =
      text ++ formatRow places row (labels[i]?.getD ""))
    (entries : List (List Float × Nat)) (text : String) :
    (entries.foldl step text).toList = text.toList ++
      written places (entries.map fun entry => (entry.1, labels[entry.2]?.getD "")) := by
  induction entries generalizing text with
  | nil => simp [written]
  | cons entry entries ih =>
      rw [List.foldl_cons, ih, hstep]
      simp [written]

theorem toList_format (places : Nat) (labels : List String) (m : DenseMatrix Float) :
    (format places labels m).toList = written places (labelled labels m) := by
  rw [format, toList_foldl_formatRow places labels fun _ _ _ => rfl]
  rfl

/-- A written matrix is read as the matrix of its numbers, each as its decimals give
it. -/
theorem read_written (path : String) (places : Nat) {labels : List String}
    (hlabels : ∀ label ∈ labels, '\n' ∉ label.toList) {m : DenseMatrix Float}
    (hm : m.WellFormed) :
    read path m.rows m.cols (Disk.linesOf (format places labels m).toUTF8) =
      (.ok (m.map (reread places)), []) := by
  have hlength : (labelled labels m).length = m.rows := by
    simp [labelled, DenseMatrix.toRows]
  have hrow : ∀ entry ∈ labelled labels m,
      entry.1.length = m.cols ∧ '\n' ∉ entry.2.toList := by
    intro entry hentry
    obtain ⟨⟨row, i⟩, hmem, rfl⟩ := List.mem_map.mp hentry
    refine ⟨Grid.length_of_mem_toRows (List.fst_mem_of_mem_zipIdx hmem), ?_⟩
    cases hlabel : labels[i]? with
    | none => simp
    | some label => simpa using hlabels label (List.mem_of_getElem? hlabel)
  have hdata : ((labelled labels m).map fun entry => entry.1.map (reread places)).flatten =
      (m.map (reread places)).toList := by
    calc ((labelled labels m).map fun entry => entry.1.map (reread places)).flatten
        = ((m.toRows.zipIdx.map Prod.fst).map (List.map (reread places))).flatten := by
          simp only [labelled, List.map_map]
          rfl
      _ = m.toRows.flatten.map (reread places) := by
          rw [List.zipIdx_map_fst, ← List.map_flatten]
      _ = (m.map (reread places)).toList := by
          rw [DenseMatrix.toList_map, DenseMatrix.toRows, Grid.flatten_toRows]
          rfl
  have hmap : (m.map (reread places)).WellFormed := hm.of_shape_eq rfl
  have hback : DenseMatrix.ofList? m.rows m.cols
      ((labelled labels m).map fun entry => entry.1.map (reread places)).flatten =
        .ok (m.map (reread places)) := by
    rw [hdata]
    exact DenseMatrix.ofList?_toList hmap
  have hread := readRows_written path m.rows places hm.cols_pos hrow 0 []
  rw [hlength, List.reverse_nil, List.nil_append] at hread
  rw [read, Disk.linesOf_toUTF8, toList_format, hread]
  simp only [hback]

/-! ## Giving a matrix back -/

/-- The text gives the matrix back: it can be read off its lines, and a file to which it
has been written can be loaded. -/
structure GivesBack (text : String) (m : DenseMatrix Float) : Prop where
  read : ∀ path, read path m.rows m.cols (Disk.linesOf text.toUTF8) = (.ok m, [])
  load : ∀ (world world' : World) (path : String), isConsole path = false →
    world.write path text = .ok world' → world'.load path m.rows m.cols = (.ok m, world')

theorem givesBack_of_read {text : String} {m : DenseMatrix Float}
    (h : ∀ path, read path m.rows m.cols (Disk.linesOf text.toUTF8) = (.ok m, [])) :
    GivesBack text m where
  read := h
  load := by
    intro world world' path hconsole hwrite
    unfold World.write at hwrite
    split at hwrite
    next => cases hwrite
    next disk hdisk =>
      cases hwrite
      unfold World.load
      rw [if_neg (by simp [hconsole]), Disk.open?_of_write? hdisk]
      simp only [h]

/-- Whatever is written can be read.  Every number comes back as its decimals are read,
the labels make no difference, and nothing is left of the lines.  So a matrix comes back
as it was if each of its numbers does. -/
theorem givesBack_format {m : DenseMatrix Float} (hm : m.WellFormed) (places : Nat) :
    ∃ back : Grid Float m.rows m.cols,
      (∀ i j, Decimal.float? (Decimal.fixed places (m.get i j)) = some (back.get i j)) ∧
      (∀ labels : List String, (∀ label ∈ labels, '\n' ∉ label.toList) →
        GivesBack (format places labels m) ⟨m.rows, m.cols, back⟩) ∧
      (places = 6 → GivesBack (saved m) ⟨m.rows, m.cols, back⟩) ∧
      ((∀ i j, Decimal.float? (Decimal.fixed places (m.get i j)) = some (m.get i j)) →
        back = m.grid) := by
  have hback : ∀ labels : List String, (∀ label ∈ labels, '\n' ∉ label.toList) →
      GivesBack (format places labels m) (m.map (reread places)) := fun labels hlabels =>
    givesBack_of_read fun path => read_written path places hlabels hm
  have hget : ∀ i j, Decimal.float? (Decimal.fixed places (m.get i j)) =
      some ((m.grid.map (reread places)).get i j) := by
    intro i j
    rw [Grid.get_map]
    exact float?_fixed places (m.get i j)
  refine ⟨m.grid.map (reread places), hget, hback, ?_, ?_⟩
  · rintro rfl
    exact hback [] (by simp)
  · intro hfixed
    apply Grid.ext_get
    intro i j
    exact Option.some.inj ((hget i j).symm.trans (hfixed i j))

theorem givesBack_format_infinities :
    ∃ back : Grid Float 2 1, GivesBack
        (format 6 ["1 2", "\r", "3"] (.ofFn 2 1 fun i _ => Binary64.infinity (i.val = 1)))
        ⟨2, 1, back⟩ ∧
      GivesBack (saved (.ofFn 2 1 fun i _ => Binary64.infinity (i.val = 1))) ⟨2, 1, back⟩ ∧
      back = Grid.ofFn fun i _ => Binary64.infinity (i.val = 1) := by
  have hfixed : ∀ negative, Decimal.float? (Decimal.fixed 6 (Binary64.infinity negative)) =
      some (Binary64.infinity negative) := by
    intro negative
    cases negative with
    | true => decide
    | false => decide
  obtain ⟨back, -, hlabels, hsaved, hback⟩ := givesBack_format
    (m := .ofFn 2 1 fun i _ => Binary64.infinity (i.val = 1))
    (DenseMatrix.wellFormed_ofFn (by decide) (by decide) _) 6
  refine ⟨back, hlabels _ (by simp), hsaved rfl, hback fun i j => ?_⟩
  have hget : (DenseMatrix.ofFn 2 1 fun i _ => Binary64.infinity (i.val = 1)).get i j =
      Binary64.infinity (i.val = 1) := DenseMatrix.get_ofFn 2 1 _ i j
  rw [hget]
  exact hfixed _

end MatrixFile

end MatrixScript
