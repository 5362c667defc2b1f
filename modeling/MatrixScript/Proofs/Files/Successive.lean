import MatrixScript.Proofs.Files.DataLines

/-!
# One read after another

Two matrices can be read one after the other from the same lines, as they are from the
console.  `Yields` relates the rows of a matrix to the lines up to the last of them, and a
read leaves what follows these lines, but for one line: the line after the last row is
taken as well.  So the rows that two reads give are those of a single read if that line is
blank, and if it is not then its row is lost between them (`read_after_read`).
-/

namespace MatrixScript

namespace MatrixFile

open Disk (Line)

/-- There is a field on the line. -/
def isData : Line → Bool
  | .ok text => !(Text.fields text).isEmpty
  | .error _ => false

theorem isData_ok {text : List Char} : isData (.ok text) = true ↔ Text.fields text ≠ [] := by
  simp [isData]

/-! ## Lines with their rows -/

/-- The lines give the rows, and they end with the line of the last one. -/
inductive Yields (cols : Nat) : (lines : List Line) → (rows : List (List Float)) → Prop
  | nil : Yields cols [] []
  | blank {text : List Char} {lines : List Line} {first : List Float} {rows : List (List Float)}
      (blank : Text.fields text = []) (tail : Yields cols lines (first :: rows)) :
      Yields cols (.ok text :: lines) (first :: rows)
  | row {text : List Char} {lines : List Line} {first : List Float} {rows : List (List Float)}
      (data : Text.fields text ≠ [])
      (read : readFields cols ((Text.fields text).take cols) = .ok first)
      (tail : Yields cols lines rows) :
      Yields cols (.ok text :: lines) (first :: rows)

namespace Yields

variable {cols : Nat} {lines lines' rest rest' : List Line} {rows rows' : List (List Float)}

theorem lines_ne_nil (h : Yields cols lines rows) (hrows : rows ≠ []) : lines ≠ [] := by
  cases h with
  | nil => exact absurd rfl hrows
  | blank => exact List.cons_ne_nil _ _
  | row => exact List.cons_ne_nil _ _

theorem length_of_mem (h : Yields cols lines rows) : ∀ row ∈ rows, row.length = cols := by
  induction h with
  | nil => exact fun row hrow => absurd hrow List.not_mem_nil
  | blank _ _ ih => exact ih
  | row _ read _ ih =>
      intro row hrow
      rcases List.mem_cons.mp hrow with rfl | hrow
      · exact (readFields_eq_ok_iff.mp read).1
      · exact ih row hrow

/-- There are as many data lines as rows. -/
theorem countP_isData (h : Yields cols lines rows) : lines.countP isData = rows.length := by
  induction h with
  | nil => rfl
  | blank blank _ ih => rw [List.countP_cons_of_neg (by simp [isData, blank]), ih]
  | row data _ _ ih =>
      rw [List.countP_cons_of_pos (isData_ok.mpr data), ih, List.length_cons]

/-- The last line is the one of the last row. -/
theorem isData_getLast? (h : Yields cols lines rows) (hrows : rows ≠ []) :
    lines.getLast?.any isData = true := by
  induction h with
  | nil => exact absurd rfl hrows
  | @blank text lines first rows _ tail ih =>
      rw [List.getLast?_cons_of_ne_nil (tail.lines_ne_nil hrows)]
      exact ih hrows
  | @row text lines first rows data _ tail ih =>
      cases rows with
      | nil =>
          cases tail
          exact isData_ok.mpr data
      | cons row rows =>
          rw [List.getLast?_cons_of_ne_nil (tail.lines_ne_nil (List.cons_ne_nil _ _))]
          exact ih (List.cons_ne_nil _ _)

theorem of_blank {next : Line} (h : Yields cols (next :: lines) rows)
    (hnext : isData next = false) : Yields cols lines rows := by
  cases h with
  | blank _ tail => exact tail
  | row data _ _ => rw [isData_ok.mpr data] at hnext; cases hnext

theorem of_data {next : Line} (h : Yields cols (next :: lines) rows)
    (hnext : isData next = true) :
    ∃ row later, rows = row :: later ∧ Yields cols [next] [row] ∧ Yields cols lines later := by
  cases h with
  | blank blank _ => exact absurd blank (isData_ok.mp hnext)
  | row data read tail => exact ⟨_, _, rfl, .row data read .nil, tail⟩

theorem append (h : Yields cols lines rows) (h' : Yields cols lines' rows') :
    Yields cols (lines ++ lines') (rows ++ rows') := by
  induction h with
  | nil => exact h'
  | blank blank _ ih => exact .blank blank ih
  | row data read _ ih => exact .row data read ih

/-- The first rows are those of the first lines. -/
theorem split (h : Yields cols lines (rows ++ rows')) :
    ∃ top bottom, lines = top ++ bottom ∧ Yields cols top rows ∧ Yields cols bottom rows' := by
  generalize hall : rows ++ rows' = all at h
  induction h generalizing rows with
  | nil =>
      obtain ⟨rfl, rfl⟩ := List.append_eq_nil_iff.mp hall
      exact ⟨[], [], rfl, .nil, .nil⟩
  | blank blank tail ih =>
      cases rows with
      | nil =>
          rw [List.nil_append] at hall
          exact ⟨[], _, rfl, .nil, hall ▸ .blank blank tail⟩
      | cons first rows =>
          obtain ⟨top, bottom, hlines, htop, hbottom⟩ := ih hall
          exact ⟨_ :: top, bottom, congrArg _ hlines, .blank blank htop, hbottom⟩
  | row data read tail ih =>
      cases rows with
      | nil =>
          rw [List.nil_append] at hall
          exact ⟨[], _, rfl, .nil, hall ▸ .row data read tail⟩
      | cons first rows =>
          rw [List.cons_append, List.cons.injEq] at hall
          obtain ⟨top, bottom, hlines, htop, hbottom⟩ := ih hall.2
          exact ⟨_ :: top, bottom, congrArg _ hlines, .row data (hall.1 ▸ read) htop, hbottom⟩

/-- As many rows are given by the same lines, whatever follows these. -/
theorem lines_unique (h : Yields cols lines rows) (h' : Yields cols lines' rows')
    (hlength : rows.length = rows'.length) (heq : lines ++ rest = lines' ++ rest') :
    lines = lines' := by
  induction h generalizing lines' rows' with
  | nil =>
      cases List.length_eq_zero_iff.mp hlength.symm
      cases h'
      rfl
  | blank blank tail ih =>
      cases h' with
      | nil => cases hlength
      | blank blank' tail' =>
          rw [List.cons_append, List.cons_append, List.cons.injEq] at heq
          rw [heq.1, ih tail' hlength heq.2]
      | row data' _ tail' =>
          rw [List.cons_append, List.cons_append, List.cons.injEq, Except.ok.injEq] at heq
          exact absurd blank (heq.1 ▸ data')
  | row data _ tail ih =>
      cases h' with
      | nil => cases hlength
      | blank blank' tail' =>
          rw [List.cons_append, List.cons_append, List.cons.injEq, Except.ok.injEq] at heq
          exact absurd blank' (heq.1 ▸ data)
      | row _ _ tail' =>
          rw [List.cons_append, List.cons_append, List.cons.injEq] at heq
          rw [heq.1, ih tail' (Nat.succ.inj hlength) heq.2]

end Yields

/-! ## Reading them -/

section

variable {path : String} {rows cols : Nat}

/-- Reading goes through the lines of the rows and takes one more. -/
theorem Yields.readRows_eq (hcols : 1 ≤ cols) {lines : List Line} {new : List (List Float)}
    (h : Yields cols lines new) (before : Nat) (found : List (List Float)) (rest : List Line) :
    readRows path rows cols new.length before found (lines ++ rest) =
      (.ok (found.reverse ++ new), rest.drop 1) := by
  induction h generalizing before found with
  | nil => cases rest <;> simp [readRows]
  | blank blank tail ih =>
      rw [List.cons_append, List.length_cons, readRows_of_blank blank]
      exact ih ..
  | row data read tail ih =>
      rw [List.cons_append, List.length_cons, readRows_of_data hcols data, read]
      simp only
      rw [ih, List.reverse_cons, List.append_assoc, List.singleton_append]

theorem exists_yields_of_readRows (hcols : 1 ≤ cols) {lines : List Line} {wanted before : Nat}
    {found data : List (List Float)}
    (h : (readRows path rows cols wanted before found lines).1 = .ok data) :
    ∃ top rest new, lines = top ++ rest ∧ Yields cols top new ∧ new.length = wanted ∧
      data = found.reverse ++ new := by
  induction lines generalizing wanted before found with
  | nil =>
      cases wanted with
      | zero =>
          cases h
          exact ⟨[], [], [], rfl, .nil, rfl, (List.append_nil _).symm⟩
      | succ wanted => cases h
  | cons line lines ih =>
      cases wanted with
      | zero =>
          rw [readRows] at h
          cases h
          exact ⟨[], _, [], rfl, .nil, rfl, (List.append_nil _).symm⟩
      | succ wanted =>
          cases line with
          | error fault => cases h
          | ok text =>
              by_cases hblank : Text.fields text = []
              · rw [readRows_of_blank hblank] at h
                obtain ⟨top, rest, new, rfl, hyields, hlength, rfl⟩ := ih h
                cases new with
                | nil => cases hlength
                | cons row new =>
                    exact ⟨_ :: top, rest, _, rfl, .blank hblank hyields, hlength, rfl⟩
              · rw [readRows_of_data hcols hblank] at h
                cases hread : readFields cols ((Text.fields text).take cols) with
                | error fault =>
                    rw [hread] at h
                    cases h
                | ok row =>
                    rw [hread] at h
                    obtain ⟨top, rest, new, rfl, hyields, hlength, rfl⟩ := ih h
                    exact ⟨_ :: top, rest, row :: new, rfl, .row hblank hread hyields,
                      congrArg Nat.succ hlength, by simp⟩

theorem Yields.exists_matrix {lines : List Line} {new : List (List Float)}
    (h : Yields cols lines new) : ∃ m : DenseMatrix Float, m.toRows = new :=
  have ⟨g, hg⟩ := Grid.exists_toRows_eq rfl h.length_of_mem
  ⟨⟨_, _, g⟩, hg⟩

/-- A matrix is read exactly from lines that start with its rows, and the line after them is
taken too. -/
theorem read_eq_ok_iff (hrows : 1 ≤ rows) (hcols : 1 ≤ cols) {lines left : List Line}
    {m : DenseMatrix Float} :
    read path rows cols lines = (.ok m, left) ↔
      ∃ top rest, lines = top ++ rest ∧ Yields cols top m.toRows ∧ m.toRows.length = rows ∧
        left = rest.drop 1 := by
  have hmatrix : ∀ {top new}, Yields cols top new → new.length = rows → ∃ g : Grid Float rows cols,
      g.toRows = new ∧ DenseMatrix.ofList? rows cols new.flatten = .ok ⟨rows, cols, g⟩ := by
    intro top new hyields hlength
    obtain ⟨g, rfl⟩ := Grid.exists_toRows_eq hlength hyields.length_of_mem
    exact ⟨g, rfl, ofList?_flatten_toRows hrows hcols g⟩
  rw [read_eq_bind, Prod.mk.injEq]
  constructor
  · rintro ⟨hm, rfl⟩
    cases hread : (readRows path rows cols rows 0 [] lines).1 with
    | error fault => rw [hread] at hm; cases hm
    | ok data =>
        obtain ⟨top, rest, new, rfl, hyields, hlength, rfl⟩ :=
          exists_yields_of_readRows hcols hread
        obtain ⟨g, hg, hofList⟩ := hmatrix hyields hlength
        rw [hread, Except.bind, hofList] at hm
        cases hm
        refine ⟨top, rest, rfl, ?_, Grid.length_toRows g, ?_⟩
        · rw [← hg] at hyields
          exact hyields
        · rw [← hlength, hyields.readRows_eq hcols]
  · rintro ⟨top, rest, rfl, hyields, hlength, rfl⟩
    have hread : readRows path rows cols m.toRows.length 0 [] (top ++ rest) =
        (.ok m.toRows, rest.drop 1) := hyields.readRows_eq hcols 0 [] rest
    rw [hlength] at hread
    obtain ⟨g, hg, hofList⟩ := hmatrix hyields hlength
    have hm : (⟨rows, cols, g⟩ : DenseMatrix Float) = m := DenseMatrix.eq_of_toRows_eq hrows hg
    rw [hread, Except.bind, hofList, hm]
    exact ⟨rfl, rfl⟩

theorem exists_read_of_yields (path : String) (hrows : 1 ≤ rows) (hcols : 1 ≤ cols)
    {top : List Line} {new : List (List Float)} (h : Yields cols top new)
    (hlength : new.length = rows) (rest : List Line) :
    ∃ m, read path rows cols (top ++ rest) = (.ok m, rest.drop 1) ∧ m.toRows = new := by
  obtain ⟨m, rfl⟩ := h.exists_matrix
  exact ⟨m, (read_eq_ok_iff hrows hcols).mpr ⟨top, rest, rfl, h, hlength, rfl⟩, rfl⟩

theorem read_fst_eq_ok_iff (hrows : 1 ≤ rows) (hcols : 1 ≤ cols) {lines : List Line}
    {m : DenseMatrix Float} :
    (read path rows cols lines).1 = .ok m ↔
      ∃ top rest, lines = top ++ rest ∧ Yields cols top m.toRows ∧ m.toRows.length = rows := by
  constructor
  · intro h
    have hread : read path rows cols lines = (.ok m, (read path rows cols lines).2) :=
      Prod.ext h rfl
    obtain ⟨top, rest, hlines, hyields, hlength, -⟩ := (read_eq_ok_iff hrows hcols).mp hread
    exact ⟨top, rest, hlines, hyields, hlength⟩
  · rintro ⟨top, rest, hlines, hyields, hlength⟩
    rw [(read_eq_ok_iff hrows hcols).mpr ⟨top, rest, hlines, hyields, hlength, rfl⟩]

end

/-! ## Two reads -/

/-- Let `r₁ + r₂` rows be there to be read.  Reading `r₁` of them gives the first ones and leaves
what comes after the line that follows them.  If that line is blank, reading `r₂` rows then
gives the other ones.  If it is not, its row is lost: what is read then are the rows of a
single read from the row after it on, if there are so many. -/
theorem read_after_read (path : String) {r₁ r₂ cols : Nat} (hr₁ : 1 ≤ r₁) (hr₂ : 1 ≤ r₂)
    (hcols : 1 ≤ cols) {lines : List Line} {m : DenseMatrix Float}
    (hm : (read path (r₁ + r₂) cols lines).1 = .ok m) :
    ∃ top next rest, lines = top ++ next :: rest ∧
      top.countP isData = r₁ ∧ top.getLast?.any isData = true ∧
      (∃ first, read path r₁ cols lines = (.ok first, rest) ∧
        first.toRows = m.toRows.take r₁) ∧
      (isData next = false →
        ∃ second, (read path r₂ cols rest).1 = .ok second ∧
          second.toRows = m.toRows.drop r₁) ∧
      (isData next = true → ∀ second, (read path r₂ cols rest).1 = .ok second ↔
        ∃ whole, (read path (r₁ + 1 + r₂) cols lines).1 = .ok whole ∧
          second.toRows = whole.toRows.drop (r₁ + 1)) := by
  obtain ⟨all, left, rfl, hall, hlength⟩ := (read_fst_eq_ok_iff (by omega) hcols).mp hm
  rw [← List.take_append_drop r₁ m.toRows] at hall
  obtain ⟨top, bottom, rfl, htop, hbottom⟩ := hall.split
  have htake : (m.toRows.take r₁).length = r₁ := by
    rw [List.length_take]
    omega
  have hdrop : (m.toRows.drop r₁).length = r₂ := by
    rw [List.length_drop]
    omega
  cases bottom with
  | nil =>
      have hnil : m.toRows.drop r₁ = [] := by
        by_contra h
        exact hbottom.lines_ne_nil h rfl
      rw [hnil] at hdrop
      exact absurd hdrop (by simp; omega)
  | cons next bottom =>
      refine ⟨top, next, bottom ++ left, by simp, ?_, ?_, ?_, ?_, ?_⟩
      · rw [htop.countP_isData, htake]
      · exact htop.isData_getLast? (List.ne_nil_of_length_pos (by omega))
      · rw [List.append_assoc]
        exact exists_read_of_yields path hr₁ hcols htop htake _
      · intro hnext
        obtain ⟨second, hread, hsecond⟩ :=
          exists_read_of_yields path hr₂ hcols (hbottom.of_blank hnext) hdrop left
        exact ⟨second, congrArg Prod.fst hread, hsecond⟩
      · intro hnext second
        obtain ⟨row, later, -, hrow, hlater⟩ := hbottom.of_data hnext
        -- The lines of the first rows and of the row that is lost.
        have hlost := htop.append hrow
        have hcount : (m.toRows.take r₁ ++ [row]).length = r₁ + 1 := by
          rw [List.length_append, htake, List.length_singleton]
        constructor
        · intro hsecond
          obtain ⟨lines, rest, heq, hlines, hlength⟩ := (read_fst_eq_ok_iff hr₂ hcols).mp hsecond
          obtain ⟨whole, hread, hwhole⟩ := exists_read_of_yields path
            (by omega : 1 ≤ r₁ + 1 + r₂) hcols (hlost.append hlines)
            (by rw [List.length_append, hcount, hlength]) rest
          refine ⟨whole, ?_, ?_⟩
          · rw [show top ++ next :: bottom ++ left = top ++ [next] ++ lines ++ rest by simp [heq],
              hread]
          · rw [hwhole, List.drop_left' hcount]
        · rintro ⟨whole, hread, hwhole⟩
          obtain ⟨lines, rest, heq, hlines, hlength⟩ :=
            (read_fst_eq_ok_iff (by omega) hcols).mp hread
          rw [← List.take_append_drop (r₁ + 1) whole.toRows] at hlines
          obtain ⟨start, lines, rfl, hstart, hlines⟩ := hlines.split
          have hsplit : top ++ [next] ++ (bottom ++ left) = start ++ (lines ++ rest) := by
            simpa using heq
          have hsame : top ++ [next] = start := by
            refine hlost.lines_unique hstart ?_ hsplit
            rw [hcount, List.length_take]
            omega
          rw [← hsame, List.append_cancel_left_eq] at hsplit
          refine (read_fst_eq_ok_iff hr₂ hcols).mpr ⟨lines, rest, hsplit, hwhole ▸ hlines, ?_⟩
          rw [hwhole, List.length_drop]
          omega

/-- With a blank line between them, the rows of two reads are those of one. -/
theorem read_after_read_blank_between :
    ∃ m first second rest, (read "con:" 2 1 (Disk.linesOf "1\n\n2\n".toUTF8)).1 = .ok m ∧
      read "con:" 1 1 (Disk.linesOf "1\n\n2\n".toUTF8) = (.ok first, rest) ∧
      (read "con:" 1 1 rest).1 = .ok second ∧ m.toRows = first.toRows ++ second.toRows := by
  have hlines : Disk.linesOf "1\n\n2\n".toUTF8 = [.ok ['1'], .ok [], .ok ['2']] := by
    rw [Disk.linesOf_toUTF8]
    decide
  rw [hlines]
  obtain ⟨x, y, hyields⟩ : ∃ x y, Yields 1 [.ok ['1'], .ok [], .ok ['2']] [[x], [y]] :=
    ⟨_, _, .row (by decide) rfl (.blank (by decide) (.row (by decide) rfl .nil))⟩
  obtain ⟨m, hread, -⟩ :=
    exists_read_of_yields "con:" (by decide : 1 ≤ 2) (by decide) hyields rfl []
  have hm : (read "con:" 2 1 [.ok ['1'], .ok [], .ok ['2']]).1 = .ok m := congrArg Prod.fst hread
  obtain ⟨top, next, rest, hsplit, hcount, hlast, ⟨first, hfirst, htake⟩, hblank, -⟩ :=
    read_after_read "con:" (by decide : 1 ≤ 1) (by decide : 1 ≤ 1) (by decide) hm
  have hnext : isData next = false := by
    match top, hsplit with
    | [], _ => cases hcount
    | [_], hsplit => cases hsplit; rfl
    | [_, _], hsplit => cases hsplit; cases hlast
    | [_, _, _], hsplit => cases hsplit
  obtain ⟨second, hsecond, hdrop⟩ := hblank hnext
  refine ⟨m, first, second, rest, hm, hfirst, hsecond, ?_⟩
  rw [htake, hdrop, List.take_append_drop]

/-- Two rows on two lines can be read at once, but not one after the other: the first read takes
the second line as well. -/
theorem not_read_after_read :
    (∃ m, (read "con:" 2 1 (Disk.linesOf "1\n2\n".toUTF8)).1 = .ok m) ∧
    ∃ first rest, read "con:" 1 1 (Disk.linesOf "1\n2\n".toUTF8) = (.ok first, rest) ∧
      (read "con:" 1 1 rest).1 = .error (.tooShort "con:" 1 0) := by
  have hlines : Disk.linesOf "1\n2\n".toUTF8 = [.ok ['1'], .ok ['2']] := by
    rw [Disk.linesOf_toUTF8]
    decide
  rw [hlines]
  obtain ⟨x, hfirst⟩ : ∃ x, Yields 1 [.ok ['1']] [[x]] := ⟨_, .row (by decide) rfl .nil⟩
  obtain ⟨y, hsecond⟩ : ∃ y, Yields 1 [.ok ['2']] [[y]] := ⟨_, .row (by decide) rfl .nil⟩
  obtain ⟨m, hm, -⟩ :=
    exists_read_of_yields "con:" (by decide : 1 ≤ 2) (by decide) (hfirst.append hsecond) rfl []
  obtain ⟨first, hread, -⟩ :=
    exists_read_of_yields "con:" (by decide : 1 ≤ 1) (by decide) hfirst rfl [.ok ['2']]
  exact ⟨⟨m, congrArg Prod.fst hm⟩, first, [], hread, rfl⟩

end MatrixFile

end MatrixScript
