import MatrixScript.Correspondence
import MatrixScript.Eigen.Basic
import MatrixScript.Script.Expression
import MatrixScript.Script.Machine

/-!
# Statements

Assignments and the commands that compute, read and write. Operands are read up to the last one before
anything is done, so a statement that is not well formed has no effect; what follows the last operand
on the line is the next statement.
-/

namespace MatrixScript

namespace Statement

open ExecM (emit bound)

def variableOperand (command : Command) : ReadM VariableName := do
  let token ← Reader.next
  if token.endsStatement then Reader.refuse (.missingOperand command .name)
  else Reader.ofParse (Literal.variableName token.lexeme)

def fileOperand (command : Command) : ReadM String := do
  let token ← Reader.next
  match token.kind with
  | .delimiter _ | .label => Reader.refuse (.missingOperand command .fileName)
  | _ =>
    if token.lexeme.isEmpty then Reader.refuse (.missingOperand command .fileName)
    else pure token.lexeme

/-- A file that a command can do without. -/
def optionalFile (command : Command) : ReadM (Option String) := do
  let token ← Reader.peek
  if token.endsStatement then pure none
  else some <$> fileOperand command

/-- The number of rows or columns that a command works with. -/
def dimensionOperand (command : Command) : ReadM Nat := do
  let token ← Reader.next
  if token.kind = .number then Reader.ofParse (Literal.dimension token.lexeme)
  else if token.endsStatement then Reader.refuse (.missingOperand command .dimension)
  else Reader.refuse (.invalidDimension token.describe)

def env : ExecM Expression.Env := do
  let machine ← get
  pure ⟨machine.store, machine.limits.maxElements⟩

/-- Assigns the value of an expression to the variable with the given name. -/
def assignment (name : String) : ExecM Unit := do
  let target ← Reader.ofParse (Literal.variableName name)
  Reader.expect .equals '='
  let value ← Expression.evaluate (← env)
  Reader.expectEnd
  ExecM.assign target value

def loadMatrix (path : String) (rows cols : Nat) : ExecM (DenseMatrix Float) := do
  let (result, world) := (← get).world.load path rows cols
  modify fun machine => { machine with world := world }
  match result with
  | .error e => throw (.file e)
  | .ok m =>
    Reader.note .info s!"loaded {rows}x{cols} matrix from {path}"
    pure m

/-- The command `load file variable rows columns`. -/
def load : ExecM Unit := do
  let path ← fileOperand .load
  let target ← variableOperand .load
  let rows ← dimensionOperand .load
  let cols ← dimensionOperand .load
  let _ ← ExecM.ofExcept (checkedElements rows cols (← get).limits.maxElements)
  let m ← loadMatrix path rows cols
  ExecM.assign target m

def save : ExecM Unit := do
  let source ← variableOperand .save
  let path ← fileOperand .save
  let m ← bound source
  emit path (MatrixFile.saved m)

/-- The elements of a row, one to a line, with their indices. -/
def printedRow (i : Nat) (row : List Float) : String :=
  row.zipIdx.foldl
    (fun text (x, j) => text ++ s!"element({i}, {j}) : {Decimal.fixed 6 x}\n") s!"row {i}\n" ++ "\n"

/-- A matrix with its size and its elements. -/
def printed (name : VariableName) (m : DenseMatrix Float) : String :=
  m.toRows.zipIdx.foldl (fun text (row, i) => text ++ printedRow i row)
    s!"matrix {name.letter}[{m.rows}, {m.cols}]\n"

def print : ExecM Unit := do
  let source ← variableOperand .print
  let m ← bound source
  emit "con:" (printed source m)

/-- The text in front of the first quotation mark. -/
def untilQuote (text : List Char) : String :=
  String.ofList (text.takeWhile (· != '"'))

/-- The command `rem text` passes over the text, and writes it to the console if it is quoted. -/
def remark : ExecM Unit := do
  let text ← Reader.skipLine
  match Text.trim text with
  | '"' :: quoted => emit "con:" (untilQuote quoted ++ "\n")
  | _ => pure ()

/-- The places of coordinates and of eigenvalues. -/
def coordinatePlaces : Nat := 14

def contributionPlaces : Nat := 4

/-- The eigenvalues with their shares in `divisor`, alone and summed up; `before` is the sum so far. -/
def eigenvalueLines (divisor : Float) : (before : Float) → List Float → String
  | _, [] => ""
  | before, value :: rest =>
    let sum := before + value
    s!"{Decimal.fixed coordinatePlaces value}  {Decimal.fixed 3 (value / divisor)}  " ++
      s!"{Decimal.fixed 3 (sum / divisor)}\n" ++ eigenvalueLines divisor sum rest

/-- What the eigenvalues are shares of: the trace or, if that is negative, the trace without the largest
eigenvalue. -/
def inertiaDivisor (trace : Float) (values : List Float) : Float :=
  match values with
  | largest :: _ => if trace < 0.0 then trace - largest else trace
  | [] => trace

/-- Diagonalises a matrix and notes the sweeps that it took. -/
def diagonalize (m : DenseMatrix Float) : ExecM (Eigen Float) := do
  let limits := (← get).limits
  let (counts, result) := m.eigenCounting limits.tolerance limits.maxIterations
  counts.zipIdx.forM fun (count, l) =>
    (Reader.note .debug s!"eigenvalue {l}: {count} iteration(s)" : ReadM Unit)
  match result with
  | .error e => throw (.matrix e)
  | .ok eigen => pure eigen

/-- The command `tridiag variable values-file vectors-file`. -/
def tridiag : ExecM Unit := do
  let source ← variableOperand .tridiag
  let valuesPath ← fileOperand .tridiag
  let vectorsPath ← fileOperand .tridiag
  let m ← bound source
  let eigen ← diagonalize m
  let divisor := inertiaDivisor m.trace eigen.values
  let count := eigen.values.length
  Reader.note .info
    s!"{count} eigenvalues of {source.letter} to {valuesPath}, eigenvectors to {vectorsPath}"
  emit valuesPath (eigenvalueLines divisor 0.0 eigen.values)
  emit vectorsPath (MatrixFile.format coordinatePlaces [] eigen.vectors)

/-- The report on the inertia that the axes explain. -/
def inertiaReport (axes : List (AxisInertia Float)) : String :=
  axes.foldl
    (fun text axis => text ++
      s!"axis {axis.axis} : {Decimal.fixed 3 axis.proportion}  {Decimal.fixed 3 axis.cumulative}\n")
    "Explained inertia\n"

/-- The labels of the column points and of the row points, if there are files with them. -/
def pointLabels (table : DenseMatrix Float) : Option (String × String) → ExecM (List String)
  | none => pure []
  | some (columns, rows) => do
    let disk := (← get).world.disk
    let columnLabels ← ExecM.ofExcept ((LabelFile.load disk columns table.cols).mapError .file)
    let rowLabels ← ExecM.ofExcept ((LabelFile.load disk rows table.rows).mapError .file)
    pure (columnLabels ++ rowLabels)

/-- The files with the labels of an analysis: those of the columns and then those of the rows, or
none. -/
def labelFiles : ReadM (Option (String × String)) := do
  match ← optionalFile .compocor with
  | none => pure none
  | some columns =>
    let rows ← fileOperand .compocor
    pure (some (columns, rows))

/-- The command `compocor table vectors values coordinates-file absolute-file relative-file`, with the
files of labels after it if there are any. -/
def compocor : ExecM Unit := do
  let tableName ← variableOperand .compocor
  let vectorsName ← variableOperand .compocor
  let valuesName ← variableOperand .compocor
  let coordinatesPath ← fileOperand .compocor
  let absolutePath ← fileOperand .compocor
  let relativePath ← fileOperand .compocor
  let labelPaths ← labelFiles
  let table ← bound tableName
  let values ← bound valuesName
  let inertia ← ReadM.ofMatrix (Correspondence.explainedInertia values)
  let vectors ← bound vectorsName
  let analysis ← ReadM.ofMatrix (Correspondence.analyse table vectors values)
  let labels ← pointLabels table labelPaths
  emit "con:" (inertiaReport inertia)
  Reader.note .info s!"principal coordinates to {coordinatesPath}"
  emit coordinatesPath (MatrixFile.format coordinatePlaces labels analysis.coordinates)
  Reader.note .info s!"absolute contributions to {absolutePath}"
  emit absolutePath (MatrixFile.format contributionPlaces [] analysis.absolute)
  Reader.note .info s!"relative contributions to {relativePath}"
  emit relativePath (MatrixFile.format contributionPlaces [] analysis.relative)

/-- The commands `composupp points coordinates values file`, for rows, and `compocsupp`, for columns. -/
def supplementary (command : Command) (kind : PointKind) : ExecM Unit := do
  let pointsName ← variableOperand command
  let coordinatesName ← variableOperand command
  let valuesName ← variableOperand command
  let path ← fileOperand command
  let points ← bound pointsName
  let coordinates ← bound coordinatesName
  let values ← bound valuesName
  let projected ← ReadM.ofMatrix (Correspondence.project kind points coordinates values)
  Reader.note .info s!"{command.keyword} supplementary coordinates to {path}"
  emit path (MatrixFile.format coordinatePlaces [] projected)

end Statement

end MatrixScript
