import MatrixScript.Proofs.Lockstep.Expression
import MatrixScript.Proofs.Lockstep.Operands

/-!
# Statements in step

Two machines with the same variables, limits and world, whose lexers are in step, do the
same when they run a statement: they compute the same values, write the same texts to the
same files, and fail with errors that agree.  Statements leave labels and loops alone, so
any relation between those of the two machines is kept.
-/

namespace MatrixScript

open ExecM (emit bound)

/-- A relation between the labels and loops of two machines. -/
abbrev Control := LabelIndex → LoopStack → LabelIndex → LoopStack → Prop

/-- The machines are the same up to their scripts, with lexers, labels and loops that are
related. -/
structure Machine.Joined (control : Control) (P : Lexer → Lexer → Prop) (m m' : Machine) :
    Prop where
  lexer : P m.reader.lexer m'.reader.lexer
  store_eq : m'.store = m.store
  limits_eq : m'.limits = m.limits
  world_eq : m'.world = m.world
  control : control m.labels m.loops m'.labels m'.loops

/-- Where a statement fails, the machines have come to the same variables and to the same
world. -/
structure Machine.Parted (Stop : Lexer → Lexer → Prop) (m m' : Machine) : Prop where
  lexer : Stop m.reader.lexer m'.reader.lexer
  store_eq : m'.store = m.store
  world_eq : m'.world = m.world

open Machine

variable {spelling : Spelling} {Stop : Lexer → Lexer → Prop} {control : Control} {α β : Type}

/-- The programs run in step, from lexers related by `P` to lexers related by `Q`. -/
abbrev ExecPaired (spelling : Spelling) (Stop : Lexer → Lexer → Prop) (control : Control)
    (P : Lexer → Lexer → Prop) (V : α → β → Prop) (Q : Lexer → Lexer → Prop)
    (x : ExecM α) (y : ExecM β) : Prop :=
  Paired (Error.Accords spelling) (Parted Stop) (Joined control P) V (Joined control Q) x y

section Exec

variable {P Q : Lexer → Lexer → Prop} {V : α → β → Prop}

theorem Machine.Joined.imp {m m' : Machine} (h : Joined control P m m')
    (hP : ∀ a b, P a b → Q a b) : Joined control Q m m' :=
  { h with lexer := hP _ _ h.lexer }

theorem Machine.Joined.parted {m m' : Machine} (h : Joined control P m m')
    (hP : ∀ a b, P a b → Stop a b) : Parted Stop m m' :=
  { h with lexer := hP _ _ h.lexer }

theorem execPaired_throw {e e' : Error} (he : e.Accords spelling e')
    (hP : ∀ a b, P a b → Stop a b) :
    ExecPaired spelling Stop control P V Q (throw e : ExecM α) (throw e' : ExecM β) :=
  paired_throw he fun _ _ h => h.parted hP

theorem execPaired_read {x : ReadM α} {y : ReadM β} (h : ReadPaired spelling Stop P V Q x y) :
    ExecPaired spelling Stop control P V Q (ExecM.read x) (ExecM.read y) := by
  intro m m' hjoined
  have hxy := h m.reader m'.reader hjoined.lexer
  unfold ExecM.read
  generalize x m.reader = found, y m'.reader = found' at hxy
  cases hxy with
  | ok hok => exact .ok ⟨hok.1, { hjoined with lexer := hok.2 }⟩
  | error he hstop => exact .error he { hjoined with lexer := hstop }

theorem execPaired_note (level level' : Level) (text text' : String) :
    ExecPaired spelling Stop control P Eq P (ExecM.read (Reader.note level text))
      (ExecM.read (Reader.note level' text')) :=
  execPaired_read (readPaired_note _ _ _ _)

theorem execPaired_ofExcept (result : Except Error α) (hP : ∀ a b, P a b → Stop a b) :
    ExecPaired spelling Stop control P Eq P (ExecM.ofExcept result) (ExecM.ofExcept result) := by
  cases result with
  | ok value => exact paired_pure rfl
  | error e => exact execPaired_throw (.refl e) hP

theorem execPaired_env :
    ExecPaired spelling Stop control P Eq P Statement.env Statement.env := by
  refine paired_get_bind fun m m' h => ?_
  rw [h.store_eq, h.limits_eq]
  exact paired_pure rfl

theorem execPaired_bound (name : VariableName) (hP : ∀ a b, P a b → Stop a b) :
    ExecPaired spelling Stop control P Eq P (bound name) (bound name) := by
  refine paired_get_bind fun m m' h => ?_
  rw [h.store_eq]
  exact execPaired_ofExcept _ hP

theorem execPaired_assign (name : VariableName) (value : DenseMatrix Float) :
    ExecPaired spelling Stop control P Eq P (ExecM.assign name value)
      (ExecM.assign name value) := by
  refine (execPaired_note _ _ _ _).bind fun _ _ _ m m' h => .ok ⟨rfl, ?_⟩
  exact { h with store_eq := congrArg (·.insert name value) h.store_eq }

theorem execPaired_setWorld (world : World) :
    ExecPaired spelling Stop control P Eq P (modify fun m => { m with world := world })
      (modify fun m => { m with world := world }) :=
  fun _ _ h => .ok ⟨rfl, { h with world_eq := rfl }⟩

theorem execPaired_emit {path path' : String} (hpath : SameFile spelling path path')
    (text : String) (hP : ∀ a b, P a b → Stop a b) :
    ExecPaired spelling Stop control P Eq P (emit path text) (emit path' text) := by
  unfold emit
  rw [hpath.isConsole_eq]
  cases hconsole : isConsole path with
  | true =>
      refine paired_get_bind fun m m' h => ?_
      rw [h.world_eq]
      rcases m.world.say text with ⟨result, world⟩
      exact (execPaired_setWorld world).bind fun _ _ _ => execPaired_ofExcept _ hP
  | false =>
      rw [hpath.eq_of_isConsole_eq_false hconsole]
      refine paired_get_bind fun m m' h => ?_
      rw [h.world_eq]
      cases m.world.write path text with
      | error e => exact execPaired_throw (.refl _) hP
      | ok world => exact (execPaired_setWorld world).bind fun _ _ _ => execPaired_note _ _ _ _

theorem execPaired_forM_note (items : List α) (note note' : α → ReadM Unit)
    (h : ∀ a, ReadPaired spelling Stop P Eq P (note a) (note' a)) :
    ExecPaired spelling Stop control P Eq P (items.forM fun a => (note a : ExecM Unit))
      (items.forM fun a => (note' a : ExecM Unit)) := by
  induction items with
  | nil => exact paired_pure rfl
  | cons first rest ih => exact (execPaired_read (h first)).bind fun _ _ _ => ih

theorem execPaired_diagonalize (m : DenseMatrix Float) (hP : ∀ a b, P a b → Stop a b) :
    ExecPaired spelling Stop control P Eq P (Statement.diagonalize m)
      (Statement.diagonalize m) := by
  refine paired_get_bind fun s s' h => ?_
  rw [h.limits_eq]
  cases hfound : m.eigenCounting s.limits.tolerance s.limits.maxIterations with
  | mk counts result =>
      simp only [hfound]
      refine (execPaired_forM_note _ _ _ fun _ => readPaired_note _ _ _ _).bind fun _ _ _ => ?_
      cases result with
      | error e => exact execPaired_throw (.refl _) hP
      | ok eigen => exact paired_pure rfl

theorem execPaired_pointLabels (table : DenseMatrix Float) (paths : Option (String × String))
    (hP : ∀ a b, P a b → Stop a b) :
    ExecPaired spelling Stop control P Eq P (Statement.pointLabels table paths)
      (Statement.pointLabels table paths) := by
  cases paths with
  | none => exact paired_pure rfl
  | some paths =>
      refine paired_get_bind fun m m' h => ?_
      rw [h.world_eq]
      refine (execPaired_ofExcept _ hP).bind ?_
      rintro columns _ rfl
      refine (execPaired_ofExcept _ hP).bind ?_
      rintro rows _ rfl
      exact paired_pure rfl

/-- Reading a matrix from the same file uses up the same input. -/
theorem World.load_of_sameFile {path path' : String} (h : SameFile spelling path path')
    (world : World) (rows cols : Nat) :
    (world.load path' rows cols).1.mapError (FileError.respell spelling.fold) =
        (world.load path rows cols).1.mapError (FileError.respell spelling.fold) ∧
      (world.load path' rows cols).2 = (world.load path rows cols).2 := by
  unfold load
  rw [h.isConsole_eq]
  cases hconsole : isConsole path with
  | true =>
      obtain ⟨hresult, hrest⟩ := MatrixFile.mapError_read h.fold_eq rows cols world.input
      exact ⟨hresult, by simp [hrest]⟩
  | false =>
      rw [h.eq_of_isConsole_eq_false hconsole]
      exact ⟨rfl, rfl⟩

theorem execPaired_loadMatrix {path path' : String} (hpath : SameFile spelling path path')
    (rows cols : Nat) (hP : ∀ a b, P a b → Stop a b) :
    ExecPaired spelling Stop control P Eq P (Statement.loadMatrix path rows cols)
      (Statement.loadMatrix path' rows cols) := by
  refine paired_get_bind fun m m' h => ?_
  rw [h.world_eq]
  obtain ⟨hresult, hworld⟩ := World.load_of_sameFile hpath m.world rows cols
  generalize m.world.load path' rows cols = found' at hresult hworld
  generalize m.world.load path rows cols = found at hresult hworld
  obtain ⟨result', world'⟩ := found'
  obtain ⟨result, world⟩ := found
  obtain rfl : world' = world := hworld
  refine (execPaired_setWorld world').bind fun _ _ _ => ?_
  cases result' with
  | error e' =>
      cases result with
      | error e => exact execPaired_throw (congrArg Error.file (Except.error.inj hresult)) hP
      | ok value => cases hresult
  | ok value' =>
      cases result with
      | error e => cases hresult
      | ok value =>
          obtain rfl : value' = value := Except.ok.inj hresult
          exact (execPaired_note _ _ _ _).bind fun _ _ _ => paired_pure rfl

end Exec

/-! ## Statements -/

namespace Pacing

open Statement

variable {Near : Nat → Lexer → Lexer → Prop} (pace : Pacing spelling Near Stop) {n : Nat}
  {roles : List OperandRole}

/-- The statement runs in step, after its first token, if its operands have these roles. -/
abbrev Runs (_ : Pacing spelling Near Stop) (control : Control) (P : Lexer → Lexer → Prop)
    (n : Nat) (x y : ExecM Unit) : Prop :=
  ExecPaired spelling Stop control P Eq (Near n) x y

include pace

theorem exec_assignment {name name' : String} (h : spelling.fold name' = spelling.fold name) :
    pace.Runs control (Near n) n (assignment name) (assignment name') := by
  refine (execPaired_read (readPaired_variableName h pace.stop_of_near)).bind ?_
  rintro target _ rfl
  refine (execPaired_read (pace.alike_expect (by decide) (by decide) _)).bind fun _ _ _ => ?_
  refine execPaired_env.bind ?_
  rintro env _ rfl
  refine (execPaired_read pace.alike_evaluate).bind ?_
  rintro value _ rfl
  refine (execPaired_read pace.alike_expectEnd).bind fun _ _ _ => ?_
  exact execPaired_assign target value

/-- After the last operand its roles are of no use any more. -/
theorem exec_of_near {x y : ExecM Unit} (h : pace.Runs control (Near n) n x y) :
    pace.Runs control (pace.Before roles n) n x y :=
  h.imp (fun _ _ h => h.imp pace.near_of_before) (fun _ _ h => h) fun _ _ h => h

theorem exec_load :
    pace.Runs control (pace.Before Command.load.operandRoles n) n load load := by
  refine (execPaired_read (pace.paired_fileOperand _)).bind fun path path' hpath => ?_
  refine (execPaired_read (pace.paired_variableOperand _)).bind ?_
  rintro target _ rfl
  refine (execPaired_read (pace.paired_dimensionOperand _)).bind ?_
  rintro rows _ rfl
  refine (execPaired_read (pace.paired_dimensionOperand _)).bind ?_
  rintro cols _ rfl
  refine pace.exec_of_near (paired_get_bind fun m m' h => ?_)
  rw [h.limits_eq]
  refine (execPaired_ofExcept _ pace.stop_of_near).bind fun _ _ _ => ?_
  refine (execPaired_loadMatrix hpath rows cols pace.stop_of_near).bind ?_
  rintro value _ rfl
  exact execPaired_assign target value

theorem exec_save :
    pace.Runs control (pace.Before Command.save.operandRoles n) n save save := by
  refine (execPaired_read (pace.paired_variableOperand _)).bind ?_
  rintro source _ rfl
  refine (execPaired_read (pace.paired_fileOperand _)).bind fun path path' hpath => ?_
  refine pace.exec_of_near ((execPaired_bound source pace.stop_of_near).bind ?_)
  rintro m _ rfl
  exact execPaired_emit hpath _ pace.stop_of_near

theorem exec_print :
    pace.Runs control (pace.Before Command.print.operandRoles n) n print print := by
  refine (execPaired_read (pace.paired_variableOperand _)).bind ?_
  rintro source _ rfl
  refine pace.exec_of_near ((execPaired_bound source pace.stop_of_near).bind ?_)
  rintro m _ rfl
  exact execPaired_emit (.refl _) _ pace.stop_of_near

theorem exec_tridiag :
    pace.Runs control (pace.Before Command.tridiag.operandRoles n) n tridiag tridiag := by
  refine (execPaired_read (pace.paired_variableOperand _)).bind ?_
  rintro source _ rfl
  refine (execPaired_read (pace.paired_fileOperand _)).bind fun values values' hvalues => ?_
  refine (execPaired_read (pace.paired_fileOperand _)).bind fun vectors vectors' hvectors => ?_
  refine pace.exec_of_near ((execPaired_bound source pace.stop_of_near).bind ?_)
  rintro m _ rfl
  refine (execPaired_diagonalize m pace.stop_of_near).bind ?_
  rintro eigen _ rfl
  refine (execPaired_note _ _ _ _).bind fun _ _ _ => ?_
  refine (execPaired_emit hvalues _ pace.stop_of_near).bind fun _ _ _ => ?_
  exact execPaired_emit hvectors _ pace.stop_of_near

theorem exec_compocor :
    pace.Runs control (pace.Before Command.compocor.operandRoles n) n compocor compocor := by
  refine (execPaired_read (pace.paired_variableOperand _)).bind ?_
  rintro tableName _ rfl
  refine (execPaired_read (pace.paired_variableOperand _)).bind ?_
  rintro vectorsName _ rfl
  refine (execPaired_read (pace.paired_variableOperand _)).bind ?_
  rintro valuesName _ rfl
  refine (execPaired_read (pace.paired_fileOperand _)).bind fun first first' hfirst => ?_
  refine (execPaired_read (pace.paired_fileOperand _)).bind fun second second' hsecond => ?_
  refine (execPaired_read (pace.paired_fileOperand _)).bind fun third third' hthird => ?_
  refine (execPaired_read pace.paired_labelFiles).bind ?_
  rintro labelPaths _ rfl
  -- From here on nothing is read any more.
  refine (execPaired_bound tableName pace.stop_of_near).bind ?_
  rintro table _ rfl
  refine (execPaired_bound valuesName pace.stop_of_near).bind ?_
  rintro values _ rfl
  refine (execPaired_read (readPaired_ofMatrix _ pace.stop_of_near)).bind ?_
  rintro inertia _ rfl
  refine (execPaired_bound vectorsName pace.stop_of_near).bind ?_
  rintro vectors _ rfl
  refine (execPaired_read (readPaired_ofMatrix _ pace.stop_of_near)).bind ?_
  rintro analysis _ rfl
  refine (execPaired_pointLabels table labelPaths pace.stop_of_near).bind ?_
  rintro labels _ rfl
  refine (execPaired_emit (.refl _) _ pace.stop_of_near).bind fun _ _ _ => ?_
  refine (execPaired_note _ _ _ _).bind fun _ _ _ => ?_
  refine (execPaired_emit hfirst _ pace.stop_of_near).bind fun _ _ _ => ?_
  refine (execPaired_note _ _ _ _).bind fun _ _ _ => ?_
  refine (execPaired_emit hsecond _ pace.stop_of_near).bind fun _ _ _ => ?_
  refine (execPaired_note _ _ _ _).bind fun _ _ _ => ?_
  exact execPaired_emit hthird _ pace.stop_of_near

theorem exec_supplementary (command : Command) (kind : PointKind) :
    pace.Runs control (pace.Before [.other, .other, .other, .file] n) n
      (supplementary command kind) (supplementary command kind) := by
  refine (execPaired_read (pace.paired_variableOperand _)).bind ?_
  rintro pointsName _ rfl
  refine (execPaired_read (pace.paired_variableOperand _)).bind ?_
  rintro coordinatesName _ rfl
  refine (execPaired_read (pace.paired_variableOperand _)).bind ?_
  rintro valuesName _ rfl
  refine (execPaired_read (pace.paired_fileOperand _)).bind fun path path' hpath => ?_
  refine pace.exec_of_near ((execPaired_bound pointsName pace.stop_of_near).bind ?_)
  rintro points _ rfl
  refine (execPaired_bound coordinatesName pace.stop_of_near).bind ?_
  rintro coordinates _ rfl
  refine (execPaired_bound valuesName pace.stop_of_near).bind ?_
  rintro values _ rfl
  refine (execPaired_read (readPaired_ofMatrix _ pace.stop_of_near)).bind ?_
  rintro projected _ rfl
  refine (execPaired_note _ _ _ _).bind fun _ _ _ => ?_
  exact execPaired_emit hpath _ pace.stop_of_near

end Pacing

end MatrixScript
