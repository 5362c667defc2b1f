import MatrixScript.Script.Statement

/-!
# Control flow

Jumps, conditions and loops. A script is never parsed as a whole: a block whose condition fails is
passed over token by token to the keyword that closes it, and a loop goes back to the place of its
`while`.
-/

namespace MatrixScript

namespace Flow

/-- The commands that open and close a block. -/
structure Block where
  opening : Command
  closing : Command
  unclosed : FlowError

def Block.ifBlock : Block := ⟨.ifBlock, .endIf, .ifWithoutEndif⟩

def Block.whileBlock : Block := ⟨.whileBlock, .endWhile, .whileWithoutEndwhile⟩

/-- Passes over the rest of a block in which `depth` more blocks of its kind are open, reading at most
`bound` tokens. The text of a remark is passed over unread. -/
def skipFrom (block : Block) : (bound depth : Nat) → ReadM Unit
  | 0, _ => throw (.flow block.unclosed)
  | bound + 1, depth => do
    let token ← Reader.next
    match token.kind with
    | .delimiter .endOfScript => throw (.flow block.unclosed)
    | .command command =>
      if command = .rem then
        let _ ← Reader.skipLine
        skipFrom block bound depth
      else if command = block.opening then skipFrom block bound (depth + 1)
      else if command = block.closing then
        match depth with
        | 0 => pure ()
        | depth + 1 => skipFrom block bound depth
      else skipFrom block bound depth
    | _ => skipFrom block bound depth

def skip (block : Block) : ReadM Unit := do
  skipFrom block (← get).lexer.tokenBound 0

def goto : ExecM Unit := do
  let token ← (Reader.next : ReadM Token)
  if token.endsStatement then
    (Reader.refuse (.missingOperand .goto .label) : ReadM Unit)
  else
    match (← get).labels.find? token.lexeme with
    | none => throw (.flow (.unknownLabel token.lexeme))
    | some label =>
      Reader.note .debug
        s!"line {token.start.line}: goto {token.lexeme} (line {label.target.line})"
      Reader.seek label.target

def ifStatement : ExecM Unit := do
  let holds ← Expression.condition (← Statement.env)
  if holds then pure () else skip .ifBlock

/-- Opens the loop of the `while` at a place. -/
def pushLoop (start : Cursor) : ExecM Unit := do
  let machine ← get
  match machine.loops.push start with
  | .error e => throw (.flow e)
  | .ok loops => set { machine with loops := loops }

/-- Closes the innermost loop, with the place of its `while`. -/
def popLoop : ExecM Cursor := do
  let machine ← get
  match machine.loops.pop with
  | .error e => throw (.flow e)
  | .ok (marker, loops) =>
    set { machine with loops := loops }
    pure marker

/-- The command `while condition`, its word being at `start`. -/
def whileStatement (start : Cursor) : ExecM Unit := do
  pushLoop start
  let depth := (← get).loops.depth
  Reader.note .trace s!"line {start.line}: while, {depth} open loop(s)"
  let holds ← Expression.condition (← Statement.env)
  if holds then pure ()
  else
    let _ ← popLoop
    skip .whileBlock

def endWhile : ExecM Unit := do
  let marker ← popLoop
  let line := (← get).reader.lexer.line
  Reader.note .debug s!"line {line}: back to while at line {marker.line}"
  Reader.seek marker

end Flow

end MatrixScript
