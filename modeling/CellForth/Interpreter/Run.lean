import CellForth.Interpreter.Words
import CellForth.Lexeme

/-!
# Running lines, words and the read loop

Lines are made of words, words can interpret lines (`evaluate`) or read them from the channel
(`quit`), and so on inward. Everything that one line does is defined here over `nested`, which
interprets the lines inside it; `interpretAt` closes the circle by counting the levels.

* `tokenWith` runs one token, over the run of the token that `execute` takes from the data
  stack. Each `execute` takes a cell, so `executeWith` counts the cells.
* `nextWordWith` runs the next word of the line and then the rest of it. Each word takes a byte
  at least, so `lineWith` counts the bytes.
* `takeLineWith` takes a line off the channel, interprets it and reads on. `readLoopWith` counts
  the lines.
* `within` puts a line in place of the one at hand, runs it, and puts back the cursor and the
  return stack, however the run ended.

Each level of lines has a cell of its own on the return stack, and the stack is only emptied
when the read loop has taken a line for good. So for host words that leave the return stack
alone the levels that `interpret`, `execute`, `executeWord` and `quit` provide (`levels`) are
enough. A count that is used up stops the run with `Stop.tooDeep`, and nothing else does.
-/

namespace CellForth.Interpreter

/-- What is written when a line was done. -/
def prompt : String := " ok\n"

/-- A loop: each turn says what to do when the turns after it are given. The count is that of the
turns. -/
def turns (turn : Run Flow → Run Flow) : Nat → Run Flow
  | 0 => throw .tooDeep
  | n + 1 => turn (turns turn n)

/-! ## The read loop -/

/-- Reports a fault and empties both stacks. -/
def recover (f : Fault) : Run Unit := do
  onChannel (Channel.report f.report)
  resetMachine

/-- Goes on with `next` after a run: by way of `done` if the run came to its end, and after
recovering from a fault that is not fatal. A run that leaves ends here. -/
def recovering (act : Run Flow) (done : Run Unit) (next : Run Flow) : Run Flow := do
  match ← attempt act with
  | .ok .proceed => do
    done
    next
  | .ok .exit => pure .exit
  | .error (.fault f) =>
    if f.isFatal then throw (.fault f)
    else do
      recover f
      next
  | .error .tooDeep => throw .tooDeep

/-- Takes a line off the channel, interprets it, prompts and goes on with `next`; ends when there
is no line left. -/
def takeLineWith (nested : String → Run Flow) (next : Run Flow) : Run Flow := do
  match ← onChannel Channel.read with
  | none => pure .proceed
  | some line => recovering (nested line) (onChannel (Channel.write prompt)) next

/-- Takes lines off the channel and interprets them until there are none left or one leaves. -/
def readLoopWith (nested : String → Run Flow) : Run Flow := do
  turns (takeLineWith nested) ((← view (·.channel.unread.length)) + 1)

/-- Writes a prompt and reads on. -/
def quitWith (nested : String → Run Flow) : Run Flow := do
  onChannel (Channel.write prompt)
  readLoopWith nested

/-! ## One token -/

/-- Takes a text and interprets it. -/
def evaluateWith (nested : String → Run Flow) : Run Flow := do
  match ← onMachine Machine.pop with
  | .text line => nested line
  | _ => refuse .textRequired "evaluate"

/-- A word after which the line goes on. -/
def thenProceed (act : Run Unit) : Run Flow := do
  act
  pure .proceed

/-- Runs a token, over the run of the token that `execute` takes. -/
def tokenWith (nested : String → Run Flow) (execute : Token → Run Flow) : Token → Run Flow
  | .host word => do
    mark (.began (.host word))
    thenProceed (callHost word)
  | .builtin word => do
    mark (.began (.builtin word))
    match word with
    | .depth => thenProceed (onMachine (Machine.onData Stack.pushDepth))
    | .dup => thenProceed (onMachine (Machine.onData Stack.dup))
    | .drop => thenProceed (onMachine (Machine.onData Stack.drop))
    | .swap => thenProceed (onMachine (Machine.onData Stack.swap))
    | .copyBelow => thenProceed (onMachine (Machine.onData Stack.copyBelow))
    | .pick => thenProceed (onMachine (Machine.onData Stack.pick))
    | .plus => thenProceed (onMachine (Machine.compute .sum))
    | .minus => thenProceed (onMachine (Machine.compute .difference))
    | .star => thenProceed (onMachine (Machine.compute .product))
    | .slash => thenProceed (onMachine (Machine.compute .quotient))
    | .store => thenProceed (onMachine Machine.store)
    | .fetch => thenProceed (onMachine Machine.fetch)
    | .allocate => thenProceed (onMachine Machine.reserve)
    | .cellPlus => thenProceed (onMachine Machine.cellPlus)
    | .find => thenProceed find
    | .tick => thenProceed tick
    | .execute => do
      match ← onMachine Machine.pop with
      | .token t => execute t
      | _ => refuse .tokenRequired "execute"
    | .evaluate => evaluateWith nested
    | .quit => quitWith nested
    | .bye => pure .exit
    | .dot => thenProceed dot
    | .dotS => thenProceed dotS
    | .dotQuote => thenProceed dotQuote
    | .emit => thenProceed emit
    | .cr => thenProceed cr
    | .bl => thenProceed bl
    | .words => thenProceed words
    | .sQuote => thenProceed sQuote

/-- Runs a token. The count is one more than that of the cells of the data stack, which
`execute` takes its tokens from. -/
def executeWith (nested : String → Run Flow) : Nat → Token → Run Flow
  | 0, _ => throw .tooDeep
  | n + 1, t => tokenWith nested (executeWith nested n) t

/-- Runs a token on the data stack at hand. -/
def executeTokenWith (nested : String → Run Flow) (t : Token) : Run Flow := do
  executeWith nested ((← view (·.machine.data.depth)) + 1) t

/-! ## One line -/

/-- Runs the word with a name. -/
def executeWordWith (nested : String → Run Flow) (name : String) : Run Flow := do
  executeTokenWith nested (← tokenOf name)

/-- Runs one word of a line: a number goes on the data stack, a name is run. -/
def wordWith (nested : String → Run Flow) (word : String) : Run Flow := do
  match Lexeme.classify word with
  | .ok (.number n) => thenProceed (onMachine (Machine.push (.int n)))
  | .ok (.name name) => executeWordWith nested name
  | .error f => throw (.fault f)

/-- Runs the next word of the line and goes on with `next`, unless the word leaves; ends when
there is no word left. -/
def nextWordWith (nested : String → Run Flow) (next : Run Flow) : Run Flow := do
  match ← readWord Byte.space with
  | none => pure .proceed
  | some word =>
    match ← wordWith nested word with
    | .exit => pure .exit
    | .proceed => next

/-- Runs the line at hand. -/
def lineWith (nested : String → Run Flow) : Run Flow := do
  turns (nextWordWith nested) ((← view (·.cursor.rest.length)) + 1)

/-- Puts a line in place of the one at hand, and returns what `leave` needs to go back: the
depth of the return stack and the cursor. -/
def enter (line : String) : Run (Nat × Cursor) := do
  let depth ← onMachine Machine.nest
  let saved ← exchangeCursor (Cursor.ofString line)
  mark (.entered (← view (·.machine.returns.depth)))
  pure (depth, saved)

/-- Goes back to the line that was at hand. -/
def leave (depth : Nat) (saved : Cursor) : Run Unit := do
  onMachine (modify (Machine.unnest depth))
  discard (exchangeCursor saved)
  mark (.left (← view (·.machine.returns.depth)))

/-- Runs `body` with a line in place of the one at hand. -/
def within (line : String) (body : Run Flow) : Run Flow := do
  let (depth, saved) ← enter line
  let result ← attempt body
  leave depth saved
  resume result

/-- Interprets a line in place of the one at hand. -/
def interpretWith (nested : String → Run Flow) (line : String) : Run Flow :=
  within line (lineWith nested)

/-! ## All levels -/

/-- Interprets a line with so many levels of lines, itself included. -/
def interpretAt : Nat → String → Run Flow
  | 0, _ => throw .tooDeep
  | n + 1, line => interpretWith (interpretAt n) line

/-- The levels kept in reserve for host words that take cells off the return stack. -/
def spareLevels : Nat := 4096

/-- The levels provided for a run: one for each cell of the return stack, and that again for
each line that the read loop may take, since it can empty the stack after it. -/
def levels (s : Interpreter) : Nat :=
  (s.channel.unread.length + 1) * (s.machine.returns.capacity + 1) + spareLevels

/-- Interprets a line. -/
def interpret (line : String) : Run Flow := do
  interpretAt (← view levels) line

/-- Runs a token. -/
def execute (t : Token) : Run Flow := do
  executeTokenWith (interpretAt (← view levels)) t

/-- Runs the word with a name. -/
def executeWord (name : String) : Run Flow := do
  executeWordWith (interpretAt (← view levels)) name

/-- Prompts, and interprets the lines of the channel. -/
def quit : Run Flow := do
  quitWith (interpretAt (← view levels))

end CellForth.Interpreter
