import CellForth.Fault
import CellForth.Stack

/-!
# Inspection

The forms in which cells, stacks and faults are shown to someone who looks for a mistake:
every value says what kind it is, and a text is written with escapes.
-/

namespace CellForth

/-- A character of a quoted text. Quotes, backslashes and control characters are escaped; any
other character stands for itself. -/
def escapeChar (c : Char) : String :=
  if c = '"' then "\\\""
  else if c = '\\' then "\\\\"
  else if c = '\n' then "\\n"
  else if c = '\r' then "\\r"
  else if c = '\t' then "\\t"
  else if c = '\x00' then "\\0"
  else if c.toNat < 0x20 ∨ c.toNat = 0x7F then
    "\\u\x7b" ++ String.ofList (Nat.toDigits 16 c.toNat) ++ "\x7d"
  else c.toString

/-- A text between quotes, with escapes. -/
def quoted (s : String) : String :=
  "\"" ++ String.join (s.toList.map escapeChar) ++ "\""

/-- What a built-in word is called when its name may be a sign. -/
def Builtin.title : Builtin → String
  | .depth => "Depth"
  | .dup => "Dup"
  | .drop => "Drop"
  | .swap => "Swap"
  | .copyBelow => "Over"
  | .pick => "Pick"
  | .plus => "Plus"
  | .minus => "Minus"
  | .star => "Star"
  | .slash => "Slash"
  | .store => "Store"
  | .fetch => "Fetch"
  | .allocate => "Allocate"
  | .cellPlus => "CellPlus"
  | .find => "Find"
  | .tick => "Tick"
  | .execute => "Execute"
  | .evaluate => "Evaluate"
  | .quit => "Quit"
  | .bye => "Bye"
  | .dot => "Dot"
  | .dotS => "DotS"
  | .dotQuote => "DotQuote"
  | .emit => "Emit"
  | .cr => "Cr"
  | .bl => "Bl"
  | .words => "Words"
  | .sQuote => "SQuote"

/-- A token with its kind. -/
def Token.inspect : Token → String
  | .builtin b => "Builtin(" ++ b.title ++ ")"
  | .host w => "Primitive(Primitive(" ++ w.name ++ "))"

/-- A value with its kind. -/
def Value.inspect : Value → String
  | .int n => "Integer(" ++ toString n.toInt ++ ")"
  | .text s => "Text(" ++ quoted s ++ ")"
  | .addr a => "Address(" ++ toString a ++ ")"
  | .token t => "Xt(" ++ t.inspect ++ ")"

/-- The cells of a stack from the bottom. -/
def Stack.inspect (s : Stack) : String :=
  "[" ++ String.intercalate ", " (s.elements.map Value.inspect) ++ "]"

/-- A fault with its message. -/
def Fault.inspect (f : Fault) : String :=
  "Error \x7b " ++ f.message ++ " \x7d"

end CellForth
