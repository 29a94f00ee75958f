/-!
# Words that can be run

A `Token` is a word ready to run: one of the built-in words, or a word that the host supplied.
A host word is known by its handle, the number of its definition, so that two definitions of
one name are two words. Running a word says by its `Flow` whether to go on.
-/

namespace CellForth

/-- Whether a run goes on with the next word or leaves for good. -/
inductive Flow where
  | proceed
  | exit
  deriving DecidableEq, Inhabited

/-- The built-in words. -/
inductive Builtin where
  | depth | dup | drop | swap | copyBelow | pick
  | plus | minus | star | slash
  | store | fetch | allocate | cellPlus
  | find | tick | execute | evaluate | quit | bye
  | dot | dotS | dotQuote | emit | cr | bl | words
  | sQuote
  deriving DecidableEq, Inhabited

namespace Builtin

/-- All built-in words. -/
def all : List Builtin :=
  [.depth, .dup, .drop, .swap, .copyBelow, .pick, .plus, .minus, .star, .slash, .store, .fetch,
    .allocate, .cellPlus, .find, .tick, .execute, .evaluate, .quit, .bye, .dot, .dotS, .dotQuote,
    .emit, .cr, .bl, .words, .sQuote]

/-- The name a built-in word has in a new dictionary. -/
def name : Builtin → String
  | .depth => "depth"
  | .dup => "dup"
  | .drop => "drop"
  | .swap => "swap"
  | .copyBelow => "over"
  | .pick => "pick"
  | .plus => "+"
  | .minus => "-"
  | .star => "*"
  | .slash => "/"
  | .store => "!"
  | .fetch => "@"
  | .allocate => "allocate"
  | .cellPlus => "cell+"
  | .find => "find"
  | .tick => "'"
  | .execute => "execute"
  | .evaluate => "evaluate"
  | .quit => "quit"
  | .bye => "bye"
  | .dot => "."
  | .dotS => ".s"
  | .dotQuote => ".\""
  | .emit => "emit"
  | .cr => "cr"
  | .bl => "bl"
  | .words => "words"
  | .sQuote => "s\""

theorem mem_all (b : Builtin) : b ∈ all := by
  cases b <;> decide

end Builtin

/-- A word supplied by the host: the number of its definition, and the name it was given. -/
structure HostWord where
  handle : Nat
  name : String
  deriving DecidableEq

/-- A word ready to run. -/
inductive Token where
  | builtin (word : Builtin)
  | host (word : HostWord)
  deriving DecidableEq

/-- The name a token is shown by. -/
def Token.name : Token → String
  | .builtin b => b.name
  | .host w => w.name

end CellForth
