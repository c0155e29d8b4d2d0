/-!
# Tokens

The pieces that an expression is made of. The same pieces serve twice: as they stand in the
typed text, and in postfix order, where a call has become one token that says how many
arguments it takes.

A token keeps its text as written. Which operator a text stands for, and whether it stands for
one at all, is decided where the token is used; a list of tokens put together by hand may hold
any text under any kind, and an argument count on tokens that have no use for it.

## Main definitions

* `TokenKind`, `Token`: The kinds of pieces, and a piece.
* `Token.spelling`: How a message names a token.
-/

namespace DeskCalc

/-- The kinds of tokens. -/
inductive TokenKind where
  /-- A number, as digits and points. -/
  | number
  /-- The name of a constant or of a function. -/
  | identifier
  /-- An operator, a bracket or a comma. -/
  | operator
  /-- A character that means nothing in an expression. -/
  | unknown
  /-- A function applied to its arguments, in postfix order only. -/
  | call
  deriving DecidableEq, Repr

/-- A piece of an expression. -/
structure Token where
  /-- What kind of piece it is. -/
  kind : TokenKind
  /-- The piece as written. -/
  text : String
  /-- How many arguments a call takes. -/
  argc : Option Int
  deriving DecidableEq, Repr

namespace Token

/-- A number. -/
def number (text : String) : Token := ⟨.number, text, none⟩

/-- A name. -/
def identifier (text : String) : Token := ⟨.identifier, text, none⟩

/-- An operator, a bracket or a comma. -/
def operator (text : String) : Token := ⟨.operator, text, none⟩

/-- A character without a meaning. -/
def unknown (text : String) : Token := ⟨.unknown, text, none⟩

/-- A call of the named function with so many arguments. -/
def call (name : String) (argc : Nat) : Token := ⟨.call, name, some argc⟩

/-- How a message names a token: by its text, and a call by its argument count too. -/
def spelling (t : Token) : String :=
  match t.kind, t.argc with
  | .call, some n => t.text ++ "/" ++ toString n
  | .call, none => t.text ++ "/None"
  | _, _ => t.text

end Token

end DeskCalc
