import DotGraph.Text.Blank

/-!
# Source positions

A position names a character of a source text by byte offset, line and column. It is the
result of stepping over the characters before it, so `advance` splits over concatenation.
-/

namespace DotGraph

/-- The flag `lineStart` says that only blanks stand between the last newline and this place. -/
structure Position where
  offset : Nat := 0
  line : Nat := 1
  column : Nat := 1
  lineStart : Bool := true
deriving DecidableEq

namespace Position

def step (p : Position) (c : Char) : Position :=
  if c = '\n' then ⟨p.offset + c.utf8Size, p.line + 1, 1, true⟩
  else ⟨p.offset + c.utf8Size, p.line, p.column + 1, p.lineStart && Text.isBlank c⟩

/-- The position after the given characters. -/
def advance (p : Position) (cs : List Char) : Position := cs.foldl step p

@[simp] theorem advance_nil (p : Position) : p.advance [] = p := rfl

@[simp] theorem advance_cons (p : Position) (c : Char) (cs : List Char) :
    p.advance (c :: cs) = (p.step c).advance cs := rfl

@[simp] theorem advance_append (p : Position) (cs ds : List Char) :
    p.advance (cs ++ ds) = (p.advance cs).advance ds := List.foldl_append

end Position

end DotGraph
