/-!
# Excerpts

Spans of a source text, and reports that show the line of a span with marks below it.
-/

namespace DotGraph

/-- A stretch of a text: what is left of the text at its start and at its end. -/
structure Span where
  start : List Char
  stop : List Char

namespace Span

/-- The span of the next character. -/
def next (rest : List Char) : Span := ⟨rest, rest.drop 1⟩

def byteCount (cs : List Char) : Nat := cs.foldl (fun n c => n + c.utf8Size) 0

/-- The number of bytes in a span. -/
def width (s : Span) : Nat := byteCount (s.start.take (s.start.length - s.stop.length))

/-- The length of the text before a span; the end of a text belongs to its last character. -/
def offset (source : List Char) (s : Span) : Nat :=
  min (source.length - s.start.length) (source.length - 1)

/-- The part of the line before a span. -/
def indentation (source : List Char) (s : Span) : List Char :=
  ((source.take (s.offset source)).reverse.takeWhile (· != '\n')).reverse

/-- The line that a span starts in. -/
def line (source : List Char) (s : Span) : List Char :=
  s.indentation source ++ (source.drop (s.offset source)).takeWhile (· != '\n')

/-- The number of lines before the line of a span. -/
def lineIndex (source : List Char) (s : Span) : Nat :=
  (source.take (s.offset source)).count '\n'

/-- The number of characters before a span on its line. Bytes are counted in front of a character
of more than one byte. -/
def column (source : List Char) (s : Span) : Nat :=
  match s.start with
  | [] => (s.indentation source).length + min source.length 1
  | c :: _ =>
    if c.utf8Size = 1 then (s.indentation source).length else byteCount (s.indentation source)

/-- A message under the line of a span, which is marked up to the end of the line. -/
def report (title : String) (source : List Char) (s : Span) (message : String) : String :=
  let number := toString (s.lineIndex source + 1)
  let column := s.column source
  let line := s.line source
  let repeated (n : Nat) (c : Char) := String.ofList (List.replicate n c)
  let gutter := repeated (number.length + 1) ' ' ++ "|"
  let marks := max 1 (min s.width (byteCount line - column))
  String.intercalate "\n" [
    title ++ " at line " ++ number ++ ", column " ++ toString (column + 1),
    gutter,
    number ++ " | " ++ String.ofList line,
    gutter ++ repeated (column + 1) ' ' ++ repeated marks '^',
    message ++ "\n"]

end Span

end DotGraph
