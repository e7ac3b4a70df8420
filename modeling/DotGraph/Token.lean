import DotGraph.Keyword
import DotGraph.Position

/-!
# Tokens

The words and symbols of a source text, each with its position. A word keeps its text verbatim,
delimiters and escapes included, so the spelling of a token is the slice of the source it covers.
-/

namespace DotGraph

inductive WordKind
  | name | numeral | quoted | html
deriving DecidableEq

inductive Symbol
  | openBrace | closeBrace | openBracket | closeBracket | semicolon | comma | equals | colon | plus
  | arrow | line
deriving DecidableEq

def Symbol.spelling : Symbol → String
  | openBrace => "\x7b"
  | closeBrace => "\x7d"
  | openBracket => "["
  | closeBracket => "]"
  | semicolon => ";"
  | comma => ","
  | equals => "="
  | colon => ":"
  | plus => "+"
  | arrow => "->"
  | line => "--"

inductive Lexeme
  | word (kind : WordKind) (text : String)
  | symbol (symbol : Symbol)
deriving DecidableEq

namespace Lexeme

def spelling : Lexeme → String
  | word _ text => text
  | symbol s => s.spelling

/-- The keyword that a bare name spells. Quoted words are never keywords. -/
def keyword? : Lexeme → Option Keyword
  | word .name text => Keyword.ofText? text
  | _ => none

/-- The name of a lexeme in messages. -/
def describe (x : Lexeme) : String := "'" ++ x.spelling ++ "'"

end Lexeme

structure Token where
  lexeme : Lexeme
  position : Position
deriving DecidableEq

/-- The tokens of a source text and the position of its end. -/
structure Tokens where
  list : List Token
  stop : Position
deriving DecidableEq

end DotGraph
