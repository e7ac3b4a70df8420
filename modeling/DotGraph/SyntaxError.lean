import DotGraph.Token

/-!
# Syntax errors

What can be wrong with a source text, as causes. The wording is in `DotGraph.Error`.
-/

namespace DotGraph

/-- What the grammar asks for at a place. -/
inductive Wanted
  | graphKeyword | identifier | quotedText | openBrace | closeBrace | openBracket | closeBracket
deriving DecidableEq

/-- A lexeme that is `none` stands for the end of the input. -/
inductive SyntaxFault
  | unterminatedComment
  | unterminatedQuoted
  | unterminatedHtml
  | unexpectedChar (c : Char)
  | unexpected (wanted : Wanted) (found : Option Lexeme)
  | keywordAsIdent (text : String)
deriving DecidableEq

structure SyntaxError where
  position : Position
  fault : SyntaxFault
deriving DecidableEq

end DotGraph
