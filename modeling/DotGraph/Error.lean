import DotGraph.Charset
import DotGraph.SyntaxError
import DotGraph.Text.Seconds
import DotGraph.Text.Visible

/-!
# Errors

Everything that can go wrong, as causes, with the wording of each in one place.
-/

namespace DotGraph

/-- What a loosely typed operation asks for. -/
inductive Expected
  | attributeValue | node | edge | subgraph | graphKind
deriving DecidableEq

/-- The kinds of loosely typed values. -/
inductive ValueKind
  | text | integer | float | boolean | node | edge | subgraph
deriving DecidableEq

/-- What the file system refuses. -/
inductive FileFault
  | notFound | notDirectory | isDirectory | nameTooLong
  | nulInPath
  | notRegular
  | noFileName (path : String)
  | notUtf8
deriving DecidableEq

/-- Why a layout program gave no drawing. Times are in milliseconds. -/
inductive LaunchFault
  | notInTable
  | notFound (path : String)
  | notExecutable (path : String)
  | notStarted (path : String) (fault : FileFault)
  | nulInExecutable (path : String)
  | exited (status : Nat)
  | killed
  | timedOut (limit : Nat)
deriving DecidableEq

inductive DotError
  | mismatch (expected : Expected) (found : ValueKind)
  | source (error : SyntaxError)
  | undecodable (charset : Charset) (offset : Nat)
  | unencodable (charset : Charset) (c : Char)
  | unknownCharset (label : String)
  | unknownFormat (name : String)
  | launch (program : String) (fault : LaunchFault) (diagnostics : String)
  | file (fault : FileFault)
deriving DecidableEq

def Expected.message : Expected → String
  | attributeValue => "attribute value"
  | node => "node"
  | edge => "edge"
  | subgraph => "subgraph"
  | graphKind => "\"graph\" or \"digraph\""

def ValueKind.message : ValueKind → String
  | text => "string"
  | integer => "integer"
  | float => "float"
  | boolean => "bool"
  | node => "node"
  | edge => "edge"
  | subgraph => "subgraph"

def FileFault.message : FileFault → String
  | notFound => "No such file or directory (os error 2)"
  | notDirectory => "Not a directory (os error 20)"
  | isDirectory => "Is a directory (os error 21)"
  | nameTooLong => "File name too long (os error 36)"
  | nulInPath => "file name contained an unexpected NUL byte"
  | notRegular => "the source path is neither a regular file nor a symlink to a regular file"
  | noFileName path => "shape file has no file name: " ++ path
  | notUtf8 => "stream did not contain valid UTF-8"

def LaunchFault.message (program : String) : LaunchFault → String
  | notInTable => "program '" ++ program ++ "' is not in the executable table"
  | notFound path => "executable not found: " ++ path
  | notExecutable path => "not an executable file: " ++ path
  | notStarted path fault => "failed to start " ++ path ++ ": " ++ fault.message
  | nulInExecutable path => "failed to start " ++ path ++ ": nul byte found in provided data"
  | exited status => "exited with status " ++ toString status
  | killed => "terminated by signal"
  | timedOut limit => "timed out after " ++ Text.seconds limit ++ "s"

def Wanted.message : Wanted → String
  | graphKeyword => "'graph' or 'digraph'"
  | identifier => "identifier"
  | quotedText => "quoted string after '+'"
  | openBrace => (Lexeme.symbol .openBrace).describe
  | closeBrace => (Lexeme.symbol .closeBrace).describe
  | openBracket => (Lexeme.symbol .openBracket).describe
  | closeBracket => (Lexeme.symbol .closeBracket).describe

def SyntaxFault.message : SyntaxFault → String
  | unterminatedComment => "unterminated comment"
  | unterminatedQuoted => "unterminated quoted string"
  | unterminatedHtml => "unterminated HTML string"
  | unexpectedChar c => "unexpected character " ++ Text.quoteChar c
  | unexpected wanted found =>
    "expected " ++ wanted.message ++ ", found " ++
      (match found with
        | some x => x.describe
        | none => "end of input")
  | keywordAsIdent text =>
    "keyword '" ++ text ++ "' cannot be used as an identifier; quote it"

def SyntaxError.message (e : SyntaxError) : String :=
  "parse error at line " ++ toString e.position.line ++ ", column " ++
    toString e.position.column ++ ": " ++ e.fault.message

def DotError.message : DotError → String
  | mismatch expected found =>
    "type error: expected " ++ expected.message ++ ", found " ++ found.message
  | source error => error.message
  | undecodable charset offset =>
    "cannot decode input as " ++ charset.label ++ ": invalid byte at offset " ++ toString offset
  | unencodable charset c => "cannot encode " ++ Text.quoteChar c ++ " as " ++ charset.label
  | unknownCharset label => "unknown charset: " ++ label
  | unknownFormat name => "unknown output format: " ++ name
  | launch program fault _ => program ++ ": " ++ fault.message program
  | file fault => fault.message

end DotGraph
