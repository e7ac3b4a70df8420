import DotGraph.Text.Blank

/-!
# Character sets

The character sets that a graph can be declared in, and the labels that name them.
-/

namespace DotGraph

inductive Charset
  | utf8 | latin1 | ascii
deriving DecidableEq

namespace Charset

/-- The label that messages and graphs use. -/
def label : Charset → String
  | utf8 => "utf-8"
  | latin1 => "latin1"
  | ascii => "us-ascii"

def labels : Charset → List String
  | utf8 => ["utf-8", "utf8"]
  | latin1 =>
    ["latin1", "latin-1", "l1", "iso-8859-1", "iso_8859-1", "iso8859-1", "iso-ir-100"]
  | ascii => ["us-ascii", "ascii"]

/-- The character set that a label names, in any case and within any number of quotes. -/
def ofLabel? (text : String) : Option Charset :=
  let name := Text.lower (String.ofList (Text.strip (· == '"') text.toList))
  [utf8, latin1, ascii].find? (·.labels.contains name)

end Charset

end DotGraph
