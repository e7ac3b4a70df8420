import DotGraph.Error

/-!
# Output formats

The formats that the layout programs can draw in.
-/

namespace DotGraph

def outputFormats : List String :=
  ["canon", "cmap", "cmapx", "cmapx_np", "dia", "dot", "fig", "gd", "gd2", "gif", "hpgl", "imap",
   "imap_np", "ismap", "jpe", "jpeg", "jpg", "json", "json0", "mif", "mp", "pcl", "pdf", "pic",
   "plain", "plain-ext", "png", "ps", "ps2", "svg", "svgz", "tif", "tiff", "vml", "vmlz", "vrml",
   "vtx", "wbmp", "webp", "xdot", "xdot_json", "xlib"]

structure OutputFormat where
  name : String
  known : name ∈ outputFormats
deriving DecidableEq

namespace OutputFormat

def postScript : OutputFormat := ⟨"ps", by decide⟩

/-- The format that a text names, in any case and within blanks. -/
def ofText (text : String) : Except DotError OutputFormat :=
  let name := Text.lower (String.ofList (Text.trim text.toList))
  if known : name ∈ outputFormats then .ok ⟨name, known⟩ else .error (.unknownFormat text)

/-- The argument that asks a layout program for the format. -/
def flag (format : OutputFormat) : String := "-T" ++ format.name

end OutputFormat

end DotGraph
