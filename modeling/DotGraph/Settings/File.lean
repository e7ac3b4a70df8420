import DotGraph.Failure
import DotGraph.FileTree
import DotGraph.Settings

/-!
# Settings files

Finding and loading the settings of a working directory.
-/

namespace DotGraph.Settings

/-- The settings that a text spells, or a failure that shows the line at fault. -/
def ofString (source : String) : Except Failure Settings :=
  (read source).mapError fun complaint =>
    .invalidSettings (complaint.span.report "TOML parse error" source.toList complaint.message)

/-- The settings in a file. -/
def load (tree : FileTree) (path : String) : Except Failure Settings :=
  match tree.read path with
  | .error fault => .error (.during (.readingSettings path) (.file fault))
  | .ok content => match Text.Utf8.decode content with
    | .error _ => .error (.during (.readingSettings path) (.file .notUtf8))
    | .ok text => Failure.within (.settings path) (ofString (String.ofList text))

/-- The settings of the file that is named, or else of the usual file where there is one, or else
the defaults. -/
def discover (tree : FileTree) (path : Option String) : Except Failure Settings :=
  match path with
  | some path => load tree path
  | none => if tree.isFile fileName then load tree fileName else .ok {}

end DotGraph.Settings
