import DotGraph.Error

/-!
# Failures

Why a task on files failed: a cause, and the activities it happened in, outermost first.
-/

namespace DotGraph

inductive Activity
  | parsing (path : String)
  | encoding (path : String)
  | writing (path : String)
  | drawing (path program : String)
  | readingSettings (path : String)
  | settings (path : String)
deriving DecidableEq

def Activity.message : Activity → String
  | parsing path => "Failed to parse " ++ path
  | encoding path => "Failed to encode " ++ path
  | writing path => "Failed to write " ++ path
  | drawing path program => "Failed to render " ++ path ++ " with " ++ program
  | readingSettings path => "Cannot read config file " ++ path
  | settings path => "In " ++ path

inductive Failure
  | error (e : DotError)
  | file (fault : FileFault)
  | overwritesInput (path : String)
  /-- A report shows what is wrong with a settings file. -/
  | invalidSettings (report : String)
  | during (activity : Activity) (cause : Failure)
deriving DecidableEq

namespace Failure

/-- The messages from the outermost activity to the cause. -/
def messages : Failure → List String
  | error e => [e.message]
  | file fault => [fault.message]
  | overwritesInput path => ["Refusing to overwrite the input file " ++ path]
  | invalidSettings report => ["Invalid dotkit configuration", report]
  | during activity cause => activity.message :: cause.messages

def message (f : Failure) : String := String.intercalate ": " f.messages

/-- The error of the model that is the cause, if it is one. -/
def error? : Failure → Option DotError
  | error e => some e
  | during _ cause => cause.error?
  | _ => none

/-- Put an activity around the failure of a result. -/
def within (activity : Activity) (result : Except Failure α) : Except Failure α :=
  result.mapError (during activity)

end Failure

end DotGraph
