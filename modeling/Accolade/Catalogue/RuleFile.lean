import Accolade.Catalogue.Folder
import Accolade.Catalogue.Loader
import Accolade.Yaml.NodeReader

/-!
# Rule files

A catalogue can be kept in a file. What is found under its path decides first: nothing, a
directory, bytes that are no text, or a text. A text that cannot be read as a document and
an empty document are configuration errors that name the path.
-/

namespace Accolade

namespace Catalogue

/-- A configuration error about the file under a path. -/
def fileFailure (path message : String) : Failure :=
  .diagnosed (.configuration message [("path", .text path)])

/-- The failure of a file that cannot be opened. -/
def openFailure (path reason : String) : Failure :=
  fileFailure path ("Cannot read rule document: " ++ reason ++ ": " ++ Text.quoted path)

/-- The failure of a file that cannot be read as a document. -/
def readFailure (path : String) : Yaml.Fault → Failure
  | .malformed => fileFailure path "Invalid YAML in rule document"
  | .undecodable => .undecodable
  | .overflow => .overflow
  | .tooDeep => .tooDeep
  | .tooManyDigits count => .tooManyDigits (some count)
  | fault => .unreadable fault

/-- The document in the file under a path. -/
def readDocument (path : String) : FileContent → Except Failure Value
  | .absent => .error (openFailure path "[Errno 2] No such file or directory")
  | .belowFile => .error (openFailure path "[Errno 20] Not a directory")
  | .directory => .error (openFailure path "[Errno 21] Is a directory")
  | .overlong => .error (openFailure path "[Errno 36] File name too long")
  | .unnameable => .error .unusablePath
  | .bytes content =>
    match Yaml.read (.ofBytes content) with
    | .error fault => .error (readFailure path fault)
    | .ok .null => .error (fileFailure path "Rule document is empty")
    | .ok document => .ok document

/-- Load the catalogue that the file under a path defines. -/
def loadFile (strictness : Strictness) (path : String) (content : FileContent) :
    Except Failure Loaded := do
  load strictness (← readDocument path content)

end Catalogue

end Accolade
