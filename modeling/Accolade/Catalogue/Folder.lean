/-!
# Folders

A path leads from the folder in use to a file or a folder, name by name. One dot stays where
it is, two dots go to the folder around. Of the folders around the one in use nothing is
known but that they are there. Every name but the last must be one of a folder, and a slash
behind a name wants a folder as well.
-/

namespace Accolade

/-- What stands under a path. -/
inductive FileContent
  | absent
  | directory
  /-- a name on the way is one of a file -/
  | belowFile
  /-- a name, or the path, is longer than they may be -/
  | overlong
  /-- the path holds a character that no path holds -/
  | unnameable
  | bytes (content : List UInt8)
  deriving Repr

/-- A folder: what stands under its names, where folders inside are empty. -/
abbrev Folder := List (String × FileContent)

namespace Folder

/-- Where a path has led so far. -/
inductive Position
  /-- around the folder in use -/
  | around
  /-- in the folder in use -/
  | here
  /-- at what has a name there -/
  | inside (content : FileContent)

/-- The most bytes of a name. -/
def nameLimit : Nat := 255

/-- The most bytes of a path. -/
def pathLimit : Nat := 4095

/-- The names of a path, with an empty one behind a slash at its end. -/
def namesOf (path : List Char) : List (List Char) :=
  path.foldr (fun c names =>
    match c, names with
    | '/', names => [] :: names
    | c, name :: rest => (c :: name) :: rest
    | c, [] => [[c]]) [[]]

/-- What a name leads to from a position. What is found in place of a folder or a file ends
the way. -/
def step (folder : Folder) (position : Position) (name : String) :
    Except FileContent Position :=
  match position with
  | .inside (.bytes _) => .error .belowFile
  | position =>
    if name.isEmpty || name == "." then .ok position
    else if name == ".." then
      match position with
      | .inside _ => .ok .here
      | _ => .ok .around
    else if nameLimit < name.utf8ByteSize then .error .overlong
    else
      match position, List.find? (fun entry => entry.1 == name) folder with
      | .here, some (_, content) => .ok (.inside content)
      | _, _ => .error .absent

/-- What stands at a position. -/
def content : Position → FileContent
  | .inside content => content
  | _ => .directory

/-- What stands under a path. -/
def find (folder : Folder) (path : String) : FileContent :=
  let characters := path.toList
  if characters.contains '\x00' then .unnameable
  else if pathLimit < path.utf8ByteSize then .overlong
  else if path.isEmpty then .absent
  else
    let start : Position := if characters.head? = some '/' then .around else .here
    match (namesOf characters).foldlM (fun position name =>
        step folder position (String.ofList name)) start with
    | .ok position => content position
    | .error found => found

end Folder

end Accolade
