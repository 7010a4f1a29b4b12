/-!
# Storage

Storage is a tree of directories and files.  A path is resolved name by name, and only
a directory has names below it.  The first name that cannot be resolved decides the
error.  A directory has one entry for a name, so what is put there last replaces what
was there before.
-/

namespace Chip8

inductive ReadError where
  | notFound
  | notDirectory
  | isDirectory
  | nameTooLong
  /-- The path holds a character that ends names. -/
  | brokenName
  /-- A failure that has only a description. -/
  | other (description : String)
deriving DecidableEq

namespace ReadError

def text : ReadError → String
  | .notFound => "No such file or directory (os error 2)"
  | .notDirectory => "Not a directory (os error 20)"
  | .isDirectory => "Is a directory (os error 21)"
  | .nameTooLong => "File name too long (os error 36)"
  | .brokenName => "file name contained an unexpected NUL byte"
  | .other description => description

end ReadError

namespace Storage

inductive Node where
  | file (bytes : List UInt8)
  | directory (entries : List (String × Node))

def put (name : String) (node : Node) : List (String × Node) → List (String × Node)
  | [] => [(name, node)]
  | entry :: rest =>
      if name = entry.1 then (name, node) :: rest else entry :: put name node rest

def nameCapacity : Nat := 255

def pathCapacity : Nat := 4095

/-- Follows names from a node that is reached through `above`, the nearest directory
first.  No name and one dot stay in a directory, and two dots lead to the one above. -/
def follow (node : Node) (above : List Node) : List String → Except ReadError Node
  | [] => .ok node
  | name :: names =>
      match node with
      | .file _ => .error .notDirectory
      | .directory entries =>
          if name = "" ∨ name = "." then follow node above names
          else if name = ".." then
            match above with
            | [] => follow node [] names
            | parent :: ancestors => follow parent ancestors names
          else if nameCapacity < name.utf8ByteSize then .error .nameTooLong
          else
            match entries.lookup name with
            | some child => follow child (node :: above) names
            | none => .error .notFound

end Storage

/-- A tree of files and the names that lead from its root to the directory in which
relative paths begin. -/
structure Storage where
  root : Storage.Node
  workDirectory : List String := []

namespace Storage

def resolve (storage : Storage) (path : String) : Except ReadError Node :=
  if path.toList.contains '\x00' then .error .brokenName
  else if path = "" then .error .notFound
  else if pathCapacity < path.utf8ByteSize then .error .nameTooLong
  else
    let names := path.splitOn "/"
    if path.startsWith "/" then follow storage.root [] names
    else follow storage.root [] (storage.workDirectory ++ names)

def read (storage : Storage) (path : String) : Except ReadError (List UInt8) :=
  match storage.resolve path with
  | .ok (.file bytes) => .ok bytes
  | .ok (.directory _) => .error .isDirectory
  | .error error => .error error

end Storage
end Chip8
