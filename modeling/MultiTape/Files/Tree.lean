import MultiTape.Error

/-
  This file defines a tree of files and directories, and where a
  path leads in it.

  Key definitions include:
    * `FileTree`
    * `FileTree.resolve`
    * `FileTree.read`
-/

namespace MultiTape

/- A file with its bytes, or a directory in the order of its listing. -/
inductive FileTree where
  | file (bytes : ByteArray)
  | directory (entries : List (String × FileTree))
  deriving Inhabited

namespace FileTree

/- A directory without entries. -/
def empty : FileTree :=
  directory []

/- The bytes that a name in a path may have. -/
def maxNameBytes : Nat :=
  255

/- The bytes that a path may have. -/
def maxPathBytes : Nat :=
  4095

------------------------------------------------------------
-- Paths
------------------------------------------------------------

/- The names in a path, between its slashes. -/
def splitPath : List Char → List (List Char)
  | [] => [[]]
  | c :: cs =>
      if c = '/' then
        [] :: splitPath cs
      else
        match splitPath cs with
        | [] => [[c]]
        | name :: names => (c :: name) :: names

/-
  Follow names from a directory, of which the directories above
  are known. Nothing is known outside of the tree, where all
  directories are empty.
-/
def walk
    (above : List FileTree)
    (here : FileTree) : List String → Except FileFault FileTree
  | [] => .ok here
  | name :: names =>
      match here with
      | file _ => .error .notDirectory
      | directory entries =>
          if name = "" ∨ name = "." then
            walk above here names
          else if name = ".." then
            walk above.tail (above.headD empty) names
          else if name.utf8ByteSize > maxNameBytes then
            .error .nameTooLong
          else
            match entries.find? fun e => e.1 = name with
            | none => .error .missing
            | some (_, next) => walk (here :: above) next names

/- Where a path leads from the root of a tree. -/
def resolve
    (root : FileTree)
    (path : String) : Except FileFault FileTree :=
  if Char.ofNat 0 ∈ path.toList then
    .error .nulInPath
  else if path.utf8ByteSize > maxPathBytes then
    .error .nameTooLong
  else
    match path.toList with
    | [] => .error .missing
    | '/' :: rest => walk [] empty ((splitPath rest).map String.ofList)
    | cs => walk [] root ((splitPath cs).map String.ofList)

/- The bytes of the file at a path. -/
def read
    (root : FileTree)
    (path : String) : Except FileFault ByteArray := do
  match ← root.resolve path with
  | file bytes => return bytes
  | directory _ => throw .isDirectory

end FileTree

end MultiTape
