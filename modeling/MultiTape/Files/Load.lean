import MultiTape.Description.Parse
import MultiTape.Files.Tree

/-
  This file loads descriptions from files, one by one or all of a
  directory.

  Key definitions include:
    * `FileTree.load`
    * `FileTree.IsDescriptionFile`
    * `FileTree.loadAll`
-/

namespace MultiTape

------------------------------------------------------------
-- One file
------------------------------------------------------------

namespace Description

/- The description in the bytes of a file, if they could be read. -/
def ofFile
    (path : String) : Except FileFault ByteArray → Except Error Description
  | .error fault => .error (.file path fault)
  | .ok bytes => decode bytes (.file path .encoding)

/- The description in the bytes of standard input. -/
def ofStandardInput
    (bytes : ByteArray) : Except Error Description :=
  decode bytes (.standardInput .encoding)

end Description

namespace FileTree

/- The description in the file at a path. -/
def load
    (root : FileTree)
    (path : String) : Except Error Description :=
  Description.ofFile path (root.read path)

------------------------------------------------------------
-- All files of a directory
------------------------------------------------------------

/- The part of a name after its last dot, unless the name begins with that dot. -/
def extension?
    (name : List Char) : Option (List Char) :=
  let tail := name.reverse.takeWhile (· ≠ '.')
  if tail.length + 1 < name.length then
    some tail.reverse
  else
    none

/- The name of a file that should hold a description. -/
def IsDescriptionName
    (name : String) : Prop :=
  extension? name.toList = some "csv".toList

instance
    (name : String) :
    Decidable (IsDescriptionName name) :=
  inferInstanceAs (Decidable (extension? name.toList = some "csv".toList))

/- The path of an entry of a directory. -/
def joinPath
    (directory name : String) : String :=
  if directory.toList.getLast? = some '/' then
    directory ++ name
  else
    directory ++ "/" ++ name

/- A loaded description with the path that it came from. -/
structure Loaded where
  path : String
  description : Description
  deriving DecidableEq, Repr

/- What the entry at a path holds. -/
def loadEntry
    (root : FileTree)
    (path : String) : Except Error Loaded :=
  match root.load path with
  | .ok d => .ok ⟨path, d⟩
  | .error e => .error (.entry path e)

/- The loaded ones of some results. -/
def loadedOf
    (results : List (Except Error Loaded)) : List Loaded :=
  results.filterMap fun
    | .ok l => some l
    | .error _ => none

/- The errors of some results. -/
def errorsOf
    (results : List (Except Error Loaded)) : List Error :=
  results.filterMap fun
    | .ok _ => none
    | .error e => some e

/- First what was loaded, in the order of paths, then the errors. -/
def arrange
    (results : List (Except Error Loaded)) : List (Except Error Loaded) :=
  ((loadedOf results).mergeSort fun a b => decide (a.path ≤ b.path)).map .ok ++
    (errorsOf results).map .error

/- A path that leads to a directory. -/
def leadsToDirectory
    (root : FileTree)
    (path : String) : Bool :=
  match root.resolve path with
  | .ok (directory _) => true
  | _ => false

/-
  The paths that should hold a description. An entry is told to
  be a directory by its path, so that a path that is too long
  counts as one of a file.
-/
def descriptionPaths
    (root : FileTree)
    (path : String)
    (names : List String) : List String :=
  ((names.filter fun name => decide (IsDescriptionName name)).map (joinPath path)).filter
    fun p => !root.leadsToDirectory p

/-
  All descriptions of a directory. Directories in it and files
  with other names are passed over.
-/
def loadAll
    (root : FileTree)
    (path : String) : List (Except Error Loaded) :=
  match root.resolve path with
  | .error _ => [.error (.missingDirectory path)]
  | .ok (file _) => [.error (.directory path .notDirectory)]
  | .ok (directory entries) =>
      arrange ((root.descriptionPaths path (entries.map Prod.fst)).map root.loadEntry)

end FileTree

end MultiTape
