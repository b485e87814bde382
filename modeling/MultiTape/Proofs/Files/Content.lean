import MultiTape.Files.Load
import Mathlib.Data.List.Forall2

/-
  This file follows paths in a tree of files. It shows that an
  entry of a directory is found at its path, and that a path
  leads to the same in trees that hold the same, in whatever
  order their directories are listed.

  Key definitions include:
    * `FileTree.isDirectory`
    * `FileTree.IsEntryName`
    * `FileTree.SameContent`
    * `FileTree.Lists`

  Main statements:
    * `FileTree.resolve_joinPath`
    * `FileTree.lists_of_isEntryName`
    * `FileTree.SameContent.resolve`
    * `FileTree.SameContent.load_eq`
    * `FileTree.SameContent.exists_resolve_eq_directory`
-/

namespace MultiTape

namespace FileTree

/- What can be listed. -/
def isDirectory : FileTree → Bool
  | file _ => false
  | directory _ => true

------------------------------------------------------------
-- Names And Paths
------------------------------------------------------------

/- A name that an entry of a directory may have. -/
structure IsEntryName
    (name : String) : Prop where
  ne_empty : name ≠ ""
  ne_here : name ≠ "."
  ne_above : name ≠ ".."
  slash_not_mem : '/' ∉ name.toList
  nul_not_mem : Char.ofNat 0 ∉ name.toList
  size_le : name.utf8ByteSize ≤ maxNameBytes

instance
    (name : String) :
    Decidable (IsEntryName name) :=
  decidable_of_iff
    (name ≠ "" ∧ name ≠ "." ∧ name ≠ ".." ∧
      '/' ∉ name.toList ∧ Char.ofNat 0 ∉ name.toList ∧
      name.utf8ByteSize ≤ maxNameBytes)
    ⟨fun ⟨hEmpty, hHere, hAbove, hSlash, hNul, hSize⟩ =>
        ⟨hEmpty, hHere, hAbove, hSlash, hNul, hSize⟩,
      fun ⟨hEmpty, hHere, hAbove, hSlash, hNul, hSize⟩ =>
        ⟨hEmpty, hHere, hAbove, hSlash, hNul, hSize⟩⟩

/- There is a name in every path, if only an empty one. -/
theorem splitPath_ne_nil
    (cs : List Char) :
    splitPath cs ≠ [] := by
  cases cs with
  | nil => simp [splitPath]
  | cons c cs =>
      unfold splitPath
      split
      · simp
      · split <;> simp

/- A path without slashes is one name. -/
theorem splitPath_of_slash_not_mem
    {name : List Char}
    (hName : '/' ∉ name) :
    splitPath name = [name] := by
  induction name with
  | nil => rfl
  | cons c cs ih =>
      rw [List.mem_cons, not_or] at hName
      unfold splitPath
      rw [if_neg (Ne.symm hName.1), ih hName.2]

/- The name after the last slash comes last. -/
theorem splitPath_append_cons
    {name : List Char}
    (hName : '/' ∉ name)
    (cs : List Char) :
    splitPath (cs ++ '/' :: name) = splitPath cs ++ [name] := by
  induction cs with
  | nil =>
      simp [splitPath, splitPath_of_slash_not_mem hName]
  | cons c cs ih =>
      rw [List.cons_append]
      unfold splitPath
      rw [ih]
      split
      · rfl
      · rcases List.exists_cons_of_ne_nil
            (splitPath_ne_nil cs) with
          ⟨first, more, hCons⟩
        rw [hCons]
        rfl

/- What is left of an absolute path after its first slash. -/
def pathBody
    (cs : List Char) : List Char :=
  if cs.head? = some '/' then cs.tail else cs

/- The names in a path. -/
def pathNames
    (cs : List Char) : List String :=
  (splitPath (pathBody cs)).map String.ofList

/- Where a path begins: outside of the tree, if it is absolute. -/
def pathStart
    (root : FileTree)
    (cs : List Char) : FileTree :=
  if cs.head? = some '/' then empty else root

/- A path that is not too long is followed name by name. -/
theorem resolve_eq_walk
    {root : FileTree}
    {path : String}
    (hSome : path.toList ≠ [])
    (hNul : Char.ofNat 0 ∉ path.toList)
    (hSize : path.utf8ByteSize ≤ maxPathBytes) :
    root.resolve path =
      walk [] (pathStart root path.toList)
        (pathNames path.toList) := by
  unfold resolve
  rw [if_neg hNul, if_neg (Nat.not_lt.mpr hSize)]
  split
  · next hNil => exact absurd hNil hSome
  · next rest hAbsolute =>
      rw [hAbsolute]
      rfl
  · next hRelative =>
      have hHead : path.toList.head? ≠ some '/' := by
        intro hSlash
        rcases List.head?_eq_some_iff.mp hSlash with
          ⟨rest, hCons⟩
        exact hRelative rest hCons
      unfold pathStart pathNames pathBody
      rw [if_neg hHead, if_neg hHead]

/- Only a path that is not too long leads anywhere. -/
theorem of_resolve_eq_ok
    {root t : FileTree}
    {path : String}
    (hLeads : root.resolve path = .ok t) :
    path.toList ≠ [] ∧
      Char.ofNat 0 ∉ path.toList ∧
      path.utf8ByteSize ≤ maxPathBytes := by
  unfold resolve at hLeads
  split at hLeads
  · cases hLeads
  · next hNul =>
      split at hLeads
      · cases hLeads
      · next hSize =>
          refine ⟨?_, hNul, Nat.le_of_not_lt hSize⟩
          intro hNil
          rw [hNil] at hLeads
          cases hLeads

/-
  The path of an entry is that of its directory, without the
  slash that may end it, then a slash and the name.
-/
theorem toList_joinPath
    (path name : String) :
    ∃ cs,
      (path.toList = cs ∨ path.toList = cs ++ ['/']) ∧
        (joinPath path name).toList =
          cs ++ '/' :: name.toList := by
  unfold joinPath
  split
  · next hLast =>
      rcases List.getLast?_eq_some_iff.mp hLast with ⟨cs, hCs⟩
      exact ⟨cs, Or.inr hCs, by simp [hCs]⟩
  · exact ⟨path.toList, Or.inl rfl, by simp⟩

/- It is told by the name. -/
theorem joinPath_injective
    {path name other : String}
    (hEq : joinPath path name = joinPath path other) :
    name = other := by
  unfold joinPath at hEq
  split at hEq
  · exact (String.append_right_inj path).mp hEq
  · exact (String.append_right_inj (path ++ "/")).mp hEq

/-
  The names in the path of an entry are those in the path of its
  directory, without the empty name after a slash that ends it,
  and the name of the entry. Both paths begin at the same place.
-/
theorem exists_pathNames_joinPath
    {path name : String}
    (hSome : path.toList ≠ [])
    (hName : '/' ∉ name.toList)
    (root : FileTree) :
    pathStart root (joinPath path name).toList =
        pathStart root path.toList ∧
      ∃ names,
        (pathNames path.toList = names ∨
          pathNames path.toList = names ++ [""]) ∧
          pathNames (joinPath path name).toList =
            names ++ [name] := by
  have hNames :
      ∀ cs,
        (splitPath (cs ++ '/' :: name.toList)).map
            String.ofList =
          (splitPath cs).map String.ofList ++ [name] := by
    intro cs
    rw [splitPath_append_cons hName, List.map_append]
    simp
  have hSlash :
      ∀ cs,
        (splitPath (cs ++ ['/'])).map String.ofList =
          (splitPath cs).map String.ofList ++ [""] := by
    intro cs
    rw [splitPath_append_cons List.not_mem_nil,
      List.map_append]
    rfl
  rcases toList_joinPath path name with ⟨cs, hPath, hJoined⟩
  rw [hJoined]
  unfold pathStart pathNames
  cases cs with
  | nil =>
      rcases hPath with hPath | hPath
      · exact absurd hPath hSome
      · rw [hPath]
        refine ⟨rfl, [], Or.inr rfl, ?_⟩
        simp [pathBody, splitPath_of_slash_not_mem hName]
  | cons c cs =>
      -- The first character is the same in all of these paths.
      have hBody :
          ∀ ds,
            pathBody (c :: cs ++ ds) =
              pathBody (c :: cs) ++ ds := by
        intro ds
        unfold pathBody
        split <;> simp_all
      rcases hPath with hPath | hPath
      · rw [hPath, hBody, hNames]
        exact ⟨rfl, _, Or.inl rfl, rfl⟩
      · rw [hPath, hBody, hBody, hNames, hSlash]
        exact ⟨rfl, _, Or.inr rfl, rfl⟩

------------------------------------------------------------
-- Entries Of A Directory
------------------------------------------------------------

/- An entry is found by its name, if no other one has it. -/
theorem find?_eq_some_of_nodup
    {entries : List (String × FileTree)}
    {e : String × FileTree}
    (hNames : (entries.map Prod.fst).Nodup)
    (hMem : e ∈ entries) :
    entries.find? (fun f => f.1 = e.1) = some e := by
  induction entries with
  | nil => cases hMem
  | cons f fs ih =>
      rw [List.map_cons, List.nodup_cons] at hNames
      rcases List.mem_cons.mp hMem with rfl | hMem
      · exact List.find?_cons_of_pos (decide_eq_true rfl)
      · have hOther : f.1 ≠ e.1 := by
          intro hEq
          rw [hEq] at hNames
          exact hNames.1 (List.mem_map_of_mem hMem)
        rw [List.find?_cons_of_neg (by simpa using hOther)]
        exact ih hNames.2 hMem

/- A name is followed without regard to those after it. -/
theorem walk_cons_cases
    (above : List FileTree)
    (here : FileTree)
    (name : String) :
    (∃ fault, ∀ names,
      walk above here (name :: names) = .error fault) ∨
    ∃ further next, ∀ names,
      walk above here (name :: names) =
        walk further next names := by
  cases here with
  | file bytes => exact Or.inl ⟨_, fun _ => rfl⟩
  | directory entries =>
      simp only [walk]
      split
      · exact Or.inr ⟨_, _, fun _ => rfl⟩
      · split
        · exact Or.inr ⟨_, _, fun _ => rfl⟩
        · split
          · exact Or.inl ⟨_, fun _ => rfl⟩
          · split
            · exact Or.inl ⟨_, fun _ => rfl⟩
            · exact Or.inr ⟨_, _, fun _ => rfl⟩

/- One more name leads to the entry that has it. -/
theorem walk_concat
    {above : List FileTree}
    {here : FileTree}
    {names : List String}
    {entries : List (String × FileTree)}
    {e : String × FileTree}
    (hWalk : walk above here names = .ok (directory entries))
    (hName : IsEntryName e.1)
    (hFind : entries.find? (fun f => f.1 = e.1) = some e) :
    walk above here (names ++ [e.1]) = .ok e.2 := by
  induction names generalizing above here with
  | nil =>
      cases hWalk
      have hSize : ¬ e.1.utf8ByteSize > maxNameBytes :=
        Nat.not_lt.mpr hName.size_le
      simp only [List.nil_append, walk]
      rw [if_neg (not_or.mpr ⟨hName.ne_empty, hName.ne_here⟩),
        if_neg hName.ne_above, if_neg hSize, hFind]
  | cons name names ih =>
      rcases walk_cons_cases above here name with
        ⟨fault, hFault⟩ | ⟨further, next, hNext⟩
      · rw [hFault] at hWalk
        cases hWalk
      · rw [hNext] at hWalk
        rw [List.cons_append, hNext]
        exact ih hWalk

/- An empty name leads nowhere else. -/
theorem walk_of_walk_concat_empty
    {above : List FileTree}
    {here t : FileTree}
    {names : List String}
    (hWalk : walk above here (names ++ [""]) = .ok t) :
    walk above here names = .ok t := by
  induction names generalizing above here with
  | nil =>
      cases here with
      | file bytes => cases hWalk
      | directory entries => exact hWalk
  | cons name names ih =>
      rw [List.cons_append] at hWalk
      rcases walk_cons_cases above here name with
        ⟨fault, hFault⟩ | ⟨further, next, hNext⟩
      · rw [hFault] at hWalk
        cases hWalk
      · rw [hNext] at hWalk
        rw [hNext]
        exact ih hWalk

/-
  An entry of a directory is found at its path, if its name is
  one that entries may have, no other entry has it, and the
  path is not too long.
-/
theorem resolve_joinPath
    {root : FileTree}
    {path : String}
    {entries : List (String × FileTree)}
    {e : String × FileTree}
    (hLeads : root.resolve path = .ok (directory entries))
    (hNames : (entries.map Prod.fst).Nodup)
    (hMem : e ∈ entries)
    (hName : IsEntryName e.1)
    (hSize : (joinPath path e.1).utf8ByteSize ≤ maxPathBytes) :
    root.resolve (joinPath path e.1) = .ok e.2 := by
  rcases of_resolve_eq_ok hLeads with ⟨hSome, hNul, hShort⟩
  rcases toList_joinPath path e.1 with ⟨cs, hPath, hJoined⟩
  have hJoinedSome : (joinPath path e.1).toList ≠ [] := by
    simp [hJoined]
  have hJoinedNul :
      Char.ofNat 0 ∉ (joinPath path e.1).toList := by
    rw [hJoined, List.mem_append, List.mem_cons]
    rintro (hMem | hSlash | hMem)
    · rcases hPath with hPath | hPath
      · exact hNul (hPath ▸ hMem)
      · exact hNul (hPath ▸ List.mem_append_left _ hMem)
    · exact absurd hSlash (by decide)
    · exact hName.nul_not_mem hMem
  rcases
      exists_pathNames_joinPath hSome hName.slash_not_mem
        root with
    ⟨hStart, names, hPathNames, hJoinedNames⟩
  rw [resolve_eq_walk hSome hNul hShort] at hLeads
  rw [resolve_eq_walk hJoinedSome hJoinedNul hSize, hStart,
    hJoinedNames]
  have hFind := find?_eq_some_of_nodup hNames hMem
  rcases hPathNames with hPathNames | hPathNames
  · rw [hPathNames] at hLeads
    exact walk_concat hLeads hName hFind
  · rw [hPathNames] at hLeads
    exact
      walk_concat (walk_of_walk_concat_empty hLeads) hName
        hFind

/-
  A directory as the file system shows it. The path leads to
  it, no two of its entries have the same name, and the path of
  an entry is seen to lead to a directory if the entry is one.
-/
structure Lists
    (root : FileTree)
    (path : String)
    (entries : List (String × FileTree)) : Prop where
  resolve : root.resolve path = .ok (directory entries)
  nodup : (entries.map Prod.fst).Nodup
  seen :
    ∀ e ∈ entries,
      root.leadsToDirectory (joinPath path e.1) =
        e.2.isDirectory

/-
  All directories are shown so whose entries have names of
  their own that entries may have, and whose subdirectories
  have no paths that are too long.
-/
theorem lists_of_isEntryName
    {root : FileTree}
    {path : String}
    {entries : List (String × FileTree)}
    (hLeads : root.resolve path = .ok (directory entries))
    (hNames : (entries.map Prod.fst).Nodup)
    (hValid : ∀ e ∈ entries, IsEntryName e.1)
    (hShort :
      ∀ e ∈ entries,
        e.2.isDirectory = true →
          (joinPath path e.1).utf8ByteSize ≤ maxPathBytes) :
    root.Lists path entries := by
  refine ⟨hLeads, hNames, ?_⟩
  intro e hMem
  unfold leadsToDirectory
  by_cases hSize :
      (joinPath path e.1).utf8ByteSize ≤ maxPathBytes
  · rw [resolve_joinPath hLeads hNames hMem (hValid e hMem)
      hSize]
    cases e.2 <;> rfl
  · -- Nothing is found at a path that is too long.
    have hFile : e.2.isDirectory = false :=
      Bool.eq_false_iff.mpr (mt (hShort e hMem) hSize)
    rw [hFile]
    split
    · next hFound =>
        exact absurd (of_resolve_eq_ok hFound).2.2 hSize
    · rfl

------------------------------------------------------------
-- Trees With The Same Content
------------------------------------------------------------

/-
  Trees with the same files at the same places. Their
  directories may be listed in different orders.
-/
inductive SameContent : FileTree → FileTree → Prop where
  | file (bytes : ByteArray) :
      SameContent (file bytes) (file bytes)
  | directory
      {entries others : List (String × FileTree)}
      (hNames :
        (entries.map Prod.fst).Perm (others.map Prod.fst))
      (hEntries :
        ∀ name t u,
          (name, t) ∈ entries →
            (name, u) ∈ others → SameContent t u) :
      SameContent (directory entries) (directory others)

/- A directory with names of their own may be listed anew. -/
theorem sameContent_of_perm
    {entries others : List (String × FileTree)}
    (hPerm : entries.Perm others)
    (hNames : (entries.map Prod.fst).Nodup)
    (hSame : ∀ e ∈ entries, SameContent e.2 e.2) :
    SameContent (directory entries) (directory others) := by
  refine .directory (hPerm.map Prod.fst) ?_
  intro name t u hLeft hRight
  have hFind := find?_eq_some_of_nodup hNames hLeft
  have hFind' :=
    find?_eq_some_of_nodup hNames (hPerm.mem_iff.mpr hRight)
  rw [hFind] at hFind'
  cases hFind'
  exact hSame _ hLeft

/- What a path leads to is the same, or it fails in the same way. -/
inductive SameOutcome :
    Except FileFault FileTree →
      Except FileFault FileTree → Prop where
  | ok
      {t u : FileTree}
      (hSame : SameContent t u) :
      SameOutcome (.ok t) (.ok u)
  | error (fault : FileFault) :
      SameOutcome (.error fault) (.error fault)

namespace SameContent

/- A directory without entries is the same as itself. -/
theorem empty :
    SameContent FileTree.empty FileTree.empty :=
  .directory .nil fun _ _ _ hMem => by cases hMem

/- A name is found in both of two directories or in none. -/
theorem find?_cases
    {entries others : List (String × FileTree)}
    (hNames :
      (entries.map Prod.fst).Perm (others.map Prod.fst))
    (name : String) :
    (entries.find? (fun e => e.1 = name) = none ∧
        others.find? (fun e => e.1 = name) = none) ∨
      ∃ t u,
        entries.find? (fun e => e.1 = name) =
            some (name, t) ∧
          others.find? (fun e => e.1 = name) =
            some (name, u) := by
  have hFound :
      ∀ (es : List (String × FileTree)),
        name ∈ es.map Prod.fst →
          ∃ t, es.find? (fun e => e.1 = name) =
            some (name, t) := by
    intro es hMem
    rcases List.mem_map.mp hMem with ⟨e, hEntry, rfl⟩
    cases hFind : es.find? (fun f => f.1 = e.1) with
    | none =>
        have hNot := List.find?_eq_none.mp hFind e hEntry
        simp at hNot
    | some f =>
        have hName := List.find?_some hFind
        exact ⟨f.2, by rw [← of_decide_eq_true hName]⟩
  have hMissing :
      ∀ (es : List (String × FileTree)),
        name ∉ es.map Prod.fst →
          es.find? (fun e => e.1 = name) = none := by
    intro es hNot
    rw [List.find?_eq_none]
    intro e hEntry hName
    exact
      hNot
        (of_decide_eq_true hName ▸ List.mem_map_of_mem hEntry)
  by_cases hMem : name ∈ entries.map Prod.fst
  · rcases hFound entries hMem with ⟨t, hLeft⟩
    rcases hFound others (hNames.mem_iff.mp hMem) with
      ⟨u, hRight⟩
    exact Or.inr ⟨t, u, hLeft, hRight⟩
  · exact
      Or.inl
        ⟨hMissing entries hMem,
          hMissing others (mt hNames.mem_iff.mpr hMem)⟩

/- Names lead to the same from directories with the same content. -/
theorem walk
    {above above' : List FileTree}
    {here here' : FileTree}
    (hAbove : List.Forall₂ SameContent above above')
    (hHere : SameContent here here')
    (names : List String) :
    SameOutcome (FileTree.walk above here names)
      (FileTree.walk above' here' names) := by
  induction names generalizing above above' here here' with
  | nil => exact .ok hHere
  | cons name names ih =>
      cases hHere with
      | file bytes => exact .error _
      | directory hNames hEntries =>
          have hHere := SameContent.directory hNames hEntries
          simp only [FileTree.walk]
          split
          · exact ih hAbove hHere
          · split
            · cases hAbove with
              | nil => exact ih .nil empty
              | cons hOver hMore => exact ih hMore hOver
            · split
              · exact .error _
              · rcases find?_cases hNames name with
                  ⟨hLeft, hRight⟩ | ⟨t, u, hLeft, hRight⟩
                · rw [hLeft, hRight]
                  exact .error _
                · rw [hLeft, hRight]
                  have hNext :=
                    hEntries name t u
                      (List.mem_of_find?_eq_some hLeft)
                      (List.mem_of_find?_eq_some hRight)
                  exact ih (.cons hHere hAbove) hNext

section Roots

variable {root other : FileTree}

/- A path leads to the same. -/
theorem resolve
    (hSame : SameContent root other)
    (path : String) :
    SameOutcome (root.resolve path) (other.resolve path) := by
  unfold FileTree.resolve
  split
  · exact .error _
  · split
    · exact .error _
    · split
      · exact .error _
      · exact walk .nil empty _
      · exact walk .nil hSame _

/- A directory is seen where the other tree has one. -/
theorem leadsToDirectory_eq
    (hSame : SameContent root other)
    (path : String) :
    root.leadsToDirectory path =
      other.leadsToDirectory path := by
  have hOutcome := hSame.resolve path
  unfold leadsToDirectory
  generalize root.resolve path = found at hOutcome ⊢
  generalize other.resolve path = found' at hOutcome ⊢
  cases hOutcome with
  | ok hTree => cases hTree <;> rfl
  | error fault => rfl

/- The same bytes are read. -/
theorem read_eq
    (hSame : SameContent root other)
    (path : String) :
    root.read path = other.read path := by
  have hOutcome := hSame.resolve path
  unfold read
  generalize root.resolve path = found at hOutcome ⊢
  generalize other.resolve path = found' at hOutcome ⊢
  cases hOutcome with
  | ok hTree => cases hTree <;> rfl
  | error fault => rfl

/- The same is loaded. -/
theorem load_eq
    (hSame : SameContent root other)
    (path : String) :
    root.load path = other.load path := by
  unfold load
  rw [hSame.read_eq]

/- An entry comes to the same. -/
theorem loadEntry_eq
    (hSame : SameContent root other)
    (path : String) :
    root.loadEntry path = other.loadEntry path := by
  unfold loadEntry
  rw [hSame.load_eq]

/- A directory has the same names in it. -/
theorem exists_resolve_eq_directory
    {path : String}
    {entries : List (String × FileTree)}
    (hSame : SameContent root other)
    (hLeads :
      root.resolve path = .ok (FileTree.directory entries)) :
    ∃ others,
      other.resolve path = .ok (FileTree.directory others) ∧
        (entries.map Prod.fst).Perm
          (others.map Prod.fst) := by
  have hOutcome := hSame.resolve path
  rw [hLeads] at hOutcome
  generalize other.resolve path = found at hOutcome ⊢
  cases hOutcome with
  | ok hTree =>
      cases hTree with
      | directory hNames hEntries => exact ⟨_, rfl, hNames⟩

end Roots

end SameContent

end FileTree

end MultiTape
