import MultiTape.Proofs.Files.Content
import Mathlib.Data.List.Sort

/-
  This file says what comes of loading all descriptions of a
  directory: one result for each file with the right name, the
  loaded ones first and in the order of their paths, then the
  errors. Only the order of the errors depends on the order in
  which the directory is listed.

  Key definitions include:
    * `FileTree.IsDescriptionEntry`
    * `FileTree.describedPaths`
    * `FileTree.precedes`
    * `FileTree.inOrder`

  Main statements:
    * `FileTree.isDescriptionName_iff`
    * `FileTree.arrange_eq_mergeSort`
    * `FileTree.Lists.loadAll_eq`
    * `FileTree.loading_a_directory_ignores_its_listing`
-/

namespace MultiTape

namespace FileTree

------------------------------------------------------------
-- Names Of Descriptions
------------------------------------------------------------

/- What stands after the last dot of a name is its extension. -/
theorem extension?_append_cons
    {stem ext : List Char}
    (hStem : stem ≠ [])
    (hNoDot : '.' ∉ ext) :
    extension? (stem ++ '.' :: ext) = some ext := by
  have hBack :
      (stem ++ '.' :: ext).reverse =
        ext.reverse ++ '.' :: stem.reverse := by
    simp
  have hTail :
      (stem ++ '.' :: ext).reverse.takeWhile (· ≠ '.') =
        ext.reverse := by
    rw [hBack, List.takeWhile_append_of_pos]
    · simp
    · intro c hMem
      have hExt := List.mem_reverse.mp hMem
      exact decide_eq_true fun hDot => hNoDot (hDot ▸ hExt)
  have hLong := List.length_pos_iff.mpr hStem
  unfold extension?
  simp only [hTail]
  rw [if_pos (by simp; omega), List.reverse_reverse]

/- Nothing else is one, nor is what stands after a leading dot. -/
theorem exists_of_extension?_eq_some
    {name ext : List Char}
    (hExt : extension? name = some ext) :
    ∃ stem,
      stem ≠ [] ∧ '.' ∉ ext ∧ name = stem ++ '.' :: ext := by
  have hSplit :=
    List.takeWhile_append_dropWhile
      (p := fun c => decide (c ≠ '.')) (l := name.reverse)
  have hNoDot :
      ∀ c ∈ name.reverse.takeWhile (· ≠ '.'), c ≠ '.' := by
    intro c hMem
    exact
      of_decide_eq_true
        (List.all_eq_true.mp List.all_takeWhile c hMem)
  unfold extension? at hExt
  simp only at hExt
  generalize name.reverse.takeWhile (· ≠ '.') = tail
    at hExt hSplit hNoDot
  split at hExt
  · next hLess =>
      cases hExt
      cases hDrop : name.reverse.dropWhile (· ≠ '.') with
      | nil =>
          rw [hDrop, List.append_nil] at hSplit
          rw [hSplit, List.length_reverse] at hLess
          omega
      | cons c front =>
          have hHead :=
            List.head?_dropWhile_not (· ≠ '.') name.reverse
          rw [hDrop] at hHead
          have hDot : c = '.' := by
            simpa using hHead
          rw [hDrop, hDot] at hSplit
          have hName :
              name = front.reverse ++ '.' :: tail.reverse := by
            rw [← List.reverse_reverse name, ← hSplit]
            simp
          refine ⟨front.reverse, ?_, ?_, hName⟩
          · intro hNil
            rw [hName, hNil] at hLess
            simp at hLess
          · intro hMem
            exact hNoDot '.' (List.mem_reverse.mp hMem) rfl
  · cases hExt

/- Descriptions are in files whose names end so. -/
theorem isDescriptionName_iff
    {name : String} :
    IsDescriptionName name ↔
      ∃ stem, stem ≠ "" ∧ name = stem ++ ".csv" := by
  unfold IsDescriptionName
  constructor
  · intro hExt
    rcases exists_of_extension?_eq_some hExt with
      ⟨stem, hStem, _hNoDot, hName⟩
    refine ⟨String.ofList stem, ?_, ?_⟩
    · intro hEmpty
      exact hStem (by simpa using hEmpty)
    · apply String.toList_inj.mp
      rw [hName]
      simp
  · rintro ⟨stem, hStem, rfl⟩
    have hSome : stem.toList ≠ [] := by
      intro hNil
      exact hStem (by simpa using hNil)
    rw [String.toList_append]
    exact extension?_append_cons hSome (by decide)

------------------------------------------------------------
-- The Order Of Results
------------------------------------------------------------

/-
  A result may stand in front of another one: what was loaded
  in the order of paths and before all errors, which are not
  told apart.
-/
def precedes :
    Except Error Loaded → Except Error Loaded → Bool
  | .ok a, .ok b => decide (a.path ≤ b.path)
  | .ok _, .error _ => true
  | .error _, .ok _ => false
  | .error _, .error _ => true

/- The order is transitive. -/
theorem precedes_trans
    (a b c : Except Error Loaded)
    (hLeft : precedes a b = true)
    (hRight : precedes b c = true) :
    precedes a c = true := by
  cases a with
  | error e =>
      cases b with
      | ok l => cases hLeft
      | error f => cases c with
          | ok l => cases hRight
          | error g => rfl
  | ok l =>
      cases c with
      | error g => rfl
      | ok n =>
          cases b with
          | error f => cases hRight
          | ok m =>
              exact
                decide_eq_true
                  (String.le_trans (of_decide_eq_true hLeft)
                    (of_decide_eq_true hRight))

/- Any two results are in order one way or the other. -/
theorem precedes_total
    (a b : Except Error Loaded) :
    (precedes a b || precedes b a) = true := by
  cases a with
  | error e => cases b <;> rfl
  | ok l =>
      cases b with
      | error f => rfl
      | ok m =>
          simp only [precedes, Bool.or_eq_true,
            decide_eq_true_eq]
          exact String.le_total l.path m.path

@[simp] theorem loadedOf_cons_ok
    (l : Loaded)
    (results : List (Except Error Loaded)) :
    loadedOf (.ok l :: results) = l :: loadedOf results :=
  rfl

@[simp] theorem loadedOf_cons_error
    (e : Error)
    (results : List (Except Error Loaded)) :
    loadedOf (.error e :: results) = loadedOf results :=
  rfl

@[simp] theorem errorsOf_cons_ok
    (l : Loaded)
    (results : List (Except Error Loaded)) :
    errorsOf (.ok l :: results) = errorsOf results :=
  rfl

@[simp] theorem errorsOf_cons_error
    (e : Error)
    (results : List (Except Error Loaded)) :
    errorsOf (.error e :: results) = e :: errorsOf results :=
  rfl

/- One more item is sorted in front of the first that it may precede. -/
theorem mergeSort_cons_eq_orderedInsert
    {α : Type}
    {le : α → α → Bool}
    (hTrans :
      ∀ a b c, le a b = true → le b c = true → le a c = true)
    (hTotal : ∀ a b, (le a b || le b a) = true)
    (a : α)
    (as : List α) :
    (a :: as).mergeSort le =
      (as.mergeSort le).orderedInsert (le · ·) a := by
  rcases List.mergeSort_cons hTrans hTotal a as with
    ⟨before, after, hCons, hRest, hBefore⟩
  have hSorted :=
    List.pairwise_mergeSort hTrans hTotal (a :: as)
  rw [hCons, List.pairwise_append] at hSorted
  have hAfter := (List.pairwise_cons.mp hSorted.2.1).1
  rw [hCons, hRest]
  clear hSorted hRest hCons
  induction before with
  | nil =>
      cases after with
      | nil => rfl
      | cons b bs =>
          exact
            (List.orderedInsert_cons_of_le _ bs
              (hAfter b List.mem_cons_self)).symm
  | cons b bs ih =>
      have hNot : ¬ le a b = true := by
        simpa using hBefore b List.mem_cons_self
      rw [List.cons_append, List.cons_append,
        List.orderedInsert_cons, if_neg hNot,
        ih fun c hMem => hBefore c (List.mem_cons_of_mem b hMem)]

/- What was loaded, in the order of paths. -/
def inOrder
    (loaded : List Loaded) : List Loaded :=
  loaded.mergeSort fun a b => decide (a.path ≤ b.path)

/- It is sorted one by one. -/
theorem inOrder_cons
    (l : Loaded)
    (loaded : List Loaded) :
    inOrder (l :: loaded) =
      (inOrder loaded).orderedInsert
        (fun a b => decide (a.path ≤ b.path)) l :=
  -- The paths are in the order of the results that they belong to.
  mergeSort_cons_eq_orderedInsert
    (fun a b c => precedes_trans (.ok a) (.ok b) (.ok c))
    (fun a b => precedes_total (.ok a) (.ok b)) l loaded

/- Nothing is lost and nothing is added. -/
theorem inOrder_perm
    (loaded : List Loaded) :
    (inOrder loaded).Perm loaded :=
  List.mergeSort_perm _ _

/- An error goes in front of all errors, and of nothing else. -/
theorem orderedInsert_error
    (e : Error)
    (loaded : List Loaded)
    (errors : List Error) :
    (loaded.map Except.ok ++ errors.map Except.error).orderedInsert
        (precedes · ·) (.error e) =
      loaded.map Except.ok ++ (e :: errors).map Except.error := by
  induction loaded with
  | nil => cases errors <;> rfl
  | cons l ls ih =>
      have hNot : ¬ precedes (.error e) (.ok l) = true :=
        Bool.false_ne_true
      rw [List.map_cons, List.cons_append,
        List.orderedInsert_cons, if_neg hNot, ih]
      rfl

/- What was loaded goes in its place in front of the errors. -/
theorem orderedInsert_ok
    (l : Loaded)
    (loaded : List Loaded)
    (errors : List Error) :
    (loaded.map Except.ok ++ errors.map Except.error).orderedInsert
        (precedes · ·) (.ok l) =
      (loaded.orderedInsert
            (fun a b => decide (a.path ≤ b.path)) l).map
          Except.ok ++
        errors.map Except.error := by
  induction loaded with
  | nil => cases errors <;> rfl
  | cons m ms ih =>
      rw [List.map_cons, List.cons_append,
        List.orderedInsert_cons, List.orderedInsert_cons, ih]
      by_cases hPath : l.path ≤ m.path
      · simp [precedes, hPath]
      · simp [precedes, hPath]

/-
  Results are arranged as a stable sort does it, which keeps the
  errors in the order in which they came.
-/
theorem arrange_eq_mergeSort
    (results : List (Except Error Loaded)) :
    arrange results = results.mergeSort precedes := by
  induction results with
  | nil => simp [arrange, loadedOf, errorsOf]
  | cons r rs ih =>
      rw [mergeSort_cons_eq_orderedInsert precedes_trans
        precedes_total, ← ih]
      unfold arrange
      cases r with
      | error e => exact (orderedInsert_error e _ _).symm
      | ok l =>
          change _ =
            ((inOrder (loadedOf rs)).map Except.ok ++
              (errorsOf rs).map Except.error).orderedInsert
                (precedes · ·) (.ok l)
          rw [orderedInsert_ok, ← inOrder_cons]
          rfl

/- The loaded ones and the errors make up arranged results. -/
theorem loadedOf_append_errors
    (loaded : List Loaded)
    (errors : List Error) :
    loadedOf (loaded.map .ok ++ errors.map .error) =
      loaded := by
  induction loaded with
  | nil => induction errors <;> simp_all [loadedOf]
  | cons l ls ih => exact congrArg (l :: ·) ih

theorem errorsOf_append_errors
    (loaded : List Loaded)
    (errors : List Error) :
    errorsOf (loaded.map .ok ++ errors.map .error) =
      errors := by
  induction loaded with
  | nil => induction errors <;> simp_all [errorsOf]
  | cons l ls ih => exact ih

------------------------------------------------------------
-- Paths Of Descriptions
------------------------------------------------------------

/- An entry that should hold a description: a file with such a name. -/
def IsDescriptionEntry
    (e : String × FileTree) : Prop :=
  e.2.isDirectory = false ∧ IsDescriptionName e.1

instance
    (e : String × FileTree) :
    Decidable (IsDescriptionEntry e) :=
  inferInstanceAs (Decidable (_ ∧ _))

/- The paths of the entries that should hold a description. -/
def describedPaths
    (path : String)
    (entries : List (String × FileTree)) : List String :=
  (entries.filter fun e => decide (IsDescriptionEntry e)).map
    fun e => joinPath path e.1

/- They lead to the files of the directory whose names end so. -/
theorem mem_describedPaths_iff
    {path p : String}
    {entries : List (String × FileTree)} :
    p ∈ describedPaths path entries ↔
      ∃ stem bytes,
        stem ≠ "" ∧
          (stem ++ ".csv", file bytes) ∈ entries ∧
          p = joinPath path (stem ++ ".csv") := by
  unfold describedPaths
  simp only [List.mem_map, List.mem_filter, decide_eq_true_eq]
  constructor
  · rintro ⟨⟨name, tree⟩, ⟨hMem, hFile, hName⟩, rfl⟩
    rcases isDescriptionName_iff.mp hName with
      ⟨stem, hStem, rfl⟩
    cases tree with
    | file bytes => exact ⟨stem, bytes, hStem, hMem, rfl⟩
    | directory more => cases hFile
  · rintro ⟨stem, bytes, hStem, hMem, rfl⟩
    exact
      ⟨_, ⟨hMem, rfl,
        isDescriptionName_iff.mpr ⟨stem, hStem, rfl⟩⟩, rfl⟩

section Directory

variable {root : FileTree}
variable {path : String}
variable {entries : List (String × FileTree)}

/- No two of them are the same. -/
theorem Lists.nodup_describedPaths
    (hLists : root.Lists path entries) :
    (describedPaths path entries).Nodup := by
  have hNames :
      ((entries.filter fun e =>
        decide (IsDescriptionEntry e)).map Prod.fst).Nodup :=
    hLists.nodup.sublist (List.filter_sublist.map Prod.fst)
  unfold describedPaths
  unfold List.Nodup at hNames ⊢
  rw [List.pairwise_map] at hNames ⊢
  exact hNames.imp fun hNe hEq => hNe (joinPath_injective hEq)

/- They are the paths that are tried. -/
theorem Lists.descriptionPaths_eq
    (hLists : root.Lists path entries) :
    root.descriptionPaths path (entries.map Prod.fst) =
      describedPaths path entries := by
  unfold descriptionPaths describedPaths
  rw [List.filter_map, List.filter_map, List.filter_map,
    List.map_map, List.filter_filter]
  have hSame :
      ∀ e ∈ entries,
        (!root.leadsToDirectory (joinPath path e.1) &&
            decide (IsDescriptionName e.1)) =
          decide (IsDescriptionEntry e) := by
    intro e hMem
    rw [hLists.seen e hMem, Bool.eq_iff_iff, Bool.and_eq_true,
      decide_eq_true_iff, decide_eq_true_iff,
      Bool.not_eq_true']
    exact Iff.rfl
  exact
    congrArg (List.map fun e => joinPath path e.1)
      (List.filter_congr hSame)

/- So all results are known, and their order. -/
theorem Lists.loadAll_eq
    (hLists : root.Lists path entries) :
    root.loadAll path =
      arrange
        ((describedPaths path entries).map root.loadEntry) := by
  unfold loadAll
  rw [hLists.resolve]
  simp only
  rw [hLists.descriptionPaths_eq]

end Directory

------------------------------------------------------------
-- Results
------------------------------------------------------------

/- The loaded ones of some results are among them. -/
theorem mem_loadedOf_iff
    {l : Loaded}
    {results : List (Except Error Loaded)} :
    l ∈ loadedOf results ↔ .ok l ∈ results := by
  induction results with
  | nil => simp [loadedOf]
  | cons r rs ih =>
      cases r with
      | ok m => simp [ih]
      | error e => simp [ih]

/- So are the errors. -/
theorem mem_errorsOf_iff
    {e : Error}
    {results : List (Except Error Loaded)} :
    e ∈ errorsOf results ↔ .error e ∈ results := by
  induction results with
  | nil => simp [errorsOf]
  | cons r rs ih =>
      cases r with
      | ok m => simp [ih]
      | error f => simp [ih]

/- They are the same for results in another order, in some order. -/
theorem perm_loadedOf
    {results others : List (Except Error Loaded)}
    (hPerm : results.Perm others) :
    (loadedOf results).Perm (loadedOf others) :=
  hPerm.filterMap _

theorem perm_errorsOf
    {results others : List (Except Error Loaded)}
    (hPerm : results.Perm others) :
    (errorsOf results).Perm (errorsOf others) :=
  hPerm.filterMap _

section Results

variable {root : FileTree}
variable {paths : List String}

/- An entry is loaded with its path. -/
theorem loadEntry_eq_ok_iff
    {p : String}
    {l : Loaded} :
    root.loadEntry p = .ok l ↔
      l.path = p ∧ root.load p = .ok l.description := by
  unfold loadEntry
  cases root.load p with
  | ok d =>
      constructor
      · intro hLoaded
        cases hLoaded
        exact ⟨rfl, rfl⟩
      · rintro ⟨rfl, hDescription⟩
        cases hDescription
        rfl
  | error e => simp

/- Or it is reported with its path. -/
theorem loadEntry_eq_error_iff
    {p : String}
    {e : Error} :
    root.loadEntry p = .error e ↔
      ∃ cause,
        root.load p = .error cause ∧ e = .entry p cause := by
  unfold loadEntry
  cases root.load p with
  | ok d => simp
  | error cause => simp [eq_comm]

/- What is loaded is what each of the paths gives. -/
theorem mem_loadedOf_map_loadEntry_iff
    {l : Loaded} :
    l ∈ loadedOf (paths.map root.loadEntry) ↔
      l.path ∈ paths ∧ root.load l.path = .ok l.description := by
  rw [mem_loadedOf_iff, List.mem_map]
  constructor
  · rintro ⟨p, hMem, hLoaded⟩
    rcases loadEntry_eq_ok_iff.mp hLoaded with ⟨rfl, hLoad⟩
    exact ⟨hMem, hLoad⟩
  · rintro ⟨hMem, hLoad⟩
    exact ⟨_, hMem, loadEntry_eq_ok_iff.mpr ⟨rfl, hLoad⟩⟩

/- Each error is about one of the paths. -/
theorem mem_errorsOf_map_loadEntry_iff
    {e : Error} :
    e ∈ errorsOf (paths.map root.loadEntry) ↔
      ∃ p ∈ paths, ∃ cause,
        root.load p = .error cause ∧ e = .entry p cause := by
  rw [mem_errorsOf_iff, List.mem_map]
  simp only [loadEntry_eq_error_iff]

/- No path is loaded twice. -/
theorem nodup_map_path_loadedOf
    (hPaths : paths.Nodup) :
    ((loadedOf (paths.map root.loadEntry)).map
      Loaded.path).Nodup := by
  induction paths with
  | nil => exact List.nodup_nil
  | cons p ps ih =>
      rw [List.nodup_cons] at hPaths
      rw [List.map_cons]
      cases hEntry : root.loadEntry p with
      | error e => exact ih hPaths.2
      | ok l =>
          rw [loadedOf_cons_ok, List.map_cons, List.nodup_cons]
          refine ⟨?_, ih hPaths.2⟩
          rw [(loadEntry_eq_ok_iff.mp hEntry).1]
          intro hMem
          rcases List.mem_map.mp hMem with ⟨m, hLoaded, hPath⟩
          have hAgain :=
            (mem_loadedOf_map_loadEntry_iff.mp hLoaded).1
          exact hPaths.1 (hPath ▸ hAgain)

/- No path is reported twice. -/
theorem nodup_errorsOf
    (hPaths : paths.Nodup) :
    (errorsOf (paths.map root.loadEntry)).Nodup := by
  induction paths with
  | nil => exact List.nodup_nil
  | cons p ps ih =>
      rw [List.nodup_cons] at hPaths
      rw [List.map_cons]
      cases hEntry : root.loadEntry p with
      | ok l => exact ih hPaths.2
      | error e =>
          rw [errorsOf_cons_error, List.nodup_cons]
          refine ⟨?_, ih hPaths.2⟩
          rcases loadEntry_eq_error_iff.mp hEntry with
            ⟨cause, _hLoad, rfl⟩
          intro hMem
          rcases mem_errorsOf_map_loadEntry_iff.mp hMem with
            ⟨q, hAgain, other, _hLoad, hSame⟩
          cases hSame
          exact hPaths.1 hAgain

/- Each path is at most the next. -/
theorem pairwise_le_path_inOrder
    (loaded : List Loaded) :
    (inOrder loaded).Pairwise fun a b => a.path ≤ b.path := by
  have hSorted :=
    List.pairwise_mergeSort
      (fun a b c => precedes_trans (.ok a) (.ok b) (.ok c))
      (fun a b => precedes_total (.ok a) (.ok b)) loaded
  exact hSorted.imp fun hPath => of_decide_eq_true hPath

/- If no path is there twice, each is below the next. -/
theorem pairwise_lt_map_path_inOrder
    {loaded : List Loaded}
    (hPaths : (loaded.map Loaded.path).Nodup) :
    ((inOrder loaded).map Loaded.path).Pairwise (· < ·) := by
  have hPerm := (inOrder_perm loaded).map Loaded.path
  have hNodup := hPerm.nodup_iff.mpr hPaths
  have hSorted := pairwise_le_path_inOrder loaded
  unfold List.Nodup at hNodup
  rw [List.pairwise_map] at hNodup ⊢
  exact
    (hSorted.and hNodup).imp fun hBoth =>
      Std.lt_of_le_of_ne hBoth.1 hBoth.2

/-
  What was loaded from the same paths in another order is
  sorted into the same list, since a path tells what it gives.
-/
theorem inOrder_loadedOf_eq_of_perm
    {others : List String}
    (hPerm : paths.Perm others) :
    inOrder (loadedOf (paths.map root.loadEntry)) =
      inOrder (loadedOf (others.map root.loadEntry)) := by
  have hLoaded :
      (loadedOf (paths.map root.loadEntry)).Perm
        (loadedOf (others.map root.loadEntry)) :=
    perm_loadedOf (hPerm.map root.loadEntry)
  refine
    List.Perm.eq_of_pairwise ?_
      (pairwise_le_path_inOrder _)
      (pairwise_le_path_inOrder _)
      ((inOrder_perm _).trans
        (hLoaded.trans (inOrder_perm _).symm))
  intro a b hLeft hRight hBelow hAbove
  have hPath := String.le_antisymm hBelow hAbove
  have hA :=
    mem_loadedOf_map_loadEntry_iff.mp
      ((inOrder_perm _).mem_iff.mp hLeft)
  have hB :=
    mem_loadedOf_map_loadEntry_iff.mp
      ((inOrder_perm _).mem_iff.mp hRight)
  have hSame := hA.2
  rw [hPath, hB.2] at hSame
  cases a
  cases b
  simp_all

end Results

------------------------------------------------------------
-- Directories
------------------------------------------------------------

/- The loaded ones and the errors make up the results. -/
theorem arrange_eq_append
    (results : List (Except Error Loaded)) :
    arrange results =
      (loadedOf (arrange results)).map .ok ++
        (errorsOf (arrange results)).map .error := by
  unfold arrange
  rw [loadedOf_append_errors, errorsOf_append_errors]

section Directories

variable {root relisted : FileTree}
variable {path : String}
variable {entries : List (String × FileTree)}

/-
  The same paths are tried in a tree with the same content,
  maybe in another order.
-/
theorem SameContent.exists_loadAll_eq
    (hSame : SameContent root relisted)
    (hLists : root.Lists path entries) :
    ∃ paths,
      (describedPaths path entries).Perm paths ∧
        relisted.loadAll path =
          arrange (paths.map root.loadEntry) := by
  rcases hSame.exists_resolve_eq_directory hLists.resolve with
    ⟨others, hLeads, hNames⟩
  refine
    ⟨root.descriptionPaths path (others.map Prod.fst), ?_, ?_⟩
  · rw [← hLists.descriptionPaths_eq]
    exact ((hNames.filter _).map _).filter _
  · have hPaths :
        relisted.descriptionPaths path (others.map Prod.fst) =
          root.descriptionPaths path (others.map Prod.fst) := by
      unfold descriptionPaths
      simp only [hSame.leadsToDirectory_eq]
    unfold loadAll
    rw [hLeads]
    simp only
    rw [hPaths]
    congr 1
    exact List.map_congr_left fun p _ => (hSame.loadEntry_eq p).symm

end Directories

/- A short description. -/
def leaflet : ByteArray :=
  "m,1\na\np\np\np".toUTF8

/-
  What may be in a directory: descriptions, files that hold
  none, a file with another name and another directory.
-/
def shelf : List (String × FileTree) :=
  [("b.csv", file leaflet),
   ("torn.csv", file ⟨#[255]⟩),
   ("notes.txt", file leaflet),
   ("a.csv", file leaflet),
   ("blank.csv", file ByteArray.empty),
   ("more.csv", empty)]

/- A tree with one directory. -/
def shelved
    (entries : List (String × FileTree)) : FileTree :=
  directory [("shelf", directory entries)]

end FileTree

end MultiTape
