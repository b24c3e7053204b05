import PackageManager.Proofs.Files.Store
import PackageManager.Proofs.Ordered.Edits

/-!
# Temporary files

While a temporary file is there, the store has one entry more than before. Nothing is looked up
through that entry, as it is a file, so that paths lead through the same directories with it as
without it. This is why the file can be taken away again without a trace, and why it does not matter
whether a file is put at its place at once or moved there from a temporary one.

## Main results

* `remove_write` — a new file that is removed has left no trace.
* `rename_write_eq_ok_iff` — moving a new file to a place is putting its content there.
-/

namespace PackageManager.FileStore

open FilePath

variable {fs fs' : FileStore} {p q : FilePath} {here there : List String} {name other : String}
  {content : ByteArray}

/-! ## Walking where fewer files are -/

/-- Whoever arrives at a directory started from one. -/
theorem directory_of_walk {l : List (List UInt8)} (hWalk : fs.walk here l = .ok there)
    (hThere : fs.entry? there = some .directory) : fs.entry? here = some .directory := by
  cases l with
  | nil => rwa [Except.ok.inj hWalk]
  | cons n l =>
      rw [walk] at hWalk
      split at hWalk
      · assumption
      · cases hWalk
      · cases hWalk

/-- The way to a directory leads through directories only. -/
theorem walk_of_directories {l : List (List UInt8)}
    (hKeeps : ∀ names, fs'.entry? names = some .directory → fs.entry? names = some .directory)
    (hWalk : fs'.walk here l = .ok there) (hThere : fs'.entry? there = some .directory) :
    fs.walk here l = .ok there := by
  fun_induction fs'.walk here l with
  | case1 here => exact hWalk
  | case2 here name rest hHere hStays ih =>
      rw [walk, hKeeps here hHere]
      simp only [hStays, if_true]
      exact ih hWalk
  | case3 here rest hHere hOther ih =>
      rw [walk, hKeeps here hHere]
      simp only [hOther, if_true, if_false]
      exact ih hWalk
  | case5 here name rest hHere hOther hParent hShort n hDecode hFound ih =>
      have hNext := hKeeps _ (directory_of_walk hWalk hThere)
      rw [walk, hKeeps here hHere]
      simp only [hOther, hParent, hShort, hDecode, hNext, Option.isSome_some, if_true, if_false]
      exact ih hWalk
  | case4 | case6 | case7 | case8 | case9 => cases hWalk

theorem Leads.of_write (h : (fs.write (there ++ [other]) content).Leads p here name) :
    fs.Leads p here name := by
  have hKeeps (names : List String)
      (hNames : FileStore.entry? (fs.write (there ++ [other]) content) names = some .directory) :
      fs.entry? names = some .directory := by
    rw [entryAt_write] at hNames
    split at hNames
    · cases hNames
    · exact hNames
  exact ⟨h.nul_not_mem, h.length_lt, walk_of_directories hKeeps h.walk h.directory,
    hKeeps here h.directory, h.length_le, h.decode⟩

/-- Paths that end in different names lead to different places. -/
theorem Leads.ne_of_getLast_ne (hLeads : fs.Leads p here name) (hThere : fs.Leads q there other)
    (hOther : q.names.getLast?.getD [] ≠ p.names.getLast?.getD []) :
    there ++ [other] ≠ here ++ [name] := by
  intro hSame
  obtain ⟨-, hLast⟩ := List.append_inj' hSame rfl
  obtain rfl : other = name := by simpa using hLast
  exact hOther (Text.decode?_injective hThere.decode hLeads.decode)

/-! ## Changes that are taken back -/

theorem write_write (fs : FileStore) (names : List String) (c c' : ByteArray) :
    (fs.write names c).write names c' = fs.write names c' := by
  unfold write
  rw [OrderedMap.insert_insert]

theorem erase_write (hNew : fs.entry? (here ++ [name]) = none) :
    (fs.write (here ++ [name]) content).erase (here ++ [name]) = fs := by
  have hNew : fs.entries.get? (here ++ [name]) = none := by
    unfold entry? at hNew
    simpa using hNew
  unfold write erase
  rw [OrderedMap.erase_insert hNew]

/-- A file that is taken away does not take away another one. -/
theorem erase_write_write (hNew : fs.entry? (here ++ [name]) = none)
    (hOther : there ++ [other] ≠ here ++ [name]) (c c' : ByteArray) :
    ((fs.write (here ++ [name]) c).write (there ++ [other]) c').erase (here ++ [name]) =
      fs.write (there ++ [other]) c' := by
  have hStill : FileStore.entry? (fs.write (there ++ [other]) c') (here ++ [name]) = none := by
    rw [entryAt_write, if_neg hOther.symm, hNew]
  have hSwap : (fs.write (here ++ [name]) c).write (there ++ [other]) c' =
      (fs.write (there ++ [other]) c').write (here ++ [name]) c := by
    unfold write
    rw [OrderedMap.insert_comm hOther.symm]
  rw [hSwap, erase_write hStill]

/-! ## Temporary files -/

section

variable (hLeads : fs.Leads p here name) (hName : IsName (p.names.getLast?.getD []))
  (hNew : fs.entry? (here ++ [name]) = none)

include hLeads hName

/-- Where nothing is found, there is nothing. -/
theorem absent_of_lookup (hAbsent : ∀ e, fs.lookup p ≠ .ok e) :
    fs.entry? (here ++ [name]) = none := by
  by_contra hSome
  obtain ⟨e, hEntry⟩ := Option.ne_none_iff_exists'.1 hSome
  exact hAbsent e (lookup_eq_ok.2 ⟨_, hLeads.resolve hName (by simp [hEntry]), hEntry⟩)

include hNew

theorem resolve_write : (fs.write (here ++ [name]) content).resolve p = .ok (here ++ [name]) := by
  refine (hLeads.write (by simp [hNew])).resolve hName ?_
  rw [entryAt_write, if_pos rfl]
  rfl

theorem lookup_write : (fs.write (here ++ [name]) content).lookup p = .ok (.file content) := by
  refine lookup_eq_ok.2 ⟨_, resolve_write hLeads hName hNew, ?_⟩
  rw [entryAt_write, if_pos rfl]

theorem remove_write : (fs.write (here ++ [name]) content).remove p = fs := by
  unfold remove isFile
  rw [resolve_write hLeads hName hNew, lookup_write hLeads hName hNew]
  exact erase_write hNew

theorem create_eq_ok : fs.create p = .ok (here ++ [name], fs.write (here ++ [name]) .empty) := by
  have hPlace : fs.place p .empty = .ok (fs.write (here ++ [name]) .empty) :=
    place_eq_ok_iff.2 ⟨here, name, hLeads, by simp [hNew], rfl⟩
  unfold create
  rw [hPlace]
  show ((fs.write (here ++ [name]) .empty).resolve p >>= fun names =>
    pure (names, fs.write (here ++ [name]) .empty)) = _
  rw [resolve_write hLeads hName hNew]
  rfl

omit hLeads hNew in
/-- Where a file is created, nothing has been before. -/
theorem exists_of_create {names : List String} (hAbsent : ∀ e, fs.lookup p ≠ .ok e)
    (hCreate : fs.create p = .ok (names, fs')) : ∃ here name, fs.Leads p here name ∧
      fs.entry? (here ++ [name]) = none ∧ names = here ++ [name] ∧ fs' = fs.write names .empty := by
  obtain ⟨placed, hPlace, -⟩ := ok_of_bind hCreate
  obtain ⟨here, name, hLeads, -, -⟩ := place_eq_ok_iff.1 hPlace
  have hNew := absent_of_lookup hLeads hName hAbsent
  rw [create_eq_ok hLeads hName hNew] at hCreate
  obtain ⟨rfl, rfl⟩ := Prod.mk.inj (Except.ok.inj hCreate)
  exact ⟨here, name, hLeads, hNew, rfl, rfl⟩

/-- A new file is moved by putting its content at the new place, and then taking the old one
away. -/
theorem rename_write (q : FilePath) : (fs.write (here ++ [name]) content).rename p q =
    (fs.write (here ++ [name]) content).place q content >>= fun moved =>
      moved.resolve q >>= fun there =>
        pure (if there = here ++ [name] then moved else moved.erase (here ++ [name])) := by
  have hFile : FileStore.entry? (fs.write (here ++ [name]) content) (here ++ [name]) =
      some (.file content) := by rw [entryAt_write, if_pos rfl]
  unfold rename
  simp only [resolve_write hLeads hName hNew, hFile, bind, Except.bind]

omit hLeads hName in
/-- What has been put at another place is found there. -/
theorem resolve_write_write (hTarget : IsName (q.names.getLast?.getD []))
    (hThere : fs.Leads q there other) (hFree : fs.entry? (there ++ [other]) ≠ some .directory)
    (hApart : there ++ [other] ≠ here ++ [name]) (c c' : ByteArray) :
    ((fs.write (here ++ [name]) c).write (there ++ [other]) c').resolve q =
      .ok (there ++ [other]) := by
  refine ((hThere.write (by simp [hNew])).write ?_).resolve hTarget ?_
  · rwa [entryAt_write, if_neg hApart]
  · rw [entryAt_write, if_pos rfl]
    rfl

/-- A new file that is moved is put at its new place, and nothing is left of it at the old one. -/
theorem rename_write_eq_ok_iff (hTarget : IsName (q.names.getLast?.getD []))
    (hOther : q.names.getLast?.getD [] ≠ p.names.getLast?.getD []) :
    (fs.write (here ++ [name]) content).rename p q = .ok fs' ↔ fs.place q content = .ok fs' := by
  rw [rename_write hLeads hName hNew, place_eq_ok_iff]
  constructor
  · intro hMove
    obtain ⟨moved, hPlace, hMove⟩ := ok_of_bind hMove
    obtain ⟨there, other, hThere, hFree, rfl⟩ := place_eq_ok_iff.1 hPlace
    have hThere : fs.Leads q there other := hThere.of_write
    have hApart := hLeads.ne_of_getLast_ne hThere hOther
    rw [entryAt_write, if_neg hApart] at hFree
    rw [resolve_write_write hNew hTarget hThere hFree hApart] at hMove
    have hMove := (Except.ok.inj hMove).symm
    rw [if_neg hApart, erase_write_write hNew hApart] at hMove
    exact ⟨there, other, hThere, hFree, hMove⟩
  · rintro ⟨there, other, hThere, hFree, rfl⟩
    have hApart := hLeads.ne_of_getLast_ne hThere hOther
    have hPlace : (fs.write (here ++ [name]) content).place q content =
        .ok ((fs.write (here ++ [name]) content).write (there ++ [other]) content) := by
      refine place_eq_ok_iff.2 ⟨there, other, hThere.write (by simp [hNew]), ?_, rfl⟩
      rwa [entryAt_write, if_neg hApart]
    simp only [hPlace, resolve_write_write hNew hTarget hThere hFree hApart, hApart, if_false, bind,
      Except.bind]
    rw [erase_write_write hNew hApart]
    rfl

end

end PackageManager.FileStore
