import PackageManager.Files.Temporary
import PackageManager.Proofs.Files.Path
import PackageManager.Proofs.Traversal

/-!
# Files at their places

A file that is put into a store is found there afterwards, and nothing else is lost. Both rest on
how a store grows: putting a file somewhere takes no directory away and no entry, so a path that has
led somewhere leads there still, and what stands there is the same unless it is what was replaced.

## Main results

* `place_spec` — what putting a file at its place changes, and what it leaves alone.
* `lookup_place_self`, `lookup_place_of_ne` — what is found afterwards.
* `resolve_join_injective` — entries of a directory with different names are at different places.
-/

namespace PackageManager

namespace FileStore

open FilePath

variable {fs fs' : FileStore} {p q : FilePath} {content : ByteArray}

/-- Where the names of a path are looked up from. -/
def start (fs : FileStore) (p : FilePath) : List String :=
  if p.isAbsolute then [] else fs.workingDirectory

/-- A path leads to the entry of a directory under a name, if there is such an entry. -/
structure Leads (fs : FileStore) (p : FilePath) (here : List String) (name : String) : Prop where
  nul_not_mem : 0 ∉ p.octets
  length_lt : p.octets.length < 4096
  walk : fs.walk (fs.start p) p.names.dropLast = .ok here
  directory : fs.entry? here = some .directory
  length_le : (p.names.getLast?.getD []).length ≤ 255
  decode : Text.decode? (p.names.getLast?.getD []) = some name

/-- A file is put where its path leads to, unless there is a directory. -/
theorem place_eq_ok_iff : fs.place p content = .ok fs' ↔
    ∃ here name, fs.Leads p here name ∧ fs.entry? (here ++ [name]) ≠ some .directory ∧
      fs' = fs.write (here ++ [name]) content := by
  constructor
  · intro hPlace
    unfold place at hPlace
    by_cases hNul : p.octets.contains 0 = true
    · simp only [hNul, if_true] at hPlace
      cases hPlace
    by_cases hLong : 4096 ≤ p.octets.length
    · simp only [hNul, hLong, if_true] at hPlace
      cases hPlace
    simp only [hNul, hLong, if_false] at hPlace
    obtain ⟨here, hWalk, hRest⟩ := ok_of_bind hPlace
    split at hRest
    · next hHere =>
      by_cases hName : 255 < (p.names.getLast?.getD []).length
      · simp only [hName, if_true] at hRest
        cases hRest
      simp only [hName, if_false] at hRest
      split at hRest
      · next name hDecode =>
        split at hRest
        · cases hRest
        · next hFree =>
          exact ⟨here, name, ⟨by simpa using hNul, Nat.lt_of_not_le hLong, hWalk, hHere,
            Nat.le_of_not_lt hName, hDecode⟩, hFree, (Except.ok.inj hRest).symm⟩
      · cases hRest
    · cases hRest
    · cases hRest
  · rintro ⟨here, name, ⟨hNul, hLong, hWalk, hHere, hName, hDecode⟩, hFree, rfl⟩
    have hNul : p.octets.contains 0 = false := by simpa using hNul
    unfold start at hWalk
    unfold place
    simp only [hNul, Nat.not_le.2 hLong, hWalk, hHere, Nat.not_lt.2 hName, hDecode, if_false,
      Bool.false_eq_true, bind, Except.bind]
    rfl

theorem entryAt_write (fs : FileStore) (here : List String) (name : String) (content : ByteArray)
    (names : List String) : FileStore.entry? (fs.write (here ++ [name]) content) names =
      if names = here ++ [name] then some (.file content) else fs.entry? names := by
  unfold entry? write
  rw [OrderedMap.get?_insert]
  cases names with
  | nil => simp
  | cons n names => rfl

/-! ## Walking through a store that grows -/

/-- Names are walked through one by one. -/
theorem walk_cons (fs : FileStore) (here : List String) (name : List UInt8)
    (rest : List (List UInt8)) :
    fs.walk here (name :: rest) = fs.walk here [name] >>= fun there => fs.walk there rest := by
  rw [walk.eq_def fs here (name :: rest), walk.eq_def fs here [name]]
  rcases fs.entry? here with _ | ⟨⟨content⟩ | _⟩
  · rfl
  · rfl
  · dsimp only
    split_ifs
    · rfl
    · rfl
    · rfl
    · cases Text.decode? name with
      | none => rfl
      | some n =>
          dsimp only
          split_ifs
          · rfl
          · rfl

theorem walk_append (fs : FileStore) (here : List String) (l l' : List (List UInt8)) :
    fs.walk here (l ++ l') = fs.walk here l >>= fun there => fs.walk there l' := by
  induction l generalizing here with
  | nil => rfl
  | cons name l ih =>
      rw [List.cons_append, walk_cons, walk_cons fs here name l]
      cases fs.walk here [name] with
      | error f => rfl
      | ok there => exact ih there

/-- A name that is not a step aside leads to the entry that has it. -/
theorem walk_name {here there : List String} {name : List UInt8} (hName : IsName name) :
    fs.walk here [name] = .ok there ↔ fs.entry? here = some .directory ∧ name.length ≤ 255 ∧
      ∃ n, Text.decode? name = some n ∧ (fs.entry? (here ++ [n])).isSome ∧ there = here ++ [n] := by
  have hLeads : ¬(name = [] ∨ name = Text.encode ['.']) := by
    have hLeads := hName.leadsOn
    simp only [leadsOn, decide_eq_true_eq] at hLeads
    tauto
  rw [walk]
  rcases hHere : fs.entry? here with _ | ⟨⟨content⟩ | _⟩
  · simp
  · simp
  · simp only [hLeads, hName.ne_parent, if_false, true_and]
    by_cases hLong : 255 < name.length
    · simp [hLong, Nat.not_le.2 hLong]
    · simp only [hLong, if_false, Nat.le_of_not_lt hLong, true_and]
      cases Text.decode? name with
      | none => simp
      | some n =>
          by_cases hFound : (fs.entry? (here ++ [n])).isSome
          · simp [hFound, walk, eq_comm (a := there)]
          · simp [hFound]

/-- A store has all directories of another one, and an entry wherever that has one. -/
structure Extends (fs fs' : FileStore) : Prop where
  directory : ∀ names, fs.entry? names = some .directory → fs'.entry? names = some .directory
  isSome : ∀ names, (fs.entry? names).isSome → (fs'.entry? names).isSome

/-- What leads somewhere keeps leading there. -/
theorem Extends.walk (h : Extends fs fs') {here there : List String} {l : List (List UInt8)}
    (hWalk : fs.walk here l = .ok there) : fs'.walk here l = .ok there := by
  fun_induction fs.walk here l with
  | case1 here => exact hWalk
  | case2 here name rest hHere hStays ih =>
      rw [FileStore.walk, h.directory here hHere]
      simp only [hStays, if_true]
      exact ih hWalk
  | case3 here rest hHere hOther ih =>
      rw [FileStore.walk, h.directory here hHere]
      simp only [hOther, if_true, if_false]
      exact ih hWalk
  | case5 here name rest hHere hOther hParent hShort n hDecode hFound ih =>
      rw [FileStore.walk, h.directory here hHere]
      simp only [hOther, hParent, hShort, hDecode, h.isSome _ hFound, if_true, if_false]
      exact ih hWalk
  | case4 | case6 | case7 | case8 | case9 => cases hWalk

/-! ## Files at their places -/

theorem resolve_eq_ok {k : List String} : fs.resolve p = .ok k ↔
    p.octets ≠ [] ∧ 0 ∉ p.octets ∧ p.octets.length < 4096 ∧
      fs.walk (fs.start p) p.names = .ok k := by
  unfold resolve
  by_cases hEmpty : p.octets = []
  · simp [hEmpty]
  · by_cases hNul : 0 ∈ p.octets
    · simp [hEmpty, hNul]
    · by_cases hLong : 4096 ≤ p.octets.length
      · simp [hEmpty, hNul, hLong, Nat.not_lt.2 hLong]
      · simp [hEmpty, hNul, hLong, Nat.lt_of_not_le hLong, start]

theorem lookup_eq_ok {e : FileEntry} :
    fs.lookup p = .ok e ↔ ∃ k, fs.resolve p = .ok k ∧ fs.entry? k = some e := by
  unfold lookup
  cases hResolve : fs.resolve p with
  | error f => simp [bind, Except.bind]
  | ok k =>
      cases hEntry : fs.entry? k with
      | none => simp [bind, Except.bind, hEntry]
      | some e' => simp [bind, Except.bind, hEntry]

theorem Extends.resolve (h : Extends fs fs') (hSame : fs'.workingDirectory = fs.workingDirectory)
    {k : List String} (hResolve : fs.resolve p = .ok k) : fs'.resolve p = .ok k := by
  rw [resolve_eq_ok] at hResolve ⊢
  obtain ⟨hEmpty, hNul, hLong, hWalk⟩ := hResolve
  refine ⟨hEmpty, hNul, hLong, ?_⟩
  unfold start at hWalk ⊢
  rw [hSame]
  exact h.walk hWalk

theorem extends_write {here : List String} {name : String}
    (hFree : fs.entry? (here ++ [name]) ≠ some .directory) :
    Extends fs (fs.write (here ++ [name]) content) where
  directory names hNames := by
    rw [entryAt_write, if_neg]
    · exact hNames
    · rintro rfl
      exact hFree hNames
  isSome names hNames := by
    rw [entryAt_write]
    split
    · rfl
    · exact hNames

/-- What a path leads to is found there. -/
theorem Leads.resolve {here : List String} {name : String} (h : fs.Leads p here name)
    (hName : IsName (p.names.getLast?.getD [])) (hSome : (fs.entry? (here ++ [name])).isSome) :
    fs.resolve p = .ok (here ++ [name]) := by
  have hNames : p.names = p.names.dropLast ++ [p.names.getLast?.getD []] := by
    have hNotEmpty : p.names ≠ [] := List.splitOn_ne_nil slash p.octets
    rw [List.getLast?_eq_getLast_of_ne_nil hNotEmpty, Option.getD_some,
      List.dropLast_append_getLast]
  rw [resolve_eq_ok]
  refine ⟨?_, h.nul_not_mem, h.length_lt, ?_⟩
  · intro hEmpty
    have hLast : p.names.getLast?.getD [] = [] := by simp [names, hEmpty]
    have hLeads := hName.leadsOn
    rw [hLast] at hLeads
    cases hLeads
  · rw [hNames, walk_append, h.walk]
    exact (walk_name hName).2 ⟨h.directory, h.length_le, name, h.decode, hSome, rfl⟩

/-- Writing a file does not change where paths lead to. -/
theorem Leads.write {here there : List String} {name other : String} (h : fs.Leads p here name)
    (hFree : fs.entry? (there ++ [other]) ≠ some .directory) :
    (fs.write (there ++ [other]) content).Leads p here name where
  nul_not_mem := h.nul_not_mem
  length_lt := h.length_lt
  walk := (extends_write hFree).walk h.walk
  directory := (extends_write hFree).directory _ h.directory
  length_le := h.length_le
  decode := h.decode

/-- A file that is put at its place is found there, and all else is found as before. -/
theorem place_spec (hPlace : fs.place p content = .ok fs')
    (hName : IsName (p.names.getLast?.getD [])) :
    Extends fs fs' ∧ fs'.workingDirectory = fs.workingDirectory ∧
    ∃ k, fs'.resolve p = .ok k ∧
      ∀ names, fs'.entry? names = if names = k then some (.file content) else fs.entry? names := by
  obtain ⟨here, name, hLeads, hFree, rfl⟩ := place_eq_ok_iff.1 hPlace
  have hFound : (FileStore.entry? (fs.write (here ++ [name]) content) (here ++ [name])).isSome := by
    rw [entryAt_write, if_pos rfl]
    rfl
  exact ⟨extends_write hFree, rfl, here ++ [name], (hLeads.write hFree).resolve hName hFound,
    entryAt_write fs here name content⟩

theorem lookup_place_self (hPlace : fs.place p content = .ok fs')
    (hName : IsName (p.names.getLast?.getD [])) : fs'.lookup p = .ok (.file content) := by
  obtain ⟨-, -, k, hResolve, hEntry⟩ := place_spec hPlace hName
  exact lookup_eq_ok.2 ⟨k, hResolve, by rw [hEntry, if_pos rfl]⟩

/-- What a path leads to stays there if a file is put elsewhere. -/
theorem lookup_place_of_ne (hPlace : fs.place q content = .ok fs')
    (hName : IsName (q.names.getLast?.getD [])) {e : FileEntry} (hLookup : fs.lookup p = .ok e)
    (hOther : fs'.resolve p ≠ fs'.resolve q) : fs'.lookup p = .ok e := by
  obtain ⟨hExtends, hSame, k, hResolve, hEntry⟩ := place_spec hPlace hName
  obtain ⟨kp, hResolve', hFound⟩ := lookup_eq_ok.1 hLookup
  have hStays := hExtends.resolve hSame hResolve'
  refine lookup_eq_ok.2 ⟨kp, hStays, ?_⟩
  rw [hEntry, if_neg, hFound]
  rintro rfl
  exact hOther (hStays.trans hResolve.symm)

/-- Entries of one directory with different names are at different places. -/
theorem resolve_join_injective {root : FilePath} {a b : List UInt8} (ha : IsName a) (hb : IsName b)
    {k : List String} (hFirst : fs.resolve (root.join ⟨a⟩) = .ok k)
    (hSecond : fs.resolve (root.join ⟨b⟩) = .ok k) : a = b := by
  obtain ⟨l, hJoin⟩ := exists_names_join root
  have hLast {name : List UInt8} (hName : IsName name)
      (hResolve : fs.resolve (root.join ⟨name⟩) = .ok k) :
      ∃ here n, fs.walk (if root.isAbsolute then [] else fs.workingDirectory) l = .ok here ∧
        Text.decode? name = some n ∧ k = here ++ [n] := by
    obtain ⟨-, -, -, hWalk⟩ := resolve_eq_ok.1 hResolve
    obtain ⟨hNames, hAbsolute⟩ := hJoin name hName.slash_not_mem
    rw [start, hNames, hAbsolute, walk_append] at hWalk
    obtain ⟨here, hHere, hRest⟩ := ok_of_bind hWalk
    obtain ⟨-, -, n, hDecode, -, hPlace⟩ := (walk_name hName).1 hRest
    exact ⟨here, n, hHere, hDecode, hPlace⟩
  obtain ⟨here, n, hHere, hDecode, rfl⟩ := hLast ha hFirst
  obtain ⟨here', n', hHere', hDecode', hSame⟩ := hLast hb hSecond
  rw [hHere] at hHere'
  cases hHere'
  obtain rfl : n = n' := by simpa using hSame
  exact Text.decode?_injective hDecode hDecode'

end FileStore

end PackageManager
