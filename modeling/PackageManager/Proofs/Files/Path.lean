import PackageManager.Files.Path
import PackageManager.Proofs.Text.Parts

/-!
# Entries of a directory

Whether a path leads to an entry of a directory can be read off its text, as long as no name on the
way is a link. Empty names and lone dots lead nowhere, so they do not count; the first name does,
since it says where the path starts. What is left are the `components` of the path, and a path is an
entry of a directory when it has one component more.

A name that contains a slash is not one component, so nothing is an entry under such a name.

## Main results

* `isEntry_join_iff` — a name joined to a directory is an entry of it exactly if it has no slash.
* `slash_mem_encode_iff` — the slash has one spelling in UTF-8.
-/

namespace PackageManager

namespace FilePath

/-- Whether a name leads on. -/
def leadsOn (name : List UInt8) : Bool := name ≠ [] ∧ name ≠ Text.encode ['.']

/-- The names that a path goes through. The first one is empty in an absolute path. -/
def components (p : FilePath) : List (List UInt8) :=
  if p.octets.isEmpty then []
  else
    match p.names with
    | [] => []
    | first :: rest => first :: rest.filter leadsOn

/-- A path leads to the entry of a directory that has a certain name. -/
def IsEntry (p root : FilePath) (name : List UInt8) : Prop :=
  p.components = root.components ++ [name]

instance (p root : FilePath) (name : List UInt8) : Decidable (p.IsEntry root name) := by
  unfold IsEntry
  infer_instance

theorem names_append_slash (p f : List UInt8) :
    names ⟨p ++ slash :: f⟩ = names ⟨p⟩ ++ names ⟨f⟩ :=
  List.splitOn_append_cons_self ..

theorem names_eq_singleton {f : List UInt8} (hf : slash ∉ f) : names ⟨f⟩ = [f] :=
  List.splitOn_eq_singleton hf

theorem isAbsolute_eq_false {name : List UInt8} (hName : slash ∉ name) :
    isAbsolute ⟨name⟩ = false := by
  cases name with
  | nil => rfl
  | cons c name =>
      have hc : c ≠ slash := fun hEq => hName (by simp [hEq])
      simp [isAbsolute, hc]

theorem components_eq {p : FilePath} {first : List UInt8} {rest : List (List UInt8)}
    (hp : p.octets ≠ []) (hNames : p.names = first :: rest) :
    p.components = first :: rest.filter leadsOn := by
  have hNotEmpty : p.octets.isEmpty = false := by simpa using hp
  simp [components, hNotEmpty, hNames]

theorem mem_names_of_mem_components {p : FilePath} {name : List UInt8}
    (h : name ∈ p.components) : name ∈ p.names := by
  unfold components at h
  split at h
  · cases h
  · split at h
    · cases h
    · next hNames =>
      rw [hNames]
      rcases List.mem_cons.1 h with rfl | h
      · exact List.mem_cons_self
      · exact List.mem_cons_of_mem _ (List.mem_filter.1 h).1

/-- What stands behind a slash adds its names. -/
theorem components_append_slash (p f : List UInt8) :
    components ⟨p ++ slash :: f⟩ =
      components ⟨p ++ [slash]⟩ ++ (names ⟨f⟩).filter leadsOn := by
  obtain ⟨first, rest, hFirst⟩ := List.exists_cons_of_ne_nil (List.splitOn_ne_nil slash p)
  have hFirst : names ⟨p⟩ = first :: rest := hFirst
  have hLonger : components ⟨p ++ slash :: f⟩ = first :: (rest ++ names ⟨f⟩).filter leadsOn :=
    components_eq (by simp) (by rw [names_append_slash, hFirst, List.cons_append])
  have hShorter : components ⟨p ++ [slash]⟩ = first :: (rest ++ names ⟨[]⟩).filter leadsOn :=
    components_eq (by simp) (by rw [names_append_slash, hFirst, List.cons_append])
  have hLast : (names ⟨[]⟩).filter leadsOn = [] := rfl
  rw [hLonger, hShorter, List.filter_append, List.filter_append, hLast, List.append_nil,
    List.cons_append]

/-- A slash at the end adds nothing. -/
theorem components_append_singleton_slash {p : List UInt8} (hp : p ≠ []) :
    components ⟨p ++ [slash]⟩ = components ⟨p⟩ := by
  obtain ⟨first, rest, hFirst⟩ := List.exists_cons_of_ne_nil (List.splitOn_ne_nil slash p)
  have hFirst : names ⟨p⟩ = first :: rest := hFirst
  have hLonger : components ⟨p ++ [slash]⟩ = first :: (rest ++ names ⟨[]⟩).filter leadsOn :=
    components_eq (by simp) (by rw [names_append_slash, hFirst, List.cons_append])
  have hLast : (names ⟨[]⟩).filter leadsOn = [] := rfl
  rw [hLonger, components_eq hp hFirst, List.filter_append, hLast, List.append_nil]

theorem components_join {name : List UInt8} (hSlash : slash ∉ name) (hName : leadsOn name)
    (root : FilePath) : (root.join ⟨name⟩).components = root.components ++ [name] := by
  obtain ⟨root⟩ := root
  have hNames : (names ⟨name⟩).filter leadsOn = [name] := by
    simp [names_eq_singleton hSlash, hName]
  unfold join
  simp only [isAbsolute_eq_false hSlash, Bool.false_eq_true, if_false]
  by_cases hEmpty : root = []
  · subst hEmpty
    have hNotEmpty : name ≠ [] := by
      simp only [leadsOn, decide_eq_true_eq] at hName
      exact hName.1
    have hRoot : components ⟨[]⟩ = [] := rfl
    simp [hRoot, components_eq hNotEmpty (names_eq_singleton hSlash)]
  · by_cases hEnd : root.getLast? = some slash
    · obtain ⟨p, rfl⟩ := List.getLast?_eq_some_iff.1 hEnd
      simp only [hEnd, or_true, if_true]
      rw [List.append_assoc, List.singleton_append, components_append_slash, hNames]
    · have hNotEmpty : ¬ root.isEmpty := by simpa using hEmpty
      rw [if_neg (not_or.2 ⟨hNotEmpty, hEnd⟩)]
      rw [components_append_slash, components_append_singleton_slash hEmpty, hNames]

/-- A name that leads on is joined to a directory as an entry of it exactly if it is one name. -/
theorem isEntry_join_iff {name : List UInt8} (hName : leadsOn name) (root : FilePath) :
    (root.join ⟨name⟩).IsEntry root name ↔ slash ∉ name := by
  constructor
  · intro hEntry
    have hMem : name ∈ (root.join ⟨name⟩).components := by
      rw [hEntry]
      exact List.mem_append_right _ (List.mem_singleton.2 rfl)
    exact Text.not_mem_of_mem_splitOn (mem_names_of_mem_components hMem)
  · intro hSlash
    exact components_join hSlash hName root

/-! ## Entries under a name -/

/-- A name that an entry of a directory can have. -/
structure IsName (name : List UInt8) : Prop where
  slash_not_mem : slash ∉ name
  leadsOn : leadsOn name
  ne_parent : name ≠ Text.encode ['.', '.']

/-- Where a path to an entry of a directory starts, and what its names are before the last one. -/
theorem exists_names_join (root : FilePath) : ∃ l, ∀ name, slash ∉ name →
    (root.join ⟨name⟩).names = l ++ [name] ∧ (root.join ⟨name⟩).isAbsolute = root.isAbsolute := by
  obtain ⟨root⟩ := root
  by_cases hEmpty : root = []
  · subst hEmpty
    refine ⟨[], fun name hName => ?_⟩
    have hJoin : join ⟨[]⟩ ⟨name⟩ = ⟨name⟩ := by simp [join, isAbsolute_eq_false hName]
    rw [hJoin, isAbsolute_eq_false hName]
    exact ⟨names_eq_singleton hName, rfl⟩
  · obtain ⟨front, hFront⟩ : ∃ front, ∀ name, slash ∉ name →
        join ⟨root⟩ ⟨name⟩ = ⟨front ++ slash :: name⟩ ∧
          (root = front ∨ root = front ++ [slash]) := by
      by_cases hEnd : root.getLast? = some slash
      · obtain ⟨front, rfl⟩ := List.getLast?_eq_some_iff.1 hEnd
        refine ⟨front, fun name hName => ⟨?_, .inr rfl⟩⟩
        simp [join, isAbsolute_eq_false hName]
      · refine ⟨root, fun name hName => ⟨?_, .inl rfl⟩⟩
        simp [join, isAbsolute_eq_false hName, hEmpty, hEnd]
    refine ⟨names ⟨front⟩, fun name hName => ?_⟩
    obtain ⟨hJoin, hRoot⟩ := hFront name hName
    rw [hJoin, names_append_slash, names_eq_singleton hName]
    refine ⟨rfl, ?_⟩
    rcases hRoot with rfl | rfl
    · cases root with
      | nil => exact absurd rfl hEmpty
      | cons c root => rfl
    · cases front with
      | nil => rfl
      | cons c front => rfl

/-- The last name stays the last one when a path is joined to another. -/
theorem getLast?_names_join (root q : FilePath) :
    (root.join q).names.getLast? = q.names.getLast? := by
  obtain ⟨root⟩ := root
  obtain ⟨q⟩ := q
  have hBehind (front : List UInt8) :
      (names ⟨front ++ slash :: q⟩).getLast? = (names ⟨q⟩).getLast? := by
    have hSome : names ⟨q⟩ ≠ [] := List.splitOn_ne_nil slash q
    rw [names_append_slash, List.getLast?_append_of_ne_nil _ hSome]
  unfold join
  split_ifs with hAbsolute hEnd
  · rfl
  · rcases hEnd with hEmpty | hEnd
    · have hEmpty : root = [] := by simpa using hEmpty
      rw [hEmpty]
      rfl
    · obtain ⟨front, rfl⟩ := List.getLast?_eq_some_iff.1 hEnd
      rw [List.append_assoc]
      exact hBehind front
  · exact hBehind root

/-- A path that is joined to a directory can be told from the result, if it is known whether it is
absolute. -/
theorem eq_of_join_eq_join {root p q : FilePath} (hAlike : p.isAbsolute = q.isAbsolute)
    (hEq : root.join p = root.join q) : p = q := by
  obtain ⟨p⟩ := p
  obtain ⟨q⟩ := q
  unfold join at hEq
  rw [hAlike] at hEq
  by_cases hAbsolute : isAbsolute ⟨q⟩
  · simpa [hAbsolute] using hEq
  · by_cases hEnd : root.octets.isEmpty ∨ root.octets.getLast? = some slash
    · simp only [hAbsolute, hEnd, if_true, if_false, Bool.false_eq_true, mk.injEq] at hEq
      exact congrArg mk (List.append_cancel_left hEq)
    · simp only [hAbsolute, hEnd, if_false, Bool.false_eq_true, mk.injEq] at hEq
      exact congrArg mk (List.cons.inj (List.append_cancel_left hEq)).2

/-! ## The slash as an octet -/

theorem slash_mem_encode_iff (cs : List Char) : slash ∈ Text.encode cs ↔ '/' ∈ cs :=
  Text.ofNat_mem_encode_iff (a := '/') (by decide) cs

end FilePath

end PackageManager
