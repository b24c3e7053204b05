/-!
# Maps in ascending order of their keys

Stores of targets, tables of packages and pinned versions are maps that are listed in the order of
their keys. A map is a list of entries with strictly ascending keys; a later entry for a key
replaces the earlier one, which is what reading a written map relies on.
-/

namespace PackageManager

/-- A finite map, as the list of its entries with strictly ascending keys. -/
structure OrderedMap (α β : Type) [Ord α] where
  /-- The entries, in ascending order of their keys. -/
  entries : List (α × β)
  /-- Each key is below all the later ones. -/
  ascending : entries.Pairwise fun a b => compare a.1 b.1 = .lt
deriving DecidableEq

namespace OrderedMap

variable {α β : Type} [Ord α]

/-- The map without entries. -/
def empty : OrderedMap α β := ⟨[], .nil⟩

instance : EmptyCollection (OrderedMap α β) := ⟨empty⟩

instance : Inhabited (OrderedMap α β) := ⟨empty⟩

/-- Puts an entry at its place in a list of entries, where it replaces one of the same key. -/
def insertInto (k : α) (v : β) : List (α × β) → List (α × β)
  | [] => [(k, v)]
  | (k', v') :: rest =>
    match compare k k' with
    | .lt => (k, v) :: (k', v') :: rest
    | .eq => (k, v) :: rest
    | .gt => (k', v') :: insertInto k v rest

theorem mem_of_mem_insertInto {k : α} {v : β} {e : α × β} {l : List (α × β)}
    (h : e ∈ insertInto k v l) : e = (k, v) ∨ e ∈ l := by
  induction l with
  | nil => simpa [insertInto] using h
  | cons hd rest ih =>
    obtain ⟨k', v'⟩ := hd
    rw [insertInto] at h
    split at h
    · simpa using h
    · exact (List.mem_cons.1 h).imp id (List.mem_cons_of_mem _)
    · rcases List.mem_cons.1 h with h | h
      · exact .inr (h ▸ List.mem_cons_self)
      · exact (ih h).imp id (List.mem_cons_of_mem _)

theorem ascending_insertInto [Std.TransOrd α] (k : α) (v : β) {l : List (α × β)}
    (h : l.Pairwise fun a b => compare a.1 b.1 = .lt) :
    (insertInto k v l).Pairwise fun a b => compare a.1 b.1 = .lt := by
  induction l with
  | nil => simp [insertInto]
  | cons hd rest ih =>
    obtain ⟨k', v'⟩ := hd
    have hb := List.pairwise_cons.1 h
    rw [insertInto]
    split
    · next hlt =>
      refine List.pairwise_cons.2 ⟨fun x hx => ?_, h⟩
      rcases List.mem_cons.1 hx with rfl | hx
      · exact hlt
      · exact Std.TransCmp.lt_trans hlt (hb.1 x hx)
    · next heq =>
      refine List.pairwise_cons.2 ⟨fun x hx => ?_, hb.2⟩
      exact Std.TransCmp.lt_of_eq_of_lt heq (hb.1 x hx)
    · next hgt =>
      refine List.pairwise_cons.2 ⟨fun x hx => ?_, ih hb.2⟩
      rcases mem_of_mem_insertInto hx with rfl | hx
      · exact Std.OrientedCmp.gt_iff_lt.1 hgt
      · exact hb.1 x hx

/-- The map with one more entry, or with another value for a key it has. -/
def insert [Std.TransOrd α] (m : OrderedMap α β) (k : α) (v : β) : OrderedMap α β :=
  ⟨insertInto k v m.entries, ascending_insertInto k v m.ascending⟩

/-- The map of a list of entries; of two entries for a key the later one counts. -/
def ofList [Std.TransOrd α] (l : List (α × β)) : OrderedMap α β :=
  l.foldl (fun m e => m.insert e.1 e.2) ∅

/-- The map without a key. -/
def erase (m : OrderedMap α β) (k : α) : OrderedMap α β :=
  ⟨m.entries.filter fun e => compare e.1 k ≠ .eq, m.ascending.filter _⟩

/-- The value for a key in a list of entries. -/
def find (k : α) : List (α × β) → Option β
  | [] => none
  | (k', v) :: rest => if compare k k' = .eq then some v else find k rest

/-- The value for a key. -/
def get? (m : OrderedMap α β) (k : α) : Option β := find k m.entries

/-- Whether the map has a value for a key. -/
def contains (m : OrderedMap α β) (k : α) : Bool := (m.get? k).isSome

/-- The keys, in ascending order. -/
def keys (m : OrderedMap α β) : List α := m.entries.map (·.1)

/-- How many keys the map has. -/
def size (m : OrderedMap α β) : Nat := m.entries.length

/-- Whether the map has no key. -/
def isEmpty (m : OrderedMap α β) : Bool := m.entries.isEmpty

@[simp] theorem get?_empty (k : α) : (∅ : OrderedMap α β).get? k = none := rfl

private theorem find_insertInto_self [Std.LawfulEqOrd α] (k : α) (v : β) (l : List (α × β)) :
    find k (insertInto k v l) = some v := by
  induction l with
  | nil => simp [insertInto, find]
  | cons hd rest ih =>
    obtain ⟨k', v'⟩ := hd
    rw [insertInto]
    split
    · simp [find]
    · simp [find]
    · next h => simp [find, h, ih]

private theorem find_insertInto_ne [Std.LawfulEqOrd α] {k k' : α} (v : β) (hne : k' ≠ k)
    (l : List (α × β)) : find k' (insertInto k v l) = find k' l := by
  have hk : compare k' k ≠ .eq := fun h => hne (Std.LawfulEqCmp.eq_of_compare h)
  induction l with
  | nil => simp [insertInto, find, hk]
  | cons hd rest ih =>
    obtain ⟨k'', v''⟩ := hd
    rw [insertInto]
    split
    · simp [find, hk]
    · next h => rw [← Std.LawfulEqCmp.eq_of_compare h]; simp [find, hk]
    · simp [find, ih]

/-- One more entry at the end of a list is put into its map last. -/
theorem ofList_concat [Std.TransOrd α] (l : List (α × β)) (e : α × β) :
    ofList (l ++ [e]) = (ofList l).insert e.1 e.2 := by
  simp [ofList, List.foldl_append]

/-- What a map says about a key after an insertion. -/
theorem get?_insert [Std.TransOrd α] [Std.LawfulEqOrd α] [DecidableEq α] (m : OrderedMap α β)
    (k k' : α) (v : β) : (m.insert k v).get? k' = if k' = k then some v else m.get? k' := by
  by_cases h : k' = k
  · subst h; simpa [insert, get?] using find_insertInto_self k' v m.entries
  · simpa [insert, get?, h] using find_insertInto_ne v h m.entries

/-- What a map says about a key after another one is gone. -/
theorem get?_erase [Std.TransOrd α] [Std.LawfulEqOrd α] [DecidableEq α] (m : OrderedMap α β)
    (k k' : α) : (m.erase k).get? k' = if k' = k then none else m.get? k' := by
  obtain ⟨l, ascending⟩ := m
  show find k' (l.filter fun e => compare e.1 k ≠ .eq) = if k' = k then none else find k' l
  clear ascending
  induction l with
  | nil => simp [find]
  | cons hd rest ih =>
    obtain ⟨k'', v⟩ := hd
    rw [List.filter_cons]
    by_cases hGone : k'' = k
    · subst hGone
      by_cases hSame : k' = k'' <;> simp_all [find]
    · by_cases hFound : k' = k''
      · subst hFound
        simp [find, hGone]
      · simpa [find, hGone, hFound] using ih

private theorem find_eq_some_iff [Std.TransOrd α] [Std.LawfulEqOrd α] {k : α} {v : β}
    {l : List (α × β)} (h : l.Pairwise fun a b => compare a.1 b.1 = .lt) :
    find k l = some v ↔ (k, v) ∈ l := by
  induction l with
  | nil => simp [find]
  | cons hd rest ih =>
    obtain ⟨k', v'⟩ := hd
    obtain ⟨hNext, hTail⟩ := List.pairwise_cons.1 h
    rw [find, List.mem_cons, ← ih hTail]
    split
    · next heq =>
      obtain rfl := Std.LawfulEqCmp.eq_of_compare heq
      have hOnly : find k rest ≠ some v := fun hFind => by
        have hLess := hNext _ ((ih hTail).1 hFind)
        simp [Std.ReflCmp.compare_self] at hLess
      simp [hOnly, eq_comm (a := v)]
    · next hne =>
      have hOther : (k, v) ≠ (k', v') := fun hEq => by
        cases hEq
        exact hne Std.ReflCmp.compare_self
      simp [hOther]

/-- A map has a value for a key iff it has the entry. -/
theorem get?_eq_some_iff [Std.TransOrd α] [Std.LawfulEqOrd α] {m : OrderedMap α β} {k : α}
    {v : β} : m.get? k = some v ↔ (k, v) ∈ m.entries :=
  find_eq_some_iff m.ascending

theorem contains_iff_mem_keys [Std.TransOrd α] [Std.LawfulEqOrd α] {m : OrderedMap α β} {k : α} :
    m.contains k ↔ k ∈ m.keys := by
  rw [contains, Option.isSome_iff_exists, keys, List.mem_map]
  constructor
  · rintro ⟨v, hv⟩
    exact ⟨(k, v), get?_eq_some_iff.1 hv, rfl⟩
  · rintro ⟨⟨k', v⟩, he, rfl⟩
    exact ⟨v, get?_eq_some_iff.2 he⟩

end OrderedMap

end PackageManager
