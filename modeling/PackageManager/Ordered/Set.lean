/-!
# Sets in ascending order

Requirements, names and specifiers are kept in sets that are listed in ascending order. A set is a
strictly ascending list, so two sets with the same elements are the same value
(`OrderedSet.ext_mem`), and what a set prints does not depend on the order in which it was filled.
-/

namespace PackageManager

/-- A finite set, as the strictly ascending list of its elements. -/
structure OrderedSet (α : Type) [Ord α] where
  /-- The elements, in ascending order. -/
  toList : List α
  /-- Each element is below all the later ones. -/
  ascending : toList.Pairwise fun a b => compare a b = .lt
deriving DecidableEq

namespace OrderedSet

variable {α : Type} [Ord α]

/-- The set without elements. -/
def empty : OrderedSet α := ⟨[], .nil⟩

instance : EmptyCollection (OrderedSet α) := ⟨empty⟩

instance : Inhabited (OrderedSet α) := ⟨empty⟩

instance : Membership α (OrderedSet α) := ⟨fun s a => a ∈ s.toList⟩

instance [DecidableEq α] (a : α) (s : OrderedSet α) : Decidable (a ∈ s) :=
  inferInstanceAs (Decidable (a ∈ s.toList))

/-- Puts an element at its place in an ascending list that may already hold it. -/
def insertInto (a : α) : List α → List α
  | [] => [a]
  | b :: bs =>
    match compare a b with
    | .lt => a :: b :: bs
    | .eq => b :: bs
    | .gt => b :: insertInto a bs

theorem mem_insertInto [Std.LawfulEqOrd α] {x a : α} {l : List α} :
    x ∈ insertInto a l ↔ x = a ∨ x ∈ l := by
  induction l with
  | nil => simp [insertInto]
  | cons b bs ih =>
    rw [insertInto]
    split
    · simp
    · next h => rw [Std.LawfulEqCmp.eq_of_compare h]; simp
    · simp [ih]; grind

/-- An element of a list with an insertion is the new one or an old one, whatever the order says
about equality. -/
theorem mem_of_mem_insertInto {x a : α} {l : List α} (h : x ∈ insertInto a l) :
    x = a ∨ x ∈ l := by
  induction l with
  | nil => simpa [insertInto] using h
  | cons b bs ih =>
    rw [insertInto] at h
    split at h
    · simpa using h
    · exact .inr h
    · rcases List.mem_cons.1 h with h | h
      · exact .inr (h ▸ List.mem_cons_self)
      · exact (ih h).imp id (List.mem_cons_of_mem _)

/-- An insertion takes no element away. -/
theorem mem_insertInto_of_mem {x a : α} {l : List α} (h : x ∈ l) : x ∈ insertInto a l := by
  induction l with
  | nil => cases h
  | cons b bs ih =>
    rw [insertInto]
    split
    · exact List.mem_cons_of_mem a h
    · exact h
    · rcases List.mem_cons.1 h with rfl | h
      · exact List.mem_cons_self
      · exact List.mem_cons_of_mem b (ih h)

/-- After an insertion the list has the new element, or one that the order does not tell from it. -/
theorem exists_mem_insertInto [Std.ReflOrd α] (a : α) (l : List α) :
    ∃ b ∈ insertInto a l, compare a b = .eq := by
  induction l with
  | nil => exact ⟨a, List.mem_cons_self, Std.ReflCmp.compare_self⟩
  | cons b bs ih =>
    rw [insertInto]
    split
    · exact ⟨a, List.mem_cons_self, Std.ReflCmp.compare_self⟩
    · next h => exact ⟨b, List.mem_cons_self, h⟩
    · obtain ⟨c, hc, h⟩ := ih
      exact ⟨c, List.mem_cons_of_mem b hc, h⟩

theorem ascending_insertInto [Std.TransOrd α] (a : α) {l : List α}
    (h : l.Pairwise fun a b => compare a b = .lt) :
    (insertInto a l).Pairwise fun a b => compare a b = .lt := by
  induction l with
  | nil => simp [insertInto]
  | cons b bs ih =>
    have hb := List.pairwise_cons.1 h
    rw [insertInto]
    split
    · next hlt =>
      refine List.pairwise_cons.2 ⟨fun x hx => ?_, h⟩
      rcases List.mem_cons.1 hx with rfl | hx
      · exact hlt
      · exact Std.TransCmp.lt_trans hlt (hb.1 x hx)
    · exact h
    · next hgt =>
      refine List.pairwise_cons.2 ⟨fun x hx => ?_, ih hb.2⟩
      rcases mem_of_mem_insertInto hx with rfl | hx
      · exact Std.OrientedCmp.gt_iff_lt.1 hgt
      · exact hb.1 x hx

/-- The set with one more element. -/
def insert [Std.TransOrd α] (s : OrderedSet α) (a : α) : OrderedSet α :=
  ⟨insertInto a s.toList, ascending_insertInto a s.ascending⟩

/-- The set of the elements of a list. -/
def ofList [Std.TransOrd α] (l : List α) : OrderedSet α := l.foldl insert ∅

/-- How many elements the set has. -/
def size (s : OrderedSet α) : Nat := s.toList.length

/-- Whether the set has no element. -/
def isEmpty (s : OrderedSet α) : Bool := s.toList.isEmpty

@[simp] theorem mem_toList {a : α} {s : OrderedSet α} : a ∈ s.toList ↔ a ∈ s := Iff.rfl

@[simp] theorem not_mem_empty (a : α) : a ∉ (∅ : OrderedSet α) := by
  show ¬a ∈ ([] : List α); simp

@[simp] theorem mem_insert [Std.TransOrd α] [Std.LawfulEqOrd α] {x a : α} {s : OrderedSet α} :
    x ∈ s.insert a ↔ x = a ∨ x ∈ s := mem_insertInto

theorem mem_ofList [Std.TransOrd α] [Std.LawfulEqOrd α] {x : α} {l : List α} :
    x ∈ ofList l ↔ x ∈ l := by
  suffices h : ∀ s : OrderedSet α, x ∈ l.foldl insert s ↔ x ∈ s ∨ x ∈ l by
    simpa [ofList] using (h ∅).trans (by simp)
  induction l with
  | nil => simp
  | cons a l ih => intro s; rw [List.foldl_cons, ih, mem_insert, List.mem_cons]; grind

/-- A set of a list has only elements of the list, whatever the order says about equality. -/
theorem mem_of_mem_ofList [Std.TransOrd α] {x : α} {l : List α} (h : x ∈ ofList l) : x ∈ l := by
  suffices key : ∀ s : OrderedSet α, x ∈ l.foldl insert s → x ∈ s ∨ x ∈ l from
    (key ∅ h).resolve_left (not_mem_empty x)
  clear h
  induction l with
  | nil => exact fun s h => .inl h
  | cons a l ih =>
    intro s h
    rcases ih _ h with h | h
    · rcases mem_of_mem_insertInto h with rfl | h
      · exact .inr List.mem_cons_self
      · exact .inl h
    · exact .inr (List.mem_cons_of_mem a h)

/-- For each element of a list the set has one that the order does not tell from it. -/
theorem exists_mem_ofList [Std.TransOrd α] {x : α} {l : List α} (h : x ∈ l) :
    ∃ y ∈ ofList l, compare x y = .eq := by
  suffices key : ∀ s : OrderedSet α, ((∃ y ∈ s, compare x y = .eq) ∨ x ∈ l) →
      ∃ y ∈ l.foldl insert s, compare x y = .eq from key ∅ (.inr h)
  clear h
  induction l with
  | nil => exact fun s h => h.resolve_right List.not_mem_nil
  | cons a l ih =>
    intro s h
    refine ih _ ?_
    rcases h with ⟨y, hy, hEq⟩ | h
    · exact .inl ⟨y, mem_insertInto_of_mem hy, hEq⟩
    · rcases List.mem_cons.1 h with rfl | h
      · exact .inl (exists_mem_insertInto x s.toList)
      · exact .inr h

/-- No element is listed twice. -/
theorem nodup [Std.TransOrd α] (s : OrderedSet α) : s.toList.Nodup :=
  s.ascending.imp fun hlt heq => by simp [heq, Std.ReflCmp.compare_self] at hlt

/-- Two sets with the same elements are the same value. -/
theorem ext_mem [Std.TransOrd α] {s t : OrderedSet α} (h : ∀ a, a ∈ s ↔ a ∈ t) : s = t := by
  have key : ∀ {l m : List α}, l.Pairwise (fun a b => compare a b = .lt) →
      m.Pairwise (fun a b => compare a b = .lt) → (∀ a, a ∈ l ↔ a ∈ m) → l = m := by
    intro l
    induction l with
    | nil =>
      intro m _ _ h
      cases m with
      | nil => rfl
      | cons b m => exact absurd ((h b).2 List.mem_cons_self) (by simp)
    | cons a l ih =>
      intro m hl hm h
      cases m with
      | nil => exact absurd ((h a).1 List.mem_cons_self) (by simp)
      | cons b m =>
        have hl' := List.pairwise_cons.1 hl
        have hm' := List.pairwise_cons.1 hm
        have irrefl : ∀ x : α, compare x x ≠ .lt := fun x hx => by
          simp [Std.ReflCmp.compare_self] at hx
        have hab : a = b := by
          rcases List.mem_cons.1 ((h a).1 List.mem_cons_self) with e | e
          · exact e
          · rcases List.mem_cons.1 ((h b).2 List.mem_cons_self) with e' | e'
            · exact e'.symm
            · exact absurd (Std.TransCmp.lt_trans (hl'.1 b e') (hm'.1 a e)) (irrefl a)
        subst hab
        congr 1
        refine ih hl'.2 hm'.2 fun x => ⟨fun hx => ?_, fun hx => ?_⟩
        · rcases List.mem_cons.1 ((h x).1 (List.mem_cons_of_mem _ hx)) with rfl | e
          · exact absurd (hl'.1 x hx) (irrefl x)
          · exact e
        · rcases List.mem_cons.1 ((h x).2 (List.mem_cons_of_mem _ hx)) with rfl | e
          · exact absurd (hm'.1 x hx) (irrefl x)
          · exact e
  cases s with
  | mk l hl => cases t with
    | mk m hm => congr 1; exact key hl hm h

/-- A set is made of the list of its own elements. -/
theorem ofList_toList [Std.TransOrd α] [Std.LawfulEqOrd α] (s : OrderedSet α) :
    ofList s.toList = s :=
  ext_mem fun _ => mem_ofList

end OrderedSet

end PackageManager
