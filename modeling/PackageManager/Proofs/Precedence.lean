import Mathlib.Data.List.Nodup
import Mathlib.Logic.Relation

/-!
# Standing before another in a list

Orders of installation and orders of vertices are lists without duplicates, and what is claimed of
them is which elements stand before which. `Precedes` says it by a sublist of two elements, which
keeps its shape under the operations that turn one such list into another.
-/

namespace PackageManager

variable {α β : Type}

/-- One element stands in a list strictly before another. -/
def Precedes (l : List α) (a b : α) : Prop := [a, b].Sublist l

theorem Precedes.mem_left {l : List α} {a b : α} (h : Precedes l a b) : a ∈ l :=
  h.subset (by simp)

theorem Precedes.mem_right {l : List α} {a b : α} (h : Precedes l a b) : b ∈ l :=
  h.subset (by simp)

theorem precedes_cons {x : α} {l : List α} {a b : α} :
    Precedes (x :: l) a b ↔ (x = a ∧ b ∈ l) ∨ Precedes l a b := by
  constructor
  · intro h
    cases h with
    | cons _ h => exact .inr h
    | cons_cons _ h => exact .inl ⟨rfl, List.singleton_sublist.1 h⟩
  · rintro (⟨rfl, hb⟩ | h)
    · exact (List.singleton_sublist.2 hb).cons_cons x
    · exact h.cons x

/-- A list without duplicates has no element before itself. -/
theorem not_precedes_self {l : List α} (hNodup : l.Nodup) (a : α) : ¬Precedes l a a :=
  List.nodup_iff_sublist.1 hNodup a

/-- In a list without duplicates, standing before is transitive. -/
theorem Precedes.trans {l : List α} (hNodup : l.Nodup) {a b c : α} (hab : Precedes l a b)
    (hbc : Precedes l b c) : Precedes l a c := by
  induction l with
  | nil => cases hab
  | cons x l ih =>
      obtain ⟨hx, hTail⟩ := List.nodup_cons.1 hNodup
      rcases precedes_cons.1 hbc with ⟨rfl, -⟩ | hbc
      · rcases precedes_cons.1 hab with ⟨-, hb⟩ | hab
        · exact absurd hb hx
        · exact absurd hab.mem_right hx
      · rcases precedes_cons.1 hab with ⟨rfl, -⟩ | hab
        · exact precedes_cons.2 (.inl ⟨rfl, hbc.mem_right⟩)
        · exact precedes_cons.2 (.inr (ih hTail hab hbc))

/-- What stands in the part of a list before an element, if there is only one copy of that. -/
theorem Precedes.mem_of_eq_append {l l₁ l₂ : List α} (hNodup : l.Nodup) {a b : α}
    (h : Precedes l a b) (hSplit : l = l₁ ++ b :: l₂) : a ∈ l₁ := by
  subst hSplit
  induction l₁ with
  | nil =>
      obtain ⟨hb, -⟩ := List.nodup_cons.1 hNodup
      rcases precedes_cons.1 h with ⟨-, h⟩ | h
      · exact absurd h hb
      · exact absurd h.mem_right hb
  | cons x l₁ ih =>
      rcases precedes_cons.1 h with ⟨rfl, -⟩ | h
      · exact List.mem_cons_self
      · exact List.mem_cons_of_mem x (ih (List.nodup_cons.1 hNodup).2 h)

/-- What stands in a list stands before whatever is put behind it. -/
theorem precedes_concat {l : List α} {a b : α} (ha : a ∈ l) : Precedes (l ++ [b]) a b :=
  (List.singleton_sublist.2 ha).append (List.Sublist.refl [b])

theorem Precedes.append_right {l l' : List α} {a b : α} (h : Precedes l a b) :
    Precedes (l ++ l') a b :=
  List.Sublist.trans h (List.sublist_append_left l l')

theorem Precedes.reverse {l : List α} {a b : α} (h : Precedes l a b) : Precedes l.reverse b a :=
  List.Sublist.reverse h

/-- What only leads forward in a list without duplicates does not lead back to where it began. -/
theorem not_transGen_self_of_precedes {R : α → α → Prop} {l : List α} (hNodup : l.Nodup)
    (hForward : ∀ a b, R a b → Precedes l a b) (a : α) : ¬Relation.TransGen R a a := by
  have hPath : ∀ b, Relation.TransGen R a b → Precedes l a b := by
    intro b hb
    induction hb with
    | single hStep => exact hForward a _ hStep
    | tail _ hStep ih => exact ih.trans hNodup (hForward _ _ hStep)
  exact fun hBack => not_precedes_self hNodup a (hPath a hBack)

theorem Precedes.filterMap {f : α → Option β} {l : List α} {a b : α} {x y : β}
    (h : Precedes l a b) (ha : f a = some x) (hb : f b = some y) :
    Precedes (l.filterMap f) x y := by
  have hImage := List.Sublist.filterMap f h
  simpa [Precedes, ha, hb] using hImage

end PackageManager
