import PackageManager.Document.Decode
import PackageManager.Proofs.Ordered.Edits
import PackageManager.Proofs.Traversal

/-!
# Descriptions that are written and read again

What is written as a record is a table in which no key occurs twice, and there each reader of a
field finds the value that was written for it. A map is written as a table too, with its keys in
order. It is read by one insertion after another, and since the keys that are found are those that
were written, the map that comes of it has the entries that were read and no others.

## Main results

* `record_table` — the fields of a record that is written as a table.
* `map_table` — a table is read as the map of its entries.
* `map_entries_eq_ok_iff` — a map is read again iff each of its values is.
-/

namespace PackageManager.Decode

/-! ## Records -/

variable {entries : List (String × Datum)} (hKeys : (entries.map (·.1)).Nodup)

include hKeys

theorem length_valuesOf_le (key : String) : (Datum.valuesOf entries key).length ≤ 1 := by
  have hCount := List.nodup_iff_count_le_one.1 hKeys key
  rw [List.count, List.countP_map] at hCount
  rw [Datum.valuesOf, List.length_map, ← List.countP_eq_length_filter]
  simpa [Function.comp_def, beq_eq_decide] using hCount

theorem valuesOf_eq_singleton {e : String × Datum} (he : e ∈ entries) :
    Datum.valuesOf entries e.1 = [e.2] := by
  have hMem : e.2 ∈ Datum.valuesOf entries e.1 :=
    List.mem_map.2 ⟨e, List.mem_filter.2 ⟨he, decide_eq_true rfl⟩, rfl⟩
  have hOnce := length_valuesOf_le hKeys e.1
  cases hValues : Datum.valuesOf entries e.1 with
  | nil =>
      rw [hValues] at hMem
      cases hMem
  | cons d l =>
      rw [hValues] at hMem hOnce
      obtain rfl : l = [] := List.length_eq_zero_iff.1 (by simpa using hOnce)
      rw [List.mem_singleton.1 hMem]

/-- A table without a key that occurs twice has its own values as the fields of a record. -/
theorem record_table {d : Datum} (hTable : d = .table entries) (format : Format)
    (names : List String) : ∃ field,
      record format names d = .ok field ∧ ∀ e ∈ entries, field e.1 = some e.2 := by
  subst hTable
  have hOnce : ¬(names.any fun n => 1 < (Datum.valuesOf entries n).length) = true := by
    simpa using fun n _ => length_valuesOf_le hKeys n
  refine ⟨_, if_neg hOnce, fun e he => ?_⟩
  rw [valuesOf_eq_singleton hKeys he]
  rfl

omit hKeys

/-! ## Texts -/

theorem texts_ofTexts (l : List String) : texts (.ofTexts l) = .ok l := by
  show (l.map .text).mapM text = _
  rw [List.mapM_map]
  exact mapM_eq_ok_self_iff.2 fun s _ => rfl

theorem textSet_ofTexts (s : OrderedSet String) : textSet (.ofTexts s.toList) = .ok s := by
  rw [textSet, texts_ofTexts]
  exact congrArg Except.ok s.ofList_toList

theorem optional_ofText? {α : Type} {read : Datum → Result α} {write : α → String}
    (hRead : ∀ a, read (.text (write a)) = .ok a) (a : Option α) :
    optional read (some (.ofText? (a.map write))) = .ok a := by
  cases a with
  | none => rfl
  | some a =>
      show (read (.text (write a))).map some = _
      rw [hRead]
      rfl

theorem optional_text (s : Option String) : optional text (some (.ofText? s)) = .ok s := by
  cases s <;> rfl

/-! ## Maps -/

variable {β : Type} {read : Datum → Result β}

/-- A table is read as the map of its entries, of which each is read by itself. -/
theorem map_table (read : Datum → Result β) (entries : List (String × Datum)) :
    Decode.map .ok read (.table entries) =
      (entries.mapM fun e => (read e.2).map fun b => (e.1, b)).map OrderedMap.ofList := by
  show entries.foldlM _ ∅ = _
  induction entries using List.reverseRecOn with
  | nil => rfl
  | append_singleton entries e ih =>
      rw [List.foldlM_append, List.mapM_append, ih]
      cases entries.mapM fun e => (read e.2).map fun b => (e.1, b) with
      | error f => rfl
      | ok l =>
          rw [List.mapM_cons]
          cases hRead : read e.2 with
          | error f => simp [Except.map, bind, Except.bind, hRead]
          | ok b =>
              simp [Except.map, bind, Except.bind, pure, Except.pure, hRead,
                OrderedMap.ofList_concat]

/-- A map is read again iff each of its values is. -/
theorem map_entries_eq_ok_iff {m : OrderedMap String β} {write : β → Datum} :
    Decode.map .ok read (.table (m.entries.map fun e => (e.1, write e.2))) = .ok m ↔
      ∀ e ∈ m.entries, read (write e.2) = .ok e.2 := by
  have hAgain (e : String × β) : (read (write e.2)).map (fun b => (e.1, b)) = .ok e ↔
      read (write e.2) = .ok e.2 := by
    cases read (write e.2) <;> simp [Except.map, Prod.ext_iff]
  rw [map_table, List.mapM_map]
  simp only [← hAgain]
  rw [← mapM_eq_ok_self_iff]
  constructor
  · intro hAll
    obtain ⟨l, hList, hSame⟩ := ok_of_map hAll
    -- the keys are those of the map, and so in its order
    have hKeys : List.Forall₂ (· = ·) (m.entries.map (·.1)) (l.map (·.1)) := by
      rw [List.forall₂_map_left_iff, List.forall₂_map_right_iff]
      refine (forall₂_of_mapM hList).imp fun e e' hRead => ?_
      obtain ⟨b, -, rfl⟩ := ok_of_map hRead
      rfl
    rw [List.forall₂_eq_eq_eq] at hKeys
    have hOrder : l.Pairwise fun a b => compare a.1 b.1 = .lt := by
      have hMap : (l.map (·.1)).Pairwise fun a b => compare a b = .lt := by
        rw [← hKeys]
        exact List.pairwise_map.2 m.ascending
      exact List.pairwise_map.1 hMap
    rw [← hSame, OrderedMap.entries_ofList hOrder]
    rwa [← hSame, OrderedMap.entries_ofList hOrder] at hList
  · intro hList
    have hMap : Except.ok (OrderedMap.ofList m.entries) = (Except.ok m : Result _) :=
      congrArg Except.ok m.ofList_entries
    exact (congrArg (Except.map OrderedMap.ofList) hList).trans hMap

end PackageManager.Decode
