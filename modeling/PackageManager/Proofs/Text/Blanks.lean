import PackageManager.Proofs.Text.Parts
import PackageManager.Text.Blank

/-!
# Trimmed texts

White space at the ends of a text is taken away by two functions that work from different sides.
Together they come to one description: a text is what it was trimmed to, with nothing but white
space in front of it and behind it, and what it was trimmed to has no white space at its ends. This
description is symmetric, and it determines the trimmed text.

## Main results

* `trim_eq_iff` — what a text is trimmed to.
* `Trimmed.front_eq_nil`, `Trimmed.end_eq_nil` — a trimmed text has no white space at its ends.
-/

namespace PackageManager.Text

/-- Nothing but white space, or nothing at all. -/
def Blanks (cs : List Char) : Prop := ∀ c ∈ cs, isBlank c

instance (cs : List Char) : Decidable (Blanks cs) :=
  List.decidableBAll (fun c => isBlank c) cs

theorem blanks_nil : Blanks [] := List.forall_mem_nil _

/-- The visible characters of ASCII are no white space. -/
theorem isBlank_eq_false_of_toNat {c : Char} (hFrom : 0x21 ≤ c.toNat) (hTo : c.toNat ≤ 0x7E) :
    isBlank c = false := by
  rw [Bool.eq_false_iff]
  intro hBlank
  simp [isBlank, blankRanges] at hBlank
  omega

theorem isBlank_eq_false_of_isDigit {c : Char} (hc : c.isDigit) : isBlank c = false := by
  obtain ⟨hFrom, hTo⟩ := toNat_of_isDigit hc
  exact isBlank_eq_false_of_toNat (by omega) (by omega)

/-- What is left of a text behind the white space that it begins with. -/
theorem exists_blanks_append (cs : List Char) : ∃ b, Blanks b ∧ cs = b ++ cs.dropWhile isBlank :=
  ⟨cs.takeWhile isBlank, fun _ hc => List.mem_takeWhile_imp hc,
    List.takeWhile_append_dropWhile.symm⟩

theorem dropWhile_isBlank_append {b cs : List Char} (hb : Blanks b)
    (hHead : ∀ c ∈ cs.head?, isBlank c = false) : (b ++ cs).dropWhile isBlank = cs :=
  (span_append hb hHead).2

/-- A text that neither starts nor ends with white space. -/
structure Trimmed (cs : List Char) : Prop where
  head : ∀ c ∈ cs.head?, isBlank c = false
  last : ∀ c ∈ cs.getLast?, isBlank c = false

theorem Trimmed.front_eq_nil {a t : List Char} (h : Trimmed (a ++ t)) (ha : Blanks a) : a = [] := by
  cases a with
  | nil => rfl
  | cons c a =>
      have hBlank : isBlank c := ha c List.mem_cons_self
      rw [h.head c rfl] at hBlank
      cases hBlank

theorem Trimmed.end_eq_nil {t b : List Char} (h : Trimmed (t ++ b)) (hb : Blanks b) : b = [] := by
  rcases List.eq_nil_or_concat b with rfl | ⟨b, c, rfl⟩
  · rfl
  · have hBlank : isBlank c := hb c (by simp)
    rw [h.last c (by simp)] at hBlank
    cases hBlank

/-! ## The end of a text -/

theorem trimEnd_blanks {b : List Char} (hb : Blanks b) : trimEnd b = [] := by
  induction b with
  | nil => rfl
  | cons c b ih =>
      have hRest : trimEnd b = [] := ih fun d hd => hb d (List.mem_cons_of_mem c hd)
      simp only [trimEnd, hRest, hb c List.mem_cons_self, if_true]

theorem trimEnd_append {t b : List Char} (hLast : ∀ c ∈ t.getLast?, isBlank c = false)
    (hb : Blanks b) : trimEnd (t ++ b) = t := by
  induction t with
  | nil => exact trimEnd_blanks hb
  | cons c t ih =>
      cases t with
      | nil =>
          have hc : isBlank c = false := hLast c rfl
          simp [trimEnd, trimEnd_blanks hb, hc]
      | cons d t =>
          have hRest : trimEnd (d :: t ++ b) = d :: t := ih fun e he => hLast e (by simpa using he)
          rw [List.cons_append, trimEnd, hRest]

/-- What is cut off at the end is white space, and what is left does not end with any. -/
theorem trimEnd_spec (cs : List Char) : ∃ b, Blanks b ∧ cs = trimEnd cs ++ b ∧
    ∀ c ∈ (trimEnd cs).getLast?, isBlank c = false := by
  induction cs with
  | nil => exact ⟨[], blanks_nil, rfl, by simp [trimEnd]⟩
  | cons c cs ih =>
      obtain ⟨b, hb, hSplit, hLast⟩ := ih
      rw [trimEnd]
      cases hRest : trimEnd cs with
      | nil =>
          rw [hRest, List.nil_append] at hSplit
          cases hBlank : isBlank c with
          | true => exact ⟨c :: b, List.forall_mem_cons.2 ⟨hBlank, hb⟩, by simp [hSplit], by simp⟩
          | false => exact ⟨b, hb, by simp [hSplit], by simpa using hBlank⟩
      | cons d rest =>
          rw [hRest] at hSplit hLast
          exact ⟨b, hb, congrArg (c :: ·) hSplit, by simpa using hLast⟩

/-! ## Both ends -/

/-- A trimmed text is what is left of a text when white space is taken away from both ends. -/
theorem trim_eq_iff {cs t : List Char} :
    trim cs = t ↔ Trimmed t ∧ ∃ a b, Blanks a ∧ Blanks b ∧ cs = a ++ t ++ b := by
  constructor
  · rintro rfl
    obtain ⟨b, hb, hSplit, hLast⟩ := trimEnd_spec (cs.dropWhile isBlank)
    have hFront : Blanks (cs.takeWhile isBlank) := fun c hc => List.mem_takeWhile_imp hc
    have hWhole : cs = cs.takeWhile isBlank ++ trim cs ++ b := by
      rw [List.append_assoc]
      exact (congrArg _ hSplit).symm.trans List.takeWhile_append_dropWhile |>.symm
    refine ⟨⟨fun c hc => ?_, hLast⟩, _, b, hFront, hb, hWhole⟩
    have hFirst : (trim cs).head? = some c := hc
    have hHead : (cs.dropWhile isBlank).head? = some c := by
      rw [hSplit, List.head?_append]
      exact congrArg (·.or b.head?) hFirst
    simpa [hHead] using List.head?_dropWhile_not isBlank cs
  · rintro ⟨⟨hHead, hLast⟩, a, b, ha, hb, rfl⟩
    unfold trim
    rw [List.append_assoc, List.dropWhile_append_of_pos ha]
    cases t with
    | nil =>
        have hAll : b.dropWhile isBlank = [] := List.dropWhile_eq_nil_iff.2 hb
        rw [List.nil_append, hAll]
        rfl
    | cons c t =>
        have hc : ¬isBlank c = true := by simp [hHead c rfl]
        rw [List.cons_append, List.dropWhile_cons_of_neg hc, ← List.cons_append]
        exact trimEnd_append hLast hb

theorem trimmed_trim (cs : List Char) : Trimmed (trim cs) := (trim_eq_iff.1 rfl).1

theorem Trimmed.trim_eq {cs : List Char} (h : Trimmed cs) : trim cs = cs :=
  trim_eq_iff.2 ⟨h, [], [], blanks_nil, blanks_nil, by simp⟩

end PackageManager.Text
