import Mathlib.Algebra.Group.Nat.Defs
import Mathlib.Data.List.Basic
import Mathlib.Data.List.Induction
import Mathlib.Data.List.TakeWhile
import PackageManager.Text.Cut
import PackageManager.Text.Decimal
import PackageManager.Text.Utf8

/-!
# Texts and their parts

File names, paths and versions are parts of a text with separators between them. How much of the
parts can be read off the text depends on where the separator may occur: a text is cut at its first
separator, or at its last one, in one way only, but it can be cut at different ones.

## Main results

* `append_cons_eq_append_cons_iff` — when two texts that are cut at a separator are the same.
* `cutFirst_eq_some_iff`, `cutLast_eq_some_iff` — where a text is cut at its first separator, and
  where at its last one.
* `beforeSuffix?_eq_some_iff` — what stands before an ending.
* `not_mem_of_mem_splitOn` — what stands between separators has none.
* `encode_injective`, `decode?_injective` — a text and its octets determine each other.
* `digits_digitsValue` — digits without a leading zero and their number determine each other.
-/

namespace PackageManager.Text

/-! ## Separators -/

/-- Two texts that are cut at a separator are the same if they are cut at the same place, or if they
are one text with both separators in it. -/
theorem append_cons_eq_append_cons_iff {α : Type} {x : α} {a b c d : List α} :
    a ++ x :: b = c ++ x :: d ↔
      (a = c ∧ b = d) ∨ (∃ k, c = a ++ x :: k ∧ b = k ++ x :: d) ∨
        ∃ k, a = c ++ x :: k ∧ d = k ++ x :: b := by
  rw [List.append_eq_append_iff]
  constructor
  · rintro (⟨l, rfl, hRest⟩ | ⟨l, rfl, hRest⟩)
    · cases l with
      | nil =>
          simp only [List.nil_append, List.cons.injEq, true_and] at hRest
          exact .inl ⟨(List.append_nil a).symm, hRest⟩
      | cons y k =>
          simp only [List.cons_append, List.cons.injEq] at hRest
          obtain ⟨rfl, rfl⟩ := hRest
          exact .inr (.inl ⟨k, rfl, rfl⟩)
    · cases l with
      | nil =>
          simp only [List.nil_append, List.cons.injEq, true_and] at hRest
          exact .inl ⟨List.append_nil c, hRest.symm⟩
      | cons y k =>
          simp only [List.cons_append, List.cons.injEq] at hRest
          obtain ⟨rfl, rfl⟩ := hRest
          exact .inr (.inr ⟨k, rfl, rfl⟩)
  · rintro (⟨rfl, rfl⟩ | ⟨k, rfl, rfl⟩ | ⟨k, rfl, rfl⟩)
    · exact .inl ⟨[], (List.append_nil a).symm, rfl⟩
    · exact .inl ⟨x :: k, rfl, rfl⟩
    · exact .inr ⟨x :: k, rfl, rfl⟩

/-- A text is cut at the first separator in one way only. -/
theorem eq_of_append_cons_eq {α : Type} {x : α} {a b c d : List α} (ha : x ∉ a) (hc : x ∉ c)
    (hEq : a ++ x :: b = c ++ x :: d) : a = c ∧ b = d := by
  rcases append_cons_eq_append_cons_iff.1 hEq with hSame | ⟨k, rfl, -⟩ | ⟨k, rfl, -⟩
  · exact hSame
  · simp at hc
  · simp at ha

/-- A text is cut at the last separator in one way only. -/
theorem eq_of_append_cons_eq_last {α : Type} {x : α} {a b c d : List α} (hb : x ∉ b) (hd : x ∉ d)
    (hEq : a ++ x :: b = c ++ x :: d) : a = c ∧ b = d := by
  rcases append_cons_eq_append_cons_iff.1 hEq with hSame | ⟨k, -, rfl⟩ | ⟨k, -, rfl⟩
  · exact hSame
  · simp at hb
  · simp at hd

theorem cutFirst_eq_some_iff {sep : Char} {cs a b : List Char} :
    cutFirst sep cs = some (a, b) ↔ cs = a ++ sep :: b ∧ sep ∉ a := by
  induction cs generalizing a with
  | nil => simp [cutFirst]
  | cons c cs ih =>
      rw [cutFirst]
      by_cases hc : c = sep
      · subst hc
        rw [if_pos rfl, Option.some.injEq, Prod.mk.injEq]
        constructor
        · rintro ⟨rfl, rfl⟩
          simp
        · rintro ⟨hCut, hNone⟩
          cases a with
          | nil => exact ⟨rfl, (List.cons.inj hCut).2⟩
          | cons d a => simp [(List.cons.inj hCut).1] at hNone
      · rw [if_neg hc, Option.map_eq_some_iff]
        constructor
        · rintro ⟨⟨a', b'⟩, hCut, hSame⟩
          cases hSame
          obtain ⟨rfl, hNone⟩ := ih.1 hCut
          simp [hNone, Ne.symm hc]
        · rintro ⟨hCut, hNone⟩
          cases a with
          | nil => exact absurd (List.cons.inj hCut).1 hc
          | cons d a =>
              obtain ⟨rfl, hRest⟩ := List.cons.inj hCut
              exact ⟨(a, b), ih.2 ⟨hRest, fun h => hNone (List.mem_cons_of_mem _ h)⟩, rfl⟩

theorem cutFirst_eq_none_iff {sep : Char} {cs : List Char} :
    cutFirst sep cs = none ↔ sep ∉ cs := by
  induction cs with
  | nil => simp [cutFirst]
  | cons c cs ih =>
      rw [cutFirst]
      by_cases hc : c = sep
      · simp [hc]
      · simp [hc, ih, Ne.symm hc]

theorem cutLast_eq_none_iff {sep : Char} {cs : List Char} : cutLast sep cs = none ↔ sep ∉ cs := by
  induction cs with
  | nil => simp [cutLast]
  | cons c cs ih =>
      rw [cutLast]
      cases hRest : cutLast sep cs with
      | none =>
          have hNone : sep ∉ cs := ih.1 hRest
          by_cases hc : c = sep
          · simp [hc]
          · simp [hc, hNone, Ne.symm hc]
      | some parts =>
          have hSome : sep ∈ cs := by_contra fun hNone => by simp [ih.2 hNone] at hRest
          simp [hSome]

theorem cutLast_eq_some_iff {sep : Char} {cs a b : List Char} :
    cutLast sep cs = some (a, b) ↔ cs = a ++ sep :: b ∧ sep ∉ b := by
  induction cs generalizing a b with
  | nil => simp [cutLast]
  | cons c cs ih =>
      rw [cutLast]
      cases hRest : cutLast sep cs with
      | some parts =>
          obtain ⟨a', b'⟩ := parts
          obtain ⟨rfl, hLast⟩ := ih.1 hRest
          constructor
          · rintro ⟨⟩
            exact ⟨rfl, hLast⟩
          · rintro ⟨hCut, hb⟩
            obtain ⟨rfl, rfl⟩ := eq_of_append_cons_eq_last (a := c :: a') hLast hb hCut
            rfl
      | none =>
          have hNone : sep ∉ cs := cutLast_eq_none_iff.1 hRest
          constructor
          · intro hCut
            obtain ⟨hc, hParts⟩ := Option.ite_none_right_eq_some.1 hCut
            cases hParts
            exact ⟨by rw [hc, List.nil_append], hNone⟩
          · rintro ⟨hCut, -⟩
            cases a with
            | nil =>
                obtain ⟨rfl, rfl⟩ := List.cons.inj hCut
                exact if_pos rfl
            | cons d a => simp [(List.cons.inj hCut).2] at hNone

theorem afterPrefix?_eq_some_iff {beginning cs rest : List Char} :
    afterPrefix? beginning cs = some rest ↔ cs = beginning ++ rest := by
  fun_induction afterPrefix? beginning cs with
  | case1 cs => simp
  | case2 p ps => simp
  | case3 p ps cs ih => simp [ih]
  | case4 p ps c cs hOther => simp [Ne.symm hOther]

theorem afterOneOf?_eq_some_iff {expected cs rest : List Char} :
    afterOneOf? expected cs = some rest ↔ ∃ c ∈ expected, cs = c :: rest := by
  cases cs with
  | nil => simp [afterOneOf?]
  | cons c cs => by_cases hc : c ∈ expected <;> simp [afterOneOf?, hc]

theorem beforeSuffix?_eq_some_iff {ending cs rest : List Char} :
    beforeSuffix? ending cs = some rest ↔ cs = rest ++ ending := by
  unfold beforeSuffix?
  rw [Option.map_eq_some_iff]
  simp only [afterPrefix?_eq_some_iff]
  constructor
  · rintro ⟨front, hFront, rfl⟩
    rw [← List.reverse_reverse cs, hFront, List.reverse_append, List.reverse_reverse]
  · rintro rfl
    exact ⟨rest.reverse, List.reverse_append, List.reverse_reverse rest⟩

/-- What is taken from the front as long as it goes on ends where something else begins. -/
theorem span_append {α : Type} {p : α → Bool} {front rest : List α} (hFront : ∀ a ∈ front, p a)
    (hRest : ∀ a ∈ rest.head?, p a = false) :
    (front ++ rest).takeWhile p = front ∧ (front ++ rest).dropWhile p = rest := by
  rw [List.takeWhile_append_of_pos hFront, List.dropWhile_append_of_pos hFront]
  cases rest with
  | nil => simp
  | cons a rest => simp [hRest a rfl]

/-- Nothing of what is left goes on in the same way. -/
theorem head?_dropWhile_eq_false {α : Type} {p : α → Bool} {l : List α} {a : α}
    (ha : a ∈ (l.dropWhile p).head?) : p a = false := by
  simpa [Option.mem_def.1 ha] using List.head?_dropWhile_not p l

/-- What is not the separator of a text comes from one of its parts. -/
theorem mem_intercalate_singleton_iff {c separator : Char} (hc : c ≠ separator)
    (parts : List (List Char)) :
    c ∈ [separator].intercalate parts ↔ ∃ part ∈ parts, c ∈ part := by
  induction parts with
  | nil => simp
  | cons part parts ih =>
      cases parts with
      | nil => simp
      | cons next parts =>
          rw [List.intercalate_cons_cons, List.mem_append, List.mem_append, ih]
          simp [hc]

/-- No part of a text between separators contains the separator. -/
theorem not_mem_of_mem_splitOn {α : Type} [DecidableEq α] {x : α} {l part : List α}
    (hPart : part ∈ l.splitOn x) : x ∉ part := by
  induction l generalizing part with
  | nil =>
      have hEmpty : part = [] := by simpa using hPart
      simp [hEmpty]
  | cons c l ih =>
      rw [List.splitOn_cons_eq_if_modifyHead] at hPart
      split at hPart
      · rcases List.mem_cons.1 hPart with rfl | hPart
        · simp
        · exact ih hPart
      · next hc =>
        obtain ⟨first, rest, hSplit⟩ := List.exists_cons_of_ne_nil (List.splitOn_ne_nil x l)
        rw [hSplit, List.modifyHead_cons] at hPart
        rcases List.mem_cons.1 hPart with rfl | hPart
        · have hFirst : x ∉ first := ih (hSplit ▸ List.mem_cons_self ..)
          have hHead : x ≠ c := fun hEq => hc (by simp [hEq])
          simp [hHead, hFirst]
        · exact ih (hSplit ▸ List.mem_cons_of_mem _ hPart)

/-- What has no separator stays together at the end of the last part. -/
theorem exists_getLast?_splitOn_append {α : Type} [DecidableEq α] {x : α} {b : List α} (hb : x ∉ b)
    (a : List α) : ∃ front, ((a ++ b).splitOn x).getLast? = some (front ++ b) := by
  induction a with
  | nil => exact ⟨[], by rw [List.nil_append, List.splitOn_eq_singleton hb]; rfl⟩
  | cons c a ih =>
      obtain ⟨front, hLast⟩ := ih
      obtain ⟨first, rest, hSplit⟩ := List.exists_cons_of_ne_nil (List.splitOn_ne_nil x (a ++ b))
      rw [List.cons_append, List.splitOn_cons_eq_if_modifyHead, hSplit]
      rw [hSplit] at hLast
      by_cases hc : c == x
      · exact ⟨front, by simpa [hc] using hLast⟩
      · rw [if_neg hc, List.modifyHead_cons]
        cases rest with
        | nil =>
            obtain rfl : first = front ++ b := Option.some.inj hLast
            exact ⟨c :: front, rfl⟩
        | cons next rest => exact ⟨front, hLast⟩

/-! ## Octets -/

@[simp] theorem encode_append (cs ds : List Char) : encode (cs ++ ds) = encode cs ++ encode ds :=
  List.flatMap_append

theorem encode_injective {cs ds : List Char} (hEq : encode cs = encode ds) : cs = ds := by
  have hOctets : (String.ofList cs).toByteArray = (String.ofList ds).toByteArray := by
    rw [String.toByteArray_ofList, String.toByteArray_ofList]
    exact congrArg List.toByteArray hEq
  exact String.ofList_injective (String.toByteArray_inj.1 hOctets)

/-- Different sequences of octets have different texts. -/
theorem decode?_injective {a b : List UInt8} {s : String} (ha : decode? a = some s)
    (hb : decode? b = some s) : a = b := by
  have hOctets {l : List UInt8} (hl : decode? l = some s) : l = s.toByteArray.data.toList := by
    unfold decode? String.fromUTF8? at hl
    split at hl
    · rw [← Option.some.inj hl]
      rfl
    · cases hl
  rw [hOctets ha, hOctets hb]

/-! ## Characters of one octet -/

theorem ofNat_eq_ofNat_iff {m n : Nat} (hm : m < 256) (hn : n < 256) :
    UInt8.ofNat m = UInt8.ofNat n ↔ m = n := by
  rw [← UInt8.toNat_inj, UInt8.toNat_ofNat', UInt8.toNat_ofNat', Nat.mod_eq_of_lt hm,
    Nat.mod_eq_of_lt hn]

/-- The octets of a character that has more than one are at least 0x80. -/
theorem ofNat_ne_ofNat_mod_add {a : Nat} (ha : a < 0x80) (n : Nat) {m k : Nat} (hm : 0 < m)
    (hk : 0x80 ≤ k) (hSum : m + k ≤ 256) : UInt8.ofNat a ≠ UInt8.ofNat (n % m + k) := by
  have hMod : n % m < m := Nat.mod_lt n hm
  rw [Ne, ofNat_eq_ofNat_iff (by omega) (by omega)]
  omega

theorem ofNat_mem_utf8EncodeChar_iff {a : Char} (ha : a.toNat < 0x80) (c : Char) :
    UInt8.ofNat a.toNat ∈ String.utf8EncodeChar c ↔ a = c := by
  have hValue : a = c ↔ a.toNat = c.toNat := Char.toNat_inj.symm
  have hLonger (hOne : ¬ c.val.toNat ≤ 0x7F) : a.toNat ≠ c.toNat := fun hEq => by
    have hc : c.val.toNat = a.toNat := hEq.symm
    omega
  rw [hValue]
  fun_cases String.utf8EncodeChar with
  | case1 v hv =>
      rw [List.mem_singleton, ofNat_eq_ofNat_iff (by omega) (by omega)]
      exact Iff.rfl
  | case2 v hOne hTwo =>
      have hFirst := ofNat_ne_ofNat_mod_add ha (v / 64) (m := 0x20) (k := 0xc0)
      have hLast := ofNat_ne_ofNat_mod_add ha v (m := 0x40) (k := 0x80)
      have hOther := hLonger hOne
      simp_all
  | case3 v hOne hTwo hThree =>
      have hFirst := ofNat_ne_ofNat_mod_add ha (v / 4096) (m := 0x10) (k := 0xe0)
      have hSecond := ofNat_ne_ofNat_mod_add ha (v / 64) (m := 0x40) (k := 0x80)
      have hLast := ofNat_ne_ofNat_mod_add ha v (m := 0x40) (k := 0x80)
      have hOther := hLonger hOne
      simp_all
  | case4 v hOne hTwo hThree =>
      have hFirst := ofNat_ne_ofNat_mod_add ha (v / 262144) (m := 0x08) (k := 0xf0)
      have hSecond := ofNat_ne_ofNat_mod_add ha (v / 4096) (m := 0x40) (k := 0x80)
      have hThird := ofNat_ne_ofNat_mod_add ha (v / 64) (m := 0x40) (k := 0x80)
      have hLast := ofNat_ne_ofNat_mod_add ha v (m := 0x40) (k := 0x80)
      have hOther := hLonger hOne
      simp_all

/-- A character of one octet has one spelling in UTF-8. -/
theorem ofNat_mem_encode_iff {a : Char} (ha : a.toNat < 0x80) (cs : List Char) :
    UInt8.ofNat a.toNat ∈ encode cs ↔ a ∈ cs := by
  simp only [encode, List.mem_flatMap, ofNat_mem_utf8EncodeChar_iff ha]
  simp

/-! ## Letters and digits -/

/-- Letters and digits are between zero and the last small letter. -/
theorem toNat_of_isAlphanum {c : Char} (hc : c.isAlphanum) : 48 ≤ c.toNat ∧ c.toNat ≤ 122 := by
  delta Char.isAlphanum Char.isAlpha Char.isUpper Char.isLower Char.isDigit at hc
  simp only [Bool.or_eq_true, Bool.and_eq_true, decide_eq_true_eq, ge_iff_le,
    UInt32.le_iff_toNat_le] at hc
  have hValue : c.val.toNat = c.toNat := rfl
  have hBounds : 'A'.val.toNat = 65 ∧ 'Z'.val.toNat = 90 ∧ 'a'.val.toNat = 97 ∧
      'z'.val.toNat = 122 ∧ '0'.val.toNat = 48 ∧ '9'.val.toNat = 57 := by decide
  omega

/-- At least one digit, and nothing else. -/
structure Numeral (ds : List Char) : Prop where
  ne_nil : ds ≠ []
  digits : ∀ c ∈ ds, c.isDigit

theorem someDigits_eq_some_iff {cs ds rest : List Char} : someDigits cs = some (ds, rest) ↔
    Numeral ds ∧ cs = ds ++ rest ∧ ∀ c ∈ rest.head?, c.isDigit = false := by
  unfold someDigits
  constructor
  · intro hRead
    cases hDigits : cs.takeWhile Char.isDigit with
    | nil =>
        rw [hDigits] at hRead
        cases hRead
    | cons d ds =>
        rw [hDigits] at hRead
        cases hRead
        refine ⟨⟨List.cons_ne_nil d ds, fun c hc => ?_⟩, ?_, fun c => head?_dropWhile_eq_false⟩
        · exact List.mem_takeWhile_imp (hDigits ▸ hc)
        · rw [← hDigits, List.takeWhile_append_dropWhile]
  · rintro ⟨hds, rfl, hRest⟩
    obtain ⟨hTake, hDrop⟩ := span_append hds.digits hRest
    obtain ⟨d, ds, rfl⟩ := List.exists_cons_of_ne_nil hds.ne_nil
    rw [hTake, hDrop]

theorem digits_injective {m n : Nat} (hEq : digits m = digits n) : m = n := by
  rw [← digitsValue_digits m, hEq, digitsValue_digits]

theorem isDigit_of_mem_digits {n : Nat} {c : Char} (h : c ∈ digits n) : c.isDigit :=
  Nat.isDigit_of_mem_toDigits (by decide) (by decide) h

theorem digits_ne_nil (n : Nat) : digits n ≠ [] := Nat.toDigits_ne_nil

theorem numeral_digits (n : Nat) : Numeral (digits n) :=
  ⟨digits_ne_nil n, fun _ hc => isDigit_of_mem_digits hc⟩

/-- A digit is between zero and nine. -/
theorem toNat_of_isDigit {c : Char} (hc : c.isDigit) : 48 ≤ c.toNat ∧ c.toNat ≤ 57 := by
  simp only [Char.isDigit, Bool.and_eq_true, decide_eq_true_eq] at hc
  exact hc

theorem digits_value_of_isDigit {c : Char} (hc : c.isDigit) : digits (c.toNat - 48) = [c] := by
  obtain ⟨hFrom, hTo⟩ := toNat_of_isDigit hc
  have hSmall : c.toNat - 48 < 10 := by omega
  unfold digits
  rw [Nat.toDigits_of_lt_base hSmall]
  congr 1
  apply Char.toNat_inj.1
  rw [Nat.toNat_digitChar_of_lt_ten hSmall]
  omega

theorem digitsValue_concat (ds : List Char) (c : Char) :
    digitsValue (ds ++ [c]) = 10 * digitsValue ds + (c.toNat - 48) := by
  unfold digitsValue
  rw [Nat.ofDigitChars_append, Nat.ofDigitChars_cons, Nat.ofDigitChars_nil]
  rfl

theorem digitsValue_append (as bs : List Char) :
    digitsValue (as ++ bs) = 10 ^ bs.length * digitsValue as + digitsValue bs := by
  unfold digitsValue
  rw [Nat.ofDigitChars_append, Nat.ofDigitChars_eq_ofDigitChars_zero]

theorem digitsValue_lt {ds : List Char} (hDigits : ∀ c ∈ ds, c.isDigit) :
    digitsValue ds < 10 ^ ds.length := by
  induction ds using List.reverseRecOn with
  | nil => exact Nat.one_pos
  | append_singleton front c ih =>
      have hFront := ih fun d hd => hDigits d (List.mem_append_left [c] hd)
      obtain ⟨-, hTo⟩ := toNat_of_isDigit (hDigits c (by simp))
      rw [digitsValue_concat, List.length_append, List.length_singleton, Nat.pow_succ]
      omega

theorem fixedNumber?_eq_some_iff {width n : Nat} {cs rest : List Char} :
    fixedNumber? width cs = some (n, rest) ↔
      ∃ ds, (ds.length = width ∧ ∀ c ∈ ds, c.isDigit) ∧ digitsValue ds = n ∧ cs = ds ++ rest := by
  unfold fixedNumber?
  constructor
  · intro hRead
    obtain ⟨⟨hLength, hDigits⟩, hParts⟩ := Option.ite_none_right_eq_some.1 hRead
    obtain ⟨hValue, hRest⟩ := Prod.mk.inj (Option.some.inj hParts)
    exact ⟨cs.take width, ⟨hLength, List.all_eq_true.1 hDigits⟩, hValue,
      by rw [← hRest, List.take_append_drop]⟩
  · rintro ⟨ds, ⟨rfl, hDigits⟩, rfl, rfl⟩
    rw [List.take_left, List.drop_left]
    exact if_pos ⟨rfl, List.all_eq_true.2 hDigits⟩

/-- Digits without a leading zero are those of the number that they denote. -/
theorem digits_digitsValue {ds : List Char} (hSome : ds ≠ []) (hDigits : ∀ c ∈ ds, c.isDigit)
    (hLead : ds.head? = some '0' → ds = ['0']) : digits (digitsValue ds) = ds := by
  induction ds using List.reverseRecOn with
  | nil => exact absurd rfl hSome
  | append_singleton front c ih =>
      have hc : c.isDigit := hDigits c (by simp)
      obtain ⟨-, hTo⟩ := toNat_of_isDigit hc
      rw [digitsValue_concat]
      cases front with
      | nil =>
          rw [show digitsValue [] = 0 from rfl, Nat.mul_zero, Nat.zero_add]
          exact digits_value_of_isDigit hc
      | cons d front =>
          have hFirst : d ≠ '0' := by
            rintro rfl
            simpa using hLead rfl
          have hFront : digits (digitsValue (d :: front)) = d :: front :=
            ih (List.cons_ne_nil d front) (fun e he => hDigits e (List.mem_append_left _ he))
              (fun hZero => absurd (Option.some.inj hZero) hFirst)
          have hPositive : 0 < digitsValue (d :: front) := by
            refine Nat.pos_of_ne_zero fun hZero => hFirst ?_
            rw [hZero] at hFront
            exact (List.cons.inj hFront).1.symm
          have hLast : c.toNat - 48 < 10 := by omega
          have hJoin := Nat.toDigits_append_toDigits (by decide : 1 < 10) hPositive hLast
          unfold digits at hFront ⊢
          rw [← hJoin, hFront]
          exact congrArg (d :: front ++ ·) (digits_value_of_isDigit hc)

/-- Only zero is written with a zero in front. -/
theorem digits_eq_of_head? {n : Nat} (hZero : (digits n).head? = some '0') : digits n = ['0'] := by
  induction n using Nat.base_induction 10 (by decide) with
  | single m hm =>
      unfold digits at hZero ⊢
      rw [Nat.toDigits_of_lt_base hm] at hZero ⊢
      exact congrArg (fun c => [c]) (Option.some.inj hZero)
  | digit m k hk hm ih =>
      have hJoin : digits m ++ digits k = digits (10 * m + k) :=
        Nat.toDigits_append_toDigits (by decide) hm hk
      rw [← hJoin, List.head?_append_of_ne_nil _ (digits_ne_nil m)] at hZero
      have hValue := digitsValue_digits m
      rw [ih hZero] at hValue
      exact absurd hValue.symm (Nat.ne_of_gt hm)

end PackageManager.Text
