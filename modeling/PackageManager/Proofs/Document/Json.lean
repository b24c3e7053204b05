import PackageManager.Document.Json
import PackageManager.Proofs.Version.Text

/-!
# What is written as JSON is read again

The reader goes down one level or past one character with every step, and a bound keeps count of
the steps. A value therefore has to be read in front of anything that can follow it in a document,
and with any bound from twice the length of what is written for it: `Reads` says both, and the
induction over a datum shows it for each kind of value from the values inside. What begins a value
matters as well, because a list tells from the next character whether it is empty.

A value that is kept as it was written may spell anything, so `Datum.Plain` leaves such values out.

## Main results

* `string?_writeString` — a string is read again, whatever is escaped in it.
* `number?_write` — an integer is read again in front of what can follow it.
* `items?_append`, `entries?_append` — so are the parts of a list and of a table.
* `parse?_print` — a document is read again.
-/

namespace PackageManager

/-- A datum of which no part is kept as it was written. -/
inductive Datum.Plain : Datum → Prop
  | null : Plain .null
  | bool (b : Bool) : Plain (.bool b)
  | integer (n : Int) : Plain (.integer n)
  | text (s : String) : Plain (.text s)
  | list {items : List Datum} (hItems : ∀ d ∈ items, Plain d) : Plain (.list items)
  | table {entries : List (String × Datum)} (hEntries : ∀ e ∈ entries, Plain e.2) :
      Plain (.table entries)

theorem Datum.plain_ofText? (s : Option String) : (ofText? s).Plain := by
  cases s with
  | none => exact .null
  | some s => exact .text s

theorem Datum.plain_ofTexts (l : List String) : (ofTexts l).Plain := by
  refine .list fun d hd => ?_
  obtain ⟨s, -, rfl⟩ := List.mem_map.1 hd
  exact .text s

theorem Datum.plain_table_map {β : Type} {write : β → Datum} (hWrite : ∀ b, (write b).Plain)
    (l : List (String × β)) : (table (l.map fun e => (e.1, write e.2))).Plain := by
  refine .table fun e he => ?_
  obtain ⟨e, -, rfl⟩ := List.mem_map.1 he
  exact hWrite e.2

namespace Json

/-! ## Strings -/

theorem hexValue?_digitChar : ∀ {n : Nat}, n < 16 → Text.hexValue? (Nat.digitChar n) = some n := by
  decide

theorem stringBody_letter (fuel : Nat) {e c : Char} (hLetter : escapedLetter? e = some c)
    (cs : List Char) : stringBody (fuel + 1) ('\\' :: e :: cs) =
      (stringBody fuel cs).map fun p => (some c :: p.1, p.2) := by
  have hUnit : e ≠ 'u' := by
    rintro rfl
    cases hLetter
  rw [stringBody, hLetter]
  · cases stringBody fuel cs <;> rfl
  · simpa using hUnit

theorem stringBody_plain (fuel : Nat) {c : Char} (hQuote : c ≠ '"') (hBackslash : c ≠ '\\')
    (hPrinted : ¬c.toNat < 0x20) (cs : List Char) : stringBody (fuel + 1) (c :: cs) =
      (stringBody fuel cs).map fun p => (some c :: p.1, p.2) := by
  rw [stringBody, if_neg (by simp [hPrinted, hBackslash])]
  · cases stringBody fuel cs <;> rfl
  · simpa using hQuote
  · exact fun _ h => absurd h hBackslash
  · exact fun _ _ h => absurd h hBackslash

/-- A character can be written by its number, if that is small. -/
theorem escapedUnit?_control {c : Char} (hControl : c.toNat < 0x20) (cs : List Char) :
    escapedUnit? ('0' :: '0' :: Nat.digitChar (c.toNat / 16) ::
      Nat.digitChar (c.toNat % 16) :: cs) = some (some c, cs) := by
  have hUnit : unit? ('0' :: '0' :: Nat.digitChar (c.toNat / 16) ::
      Nat.digitChar (c.toNat % 16) :: cs) = some (c.toNat, cs) := by
    have hZero : Text.hexValue? '0' = some 0 := by decide
    have hHigh := hexValue?_digitChar (n := c.toNat / 16) (by omega)
    have hLow := hexValue?_digitChar (n := c.toNat % 16) (by omega)
    simp only [unit?, hZero, hHigh, hLow, Option.bind_eq_bind, Option.bind_some, List.foldl_cons,
      List.foldl_nil]
    exact congrArg (fun n => some (n, cs)) (by omega)
  rw [escapedUnit?, hUnit, Option.bind_eq_bind, Option.bind_some]
  dsimp only
  rw [if_neg (by omega), if_neg (by omega), Char.ofNat_toNat]

/-- A character is read as it is written. -/
theorem stringBody_writeChar (fuel : Nat) (c : Char) (cs : List Char) :
    stringBody (fuel + 1) (writeChar c ++ cs) =
      (stringBody fuel cs).map fun p => (some c :: p.1, p.2) := by
  unfold writeChar
  split
  case h_8 hQuote hBackslash _ _ _ _ _ =>
    -- no letter stands for the character
    split
    · next hControl =>
      show stringBody (fuel + 1) ('\\' :: 'u' :: '0' :: '0' :: _ :: _ :: cs) = _
      rw [stringBody, escapedUnit?_control hControl, Option.bind_eq_bind, Option.bind_some]
      dsimp only
      cases stringBody fuel cs <;> rfl
    · next hPrinted => exact stringBody_plain fuel hQuote hBackslash hPrinted cs
  all_goals exact stringBody_letter fuel rfl cs

theorem writeChar_ne_nil (c : Char) : writeChar c ≠ [] := by
  unfold writeChar
  split
  case h_8 => split <;> exact List.cons_ne_nil _ _
  all_goals exact List.cons_ne_nil _ _

/-- What is in a string is read as it is written. -/
theorem stringBody_flatMap {fuel : Nat} {cs : List Char}
    (hFuel : (cs.flatMap writeChar).length < fuel) (rest : List Char) :
    stringBody fuel (cs.flatMap writeChar ++ '"' :: rest) = some (cs.map some, rest) := by
  obtain ⟨fuel, rfl⟩ := Nat.exists_eq_add_one_of_ne_zero (Nat.ne_zero_of_lt hFuel)
  induction cs generalizing fuel with
  | nil => rfl
  | cons c cs ih =>
      have hPos := List.length_pos_of_ne_nil (writeChar_ne_nil c)
      rw [List.flatMap_cons, List.length_append] at hFuel
      obtain ⟨fuel, rfl⟩ := Nat.exists_eq_add_one_of_ne_zero (n := fuel) (by omega)
      rw [List.flatMap_cons, List.append_assoc, stringBody_writeChar, ih _ (by omega)]
      rfl

theorem string?_writeString (s : String) (rest : List Char) :
    string? (s.toList.flatMap writeChar ++ '"' :: rest) = some (some s, rest) := by
  rw [string?, stringBody_flatMap (by rw [List.length_append]; omega)]
  have hAll : (s.toList.map some).mapM id = some s.toList := by
    rw [List.mapM_map]
    simpa using List.mapM_pure (m := Option) (f := id) (l := s.toList)
  simp [hAll]

/-! ## Numbers -/

/-- What can follow a value in a document: nothing, or what separates or closes. -/
def Follows (rest : List Char) : Prop := ∀ c ∈ rest.head?, c = ',' ∨ c = ']' ∨ c = '}'

variable {rest : List Char}

theorem numberTail_of_follows (hRest : Follows rest) : numberTail rest = some ([], rest) := by
  cases rest with
  | nil => rfl
  | cons c rest =>
      rcases hRest c rfl with rfl | rfl | rfl <;> rfl

theorem someDigits_append (m : Nat) (hRest : Follows rest) :
    Text.someDigits (Text.digits m ++ rest) = some (Text.digits m, rest) := by
  refine Text.someDigits_eq_some_iff.2 ⟨Text.numeral_digits m, rfl, fun c hc => ?_⟩
  rcases hRest c hc with rfl | rfl | rfl <;> decide

/-- A number begins with a zero only if that is all. -/
theorem not_leading_zero (m : Nat) :
    ¬((Text.digits m).head? = some '0' ∧ Text.digits m ≠ ['0']) :=
  fun ⟨hHead, hMore⟩ => hMore (Text.digits_eq_of_head? hHead)

theorem number?_digits (m : Nat) (hRest : Follows rest) :
    number? (Text.digits m ++ rest) = some (.integer m, rest) := by
  obtain ⟨d, ds, hCons⟩ := List.exists_cons_of_ne_nil (Text.digits_ne_nil m)
  have hDash : d ≠ '-' := by
    rintro rfl
    exact absurd (Text.isDigit_of_mem_digits (hCons ▸ List.mem_cons_self)) (by decide)
  have hSome : Text.someDigits (d :: (ds ++ rest)) = some (Text.digits m, rest) := by
    rw [← someDigits_append m hRest, hCons, List.cons_append]
  rw [hCons, List.cons_append]
  simp [number?, hDash, hSome, numberTail_of_follows hRest, not_leading_zero,
    Text.digitsValue_digits]

theorem number?_dash {m : Nat} (hPos : m ≠ 0) (hRest : Follows rest) :
    number? ('-' :: (Text.digits m ++ rest)) = some (.integer (-m), rest) := by
  simp [number?, someDigits_append m hRest, numberTail_of_follows hRest, not_leading_zero,
    Text.digitsValue_digits, hPos]

/-- An integer is read as it is written. -/
theorem number?_write (n : Int) (hRest : Follows rest) :
    number? (write (.integer n) ++ rest) = some (.integer n, rest) := by
  by_cases hNegative : n < 0
  · have hValue : -(n.natAbs : Int) = n := by omega
    have hWritten : write (.integer n) ++ rest = '-' :: (Text.digits n.natAbs ++ rest) := by
      simp [write, hNegative]
    rw [hWritten, number?_dash (by omega) hRest, hValue]
  · have hValue : (n.natAbs : Int) = n := by omega
    have hWritten : write (.integer n) ++ rest = Text.digits n.natAbs ++ rest := by
      simp [write, hNegative]
    rw [hWritten, number?_digits _ hRest, hValue]

/-! ## Values -/

/-- The characters that may be left out between values. -/
def blanks : List Char := [' ', '\n', '\t', '\r']

theorem skipBlanks_cons {c : Char} (hc : c ∉ blanks) (cs : List Char) :
    skipBlanks (c :: cs) = c :: cs := by
  simp only [blanks, List.mem_cons, List.not_mem_nil, not_or, or_false] at hc
  simp [skipBlanks, hc]

/-- Whether a value is read as it is written, whatever follows it. The first character is no blank,
and does not close a list. -/
structure Reads (d : Datum) : Prop where
  head : ∃ c cs, write d = c :: cs ∧ c ∉ blanks ∧ c ≠ ']'
  read {fuel : Nat} {rest : List Char} (hFuel : 2 * (write d).length ≤ fuel + 1)
    (hRest : Follows rest) : value? (fuel + 1) (write d ++ rest) = some (d, rest)

theorem Reads.value?_append {d : Datum} (h : Reads d) (fuel : Nat) (rest : List Char)
    (hFuel : 2 * (write d).length ≤ fuel) (hRest : Follows rest) :
    value? fuel (write d ++ rest) = some (d, rest) := by
  obtain ⟨c, cs, hCons, -⟩ := h.head
  have hPos : 0 < (write d).length := by simp [hCons]
  obtain ⟨fuel, rfl⟩ := Nat.exists_eq_add_one_of_ne_zero (n := fuel) (by omega)
  exact h.read hFuel hRest

theorem reads_word {d : Datum} : d = .null ∨ d = .bool true ∨ d = .bool false → Reads d := by
  rintro (rfl | rfl | rfl)
  all_goals exact ⟨⟨_, _, rfl, by decide, by decide⟩, fun _ _ => rfl⟩

/-- What does not begin in another way is a number. -/
theorem value?_number (fuel : Nat) {c : Char} (cs : List Char) (hc : c ∉ blanks)
    (hc' : c ∉ ['n', 't', 'f', '"', '[', '{']) :
    value? (fuel + 1) (c :: cs) = number? (c :: cs) := by
  simp only [List.mem_cons, List.not_mem_nil, not_or, or_false] at hc'
  simp [value?, skipBlanks_cons hc, hc']

theorem reads_integer (n : Int) : Reads (.integer n) := by
  obtain ⟨c, cs, hCons, hc⟩ : ∃ c cs, write (.integer n) = c :: cs ∧ (c = '-' ∨ c.isDigit) := by
    by_cases hNegative : n < 0
    · exact ⟨'-', Text.digits n.natAbs, by simp [write, hNegative], .inl rfl⟩
    · obtain ⟨d, ds, hCons⟩ := List.exists_cons_of_ne_nil (Text.digits_ne_nil n.natAbs)
      exact ⟨d, ds, by simp [write, hNegative, hCons],
        .inr (Text.isDigit_of_mem_digits (hCons ▸ List.mem_cons_self))⟩
  have hOther {l : List Char} (hl : l.all fun c' => c' != '-' && !c'.isDigit) : c ∉ l := by
    intro hMem
    have hNeither := List.all_eq_true.1 hl c hMem
    rcases hc with rfl | hDigit
    · cases hNeither
    · simp [hDigit] at hNeither
  have hBracket : c ≠ ']' := by simpa using hOther (l := [']']) (by decide)
  refine ⟨⟨c, cs, hCons, hOther (by decide), hBracket⟩, fun {fuel rest} _ hRest => ?_⟩
  have hRead := number?_write n hRest
  rw [hCons, List.cons_append] at hRead ⊢
  rw [value?_number _ _ (hOther (by decide)) (hOther (by decide)), hRead]

theorem value?_quote (fuel : Nat) (cs : List Char) : value? (fuel + 1) ('"' :: cs) =
    (string? cs).map fun p => ((p.1.map .text).getD (.verbatim (written ('"' :: cs) p.2)), p.2) :=
  rfl

theorem reads_text (s : String) : Reads (.text s) where
  head := ⟨_, _, rfl, by decide, by decide⟩
  read {fuel rest} _ _ := by
    have hWritten : write (.text s) ++ rest =
        '"' :: (s.toList.flatMap writeChar ++ '"' :: rest) := by
      simp [write, writeString]
    rw [hWritten, value?_quote, string?_writeString]
    rfl

/-! ## Lists -/

/-- Values are read as they are written. -/
theorem items?_append {items : List Datum} (hItems : ∀ d ∈ items, Reads d) (hSome : items ≠ [])
    (fuel : Nat) (rest : List Char) (hFuel : 2 * (writeItems items).length + 1 ≤ fuel) :
    items? fuel (writeItems items ++ ']' :: rest) = some (items, rest) := by
  obtain ⟨fuel, rfl⟩ := Nat.exists_eq_add_one_of_ne_zero (n := fuel) (by omega)
  induction items generalizing fuel with
  | nil => exact absurd rfl hSome
  | cons d items ih =>
      obtain ⟨hFirst, hOthers⟩ := List.forall_mem_cons.1 hItems
      cases items with
      | nil =>
          have hRead := hFirst.value?_append fuel (']' :: rest)
            (by simpa [writeItems] using hFuel) (by simp [Follows])
          rw [items?, writeItems, hRead]
          rfl
      | cons e items =>
          rw [writeItems, List.length_append, List.length_cons] at hFuel
          obtain ⟨fuel, rfl⟩ := Nat.exists_eq_add_one_of_ne_zero (n := fuel) (by omega)
          have hRead := hFirst.value?_append (fuel + 1)
            (',' :: (writeItems (e :: items) ++ ']' :: rest)) (by omega) (by simp [Follows])
          -- the comma makes up for the step down to the next value
          have hRest := ih hOthers (List.cons_ne_nil _ _) fuel (by omega)
          rw [items?, writeItems, List.append_assoc, List.cons_append, hRead]
          simp [skipBlanks_cons, blanks, hRest]

theorem value?_bracket (fuel : Nat) {c : Char} (cs : List Char)
    (hc : c ∉ blanks ∧ c ≠ ']') : value? (fuel + 1) ('[' :: c :: cs) =
      (items? fuel (c :: cs)).map fun p => (.list p.1, p.2) := by
  simp [value?, skipBlanks_cons hc.1, hc.2, skipBlanks_cons (c := '[') (by decide)]

theorem reads_list {items : List Datum} (hItems : ∀ d ∈ items, Reads d) : Reads (.list items) where
  head := ⟨_, _, rfl, by decide, by decide⟩
  read {fuel rest} hFuel _ := by
    have hWritten : write (.list items) ++ rest = '[' :: (writeItems items ++ ']' :: rest) := by
      simp [write]
    rw [hWritten]
    cases items with
    | nil => rfl
    | cons d items =>
        have hRead := items?_append hItems (List.cons_ne_nil _ _) fuel rest
          (by simp [write] at hFuel; omega)
        -- the first value is not taken for the end of an empty list
        obtain ⟨c, cs, hCons, hc⟩ := (hItems d List.mem_cons_self).head
        have hFirst : ∃ cs', writeItems (d :: items) = c :: cs' := by
          cases items with
          | nil => exact ⟨cs, hCons⟩
          | cons e items => exact ⟨_, by rw [writeItems, hCons, List.cons_append]⟩
        obtain ⟨cs', hAll⟩ := hFirst
        rw [hAll, List.cons_append] at hRead ⊢
        rw [value?_bracket _ _ hc, hRead]
        rfl

/-! ## Tables -/

/-- A key is read as it is written. -/
theorem entries?_writeString (fuel : Nat) (key : String) (cs : List Char) :
    entries? (fuel + 1) (writeString key ++ ':' :: cs) = (value? fuel cs).bind fun p =>
      match skipBlanks p.2 with
      | ',' :: cs => (entries? fuel cs).map fun q => ((some key, p.1) :: q.1, q.2)
      | '}' :: cs => some ([(some key, p.1)], cs)
      | _ => none := by
  have hWritten : writeString key ++ ':' :: cs =
      '"' :: (key.toList.flatMap writeChar ++ '"' :: ':' :: cs) := by
    simp [writeString]
  rw [hWritten, entries?, skipBlanks_cons (by decide)]
  simp only [string?_writeString, Option.bind_eq_bind, Option.bind_some]
  rfl

/-- Entries are read as they are written. -/
theorem entries?_append {entries : List (String × Datum)} (hEntries : ∀ e ∈ entries, Reads e.2)
    (hSome : entries ≠ []) (fuel : Nat) (rest : List Char)
    (hFuel : 2 * (writeEntries entries).length + 1 ≤ fuel) :
    entries? fuel (writeEntries entries ++ '}' :: rest) =
      some (entries.map fun e => (some e.1, e.2), rest) := by
  obtain ⟨fuel, rfl⟩ := Nat.exists_eq_add_one_of_ne_zero (n := fuel) (by omega)
  induction entries generalizing fuel with
  | nil => exact absurd rfl hSome
  | cons e entries ih =>
      obtain ⟨key, d⟩ := e
      obtain ⟨hFirst, hOthers⟩ : Reads d ∧ ∀ e ∈ entries, Reads e.2 :=
        List.forall_mem_cons.1 hEntries
      cases entries with
      | nil =>
          simp only [writeEntries, List.length_append, List.length_cons] at hFuel
          have hRead := hFirst.value?_append fuel ('}' :: rest) (by omega)
            (by simp [Follows])
          rw [writeEntries, List.append_assoc, List.cons_append, entries?_writeString, hRead]
          rfl
      | cons e entries =>
          simp only [writeEntries, List.length_append, List.length_cons] at hFuel
          obtain ⟨fuel, rfl⟩ := Nat.exists_eq_add_one_of_ne_zero (n := fuel) (by omega)
          have hRead := hFirst.value?_append (fuel + 1)
            (',' :: (writeEntries (e :: entries) ++ '}' :: rest)) (by omega)
            (by simp [Follows])
          have hRest := ih hOthers (List.cons_ne_nil _ _) fuel (by omega)
          rw [writeEntries, List.append_assoc, List.cons_append, List.append_assoc,
            List.cons_append, entries?_writeString, hRead]
          simp [skipBlanks_cons, blanks, hRest]

theorem table?_named (entries : List (String × Datum)) :
    table? (entries.map fun e => (some e.1, e.2)) = some (.table entries) := by
  have hNamed : (entries.map fun e => (some e.1, e.2)).mapM
      (fun e : Option String × Datum => e.1.map fun key => (key, e.2)) = some entries := by
    rw [List.mapM_map]
    simpa [Function.comp_def] using List.mapM_pure (m := Option) (f := id) (l := entries)
  simp only [table?, hNamed, Option.map_some]

theorem value?_brace (fuel : Nat) (cs : List Char) :
    value? (fuel + 1) ('{' :: '"' :: cs) = (entries? fuel ('"' :: cs)).map fun p =>
      ((table? p.1).getD (.verbatim (written ('{' :: '"' :: cs) p.2)), p.2) := by
  rfl

theorem reads_table {entries : List (String × Datum)} (hEntries : ∀ e ∈ entries, Reads e.2) :
    Reads (.table entries) where
  head := ⟨_, _, rfl, by decide, by decide⟩
  read {fuel rest} hFuel _ := by
    have hWritten : write (.table entries) ++ rest =
        '{' :: (writeEntries entries ++ '}' :: rest) := by
      simp [write]
    rw [hWritten]
    cases entries with
    | nil => rfl
    | cons e entries =>
        have hRead := entries?_append hEntries (List.cons_ne_nil _ _) fuel rest
          (by simp [write] at hFuel; omega)
        have hFirst : ∃ cs, writeEntries (e :: entries) = '"' :: cs := by
          cases entries <;> exact ⟨_, rfl⟩
        obtain ⟨cs, hAll⟩ := hFirst
        rw [hAll, List.cons_append] at hRead ⊢
        rw [value?_brace, hRead, Option.map_some, table?_named]
        rfl

/-! ## Documents -/

theorem reads_of_plain {d : Datum} (h : d.Plain) : Reads d := by
  induction h with
  | null => exact reads_word (by simp)
  | bool b => exact reads_word (by cases b <;> simp)
  | integer n => exact reads_integer n
  | text s => exact reads_text s
  | list _ ih => exact reads_list ih
  | table _ ih => exact reads_table ih

/-- What is written as JSON is read as that again. -/
theorem parse?_print {d : Datum} (h : d.Plain) : parse? (print d) = some d := by
  have hRead := (reads_of_plain h).value?_append (2 * (write d).length + 2) [] (by omega)
    (by simp [Follows])
  rw [List.append_nil] at hRead
  simp [parse?, print, hRead, skipBlanks]

end Json

end PackageManager
