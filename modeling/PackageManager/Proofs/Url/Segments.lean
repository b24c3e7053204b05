import PackageManager.Proofs.Url.Authority

/-!
# Segments of paths

A path is read segment by segment. A segment of points takes something away from the path or leaves
it as it is, and every other one is added to it, encoded by itself. So a text of names that are not
made of points only adds to a path, and whatever a text does, what it has added holds no separator.

What is encoded can be decoded again as long as it had no percent sign of its own, so different
names are different segments.

## Main results

* `percentEncode_injective` — encoded texts differ if texts without percent signs do.
* `addSegments_names`, `splitSegments_intercalate` — names are split again and added in their order.
* `Grown.isWhole` — what a path ends with if it has grown, by whatever text.
-/

namespace PackageManager.Url

/-! ## Encoded texts -/

theorem hexValue?_upperHexDigit {n : Nat} (hn : n < 16) :
    Text.hexValue? (upperHexDigit n) = some n := by
  have hAll : ∀ n < 16, Text.hexValue? (upperHexDigit n) = some n := by decide +kernel
  exact hAll n hn

theorem percentDecode_octet (b : UInt8) (cs : List Char) :
    percentDecode (encodeOctet b ++ cs) = b :: percentDecode cs := by
  have hHigh : b.toNat / 16 < 16 := by
    have hOctet := b.toNat_lt
    omega
  have hLow : b.toNat % 16 < 16 := Nat.mod_lt _ (by decide)
  have hSum : b.toNat / 16 * 16 + b.toNat % 16 = b.toNat := by omega
  simp only [encodeOctet, List.cons_append, List.nil_append, percentDecode,
    hexValue?_upperHexDigit hHigh, hexValue?_upperHexDigit hLow, hSum, UInt8.ofNat_toNat]

theorem percentDecode_octets (bs : List UInt8) (cs : List Char) :
    percentDecode (bs.flatMap encodeOctet ++ cs) = bs ++ percentDecode cs := by
  induction bs with
  | nil => rfl
  | cons b bs ih =>
      rw [List.flatMap_cons, List.append_assoc, percentDecode_octet, ih, List.cons_append]

theorem percentDecode_cons {c : Char} (hc : c ≠ '%') (cs : List Char) :
    percentDecode (c :: cs) = String.utf8EncodeChar c ++ percentDecode cs := by
  rw [percentDecode]
  intro a b rest hEq
  exact absurd hEq hc

variable {set : Char → Bool} {cs ds : List Char}

/-- What is encoded is decoded again, whatever the set is. -/
theorem percentDecode_percentEncode (hPercent : '%' ∉ cs) :
    percentDecode (percentEncode set cs) = Text.encode cs := by
  induction cs with
  | nil => rfl
  | cons c cs ih =>
      rw [List.mem_cons, not_or] at hPercent
      have hCons : percentEncode set (c :: cs) =
        (if set c then (String.utf8EncodeChar c).flatMap encodeOctet else [c]) ++
          percentEncode set cs := List.flatMap_cons
      have hOctets : Text.encode (c :: cs) = String.utf8EncodeChar c ++ Text.encode cs :=
        List.flatMap_cons
      rw [hCons, hOctets, ← ih hPercent.2]
      split
      · exact percentDecode_octets _ _
      · exact percentDecode_cons (Ne.symm hPercent.1) _

theorem percentEncode_injective (hcs : '%' ∉ cs) (hds : '%' ∉ ds)
    (hEq : percentEncode set cs = percentEncode set ds) : cs = ds := by
  apply Text.encode_injective
  calc Text.encode cs = percentDecode (percentEncode set cs) :=
        (percentDecode_percentEncode hcs).symm
    _ = percentDecode (percentEncode set ds) := by rw [hEq]
    _ = Text.encode ds := percentDecode_percentEncode hds

/-! ## Names -/

/-- Whether a text has no character that ends a segment of a reference. -/
def IsUncut (special : Bool) (cs : List Char) : Prop :=
  ∀ c ∈ cs, isSlash special c = false ∧ c ≠ '?' ∧ c ≠ '#'

/-- A text that stands for one segment in a path. -/
structure IsName (special : Bool) (cs : List Char) : Prop where
  uncut : IsUncut special cs
  not_dots : isDot cs = false ∧ isDotDot cs = false

/-- The segment that a name becomes. -/
def segment (cs : List Char) : String := String.ofList (percentEncode inPathSet cs)

theorem inPathSet_of_isUnreserved {c : Char} (hc : isUnreserved c) : inPathSet c = false := by
  have hUser := (kept_of_isUnreserved hc).1
  simp only [inUserSet, Bool.or_eq_false_iff] at hUser
  exact hUser.1

/-- The characters that separate segments are not encoded in a path. -/
theorem inPathSet_of_isSlash {special : Bool} {c : Char} (hc : isSlash special c) :
    inPathSet c = false := by
  simp only [isSlash, Bool.or_eq_true, Bool.and_eq_true, decide_eq_true_eq] at hc
  rcases hc with rfl | ⟨-, rfl⟩ <;> decide

/-- What is not encoded is still there in a segment. -/
theorem mem_segment {c : Char} {cs : List Char} (hc : c ∈ cs) (hKept : inPathSet c = false) :
    c ∈ (segment cs).toList := by
  rw [segment, String.toList_ofList, percentEncode, List.mem_flatMap]
  exact ⟨c, hc, by simp [hKept]⟩

/-- The segments that stand for directories, in small letters. -/
def dots : List (List Char) := [".", "%2e", "..", ".%2e", "%2e.", "%2e%2e"].map String.toList

theorem dots_of_isDot {cs : List Char} (h : isDot cs ∨ isDotDot cs) :
    cs.map Char.toLower ∈ dots := by
  have hText {s : String} (hs : String.ofList (cs.map Char.toLower) = s) :
      cs.map Char.toLower = s.toList := by rw [← hs, String.toList_ofList]
  simp only [isDot, isDotDot, Bool.or_eq_true, decide_eq_true_eq] at h
  rw [dots, List.mem_map]
  rcases h with (h | h) | ((h | h) | h) | h <;>
    exact ⟨_, by simp, (hText h).symm⟩

/-- A segment with a character that such texts do not have is none of them. -/
theorem not_dots_of_mem {cs : List Char} {c : Char} (hc : c ∈ cs)
    (hOther : c.toLower ∉ ['.', '%', '2', 'e']) : isDot cs = false ∧ isDotDot cs = false := by
  have hDots : dots.all fun s => s.all fun d => ['.', '%', '2', 'e'].contains d := by decide
  have hNone (h : isDot cs ∨ isDotDot cs) : False := by
    have hChars := List.all_eq_true.1 hDots _ (dots_of_isDot h)
    exact hOther (List.contains_iff_mem.1
      (List.all_eq_true.1 hChars _ (List.mem_map_of_mem hc)))
  exact ⟨Bool.eq_false_iff.2 fun h => hNone (.inl h), Bool.eq_false_iff.2 fun h => hNone (.inr h)⟩

/-- A segment that starts with a letter or a digit is none of them. -/
theorem not_dots_of_isAlphanum {c : Char} (hc : c.isAlphanum) (cs : List Char) :
    isDot (c :: cs) = false ∧ isDotDot (c :: cs) = false := by
  have hAll : ∀ n < 123, (Char.ofNat n).isAlphanum → (Char.ofNat n).toLower ∉ ['.', '%'] := by
    decide +kernel
  have hHead := hAll c.toNat (by have := Text.toNat_of_isAlphanum hc; omega)
  rw [Char.ofNat_toNat] at hHead
  have hDots : dots.all fun s => s.head?.all fun d => ['.', '%'].contains d := by decide
  have hNone (h : isDot (c :: cs) ∨ isDotDot (c :: cs)) : False :=
    hHead hc (List.contains_iff_mem.1 (List.all_eq_true.1 hDots _ (dots_of_isDot h)))
  exact ⟨Bool.eq_false_iff.2 fun h => hNone (.inl h), Bool.eq_false_iff.2 fun h => hNone (.inr h)⟩

/-- A name that is written as it is, wherever it stands in a URL. -/
structure IsLiteral (cs : List Char) : Prop where
  head : ∃ c ∈ cs.head?, c.isAlphanum
  kept : ∀ c ∈ cs, isUnreserved c

theorem isUncut_of_isUnreserved {cs : List Char} (h : ∀ c ∈ cs, isUnreserved c) (special : Bool) :
    IsUncut special cs := fun c hc => by
  have hNe {d : Char} (hd : isUnreserved d = false) : c ≠ d := ne_of_isUnreserved (h c hc) hd
  refine ⟨?_, hNe (by decide), hNe (by decide)⟩
  simp [isSlash, hNe (d := '/') (by decide), hNe (d := '\\') (by decide)]

theorem IsLiteral.isName {cs : List Char} (h : IsLiteral cs) (special : Bool) :
    IsName special cs where
  uncut := isUncut_of_isUnreserved h.kept special
  not_dots := by
    obtain ⟨c, hHead, hc⟩ := h.head
    obtain ⟨rest, rfl⟩ := List.head?_eq_some_iff.1 hHead
    exact not_dots_of_isAlphanum hc rest

/-- Nothing in such a name is encoded. -/
theorem IsLiteral.segment_eq {cs : List Char} (h : IsLiteral cs) :
    segment cs = String.ofList cs := by
  rw [segment, percentEncode_eq_self fun c hc => inPathSet_of_isUnreserved (h.kept c hc)]

/-- Names are added to a path in their order. Only at the beginning of a file path one of them could
be taken for a drive. -/
theorem addSegments_names {special isFile : Bool} {path : List String} {names : List (List Char)}
    (hNames : ∀ n ∈ names, IsName special n)
    (hDrive : path = [] → ∀ n ∈ names.head?, isDrive true n = false) :
    addSegments isFile path names = path ++ names.map segment := by
  have hOne (isLast : Bool) {path : List String} {n : List Char} (hn : IsName special n)
      (hDrive : path = [] → isDrive true n = false) :
      addSegment isFile isLast path n = path ++ [segment n] := by
    have hNone : (isFile && path.isEmpty && isDrive true n) = false := by
      cases path with
      | nil => rw [hDrive rfl, Bool.and_false]
      | cons first rest => simp
    simp only [addSegment, hn.not_dots.1, hn.not_dots.2, hNone, Bool.false_eq_true, if_false]
    rfl
  induction names generalizing path with
  | nil => simp [addSegments]
  | cons n names ih =>
      have hn : IsName special n := hNames n List.mem_cons_self
      have hFirst (isLast : Bool) := hOne isLast hn fun hNil => hDrive hNil n rfl
      cases names with
      | nil => exact hFirst true
      | cons next names =>
          rw [addSegments, hFirst false, ih (fun m hm => hNames m (List.mem_cons_of_mem n hm))
            (by simp)]
          simp

theorem splitSegments_intercalate {special : Bool} {names : List (List Char)} (hSome : names ≠ [])
    (hNames : ∀ n ∈ names, IsUncut special n) :
    splitSegments special (['/'].intercalate names) = names := by
  have hSlash : ∀ n ∈ names, '/' ∉ n := fun n hn hMem =>
    absurd (hNames n hn _ hMem).1 (by simp [isSlash])
  have hKept : (if special then (['/'].intercalate names).map fun c => if c = '\\' then '/' else c
      else ['/'].intercalate names) = ['/'].intercalate names := by
    split
    · next hSpecial =>
      refine (List.map_congr_left fun c hc => ?_).trans (List.map_id _)
      refine if_neg ?_
      rintro rfl
      obtain ⟨n, hn, hMem⟩ := (Text.mem_intercalate_singleton_iff (by decide) _).1 hc
      exact absurd (hNames n hn _ hMem).1 (by simp [isSlash, hSpecial])
    · rfl
  unfold splitSegments
  rw [hKept, List.splitOn_intercalate '/' hSlash hSome]

/-! ## What a path grows by -/

/-- A text without the characters that separate segments. -/
def IsWhole (special : Bool) (s : String) : Prop := ∀ c ∈ s.toList, isSlash special c = false

/-- A path that is left of another one after some of its last segments were taken away and whole
ones were added. -/
def Grown (special : Bool) (dir path : List String) : Prop :=
  ∃ kept new, path = kept ++ new ∧ kept <+: dir ∧ ∀ s ∈ new, IsWhole special s

section Grown

variable {special : Bool} {dir path : List String}

theorem Grown.refl : Grown special dir dir :=
  ⟨dir, [], (List.append_nil dir).symm, List.prefix_rfl, by simp⟩

theorem Grown.concat (h : Grown special dir path) {s : String} (hs : IsWhole special s) :
    Grown special dir (path ++ [s]) := by
  obtain ⟨kept, new, rfl, hKept, hNew⟩ := h
  refine ⟨kept, new ++ [s], List.append_assoc .., hKept, fun t ht => ?_⟩
  rcases List.mem_append.1 ht with ht | ht
  · exact hNew t ht
  · exact List.mem_singleton.1 ht ▸ hs

theorem Grown.dropLast (h : Grown special dir path) : Grown special dir path.dropLast := by
  obtain ⟨kept, new, rfl, hKept, hNew⟩ := h
  rcases List.eq_nil_or_concat' new with rfl | ⟨front, last, rfl⟩
  · rw [List.append_nil]
    exact ⟨kept.dropLast, [], (List.append_nil _).symm, kept.dropLast_prefix.trans hKept, by simp⟩
  · refine ⟨kept, front, ?_, hKept, fun s hs => hNew s (List.mem_append_left _ hs)⟩
    rw [← List.append_assoc, List.dropLast_concat]

theorem Grown.above (h : Grown special dir path) : Grown special dir (above path) := by
  unfold Url.above
  split
  · split
    · exact h
    · exact h.dropLast
  · exact h

theorem isWhole_segment {cs : List Char} (h : ∀ c ∈ cs, isSlash special c = false) :
    IsWhole special (segment cs) := fun c hc => by
  rw [segment, String.toList_ofList] at hc
  have hNone {c : Char} (hSlash : c ≠ '/') (hBackslash : c ≠ '\\') : isSlash special c = false := by
    simp [isSlash, hSlash, hBackslash]
  rcases mem_percentEncode hc with ⟨hMem, -⟩ | rfl | hUnreserved
  · exact h c hMem
  · exact hNone (by decide) (by decide)
  · exact hNone (ne_of_isUnreserved hUnreserved (by decide))
      (ne_of_isUnreserved hUnreserved (by decide))

theorem Grown.addSegment (h : Grown special dir path) {cs : List Char}
    (hcs : ∀ c ∈ cs, isSlash special c = false) (isFile isLast : Bool) :
    Grown special dir (addSegment isFile isLast path cs) := by
  have hOpen {path : List String} (h : Grown special dir path) :
      Grown special dir (if isLast then path ++ [""] else path) := by
    split
    · exact h.concat fun c hc => by simp at hc
    · exact h
  unfold Url.addSegment
  dsimp only
  split
  · exact hOpen h.above
  split
  · exact hOpen h
  split
  · refine h.concat fun c hc => ?_
    rw [String.toList_ofList, List.mem_append, List.mem_singleton] at hc
    rcases hc with hc | rfl
    · exact hcs c (List.mem_of_mem_take hc)
    · simp [isSlash]
  · exact h.concat (isWhole_segment hcs)

theorem Grown.addSegments (h : Grown special dir path) {parts : List (List Char)}
    (hParts : ∀ cs ∈ parts, ∀ c ∈ cs, isSlash special c = false) (isFile : Bool) :
    Grown special dir (addSegments isFile path parts) := by
  induction parts generalizing path with
  | nil => exact h
  | cons cs parts ih =>
      have hFirst := hParts cs List.mem_cons_self
      cases parts with
      | nil => exact h.addSegment hFirst isFile true
      | cons next parts =>
          exact ih (h.addSegment hFirst isFile false) fun ds hds =>
            hParts ds (List.mem_cons_of_mem cs hds)

/-- If a path has grown to more than what it comes from, it ends with whole segments. -/
theorem Grown.isWhole (h : Grown special dir path) {names : List String}
    (hEnd : dir ++ names <:+ path) : ∀ s ∈ names, IsWhole special s := by
  obtain ⟨kept, new, rfl, hKept, hNew⟩ := h
  have hLength := hEnd.length_le
  have hShort := hKept.length_le
  rw [List.length_append, List.length_append] at hLength
  have hNames : names <:+ new := List.suffix_of_suffix_length_le
    ((List.suffix_append dir names).trans hEnd) (List.suffix_append kept new) (by omega)
  exact fun s hs => hNew s (hNames.subset hs)

end Grown

theorem isWhole_splitSegments {special : Bool} {cs part : List Char}
    (hPart : part ∈ splitSegments special cs) : ∀ c ∈ part, isSlash special c = false := by
  intro c hc
  have hSlash : c ≠ '/' := fun hEq => Text.not_mem_of_mem_splitOn hPart (hEq ▸ hc)
  have hMem := (Text.mem_intercalate_singleton_iff hSlash _).2 ⟨part, hPart, hc⟩
  rw [splitSegments, List.intercalate_splitOn] at hMem
  cases special with
  | false => simp [isSlash, hSlash]
  | true =>
      have hBackslash : c ≠ '\\' := by
        rintro rfl
        obtain ⟨d, -, hd⟩ := List.mem_map.1 hMem
        split at hd
        · cases hd
        · next hOther => exact hOther hd
      simp [isSlash, hSlash, hBackslash]

end PackageManager.Url
