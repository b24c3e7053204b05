import PackageManager.Proofs.Url.Files
import PackageManager.Proofs.Url.Segments

/-!
# References to what is below a directory

A reference that starts with a name is looked up in the directory of the URL that is known. Its body
goes as far as its query or its fragment and extends the path of the directory, by whatever slashes
and points it has. If it consists of names with slashes between them, and no name holds a separator,
the names are the segments that are added, and no other text adds these segments. This is so for
every scheme, since the URLs of files keep the form in which they are read.

## Main results

* `join_reference` — what becomes of a reference that starts with a name.
* `join_names_iff` — which names become the segments of a path.
* `text_atPath_iff` — the texts of URLs that differ in their last segments.
-/

namespace PackageManager.Url

/-! ## Paths of a directory -/

/-- The URL of a path in the place of another URL. -/
def atPath (u : Url) (path : List String) : Url :=
  { u with path := .segments path, query := none, fragment := none }

/-- The path that a text adds to a directory. -/
def extended (scheme : String) (dir : List String) (cs : List Char) : List String :=
  if scheme = "file" then extendFilePath dir cs else extendPath scheme dir cs

/-- Whatever is added to a directory, what stands beyond it is made of whole segments. -/
theorem isWhole_of_extended {scheme : String} {dir names : List String} {cs : List Char}
    (hPath : extended scheme dir cs = dir ++ names) :
    ∀ s ∈ names, IsWhole (isSpecialScheme scheme) s := by
  have hGrown (isFile : Bool) : Grown (isSpecialScheme scheme) dir
      (addSegments isFile dir (splitSegments (isSpecialScheme scheme) cs)) :=
    Grown.refl.addSegments (fun part hPart => isWhole_splitSegments hPart) isFile
  unfold extended at hPath
  split at hPath
  · next hFile =>
    have hSpecial : isSpecialScheme scheme = true := by rw [hFile]; decide
    rw [hSpecial] at hGrown ⊢
    unfold extendFilePath withoutLeadingEmpty at hPath
    split at hPath
    · intro s hs
      have hMem : s ∈ [""] := hPath ▸ List.mem_append_right dir hs
      rw [List.mem_singleton.1 hMem]
      exact fun c hc => by simp at hc
    · next p ps hDrop =>
      refine (hGrown true).isWhole ?_
      rw [← hPath, ← hDrop]
      exact List.dropWhile_suffix _
  · refine (hGrown false).isWhole ?_
    rw [← hPath]
    exact List.suffix_rfl

/-! ## References -/

/-- A colon after a slash does not end a scheme. -/
theorem cutScheme_eq_none {first rest : List Char} (hColon : ':' ∉ first)
    (hRest : ∀ c ∈ rest.head?, c = '/') : cutScheme (first ++ rest) = none := by
  unfold cutScheme
  split
  · next c scheme after hCut =>
    obtain ⟨hText, hNone⟩ := Text.cutFirst_eq_some_iff.1 hCut
    have hSlash : '/' ∈ c :: scheme := by
      rw [List.append_eq_append_iff] at hText
      rcases hText with ⟨k, hFront, hBack⟩ | ⟨k, rfl, hBack⟩
      · rw [hFront]
        cases k with
        | nil =>
            rw [hBack] at hRest
            exact absurd (hRest ':' rfl) (by decide)
        | cons d k =>
            rw [hBack] at hRest
            obtain rfl := hRest d rfl
            simp
      · cases k with
        | nil =>
            rw [List.nil_append] at hBack
            rw [← hBack] at hRest
            exact absurd (hRest ':' rfl) (by decide)
        | cons d k =>
            obtain ⟨rfl, -⟩ := List.cons.inj hBack
            simp at hColon
    refine if_neg fun ⟨hLetter, hAll⟩ => ?_
    rcases List.mem_cons.1 hSlash with rfl | hMem
    · exact absurd hLetter (by decide)
    · exact absurd (List.all_eq_true.1 hAll _ hMem) (by decide)
  · rfl

theorem isDrive_of_isAlphanum {cs : List Char} (h : ∀ c ∈ cs, c.isAlphanum) :
    isDrive true cs = false := by
  unfold isDrive
  split
  · next d c =>
    have hColon : c ≠ ':' := by
      rintro rfl
      exact absurd (h ':' (by simp)) (by decide)
    have hBar : c ≠ '|' := by
      rintro rfl
      exact absurd (h '|' (by simp)) (by decide)
    simp [hColon, hBar]
  · rfl

theorem isUncut_of_isAlphanum {cs : List Char} (h : ∀ c ∈ cs, c.isAlphanum) (special : Bool) :
    IsUncut special cs :=
  isUncut_of_isUnreserved (fun c hc => by simp [isUnreserved, h c hc]) special

section Directory

variable {base : Url} {dir : List String} {first rest : List Char} {names : List (List Char)}
  {s : String}

/-- A reference that starts with a name, where the URL of a file is known. -/
theorem readFile_name (hFile : base.scheme = "file") (hBase : base.IsFile)
    (hDirectory : base.path = .segments (dir ++ [""])) (hSome : first ≠ [])
    (hFirst : ∀ c ∈ first, c.isAlphanum) (hRest : ∀ c ∈ rest.head?, c = '/') {r : Reference}
    (hBody : r.body = first ++ rest) :
    readFile (some base) r = .ok (r.complete base.scheme base.authority
      (.segments (extendFilePath dir r.body))) := by
  obtain ⟨h, hHost⟩ := hBase.host
  obtain ⟨a, as, rfl⟩ := List.exists_cons_of_ne_nil hSome
  have hUncut := isUncut_of_isAlphanum hFirst true
  have hSlash : isSlash true a = false := (hUncut a List.mem_cons_self).1
  have hDrive : startsWithDrive (a :: (as ++ rest)) = false := by
    have hStop : rest.takeWhile (fun c => !isSlash true c) = [] := by
      cases rest with
      | nil => rfl
      | cons c cs =>
          obtain rfl := hRest c rfl
          rfl
    have hTake : (a :: as ++ rest).takeWhile (fun c => !isSlash true c) = a :: as := by
      rw [List.takeWhile_append_of_pos fun c hc => by rw [(hUncut c hc).1, Bool.not_false],
        hStop, List.append_nil]
    rw [List.cons_append] at hTake
    rw [startsWithDrive, hTake]
    exact isDrive_of_isAlphanum hFirst
  have hAbove : directoryOf (dir ++ [""]) = dir := by simp [directoryOf, isDrive]
  have hSingle : readFile (some base) r =
      .ok (readFile.single r a (as ++ rest) h (dir ++ [""])) := by
    rw [List.cons_append] at hBody
    cases hMore : as ++ rest <;> simp [readFile, hBody, hMore, hSlash, hHost, hDirectory]
  rw [hSingle]
  unfold readFile.single
  simp only [hSlash, hDrive, hAbove, Bool.false_eq_true, if_false]
  rw [hBody, hHost, hFile]
  rfl

/-- A reference that starts with a name, where another URL is known. -/
theorem readRelative_name (hDirectory : base.path = .segments (dir ++ [""])) (hSome : first ≠ [])
    (hFirst : ∀ c ∈ first, c.isAlphanum) {r : Reference} (hBody : r.body = first ++ rest) :
    readRelative base r = .ok (r.complete base.scheme base.authority
      (.segments (extendPath base.scheme dir r.body))) := by
  obtain ⟨a, as, rfl⟩ := List.exists_cons_of_ne_nil hSome
  have hSlash : isSlash true a = false :=
    (isUncut_of_isAlphanum hFirst true a List.mem_cons_self).1
  rw [List.cons_append] at hBody
  simp [readRelative, hBody, hSlash, hDirectory]

/-- A reference that starts with a name is added to the directory. The name must not be taken for a
scheme or for a drive, so it consists of letters and digits. -/
theorem join_reference (hBase : base.IsRead) (hDirectory : base.path = .segments (dir ++ [""]))
    (hSome : first ≠ []) (hFirst : ∀ c ∈ first, c.isAlphanum) (hRest : ∀ c ∈ rest.head?, c = '/')
    (hClean : clean s.toList = first ++ rest) :
    let r := Reference.ofChars (first ++ rest)
    base.join s = .ok (r.complete base.scheme base.authority
      (.segments (extended base.scheme dir r.body))) := by
  intro r
  have hScheme : cutScheme (first ++ rest) = none :=
    cutScheme_eq_none (fun hColon => absurd (hFirst _ hColon) (by decide)) hRest
  have hHead : (first ++ rest).head? ≠ some '#' := by
    obtain ⟨a, as, rfl⟩ := List.exists_cons_of_ne_nil hSome
    intro hEq
    obtain rfl := Option.some.inj hEq
    exact absurd (hFirst '#' List.mem_cons_self) (by decide)
  have hOpaque : base.isOpaque = false := by simp [isOpaque, hDirectory]
  obtain ⟨rest', hBody, hRest'⟩ : ∃ rest', r.body = first ++ rest' ∧
      ∀ c ∈ rest'.head?, c = '/' := by
    have hKept : ∀ c ∈ first, decide (c ≠ '?' ∧ c ≠ '#') = true := fun c hc =>
      decide_eq_true (isUncut_of_isAlphanum hFirst true c hc).2
    refine ⟨_, (Reference.ofChars_spec _).1.trans (List.takeWhile_append_of_pos hKept), ?_⟩
    cases rest with
    | nil => simp
    | cons c cs =>
        obtain rfl := hRest c rfl
        simp
  unfold join read extended
  dsimp only
  rw [hClean, hScheme]
  dsimp only
  rw [if_neg hHead, hOpaque, if_neg (by decide)]
  by_cases hFile : base.scheme = "file"
  · rw [if_pos hFile, if_pos hFile]
    exact readFile_name hFile (hBase.isFile hFile) hDirectory hSome hFirst hRest' hBody
  · rw [if_neg hFile, if_neg hFile]
    exact readRelative_name hDirectory hSome hFirst hBody

/-- Names with slashes between them are added to a directory one after the other. -/
theorem extended_names (hBase : base.IsRead) (hDirectory : base.path = .segments (dir ++ [""]))
    (hSome : first ≠ []) (hFirst : ∀ c ∈ first, c.isAlphanum)
    (hUncut : ∀ n ∈ first :: names, IsUncut (isSpecialScheme base.scheme) n)
    (hDots : ∀ n ∈ names, isDot n = false ∧ isDotDot n = false) :
    extended base.scheme dir (['/'].intercalate (first :: names)) =
      dir ++ (first :: names).map segment := by
  obtain ⟨a, as, rfl⟩ := List.exists_cons_of_ne_nil hSome
  have hLetter : a.isAlphanum := hFirst a List.mem_cons_self
  have hAdded (isFile : Bool) : addSegments isFile dir (splitSegments (isSpecialScheme base.scheme)
      (['/'].intercalate ((a :: as) :: names))) = dir ++ ((a :: as) :: names).map segment := by
    rw [splitSegments_intercalate (List.cons_ne_nil _ _) hUncut]
    refine addSegments_names (fun n hn => ⟨hUncut n hn, ?_⟩) fun _ n hn => ?_
    · rcases List.mem_cons.1 hn with rfl | hn
      · exact not_dots_of_isAlphanum hLetter as
      · exact hDots n hn
    · obtain rfl := Option.some.inj hn
      exact isDrive_of_isAlphanum hFirst
  unfold extended
  split
  · next hFile =>
    have hSpecial : isSpecialScheme base.scheme = true := by rw [hFile]; decide
    rw [hSpecial] at hAdded
    rw [extendFilePath, hAdded]
    -- The first segment is not empty, be it the first one of the directory or of the names.
    obtain ⟨p, ps, hPath, hp⟩ : ∃ p ps, dir ++ ((a :: as) :: names).map segment = p :: ps ∧
        p ≠ "" := by
      cases dir with
      | nil =>
          refine ⟨_, _, rfl, fun hEmpty => ?_⟩
          have hMem : a ∈ (segment (a :: as)).toList := mem_segment List.mem_cons_self
            (inPathSet_of_isUnreserved (by simp [isUnreserved, hLetter]))
          simp [hEmpty] at hMem
      | cons d ds =>
          refine ⟨d, _, rfl, ?_⟩
          rintro rfl
          obtain ⟨l, hl, hNone⟩ := (hBase.isFile hFile).path
          obtain rfl := Path.segments.inj (hDirectory.symm.trans hl)
          cases ds with
          | nil => exact hNone "" [] rfl
          | cons second ds => exact hNone second (ds ++ [""]) rfl
    rw [hPath]
    simp [withoutLeadingEmpty, hp]
  · exact hAdded false

/-- Names with slashes between them extend the path of the directory exactly if none of them has a
character that ends a segment. -/
theorem join_names_iff (hBase : base.IsRead) (hDirectory : base.path = .segments (dir ++ [""]))
    (hSome : first ≠ []) (hFirst : ∀ c ∈ first, c.isAlphanum)
    (hDots : ∀ n ∈ names, isDot n = false ∧ isDotDot n = false)
    (hClean : clean s.toList = ['/'].intercalate (first :: names)) :
    base.join s = .ok (base.atPath (dir ++ (first :: names).map segment)) ↔
      ∀ n ∈ names, IsUncut (isSpecialScheme base.scheme) n := by
  obtain ⟨rest, hText, hRest⟩ : ∃ rest, ['/'].intercalate (first :: names) = first ++ rest ∧
      ∀ c ∈ rest.head?, c = '/' := by
    cases names with
    | nil => exact ⟨[], by simp, by simp⟩
    | cons n names => exact ⟨'/' :: ['/'].intercalate (n :: names), by simp, by simp⟩
  have hMem {c : Char} (hc : c ≠ '/') : c ∈ first ++ rest ↔ ∃ n ∈ first :: names, c ∈ n := by
    rw [← hText]
    exact Text.mem_intercalate_singleton_iff hc _
  rw [join_reference hBase hDirectory hSome hFirst hRest (hClean.trans hText)]
  constructor
  · intro hJoin n hn c hc
    have hUrl := Except.ok.inj hJoin
    have hQuery : (Reference.ofChars (first ++ rest)).query = none :=
      Option.map_eq_none_iff.1 (congrArg Url.query hUrl)
    have hFragment : (Reference.ofChars (first ++ rest)).fragment = none :=
      Option.map_eq_none_iff.1 (congrArg Url.fragment hUrl)
    obtain ⟨hNoQuery, hNoFragment⟩ := (Reference.ofChars_spec _).2 ⟨hQuery, hFragment⟩
    refine ⟨?_, ?_, ?_⟩
    · have hPath := Path.segments.inj (congrArg Url.path hUrl)
      have hWhole := isWhole_of_extended hPath (segment n)
        (List.mem_map_of_mem (List.mem_cons_of_mem first hn))
      by_contra hSlash
      exact hSlash (hWhole c (mem_segment hc (inPathSet_of_isSlash (by simpa using hSlash))))
    · rintro rfl
      exact hNoQuery ((hMem (by decide)).2 ⟨n, List.mem_cons_of_mem first hn, hc⟩)
    · rintro rfl
      exact hNoFragment ((hMem (by decide)).2 ⟨n, List.mem_cons_of_mem first hn, hc⟩)
  · intro hNames
    have hUncut : ∀ n ∈ first :: names, IsUncut (isSpecialScheme base.scheme) n := fun n hn => by
      rcases List.mem_cons.1 hn with rfl | hn
      · exact isUncut_of_isAlphanum hFirst _
      · exact hNames n hn
    have hAbsent {c : Char} (hc : c ≠ '/') (hCut : c = '?' ∨ c = '#') : c ∉ first ++ rest := by
      rw [hMem hc]
      rintro ⟨n, hn, hc⟩
      have hKept := hUncut n hn c hc
      rcases hCut with rfl | rfl
      · exact hKept.2.1 rfl
      · exact hKept.2.2 rfl
    rw [Reference.ofChars_eq (hAbsent (by decide) (.inr rfl)) (hAbsent (by decide) (.inl rfl))]
    rw [← hText, extended_names hBase hDirectory hSome hFirst hUncut hDots]
    rfl

end Directory

/-- Between parts that are visible, only tabs and line breaks are taken out of a text. -/
theorem clean_between {front cs back : List Char} (hFront : front ≠ []) (hBack : back ≠ [])
    (hVisible : ∀ c ∈ front ++ back, 0x20 < c.toNat) :
    clean (front ++ (cs ++ back)) =
      front ++ (cs.filter (fun c => c ≠ '\t' ∧ c ≠ '\n' ∧ c ≠ '\r') ++ back) := by
  have hBackVisible : ∀ c ∈ back, 0x20 < c.toNat := fun c hc =>
    hVisible c (List.mem_append_right _ hc)
  have hEnd : (cs ++ back).rdropWhile (fun c => decide (c.toNat ≤ 0x20)) = cs ++ back := by
    rw [List.rdropWhile_eq_self_iff]
    intro _
    rw [List.getLast_append_of_ne_nil _ hBack]
    have hLast := hBackVisible _ (List.getLast_mem hBack)
    simp only [decide_eq_true_eq]
    omega
  rw [clean_append hFront fun c hc => hVisible c (List.mem_append_left _ hc), hEnd,
    List.filter_append, filter_breaks_eq_self hBackVisible]

/-! ## Texts of paths -/

/-- The texts of two paths below one directory agree exactly if what is written after it does. -/
theorem text_atPath_iff {base : Url} {dir names names' : List String} {first : String}
    (hFirst : first ≠ "") :
    (base.atPath (dir ++ first :: names)).text = (base.atPath (dir ++ first :: names')).text ↔
      (Path.segments names).chars = (Path.segments names').chars := by
  have hStart (names : List String) : (Path.segments (dir ++ first :: names)).startsWithEmpty =
      decide (dir.head? = some "") := by
    cases dir with
    | nil => simp [Path.startsWithEmpty, hFirst]
    | cons d ds =>
        obtain ⟨next, more, hMore⟩ : ∃ next more, ds ++ first :: names = next :: more :=
          List.exists_cons_of_ne_nil (by simp)
        rw [List.cons_append, hMore]
        by_cases hd : d = "" <;> simp [Path.startsWithEmpty, hd]
  rw [text, text, String.ofList_inj]
  simp [chars, atPath, hStart, Path.chars]

end PackageManager.Url
