import PackageManager.Proofs.Package.Ids
import PackageManager.Proofs.Registry.LocationCache
import PackageManager.Proofs.Url.Relative
import PackageManager.Proofs.Version.Text

/-!
# Places of documents

The documents of a package are looked up below the base of its repository, at a reference into which
the text of its id goes as it is. If the id has no separator of references, that text becomes one
segment of the path, encoded like any other segment, and the place of a document tells to which id
it belongs as far as the encoded text does. An id with a separator takes the rest of the reference
with it: its documents are looked up in the place of another id, or in one place for many ids.

## Main results

* `asksFor_lookUp_iff` — which requests are sent for a document.
* `documents_kept_apart` — where the documents of packages are, and which packages share places.
* `documents_coincide` — ids that share a place although they differ.
-/

namespace PackageManager.Registry

/-! ## Segments for ids -/

/-- A text without tabs and line breaks, which are nowhere in a URL. -/
def unbroken (cs : List Char) : List Char := cs.filter fun c => c ≠ '\t' ∧ c ≠ '\n' ∧ c ≠ '\r'

/-- Whether the text of an id has no character that ends a segment of a reference, where a URL with
the given scheme is known. -/
def FitsSegment (scheme : String) (id : PackageId) : Prop :=
  Url.IsUncut (Url.isSpecialScheme scheme) id.text.toList

/-- The segment for an id in the places of its documents. -/
def idSegment (id : PackageId) : String := Url.segment (unbroken id.text.toList)

/-- What the name of an id contributes to that. -/
def nameSegment (id : PackageId) : String := Url.segment (unbroken id.name.toList)

/-- Where the list of the versions of a package is, below a directory. -/
def collectionPlace (base : Url) (dir : List String) (id : PackageId) : Url :=
  base.atPath (dir ++ ["collections", idSegment id, "collection.json"])

/-- Where the description of a version is, below a directory. -/
def packagePlace (base : Url) (dir : List String) (v : Specifier) : Url :=
  base.atPath (dir ++ ["collections", idSegment v.id, "versions", v.version.text, "package.json"])

theorem unbroken_eq_self {cs : List Char} (h : ∀ c ∈ ['\t', '\n', '\r'], c ∉ cs) :
    unbroken cs = cs := by
  rw [unbroken, List.filter_eq_self]
  intro c hc
  simp only [decide_eq_true_eq]
  refine ⟨?_, ?_, ?_⟩ <;> rintro rfl <;> exact absurd hc (h _ (by decide))

/-- The name and the domain are encoded each by itself. -/
theorem toList_idSegment (id : PackageId) : (idSegment id).toList = (nameSegment id).toList ++
    Url.percentEncode Url.inPathSet ('@' :: unbroken id.domain.toList) := by
  have hAt : unbroken ('@' :: id.domain.toList) = '@' :: unbroken id.domain.toList :=
    List.filter_cons_of_pos (by decide)
  rw [idSegment, nameSegment, Url.segment, Url.segment, String.toList_ofList, String.toList_ofList,
    ← hAt, PackageId.toList_text, unbroken, List.filter_append]
  exact List.flatMap_append

theorem idSegment_eq_iff {i j : PackageId} (hDomain : i.domain = j.domain) :
    idSegment i = idSegment j ↔ nameSegment i = nameSegment j := by
  rw [← String.toList_inj, toList_idSegment, toList_idSegment, hDomain, List.append_cancel_right_eq,
    String.toList_inj]

/-- Names that are encoded alike are equal if they have nothing that looks encoded, and nothing that
is taken out of URLs. -/
theorem eq_of_nameSegment_eq {i j : PackageId} (hDomain : i.domain = j.domain)
    (hPlain : ∀ c ∈ ['%', '\t', '\n', '\r'], c ∉ i.name.toList ∧ c ∉ j.name.toList)
    (hEq : nameSegment i = nameSegment j) : i = j := by
  have hBreaks {c : Char} (hc : c ∈ ['\t', '\n', '\r']) := hPlain c (List.mem_cons_of_mem _ hc)
  rw [nameSegment, nameSegment, Url.segment, Url.segment, String.ofList_inj,
    unbroken_eq_self fun c hc => (hBreaks hc).1, unbroken_eq_self fun c hc => (hBreaks hc).2] at hEq
  obtain ⟨hi, hj⟩ := hPlain '%' (by decide)
  have hName := String.toList_inj.1 (Url.percentEncode_injective hi hj hEq)
  cases i
  cases j
  simp_all

/-! ## Places below a base -/

/-- Separators are no breaks, so they are still there when these are gone. -/
theorem fitsSegment_iff {scheme : String} {id : PackageId} : FitsSegment scheme id ↔
    Url.IsUncut (Url.isSpecialScheme scheme) (unbroken id.text.toList) := by
  refine ⟨fun h c hc => h c (List.mem_of_mem_filter hc), fun h c hc => ?_⟩
  by_cases hBreak : c ∈ ['\t', '\n', '\r']
  · simp only [List.mem_cons, List.not_mem_nil, or_false] at hBreak
    rcases hBreak with rfl | rfl | rfl <;> simp [Url.isSlash]
  · refine h c (List.mem_filter.2 ⟨hc, ?_⟩)
    simpa using hBreak

theorem not_dots_text (id : PackageId) : Url.isDot (unbroken id.text.toList) = false ∧
    Url.isDotDot (unbroken id.text.toList) = false := by
  refine Url.not_dots_of_mem (c := '@') (List.mem_filter.2 ⟨?_, by decide⟩) (by decide)
  simp [PackageId.toList_text]

theorem isLiteral_chars (v : Version) : Url.IsLiteral v.chars where
  head := by
    obtain ⟨d, ds, hChars, hDigit⟩ := Version.exists_chars_eq_cons v
    exact ⟨d, by rw [hChars]; rfl, by simp [Char.isAlphanum, hDigit]⟩
  kept c hc := by
    rcases Version.isDigit_or_eq_of_mem_chars hc with hDigit | rfl
    · simp [Url.isUnreserved, Char.isAlphanum, hDigit]
    · decide

/-- The names that all packages share. -/
theorem isLiteral_fixed {name : String}
    (hName : name ∈ ["collections", "collection.json", "versions", "package.json"]) :
    Url.IsLiteral name.toList := by
  have hAll : ["collections", "collection.json", "versions", "package.json"].all fun name =>
      name.toList.head?.any Char.isAlphanum && name.toList.all Url.isUnreserved := by decide
  have hOne := List.all_eq_true.1 hAll name hName
  rw [Bool.and_eq_true, Option.any_eq_true] at hOne
  exact ⟨hOne.1, List.all_eq_true.1 hOne.2⟩

theorem collectionPath_eq (id : PackageId) :
    collectionPath id = "collections/" ++ id.text ++ "/collection.json" := rfl

theorem packagePath_eq (v : Specifier) : packagePath v =
    "collections/" ++ v.id.text ++ "/versions/" ++ v.version.text ++ "/package.json" := rfl

section Below

variable {base : Url} {dir : List String} {id : PackageId}

/-- A document in the directory of an id is found there exactly if the id fits into a segment. -/
theorem join_iff_fitsSegment (hBase : base.IsRead)
    (hDirectory : base.path = .segments (dir ++ [""])) {path : String} {rest : List (List Char)}
    (hRest : rest ≠ []) (hNames : ∀ n ∈ rest, Url.IsLiteral n)
    (hPath : path.toList = ['/'].intercalate ("collections".toList :: id.text.toList :: rest)) :
    base.join path = .ok (base.atPath (dir ++
        "collections" :: idSegment id :: rest.map String.ofList)) ↔
      FitsSegment base.scheme id := by
  have hFirst : ∀ c ∈ "collections".toList, c.isAlphanum := List.all_eq_true.1 (by decide)
  have hParts (cs : List Char) : ['/'].intercalate ("collections".toList :: cs :: rest) =
      "collections/".toList ++ (cs ++ '/' :: ['/'].intercalate rest) := by
    obtain ⟨n, ns, rfl⟩ := List.exists_cons_of_ne_nil hRest
    simp
  have hVisible : ∀ c ∈ "collections/".toList ++ '/' :: ['/'].intercalate rest,
      0x20 < c.toNat := by
    have hFixed : "collections/".toList.all fun c => 0x20 < c.toNat := by decide
    intro c hc
    by_cases hSlash : c = '/'
    · rw [hSlash]
      decide
    · rcases List.mem_append.1 hc with hc | hc
      · exact of_decide_eq_true (List.all_eq_true.1 hFixed c hc)
      · have hMem := (List.mem_cons.1 hc).resolve_left hSlash
        obtain ⟨n, hn, hc⟩ := (Text.mem_intercalate_singleton_iff hSlash _).1 hMem
        exact (Url.visible_of_isAlphanum_or (by decide) ((hNames n hn).kept c hc)).1
  have hClean : Url.clean path.toList =
      ['/'].intercalate ("collections".toList :: unbroken id.text.toList :: rest) := by
    rw [hPath, hParts, Url.clean_between (by decide) (List.cons_ne_nil _ _) hVisible, hParts]
    rfl
  have hDots : ∀ n ∈ unbroken id.text.toList :: rest,
      Url.isDot n = false ∧ Url.isDotDot n = false :=
    List.forall_mem_cons.2 ⟨not_dots_text id, fun n hn => ((hNames n hn).isName false).not_dots⟩
  have hSegments : ("collections".toList :: unbroken id.text.toList :: rest).map Url.segment =
      "collections" :: idSegment id :: rest.map String.ofList := by
    rw [List.map_cons, List.map_cons, (isLiteral_fixed (by decide)).segment_eq,
      String.ofList_toList, List.map_congr_left fun n hn => (hNames n hn).segment_eq]
    rfl
  rw [← hSegments]
  refine (Url.join_names_iff hBase hDirectory (by decide) hFirst hDots hClean).trans ?_
  rw [fitsSegment_iff, List.forall_mem_cons]
  exact and_iff_left fun n hn => ((hNames n hn).isName _).uncut

theorem join_collectionPath_iff (hBase : base.IsRead)
    (hDirectory : base.path = .segments (dir ++ [""])) :
    base.join (collectionPath id) = .ok (collectionPlace base dir id) ↔
      FitsSegment base.scheme id := by
  have hPlace : collectionPlace base dir id = base.atPath (dir ++ "collections" ::
      idSegment id :: ["collection.json".toList].map String.ofList) := by
    simp [collectionPlace]
  rw [hPlace]
  refine join_iff_fitsSegment hBase hDirectory (List.cons_ne_nil _ _) ?_ ?_
  · exact List.forall_mem_singleton.2 (isLiteral_fixed (by decide))
  · rw [collectionPath_eq]
    simp

theorem join_packagePath_iff (hBase : base.IsRead)
    (hDirectory : base.path = .segments (dir ++ [""])) (v : Version) :
    base.join (packagePath ⟨id, v⟩) = .ok (packagePlace base dir ⟨id, v⟩) ↔
      FitsSegment base.scheme id := by
  have hPlace : packagePlace base dir ⟨id, v⟩ = base.atPath (dir ++ "collections" ::
      idSegment id :: ["versions".toList, v.chars, "package.json".toList].map String.ofList) := by
    simp [packagePlace, Version.text]
  rw [hPlace]
  refine join_iff_fitsSegment hBase hDirectory (List.cons_ne_nil _ _) ?_ ?_
  · exact List.forall_mem_cons.2 ⟨isLiteral_fixed (by decide), List.forall_mem_cons.2
      ⟨isLiteral_chars v, List.forall_mem_singleton.2 (isLiteral_fixed (by decide))⟩⟩
  · rw [packagePath_eq]
    simp

theorem text_collectionPlace_eq_iff {i j : PackageId} :
    (collectionPlace base dir i).text = (collectionPlace base dir j).text ↔
      idSegment i = idSegment j := by
  rw [collectionPlace, collectionPlace, Url.text_atPath_iff (by decide), ← String.toList_inj]
  simp [Url.Path.chars]

/-- The version and the segment for the id can be told apart, as there is no slash in a version. -/
theorem text_packagePlace_eq_iff {p q : Specifier} :
    (packagePlace base dir p).text = (packagePlace base dir q).text ↔
      idSegment p.id = idSegment q.id ∧ p.version = q.version := by
  have hSlash (v : Version) : '/' ∉ v.chars :=
    v.not_mem_chars (by decide) (by decide)
  have hChars (r : Specifier) : (Url.Path.segments [idSegment r.id, "versions", r.version.text,
      "package.json"]).chars = '/' :: ((idSegment r.id).toList ++ "/versions".toList ++
        '/' :: r.version.chars) ++ "/package.json".toList := by
    simp [Url.Path.chars]
  rw [packagePlace, packagePlace, Url.text_atPath_iff (by decide), hChars, hChars,
    List.append_cancel_right_eq, List.cons.injEq]
  constructor
  · rintro ⟨-, hEq⟩
    obtain ⟨hSegment, hVersion⟩ := Text.eq_of_append_cons_eq_last (hSlash _) (hSlash _) hEq
    exact ⟨String.toList_inj.1 (List.append_cancel_right hSegment),
      Version.chars_injective hVersion⟩
  · rintro ⟨hSegment, hVersion⟩
    exact ⟨rfl, by rw [hSegment, hVersion]⟩

end Below

/-! ## Requests for documents -/

section Requests

variable {ν α : Type} (network : Network ν) (r : Registry)

/-- The requests that an operation sends. -/
def requests (operation : Attempt (Session (ν × List Url)) α) (s : Session ν) : List Url :=
  (operation s.journaled).2.network.2

/-- Whether an operation asks where the repository of a domain is, if that is not known, and then
sends all its requests to one URL. -/
def AsksFor (domain : String) (operation : Attempt (Session (ν × List Url)) α) (s : Session ν)
    (u : Url) : Prop :=
  ∃ k, requests operation s = sent network r domain s ++ List.replicate (k + 1) u

theorem requestText_journaled (retries : Nat) (url : Url) (n : ν) (l : List Url) :
    requestText network.journaled retries url (n, l) =
      ((requestText network retries url n).1, (requestText network retries url n).2,
        l ++ List.replicate (network.tries url (retries - 1) n) url) := by
  unfold requestText
  rw [request_journaled]
  rcases request network retries url n with ⟨f | response, n'⟩
  · rfl
  · by_cases hStatus : 400 ≤ response.status <;> simp [hStatus]

variable {domain path : String} {s : Session ν} {base u : Url}

/-- Looking a document up asks for the URL that its place has below the base. -/
theorem asksFor_lookUp (hBase : (baseUri network r domain s).1 = .ok base)
    (hJoin : base.join path = .ok u) (read : Url → String → Except Fault α) :
    AsksFor network r domain (lookUp network.journaled r domain path read) s u := by
  have hTries := network.one_le_tries u (r.retries - 1) (baseUri network r domain s).2.network
  refine ⟨network.tries u (r.retries - 1) (baseUri network r domain s).2.network - 1, ?_⟩
  rw [Nat.sub_add_cancel hTries]
  unfold requests lookUp documentUrl
  rw [baseUri_journaled, hBase]
  simp only [hJoin, Except.mapError, onNetwork, requestText_journaled]
  rcases requestText network r.retries u (baseUri network r domain s).2.network with ⟨f | body, n⟩
  · rfl
  · rfl

/-- An operation asks for one URL only. -/
theorem AsksFor.eq {operation : Attempt (Session (ν × List Url)) α} {v : Url}
    (hu : AsksFor network r domain operation s u) (hv : AsksFor network r domain operation s v) :
    u = v := by
  obtain ⟨k, hk⟩ := hu
  obtain ⟨l, hl⟩ := hv
  have hMem : u ∈ List.replicate (l + 1) v := by
    rw [← List.append_cancel_left (hk.symm.trans hl)]
    exact List.mem_replicate.2 ⟨Nat.succ_ne_zero k, rfl⟩
  exact (List.mem_replicate.1 hMem).2

/-- Below a directory there is a URL for every reference that starts with a name. -/
theorem asksFor_lookUp_iff {dir : List String} (hRead : base.IsRead)
    (hDirectory : base.path = .segments (dir ++ [""]))
    (hBase : (baseUri network r domain s).1 = .ok base) {rest : List Char}
    (hPath : path.toList = "collections/".toList ++ rest) (read : Url → String → Except Fault α) :
    AsksFor network r domain (lookUp network.journaled r domain path read) s u ↔
      base.join path = .ok u := by
  refine ⟨fun hAsks => ?_, fun hJoin => asksFor_lookUp network r hBase hJoin read⟩
  obtain ⟨cs, hClean⟩ : ∃ cs, Url.clean path.toList = "collections".toList ++ '/' :: cs := by
    have hFront : "collections/".toList.all fun c => 0x20 < c.toNat := by decide
    rw [hPath, Url.clean_append (by decide) fun c hc =>
      of_decide_eq_true (List.all_eq_true.1 hFront c hc)]
    exact ⟨_, rfl⟩
  obtain ⟨v, hJoin⟩ : ∃ v, base.join path = .ok v :=
    ⟨_, Url.join_reference hRead hDirectory (by decide) (List.all_eq_true.1 (by decide)) (by simp)
      hClean⟩
  rw [hAsks.eq network r (asksFor_lookUp network r hBase hJoin read), hJoin]

/-- The documents of a package are looked up in the directory of its id below the base of the
repository, exactly if the id fits into a segment. Two ids of one domain share these directories
exactly if their names are encoded alike, and two versions share a document exactly if they are the
same version in one directory. Names without percent signs, tabs and line breaks are encoded alike
only if they are equal. -/
theorem documents_kept_apart {dir : List String} (hRead : base.IsRead)
    (hDirectory : base.path = .segments (dir ++ [""])) :
    (∀ (id : PackageId) (s : Session ν), (baseUri network r id.domain s).1 = .ok base →
      (AsksFor network r id.domain (collection network.journaled r id) s
          (collectionPlace base dir id) ↔ FitsSegment base.scheme id) ∧
        ∀ v, AsksFor network r id.domain (package network.journaled r ⟨id, v⟩) s
          (packagePlace base dir ⟨id, v⟩) ↔ FitsSegment base.scheme id) ∧
    ∀ i j : PackageId, i.domain = j.domain →
      ((collectionPlace base dir i).text = (collectionPlace base dir j).text ↔
        nameSegment i = nameSegment j) ∧
      (∀ v w, (packagePlace base dir ⟨i, v⟩).text = (packagePlace base dir ⟨j, w⟩).text ↔
        nameSegment i = nameSegment j ∧ v = w) ∧
      ((∀ c ∈ ['%', '\t', '\n', '\r'], c ∉ i.name.toList ∧ c ∉ j.name.toList) →
        (nameSegment i = nameSegment j ↔ i = j)) := by
  refine ⟨fun id s hBase => ⟨?_, fun v => ?_⟩,
    fun i j hDomain => ⟨?_, fun v w => ?_, fun hPlain => ⟨?_, ?_⟩⟩⟩
  · have hPath : (collectionPath id).toList =
        "collections/".toList ++ (id.text ++ "/collection.json").toList := by
      rw [collectionPath_eq]
      simp
    exact (asksFor_lookUp_iff network r hRead hDirectory hBase hPath _).trans
      (join_collectionPath_iff hRead hDirectory)
  · have hPath : (packagePath ⟨id, v⟩).toList = "collections/".toList ++
        (id.text ++ "/versions/" ++ v.text ++ "/package.json").toList := by
      rw [packagePath_eq]
      simp
    exact (asksFor_lookUp_iff network r hRead hDirectory hBase hPath _).trans
      (join_packagePath_iff hRead hDirectory v)
  · rw [text_collectionPlace_eq_iff, idSegment_eq_iff hDomain]
  · rw [text_packagePlace_eq_iff, idSegment_eq_iff hDomain]
  · exact eq_of_nameSegment_eq hDomain hPlain
  · rintro rfl
    rfl

end Requests

/-! ## Places below a base that is found -/

/-- Whether the list of the versions of a package is asked for at a URL, by the first look-up. -/
def AsksFirst (id : PackageId) (u : Url) : Prop :=
  AsksFor clockwork fallbackRegistry id.domain (collection clockwork.journaled fallbackRegistry id)
    (clockworkSession 0) u

/-- The names of the directory that all look-ups go to. -/
def clockworkDirectory : List String := [".well-known", "pakt-pkgs", "repo"]

theorem baseUri_clockwork {id : PackageId} (hDomain : id.domain = "ex.com") :
    (baseUri clockwork fallbackRegistry id.domain (clockworkSession 0)).1 =
      .ok clockworkLocation.base := by
  rw [hDomain]
  exact finds_clockworkLocation.answered

theorem asksFirst_of_join {id : PackageId} {u : Url} (hDomain : id.domain = "ex.com")
    (hJoin : (clockworkLocation.base.join (collectionPath id)).toOption = some u) :
    AsksFirst id u :=
  asksFor_lookUp _ _ (baseUri_clockwork hDomain) (ok_of_toOption hJoin) _

theorem documents_kept_apart_similar :
    let i : PackageId := ⟨"my-lib", "ex.com"⟩
    let j : PackageId := ⟨"my_lib", "ex.com"⟩
    let collectionAt := collectionPlace clockworkLocation.base clockworkDirectory
    let packageAt := packagePlace clockworkLocation.base clockworkDirectory
    AsksFirst i (collectionAt i) ∧ AsksFirst j (collectionAt j) ∧
      (collectionAt i).text =
        "http://ex.com/.well-known/pakt-pkgs/repo/collections/my-lib@ex.com/collection.json" ∧
      (collectionAt i).text ≠ (collectionAt j).text ∧
      ∀ v w, (packageAt ⟨i, v⟩).text ≠ (packageAt ⟨j, w⟩).text := by
  intro i j collectionAt packageAt
  have hRead : clockworkLocation.base.IsRead :=
    .parse (s := "http://ex.com/.well-known/pakt-pkgs/repo/") (ok_of_toOption (by decide +kernel))
  have hDirectory : clockworkLocation.base.path = .segments (clockworkDirectory ++ [""]) := rfl
  obtain ⟨hAsks, hApart⟩ := documents_kept_apart clockwork fallbackRegistry hRead hDirectory
  obtain ⟨hCollections, hPackages, hNames⟩ := hApart i j rfl
  have hPlain : ['%', '\t', '\n', '\r'].all fun c =>
      !i.name.toList.contains c && !j.name.toList.contains c := by decide
  have hOther : nameSegment i ≠ nameSegment j := by
    refine fun hEq => absurd ((hNames fun c hc => ?_).1 hEq) (by decide)
    simpa using List.all_eq_true.1 hPlain c hc
  have hUncut : [i, j].all fun k => k.text.toList.all fun c =>
      Url.isSlash true c = false ∧ c ≠ '?' ∧ c ≠ '#' := by decide +kernel
  have hFits (k : PackageId) (hk : k ∈ [i, j]) : FitsSegment clockworkLocation.base.scheme k :=
    fun c hc => of_decide_eq_true (List.all_eq_true.1 (List.all_eq_true.1 hUncut k hk) c hc)
  exact ⟨(hAsks i _ (baseUri_clockwork rfl)).1.2 (hFits i (by simp)),
    (hAsks j _ (baseUri_clockwork rfl)).1.2 (hFits j (by simp)), by decide +kernel,
    fun hEq => hOther (hCollections.1 hEq), fun v w hEq => hOther ((hPackages v w).1 hEq).1⟩

/-- What follows a number sign is not asked for, two points take the segment before them away, and
what looks encoded is taken to be. -/
theorem documents_coincide :
    (∃ i j u v, PackageId.parse "a#x@ex.com" = .ok i ∧ PackageId.parse "a#y@ex.com" = .ok j ∧
      i ≠ j ∧ i.domain = j.domain ∧ AsksFirst i u ∧ AsksFirst j v ∧
      u.path = .segments (clockworkDirectory ++ ["collections", "a"]) ∧
      { u with fragment := none } = { v with fragment := none }) ∧
    (∃ i j u, PackageId.parse "x/../a@ex.com" = .ok i ∧ PackageId.parse "a@ex.com" = .ok j ∧
      i ≠ j ∧ i.domain = j.domain ∧ AsksFirst i u ∧ AsksFirst j u) ∧
    ∃ i j u, PackageId.parse "a%20b@ex.com" = .ok i ∧ PackageId.parse "a b@ex.com" = .ok j ∧
      i ≠ j ∧ i.domain = j.domain ∧ AsksFirst i u ∧ AsksFirst j u := by
  refine ⟨⟨⟨"a#x", "ex.com"⟩, ⟨"a#y", "ex.com"⟩,
      { clockworkLocation.base with
        path := .segments (clockworkDirectory ++ ["collections", "a"])
        fragment := some "x@ex.com/collection.json" },
      { clockworkLocation.base with
        path := .segments (clockworkDirectory ++ ["collections", "a"])
        fragment := some "y@ex.com/collection.json" },
      ok_of_toOption (by decide +kernel), ok_of_toOption (by decide +kernel), by decide, rfl,
      asksFirst_of_join rfl (by decide +kernel), asksFirst_of_join rfl (by decide +kernel),
      rfl, rfl⟩,
    ⟨⟨"x/../a", "ex.com"⟩, ⟨"a", "ex.com"⟩,
      collectionPlace clockworkLocation.base clockworkDirectory ⟨"a", "ex.com"⟩, ?_⟩,
    ⟨⟨"a%20b", "ex.com"⟩, ⟨"a b", "ex.com"⟩,
      collectionPlace clockworkLocation.base clockworkDirectory ⟨"a b", "ex.com"⟩, ?_⟩⟩
  all_goals exact ⟨ok_of_toOption (by decide +kernel), ok_of_toOption (by decide +kernel),
    by decide, rfl, asksFirst_of_join rfl (by decide +kernel),
    asksFirst_of_join rfl (by decide +kernel)⟩

end PackageManager.Registry
