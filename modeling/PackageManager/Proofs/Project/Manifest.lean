import PackageManager.Project.Manifest
import PackageManager.Proofs.Document.Decode
import PackageManager.Proofs.Document.Json
import PackageManager.Proofs.Package.Parts

/-!
# Manifests that are written and read again

A manifest holds three kinds of values that are written as texts: versions, specifiers and URLs. All
else in its description is made of tables, lists and words, and is always read again. So what comes
back of a manifest is decided by those texts alone. A version is read from its text. A specifier is,
unless it has no name or no domain or would be cut within the domain. What the text of a URL is read
as is left to URLs.

## Main results

* `Target.decode_encode_iff`, `Import.decode_encode_iff` — which targets and imports are read again.
* `Manifest.decode_encode_iff` — a manifest is read from its description iff its parts are.
* `Manifest.json_roundtrip` — the same for the JSON text of a manifest.
-/

namespace PackageManager

/-- Whether a specifier is read from its own text. -/
def Specifier.Legible (v : Specifier) : Prop :=
  v.id.name ≠ "" ∧ v.id.domain ≠ "" ∧ '@' ∉ v.id.domain.toList

theorem Specifier.decode_text_iff {v : Specifier} :
    Decode.specifier v.text = .ok v ↔ v.Legible := by
  rw [Decode.specifier, Decode.spelled, mapError_eq_ok_iff, parse_eq_ok_iff]
  exact and_iff_right rfl

theorem Version.decode_text (v : Version) :
    Decode.asText Decode.version (.text v.text) = .ok v := by
  show Decode.version v.text = .ok v
  rw [Decode.version, Decode.spelled, mapError_eq_ok_iff, parse_eq_ok_iff, text]
  simp

/-! ## Targets -/

namespace Target

theorem plain_encode (t : Target) : t.encode.Plain := by
  refine .table ?_
  simp [Datum.Plain.text, Datum.plain_ofText?, Datum.plain_ofTexts]

theorem decodeKind_word (format : Format) (kind : TargetKind) :
    decodeKind format (.text kind.word) = .ok kind := by
  cases format <;> cases kind <;> rfl

/-- A target is read from its description, if its specifier is read from its text. -/
theorem decode_encode (format : Format) (t : Target) : decode format t.encode =
    (Decode.specifier t.specifier.text).map fun v => { t with specifier := v } := by
  have hTable : t.encode = .table _ := rfl
  obtain ⟨field, hRecord, hField⟩ := Decode.record_table (by simp) hTable format fieldNames
  simp only [List.forall_mem_cons] at hField
  obtain ⟨hKind, hSpecifier, hVersion, hDepends, hImports, hMain, hProgram, hLibrary,
    hArchive, -⟩ := hField
  have hVersionText := Decode.optional_ofText? Version.decode_text t.version
  have hSpecifierText : Decode.asText Decode.specifier (.text t.specifier.text) =
    Decode.specifier t.specifier.text := rfl
  unfold decode
  rw [hRecord]
  simp only [bind, Except.bind, hKind, hSpecifier, hVersion, hDepends, hImports, hMain, hProgram,
    hLibrary, hArchive, Decode.required, Decode.withDefault, Decode.texts_ofTexts,
    Decode.textSet_ofTexts, Decode.optional_text, decodeKind_word, hVersionText, hSpecifierText]
  cases Decode.specifier t.specifier.text <;> rfl

theorem decode_encode_iff (format : Format) {t : Target} :
    decode format t.encode = .ok t ↔ t.specifier.Legible := by
  rw [decode_encode, ← Specifier.decode_text_iff]
  cases Decode.specifier t.specifier.text with
  | error f => simp [Except.map]
  | ok v =>
      cases t
      simp [Except.map]

end Target

/-! ## Imports -/

namespace Import

/-- Whether what an import stands for is read from its own text. -/
def Legible : Import → Prop
  | .target _ => True
  | .requirement v => v.Legible
  | .package url => Url.parse url.text = .ok url

theorem plain_encode (i : Import) : i.encode.Plain := by
  refine .table ?_
  simp [Datum.Plain.text]

theorem decode_encode (i : Import) : decode i.encode = ofField i.word i.fieldText := by
  cases i <;> rfl

theorem decode_encode_iff {i : Import} : decode i.encode = .ok i ↔ i.Legible := by
  rw [decode_encode]
  cases i with
  | target name => exact ⟨fun _ => trivial, fun _ => rfl⟩
  | requirement v =>
      have hField : ofField "Requirement" v.text = (Decode.specifier v.text).map .requirement := rfl
      rw [word, fieldText, hField, Legible, ← Specifier.decode_text_iff]
      cases Decode.specifier v.text <;> simp [Except.map]
  | package url =>
      have hField : ofField "Package" url.text = (Decode.url url.text).map .package := rfl
      rw [word, fieldText, hField, Legible, Decode.url]
      cases Url.parse url.text <;> simp [Except.map, Except.mapError]

example :
    let s := "\x7b\"type\":\"Target\",\"target-name\":\"core\"\x7d"
    Json.print (encode (.target "core")) = s ∧
      ((Json.parse? s).bind fun d => (decode d).toOption) = some (.target "core") := by
  decide +kernel

end Import

/-! ## Manifests -/

theorem ProjectInfo.plain_encode (p : ProjectInfo) : p.encode.Plain := by
  refine .table ?_
  simp [Datum.Plain.text, Datum.plain_ofText?]

theorem ProjectInfo.decode_encode (format : Format) (p : ProjectInfo) :
    decode format p.encode = .ok p := by
  have hTable : p.encode = .table _ := rfl
  obtain ⟨field, hRecord, hField⟩ :=
    Decode.record_table (by simp) hTable format ["name", "description"]
  simp only [List.forall_mem_cons] at hField
  obtain ⟨hName, hDescription, -⟩ := hField
  unfold decode
  rw [hRecord]
  simp only [bind, Except.bind, hName, hDescription, Decode.required, Decode.text,
    Decode.optional_text]
  rfl

namespace Manifest

theorem plain_encode (m : Manifest) : m.encode.Plain := by
  refine .table ?_
  have hProject : (m.project.elim .null ProjectInfo.encode).Plain := by
    cases m.project with
    | none => exact .null
    | some p => exact p.plain_encode
  simp [hProject, Datum.plain_table_map Target.plain_encode,
    Datum.plain_table_map Import.plain_encode]

theorem decode_project (format : Format) (p : Option ProjectInfo) :
    Decode.optional (ProjectInfo.decode format) (some (p.elim .null ProjectInfo.encode)) =
      .ok p := by
  cases p with
  | none => rfl
  | some p =>
      show (ProjectInfo.decode format p.encode).map some = _
      rw [ProjectInfo.decode_encode]
      rfl

/-- A manifest is read from its description iff its targets and its imports are. -/
theorem decode_encode_iff {format : Format} {m : Manifest} : decode format m.encode = .ok m ↔
    (∀ e ∈ m.targets.entries, e.2.specifier.Legible) ∧ ∀ e ∈ m.imports.entries, e.2.Legible := by
  have hTable : m.encode = .table _ := rfl
  obtain ⟨field, hRecord, hField⟩ :=
    Decode.record_table (by simp) hTable format ["project", "targets", "imports"]
  simp only [List.forall_mem_cons] at hField
  obtain ⟨hProject, hTargets, hImports, -⟩ := hField
  simp only [← Target.decode_encode_iff format, ← Import.decode_encode_iff]
  rw [← Decode.map_entries_eq_ok_iff, ← Decode.map_entries_eq_ok_iff]
  unfold decode
  rw [hRecord]
  simp only [bind, Except.bind, hProject, hTargets, hImports, decode_project, Decode.withDefault]
  cases Decode.map .ok (Target.decode format) _ with
  | error f => simp
  | ok targets =>
      cases Decode.map .ok Import.decode _ with
      | error f => simp
      | ok imports =>
          cases m
          simp [pure, Except.pure]

/-- What is written about a project as JSON is read as that again, exactly if each specifier in it
has a name and a domain and no separator in the domain, and each URL is read from its own text. -/
theorem json_roundtrip (m : Manifest) :
    (Json.parse? (Json.print m.encode)).map (decode .json) = some (.ok m) ↔
      (∀ name t, m.targets.get? name = some t → t.specifier.Legible) ∧
      (∀ name v, m.imports.get? name = some (.requirement v) → v.Legible) ∧
      ∀ name url, m.imports.get? name = some (.package url) → Url.parse url.text = .ok url := by
  rw [Json.parse?_print m.plain_encode, Option.map_some, Option.some_inj, decode_encode_iff]
  simp only [OrderedMap.get?_eq_some_iff]
  refine and_congr Prod.forall ⟨fun hAll => ⟨fun name v => hAll _, fun name url => hAll _⟩, ?_⟩
  rintro ⟨hRequirements, hPackages⟩ ⟨name, i⟩ hMem
  cases i with
  | target n => trivial
  | requirement v => exact hRequirements name v hMem
  | package url => exact hPackages name url hMem

end Manifest

end PackageManager
