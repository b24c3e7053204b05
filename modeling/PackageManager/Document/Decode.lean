import PackageManager.Fault.Document
import PackageManager.Ordered.Map
import PackageManager.Ordered.Set

/-!
# Reading descriptions from documents

A description is a record of named fields. It is written as a table, in which fields that nobody
knows are ignored and a known one may not occur twice, or as the list of its fields in their order,
of which the last ones may be left out. Fields may have defaults. Null is as good as nothing for an
optional field and no value of any other.
-/

namespace PackageManager.Decode

/-- What is read from a document, or why nothing is. -/
abbrev Result (α : Type) := Except DocumentFault α

/-- The fields of a record with the given names. -/
def record (format : Format) (names : List String) (d : Datum) :
    Result (String → Option Datum) :=
  match d with
  | .table entries =>
    if names.any fun n => 1 < (Datum.valuesOf entries n).length then .error .form
    else .ok fun n => (Datum.valuesOf entries n).head?
  | .list items =>
    if format = .json ∧ names.length < items.length then .error .form
    else .ok fun n => (names.idxOf? n).bind fun i => items[i]?
  | _ => .error .form

/-- A field that has to be there. -/
def required {α : Type} (read : Datum → Result α) : Option Datum → Result α
  | some d => read d
  | none => .error .form

/-- A field that need not be there. -/
def withDefault {α : Type} (default : α) (read : Datum → Result α) : Option Datum → Result α
  | some d => read d
  | none => .ok default

/-- A field that need not be there and may be null. -/
def optional {α : Type} (read : Datum → Result α) : Option Datum → Result (Option α)
  | some .null | none => .ok none
  | some d => (read d).map some

/-- A text. -/
def text : Datum → Result String
  | .text s => .ok s
  | _ => .error .form

/-- A text from which something else is read. -/
def asText {α : Type} (read : String → Result α) (d : Datum) : Result α := do read (← text d)

/-- A truth value. -/
def bool : Datum → Result Bool
  | .bool b => .ok b
  | _ => .error .form

/-- A number below a bound. -/
def below (bound : Nat) : Datum → Result Nat
  | .integer n => if 0 ≤ n ∧ n < bound then .ok n.toNat else .error .form
  | _ => .error .form

/-- A list of texts. -/
def texts : Datum → Result (List String)
  | .list items => items.mapM text
  | _ => .error .form

/-- A set of texts, written as a list. -/
def textSet (d : Datum) : Result (OrderedSet String) := (texts d).map .ofList

/-- A text that spells a value. -/
def spelled {α ε : Type} (parse : String → Except ε α) (fault : ε → ValueFault) (s : String) :
    Result α :=
  (parse s).mapError fun e => .value (fault e)

/-- A package id. -/
def packageId : String → Result PackageId := spelled PackageId.parse .id

/-- A version. -/
def version : String → Result Version := spelled Version.parse .version

/-- A specifier. -/
def specifier : String → Result Specifier := spelled Specifier.parse .specifier

/-- A requirement. -/
def requirement : String → Result Requirement := spelled Requirement.parse .requirement

/-- A URL; its own complaints count as those of the form. -/
def url (s : String) : Result Url := (Url.parse s).mapError fun _ => .form

/-- A table of values under keys that spell something. Of two values for a key the later counts. -/
def map {α β : Type} [Ord α] [Std.TransOrd α] (key : String → Result α) (value : Datum → Result β) :
    Datum → Result (OrderedMap α β)
  | .table entries =>
    entries.foldlM (fun m e => do return m.insert (← key e.1) (← value e.2)) ∅
  | _ => .error .form

end PackageManager.Decode
