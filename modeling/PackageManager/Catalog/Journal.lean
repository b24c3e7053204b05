import PackageManager.Catalog

/-!
# Journals

How often something is asked, and in which order, matters where asking is slow. A `Journal` is a
state with a list of what has been done; attempts on the state become attempts on the journal which
write down that they were made, whether they fail or not. What is written is up to whoever keeps the
journal: `PackageSource.journaledAs` writes an entry of any kind for each inquiry, and
`PackageSource.journaled` the inquiries themselves.
-/

namespace PackageManager

/-- What a catalog is asked for. -/
inductive Inquiry
  | collection (id : PackageId)
  | package (specifier : Specifier)
deriving DecidableEq

/-- The text of an inquiry. -/
def Inquiry.text : Inquiry → String
  | .collection id => "collection " ++ id.text
  | .package s => "package " ++ s.text

/-- A state with all entries that have been written. -/
structure Journal (ε σ : Type) where
  state : σ
  entries : List ε := []

variable {ε σ : Type}

/-- The journal in another state, with some more entries. -/
def Journal.write (j : Journal ε σ) (state : σ) (entries : List ε) : Journal ε σ :=
  { state, entries := j.entries ++ entries }

/-- An attempt on a state with a journal, into which it writes some entries. -/
def Attempt.journaled {α : Type} (a : Attempt σ α) (entries : List ε) :
    Attempt (Journal ε σ) α := fun j =>
  let (answer, state) := a j.state
  (answer, j.write state entries)

/-- The source that keeps a journal of what it is asked, with an entry for each inquiry. -/
def PackageSource.journaledAs (source : PackageSource σ) (entry : Inquiry → ε) :
    PackageSource (Journal ε σ) where
  collection id := (source.collection id).journaled [entry (.collection id)]
  package s := (source.package s).journaled [entry (.package s)]
  packageAt p := (source.packageAt p).journaled []

/-- A state with all inquiries that have been made. -/
abbrev Journaled := Journal Inquiry

/-- The inquiries that have been made. -/
abbrev Journal.inquiries (j : Journaled σ) : List Inquiry := j.entries

/-- The source that keeps a journal of what it is asked. -/
abbrev PackageSource.journaled (source : PackageSource σ) : PackageSource (Journaled σ) :=
  source.journaledAs id

end PackageManager
