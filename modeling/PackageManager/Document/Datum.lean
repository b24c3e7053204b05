/-!
# The content of a document

Projects are described in TOML and package repositories in JSON, and the same descriptions may be
written in either. A document of both formats is therefore read into one tree, a `Datum`, from
which the descriptions are taken; what the formats do not share, such as the null of JSON, is in
the tree, and `Format` says where reading a tree still depends on its origin.
-/

namespace PackageManager

/-- A node of a document. -/
inductive Datum
  | null
  | bool (b : Bool)
  | integer (n : Int)
  /-- A value as it is written, where no description asks for more: a number that is not written as
  an integer, or what contains half a character. -/
  | verbatim (written : String)
  | text (s : String)
  | list (items : List Datum)
  /-- Entries in the order of the document, where a key may occur more than once. -/
  | table (entries : List (String × Datum))
deriving Inhabited

namespace Datum

/-- The values for a key, in the order of the document. -/
def valuesOf (entries : List (String × Datum)) (key : String) : List Datum :=
  (entries.filter fun e => e.1 = key).map (·.2)

/-- The last value for a key in a table. -/
def get? (d : Datum) (key : String) : Option Datum :=
  match d with
  | .table entries => (valuesOf entries key).getLast?
  | _ => none

/-- The text of a datum, or the null datum. -/
def ofText? (s : Option String) : Datum := s.elim .null .text

/-- The list of some texts. -/
def ofTexts (l : List String) : Datum := .list (l.map .text)

end Datum

/-- The formats of documents. -/
inductive Format
  | json
  | toml
deriving DecidableEq

/-- The place that a format's own complaints about a document have in a message. -/
def Format.marker : Format → String
  | .json => "<json>"
  | .toml => "<toml>"

end PackageManager
