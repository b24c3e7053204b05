import PackageManager.Catalog.Journal
import PackageManager.ImportPlan

/-!
# Errands

To resolve the imports of a project package files are fetched and catalogs are asked. Which of this
is done, and in which order, shows if the fetcher and the source both write it into one journal.
Reading a package file that is already there is no errand.
-/

namespace PackageManager

/-- What has to be got from outside. -/
inductive Errand
  | download (url : Url)
  | inquiry (inquiry : Inquiry)
deriving DecidableEq

/-- The fetcher that writes down what it is asked to fetch, failures included. -/
def journalFetch {σ : Type} (fetch : Url → Attempt σ FilePath) (url : Url) :
    Attempt (Journal Errand σ) FilePath :=
  (fetch url).journaled [.download url]

end PackageManager
