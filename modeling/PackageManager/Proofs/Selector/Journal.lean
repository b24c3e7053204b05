import PackageManager.Catalog.Journal
import PackageManager.Selector

/-!
# What a selector asks

A selector whose source keeps a journal does the same as without it, and nothing is written into the
journal but inquiries. This is so for each look-up, for each request that is worked off, and by
induction on these for a whole run.

## Main results

* `findExactly_journaled` — a version is looked up by one inquiry.
* `drain_journaled`, `order_journaled` — a selector gives the same answer if inquiries are written
  down.
-/

namespace PackageManager

variable {ε σ : Type}

namespace Journal

@[simp] theorem state_write (j : Journal ε σ) (w : σ) (l : List ε) : (j.write w l).state = w := rfl

@[simp] theorem entries_write (j : Journal ε σ) (w : σ) (l : List ε) :
    (j.write w l).entries = j.entries ++ l := rfl

@[simp] theorem write_nil (j : Journal ε σ) : j.write j.state [] = j := by
  simp [write]

@[simp] theorem write_write (j : Journal ε σ) (v w : σ) (l l' : List ε) :
    (j.write v l).write w l' = j.write w (l ++ l') := by
  simp [write]

end Journal

namespace Selector

variable (source : PackageSource σ) (entry : Inquiry → ε)

theorem package_journaled (v : Specifier) (j : Journal ε σ) :
    (source.journaledAs entry).package v j = ((source.package v j.state).1,
      j.write (source.package v j.state).2 [entry (.package v)]) := rfl

theorem collection_journaled (id : PackageId) (j : Journal ε σ) :
    (source.journaledAs entry).collection id j = ((source.collection id j.state).1,
      j.write (source.collection id j.state).2 [entry (.collection id)]) := rfl

theorem packageAt_journaled (p : FilePath) (j : Journal ε σ) :
    (source.journaledAs entry).packageAt p j = ((source.packageAt p j.state).1,
      j.write (source.packageAt p j.state).2 []) := rfl

theorem findExactly_journaled (v : Specifier) (j : Journal ε σ) :
    findExactly (source.journaledAs entry) v j = ((findExactly source v j.state).1,
      j.write (findExactly source v j.state).2 [entry (.package v)]) := by
  unfold findExactly
  rw [package_journaled]
  rcases source.package v j.state with ⟨f | r, w⟩ <;> rfl

/-- Whatever a request is about, the source is only asked by inquiries, and answers as it would. -/
theorem find_journaled (request : Request) (j : Journal ε σ) : ∃ inquiries : List Inquiry,
    find (source.journaledAs entry) request j = ((find source request j.state).1,
      j.write (find source request j.state).2 (inquiries.map entry)) := by
  cases request with
  | exactly v => exact ⟨[.package v], findExactly_journaled source entry v j⟩
  | latest id =>
      unfold find
      dsimp only
      rw [collection_journaled]
      rcases source.collection id j.state with ⟨f | c, w⟩
      · exact ⟨[.collection id], rfl⟩
      · dsimp only
        cases c.latest with
        | none => exact ⟨[.collection id], rfl⟩
        | some v =>
            refine ⟨[.collection id, .package ⟨id, v⟩], ?_⟩
            dsimp only
            rw [findExactly_journaled, Journal.write_write]
            rfl
  | unpacked p =>
      refine ⟨[], ?_⟩
      unfold find
      dsimp only
      rw [packageAt_journaled]
      rcases source.packageAt p j.state with ⟨f | found, w⟩ <;> rfl

theorem settleDirect_journaled (token : Nat) (request : Request) (shortcut : Option String)
    (s : Selector) (j : Journal ε σ) : ∃ inquiries : List Inquiry,
    settleDirect (source.journaledAs entry) token request shortcut s j =
      ((settleDirect source token request shortcut s j.state).1,
        (settleDirect source token request shortcut s j.state).2.1,
        j.write (settleDirect source token request shortcut s j.state).2.2
          (inquiries.map entry)) := by
  obtain ⟨inquiries, hFind⟩ := find_journaled source entry request j
  refine ⟨inquiries, ?_⟩
  unfold settleDirect
  rw [hFind]
  rcases find source request j.state with ⟨f | c, w⟩ <;> rfl

theorem settleTransitive_journaled (parent dependency : Specifier) (s : Selector)
    (j : Journal ε σ) : ∃ inquiries : List Inquiry,
    settleTransitive (source.journaledAs entry) parent dependency s j =
      ((settleTransitive source parent dependency s j.state).1,
        (settleTransitive source parent dependency s j.state).2.1,
        j.write (settleTransitive source parent dependency s j.state).2.2
          (inquiries.map entry)) := by
  unfold settleTransitive
  rcases s.declare parent dependency with ⟨f | u, t⟩
  · exact ⟨[], by simp⟩
  · dsimp only
    cases t.pin? dependency with
    | none => exact ⟨[], by simp⟩
    | some t' =>
        refine ⟨[.package dependency], ?_⟩
        dsimp only
        rw [findExactly_journaled]
        rcases findExactly source dependency j.state with ⟨f | c, w⟩ <;> rfl

theorem process_journaled (p : PendingRequest) (s : Selector) (j : Journal ε σ) :
    ∃ inquiries : List Inquiry, process (source.journaledAs entry) p s j =
      ((process source p s j.state).1, (process source p s j.state).2.1,
        j.write (process source p s j.state).2.2 (inquiries.map entry)) := by
  obtain ⟨inquiries, hSettle⟩ : ∃ inquiries : List Inquiry,
      settle (source.journaledAs entry) p s j =
        ((settle source p s j.state).1, (settle source p s j.state).2.1,
          j.write (settle source p s j.state).2.2 (inquiries.map entry)) := by
    cases p with
    | direct token request shortcut =>
        exact settleDirect_journaled source entry token request shortcut s j
    | transitive token parent dependency =>
        exact settleTransitive_journaled source entry parent dependency s j
  refine ⟨inquiries, ?_⟩
  unfold process
  rw [hSettle]
  rcases settle source p s j.state with ⟨f | _ | c, t, w⟩ <;> rfl

/-- Working off the requests comes to the same whether inquiries are written down or not, and
nothing but inquiries is written. -/
theorem drain_journaled (fuel : Nat) (s : Selector) (j : Journal ε σ) :
    ∃ inquiries : List Inquiry, drain (source.journaledAs entry) fuel s j =
      (drain source fuel s j.state).map fun r =>
        (r.1, r.2.1, j.write r.2.2 (inquiries.map entry)) := by
  induction fuel generalizing s j with
  | zero =>
      refine ⟨[], ?_⟩
      unfold drain
      cases s.pending with
      | nil => simp
      | cons p rest => rfl
  | succ fuel ih =>
      unfold drain
      cases s.pending with
      | nil => exact ⟨[], by simp⟩
      | cons p rest =>
          obtain ⟨first, hProcess⟩ :=
            process_journaled source entry p { s with pending := rest } j
          dsimp only
          rw [hProcess]
          rcases process source p { s with pending := rest } j.state with ⟨f | u, t, w⟩
          · exact ⟨first, rfl⟩
          · obtain ⟨others, hRest⟩ := ih t (j.write w (first.map entry))
            refine ⟨first ++ others, ?_⟩
            simpa using hRest

theorem order_journaled (fuel : Nat) (s : Selector) (j : Journal ε σ) :
    ∃ inquiries : List Inquiry, s.order (source.journaledAs entry) fuel j =
      (s.order source fuel j.state).map fun r =>
        (r.1, r.2.1, j.write r.2.2 (inquiries.map entry)) := by
  obtain ⟨inquiries, hDrain⟩ := drain_journaled source entry fuel s j
  refine ⟨inquiries, ?_⟩
  unfold order
  rw [hDrain]
  rcases drain source fuel s j.state with _ | ⟨f | u, t, w⟩ <;> rfl

end Selector

end PackageManager
