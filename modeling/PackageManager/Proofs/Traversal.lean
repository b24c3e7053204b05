import Mathlib.Data.List.Forall2

/-!
# Working through a list where steps may fail

Documents, stores and catalogs are worked through entry by entry, and the first entry that is
refused ends the work. If nothing is refused, each entry has been accepted by itself: the order of
the entries only matters for what is refused first.
-/

namespace PackageManager

variable {α β ε : Type}

/-- What comes of a result that is not refused. -/
theorem ok_of_map {x : Except ε α} {f : α → β} {b : β} (hMap : x.map f = .ok b) :
    ∃ a, x = .ok a ∧ f a = b := by
  cases x with
  | error e => cases hMap
  | ok a => exact ⟨a, rfl, Except.ok.inj hMap⟩

/-- What comes of two steps of which neither is refused. -/
theorem ok_of_bind {x : Except ε α} {f : α → Except ε β} {b : β} (hBind : x >>= f = .ok b) :
    ∃ a, x = .ok a ∧ f a = .ok b := by
  cases x with
  | error e => cases hBind
  | ok a => exact ⟨a, rfl, hBind⟩

theorem mapError_eq_ok_iff {ε' : Type} {x : Except ε α} {f : ε → ε'} {a : α} :
    x.mapError f = .ok a ↔ x = .ok a := by
  cases x <;> simp [Except.mapError]

theorem ok_of_mapError {ε' : Type} {x : Except ε α} {f : ε → ε'} {a : α}
    (hMap : x.mapError f = .ok a) : x = .ok a :=
  mapError_eq_ok_iff.1 hMap

theorem ok_of_toOption {x : Except ε α} {a : α} (hSome : x.toOption = some a) : x = .ok a := by
  cases x with
  | error e => cases hSome
  | ok b => exact congrArg Except.ok (Option.some.inj hSome)

/-- Results that are collected stand beside what they came from. -/
theorem forall₂_of_mapM {f : α → Except ε β} {l : List α} {r : List β}
    (hAll : l.mapM f = .ok r) : List.Forall₂ (fun a b => f a = .ok b) l r := by
  induction l generalizing r with
  | nil =>
      cases hAll
      exact .nil
  | cons a l ih =>
      rw [List.mapM_cons] at hAll
      cases hFirst : f a with
      | error e =>
          rw [hFirst] at hAll
          cases hAll
      | ok b =>
          rw [hFirst] at hAll
          cases hRest : l.mapM f with
          | error e =>
              rw [hRest] at hAll
              cases hAll
          | ok bs =>
              rw [hRest] at hAll
              cases hAll
              exact .cons hFirst (ih hRest)

theorem mem_iff_of_mapM {f : α → Except ε β} {l : List α} {r : List β} (hAll : l.mapM f = .ok r)
    {b : β} : b ∈ r ↔ ∃ a ∈ l, f a = .ok b := by
  have hPairs := forall₂_of_mapM hAll
  clear hAll
  induction hPairs with
  | nil => simp
  | cons hFirst _ ih => simp [hFirst, ih, eq_comm (a := b)]

theorem ok_of_mapM {f : α → Except ε β} {l : List α} {r : List β} (hAll : l.mapM f = .ok r)
    {a : α} (ha : a ∈ l) : ∃ b, f a = .ok b := by
  have hPairs := forall₂_of_mapM hAll
  clear hAll
  induction hPairs with
  | nil => cases ha
  | cons hFirst _ ih =>
      rcases List.mem_cons.1 ha with rfl | ha
      · exact ⟨_, hFirst⟩
      · exact ih ha

/-- If something is refused, then one of the elements is. -/
theorem exists_error_of_mapM {f : α → Except ε β} {l : List α} {e : ε}
    (hRefused : l.mapM f = .error e) : ∃ a ∈ l, f a = .error e := by
  induction l with
  | nil => cases hRefused
  | cons a l ih =>
      rw [List.mapM_cons] at hRefused
      cases hFirst : f a with
      | error e' =>
          rw [hFirst] at hRefused
          cases hRefused
          exact ⟨a, List.mem_cons_self, hFirst⟩
      | ok b =>
          rw [hFirst] at hRefused
          cases hRest : l.mapM f with
          | error e' =>
              rw [hRest] at hRefused
              cases hRefused
              obtain ⟨a', ha', hError⟩ := ih hRest
              exact ⟨a', List.mem_cons_of_mem a ha', hError⟩
          | ok bs =>
              rw [hRest] at hRefused
              cases hRefused

/-- If nothing is refused, the results are collected. -/
theorem exists_mapM {f : α → Except ε β} {l : List α} (hAll : ∀ a ∈ l, ∃ b, f a = .ok b) :
    ∃ r, l.mapM f = .ok r := by
  induction l with
  | nil => exact ⟨[], rfl⟩
  | cons a l ih =>
      obtain ⟨b, hFirst⟩ := hAll a List.mem_cons_self
      obtain ⟨bs, hRest⟩ := ih fun a' ha' => hAll a' (List.mem_cons_of_mem a ha')
      refine ⟨b :: bs, ?_⟩
      rw [List.mapM_cons, hFirst]
      show (l.mapM f >>= fun bs => pure (b :: bs)) = _
      rw [hRest]
      rfl

/-- A list is collected again iff each element is its own result. -/
theorem mapM_eq_ok_self_iff {f : α → Except ε α} {l : List α} :
    l.mapM f = .ok l ↔ ∀ a ∈ l, f a = .ok a := by
  constructor
  · exact fun hAll => List.forall₂_same.1 (forall₂_of_mapM hAll)
  · intro hEach
    induction l with
    | nil => rfl
    | cons a l ih =>
        obtain ⟨hFirst, hRest⟩ := List.forall_mem_cons.1 hEach
        rw [List.mapM_cons, hFirst, ih hRest]
        rfl

/-- A list passes a check iff each of its elements does. -/
theorem forM_eq_ok_iff {f : α → Except ε Unit} {l : List α} :
    l.forM f = .ok () ↔ ∀ a ∈ l, f a = .ok () := by
  induction l with
  | nil => simp [pure, Except.pure]
  | cons a l ih =>
      rw [List.forall_mem_cons, ← ih]
      show (f a >>= fun _ => l.forM f) = .ok () ↔ _
      cases hFirst : f a with
      | error e => simp [bind, Except.bind]
      | ok u => simp [bind, Except.bind]

/-- A list is refused with the fault of the first element that does not pass the check. -/
theorem forM_eq_error_iff {f : α → Except ε Unit} {l : List α} {e : ε} :
    l.forM f = .error e ↔ ∃ before a after, l = before ++ a :: after ∧
      (∀ b ∈ before, f b = .ok ()) ∧ f a = .error e := by
  induction l with
  | nil => simp [pure, Except.pure]
  | cons a l ih =>
      have hCons : (a :: l).forM f = f a >>= fun _ => l.forM f := rfl
      rw [hCons]
      cases hFirst : f a with
      | error e' =>
          constructor
          · intro hError
            exact ⟨[], a, l, rfl, by simp, hFirst.trans hError⟩
          · rintro ⟨before, b, after, hSplit, hPassed, hFails⟩
            -- nothing before the element that is refused, as the first one is
            cases before with
            | nil =>
                obtain ⟨rfl, -⟩ := List.cons.inj hSplit
                exact hFirst.symm.trans hFails
            | cons c before =>
                obtain ⟨rfl, -⟩ := List.cons.inj hSplit
                rw [hPassed a List.mem_cons_self] at hFirst
                cases hFirst
      | ok u =>
          show l.forM f = .error e ↔ _
          rw [ih]
          constructor
          · rintro ⟨before, b, after, rfl, hPassed, hFails⟩
            exact ⟨a :: before, b, after, rfl, List.forall_mem_cons.2 ⟨hFirst, hPassed⟩, hFails⟩
          · rintro ⟨before, b, after, hSplit, hPassed, hFails⟩
            cases before with
            | nil =>
                obtain ⟨rfl, -⟩ := List.cons.inj hSplit
                rw [hFirst] at hFails
                cases hFails
            | cons c before =>
                obtain ⟨-, rfl⟩ := List.cons.inj hSplit
                exact ⟨before, b, after, rfl, (List.forall_mem_cons.1 hPassed).2, hFails⟩

/-- If a list is in some order, it is refused for the least element that does not pass the check. -/
theorem forM_eq_error_iff_least {f : α → Except ε Unit} {l : List α} {e : ε} {R : α → α → Prop}
    (hAsymm : ∀ a b, R a b → ¬R b a) (hOrder : l.Pairwise R) :
    l.forM f = .error e ↔ ∃ a ∈ l, f a = .error e ∧ ∀ b ∈ l, f b ≠ .ok () → b = a ∨ R a b := by
  rw [forM_eq_error_iff]
  constructor
  · rintro ⟨before, a, after, rfl, hPassed, hFails⟩
    refine ⟨a, by simp, hFails, fun b hb hNot => ?_⟩
    rcases List.mem_append.1 hb with hb | hb
    · exact absurd (hPassed b hb) hNot
    · have hBehind := (List.pairwise_cons.1 (List.pairwise_append.1 hOrder).2.1).1
      exact (List.mem_cons.1 hb).imp_right (hBehind b)
  · rintro ⟨a, ha, hFails, hLeast⟩
    obtain ⟨before, after, rfl⟩ := List.append_of_mem ha
    refine ⟨before, a, after, rfl, fun b hb => ?_, hFails⟩
    by_contra hNot
    have hBefore : R b a := (List.pairwise_append.1 hOrder).2.2 b hb a List.mem_cons_self
    rcases hLeast b (List.mem_append_left _ hb) hNot with rfl | hBehind
    · exact hAsymm b b hBefore hBefore
    · exact hAsymm b a hBefore hBehind

/-! ## What is refused first, without the results -/

/-- Results that are not wanted can be left out before the next step. -/
theorem map_bind {γ : Type} {x : Except ε α} {f : α → Except ε β} {g : β → γ} :
    (x >>= f).map g = x >>= fun a => (f a).map g := by
  cases x <;> rfl

/-- Collecting results refuses what the mere checks would refuse. -/
theorem map_mapM {f : α → Except ε β} {l : List α} :
    (l.mapM f).map (fun _ => ()) = l.forM fun a => (f a).map fun _ => () := by
  induction l with
  | nil => rfl
  | cons a l ih =>
      have hCons : (a :: l).forM (fun a => (f a).map fun _ => ()) =
          (f a).map (fun _ => ()) >>= fun _ => l.forM fun a => (f a).map fun _ => () := rfl
      rw [hCons, ← ih, List.mapM_cons]
      cases hFirst : f a with
      | error e => rfl
      | ok b => cases hRest : l.mapM f <;> rfl

/-- Lists that are checked one after another are checked as one list. -/
theorem forM_flatMap {f : α → Except ε Unit} {g : β → List α} {l : List β} :
    (l.flatMap g).forM f = l.forM fun b => (g b).forM f := by
  induction l with
  | nil => rfl
  | cons b l ih =>
      rw [List.flatMap_cons]
      exact List.forM_append.trans (congrArg (fun rest => (g b).forM f >>= fun _ => rest) ih)

/-- A check by a test finds the first element that does not pass it. -/
theorem forM_test {p : α → Bool} {fault : α → ε} {l : List α} :
    (l.forM fun a => if p a then Except.error (fault a) else .ok ()) =
      (l.find? p).elim (.ok ()) fun a => .error (fault a) := by
  induction l with
  | nil => rfl
  | cons a l ih =>
      have hCons : ((a :: l).forM fun a => if p a then Except.error (fault a) else .ok ()) =
          (if p a then Except.error (fault a) else .ok ()) >>= fun _ =>
            l.forM fun a => if p a then Except.error (fault a) else .ok () := rfl
      rw [hCons, ih]
      by_cases ha : p a <;> simp [ha, bind, Except.bind]

end PackageManager
