import Mathlib.Order.Bounds.Basic
import PackageManager.Proofs.Registry.Retries

/-!
# Outcomes of repeated requests

A network that is asked for one URL again and again gives an infinite sequence of replies, and a
request looks at a beginning of it. How long that is depends on two things only: how many attempts
are allowed, and where the first reply stands that repeating cannot change. The last reply of the
beginning decides what comes out, whatever the replies before it were.

Replies are numbered by how many others came before, so the first one has the number zero.

## Main results

* `Network.tries_isLeast` — how many attempts are made.
* `request_attempts` — how many requests are sent, to which reply they lead, and what that means for
  a response and for a text.
-/

namespace PackageManager.Registry

namespace Network

variable {ν : Type} (network : Network ν)

/-- The network after a number of requests for one URL. -/
def after (url : Url) : Nat → ν → ν
  | 0, n => n
  | k + 1, n => after url k (network.request url n).2

/-- The reply to a request for one URL that has been sent so often before. -/
def reply (url : Url) (n : ν) (before : Nat) : Reply :=
  (network.request url (network.after url before n)).1

/-- The numbers of attempts after which a request may end: when no more are allowed, and with any
reply that repeating cannot change. -/
def ends (url : Url) (n : ν) (limit : Nat) : Set Nat :=
  insert limit {k | ∃ before, k = before + 1 ∧ ¬(network.reply url n before).isTransient}

/-- The attempts end as soon as they may. -/
theorem tries_isLeast (url : Url) (more : Nat) (n : ν) :
    IsLeast (network.ends url n (more + 1)) (network.tries url more n) := by
  induction more generalizing n with
  | zero =>
      refine ⟨Set.mem_insert _ _, ?_⟩
      rintro k (rfl | ⟨before, rfl, -⟩)
      · exact Nat.le_refl 1
      · exact Nat.le_add_left 1 before
  | succ more ih =>
      obtain ⟨hMem, hLeast⟩ := ih (network.request url n).2
      unfold tries
      by_cases hFirst : (network.request url n).1.isTransient
      · simp only [hFirst, if_true]
        refine ⟨?_, ?_⟩
        · rcases hMem with hLimit | ⟨before, hTries, hStop⟩
          · exact .inl (congrArg (· + 1) hLimit)
          · exact .inr ⟨before + 1, congrArg (· + 1) hTries, hStop⟩
        · rintro k (rfl | ⟨before, rfl, hStop⟩)
          · exact Nat.succ_le_succ (hLeast (Set.mem_insert _ _))
          · cases before with
            | zero => exact absurd hFirst hStop
            | succ before => exact Nat.succ_le_succ (hLeast (.inr ⟨before, rfl, hStop⟩))
      · simp only [hFirst]
        refine ⟨.inr ⟨0, rfl, hFirst⟩, ?_⟩
        rintro k (rfl | ⟨before, rfl, -⟩) <;> exact Nat.le_add_left 1 _

/-- The reply that ends the attempts is the last one that is asked for. -/
theorem answer_eq (url : Url) (more : Nat) (n : ν) : ∃ before,
    network.tries url more n = before + 1 ∧
      network.answer url more n =
        (network.reply url n before, network.after url (before + 1) n) := by
  induction more generalizing n with
  | zero => exact ⟨0, rfl, rfl⟩
  | succ more ih =>
      obtain ⟨before, hTries, hAnswer⟩ := ih (network.request url n).2
      unfold tries answer
      by_cases hFirst : (network.request url n).1.isTransient
      · simp only [hFirst, if_true]
        exact ⟨before + 1, congrArg (· + 1) hTries, hAnswer⟩
      · simp only [hFirst]
        exact ⟨0, rfl, rfl⟩

/-- The attempts end with a reply that repeating could change only if all that are allowed have been
made, and each of them with such a reply. -/
theorem isTransient_reply_iff {url : Url} {n : ν} {limit before : Nat}
    (hEnd : IsLeast (network.ends url n limit) (before + 1)) :
    (network.reply url n before).isTransient ↔
      ∀ i < limit, (network.reply url n i).isTransient := by
  obtain ⟨hMem, hLeast⟩ := hEnd
  have hLimit : before + 1 ≤ limit := hLeast (Set.mem_insert _ _)
  refine ⟨fun hTransient i hi => ?_, fun hAll => hAll before hLimit⟩
  by_contra hStop
  have hFirst : before + 1 ≤ i + 1 := hLeast (.inr ⟨i, rfl, hStop⟩)
  rcases hMem with hLast | ⟨j, hSame, hStop'⟩
  · obtain rfl : i = before := by omega
    exact hStop hTransient
  · obtain rfl : before = j := Nat.succ_injective hSame
    exact hStop' hTransient

end Network

/-! ## What comes out -/

/-- What a failed attempt is called in a message. -/
def Reply.complaint (url : Url) : Reply → String
  | .response r => "HTTP " ++ statusText r.status ++ " from " ++ url.text
  | .unreachable reason | .failed reason => reason

theorem Reply.outcome_of_isTransient {a : Reply} (hTransient : a.isTransient) (total : Nat)
    (url : Url) : a.outcome total url =
      .error (.network (.exhausted total url (a.complaint url))) := by
  cases a with
  | response r => exact if_pos (of_decide_eq_true hTransient)
  | unreachable reason => rfl
  | failed reason => cases hTransient

/-- All attempts are said to have failed only if the last one could have been repeated. -/
theorem Reply.isTransient_of_outcome {a : Reply} {total limit : Nat} {url u : Url} {last : String}
    (hOutcome : a.outcome limit url = .error (.network (.exhausted total u last))) :
    a.isTransient := by
  cases a with
  | response r =>
      by_contra hStop
      have hStatus : ¬(500 ≤ r.status ∧ r.status < 600) := fun h => hStop (decide_eq_true h)
      rw [Reply.outcome, if_neg hStatus] at hOutcome
      cases hOutcome
  | unreachable reason => rfl
  | failed reason => cases hOutcome

variable {ν : Type} (network : Network ν)

/-- A text is found in a response that says so and that arrives completely. -/
theorem requestText_eq_ok_iff {retries : Nat} {url : Url} {n : ν} {t : String} :
    (requestText network retries url n).1 = .ok t ↔ ∃ octets status,
      (request network retries url n).1 = .ok ⟨status, .complete octets⟩ ∧ status < 400 ∧
        t = Text.decodeLossy octets.toList := by
  unfold requestText
  rcases request network retries url n with ⟨f | ⟨status, octets | _⟩, n'⟩
  · simp
  · by_cases hStatus : 400 ≤ status
    · simp [hStatus]
    · simp [hStatus, Body.text, eq_comm, Nat.lt_of_not_le hStatus]
  · by_cases hStatus : 400 ≤ status <;> simp [hStatus, Body.text]

/-- A request is sent until a reply comes that repeating cannot change, and if none comes, as often
as is allowed but at least once. Such a reply is what the request comes to, whatever came before it:
a response that does not say that the server failed is the answer, and a failure on the way is
reported at once. All attempts are said to have failed exactly if each reply could have changed, in
the words for the last one. A text is found only where the status of the response is less than 400.

The replies may be any infinite sequence, since they may depend on a state of the network. -/
theorem request_attempts (retries : Nat) (url : Url) (n : ν) :
    let limit := max 1 retries
    let reply := network.reply url n
    let answer := (request network retries url n).1
    ∃ before, IsLeast (network.ends url n limit) (before + 1) ∧
      (request network.journaled retries url (n, [])).2 =
        (network.after url (before + 1) n, List.replicate (before + 1) url) ∧
      (∀ r, reply before = .response r → ¬(500 ≤ r.status ∧ r.status < 600) →
        answer = .ok r) ∧
      (∀ reason, reply before = .failed reason → ∃ f, answer = .error f ∧
        f.message = "Network error: Request to " ++ url.text ++ " failed: " ++ reason) ∧
      ((∃ total u last, answer = .error (.network (.exhausted total u last))) ↔
        ∀ i < limit, (reply i).isTransient) ∧
      ((∀ i < limit, (reply i).isTransient) → ∃ f, answer = .error f ∧
        f.message = "Network error: Failed after " ++ Text.decimal limit ++ " retries for " ++
          url.text ++ ": " ++ (reply (limit - 1)).complaint url) ∧
      ∀ t, (requestText network retries url n).1 = .ok t ↔ ∃ octets status,
        answer = .ok ⟨status, .complete octets⟩ ∧ status < 400 ∧
          t = Text.decodeLossy octets.toList := by
  intro limit reply answer
  obtain ⟨before, hTries, hReply⟩ := network.answer_eq url (retries - 1) n
  have hLimit : retries - 1 + 1 = limit := by omega
  have hEnd : IsLeast (network.ends url n limit) (before + 1) := by
    rw [← hTries, ← hLimit]
    exact network.tries_isLeast url (retries - 1) n
  have hAnswer : request network retries url n =
      ((reply before).outcome limit url, network.after url (before + 1) n) := by
    rw [request_eq, hReply]
  have hFirst : answer = (reply before).outcome limit url := congrArg Prod.fst hAnswer
  refine ⟨before, hEnd, ?_, fun r hr hStatus => ?_, fun reason hr => ?_, ⟨?_, ?_⟩, fun hAll => ?_,
    fun t => requestText_eq_ok_iff network⟩
  · rw [request_journaled, hAnswer, hTries, List.nil_append]
  · rw [hFirst, hr]
    exact if_neg hStatus
  · exact ⟨_, by rw [hFirst, hr]; rfl, rfl⟩
  · rintro ⟨total, u, last, hExhausted⟩
    exact (network.isTransient_reply_iff hEnd).1
      (Reply.isTransient_of_outcome (hFirst.symm.trans hExhausted))
  · intro hAll
    exact ⟨_, _, _, hFirst.trans
      (Reply.outcome_of_isTransient ((network.isTransient_reply_iff hEnd).2 hAll) limit url)⟩
  · have hLast : before + 1 = limit := by
      rcases hEnd.1 with hLast | ⟨i, hSame, hStop⟩
      · exact hLast
      · obtain rfl : before = i := Nat.succ_injective hSame
        exact absurd ((network.isTransient_reply_iff hEnd).2 hAll) hStop
    obtain rfl : before = limit - 1 := by omega
    exact ⟨_, hFirst.trans
      (Reply.outcome_of_isTransient ((network.isTransient_reply_iff hEnd).2 hAll) limit url), rfl⟩

/-- The network whose replies are given beforehand, and that counts the requests. -/
def Network.scripted (replies : Nat → Reply) : Network Nat where
  request _ n := (replies n, n + 1)
  clock n := (⟨0, 0⟩, n)

theorem Network.reply_scripted (replies : Nat → Reply) (url : Url) (n before : Nat) :
    (Network.scripted replies).reply url n before = replies (n + before) := by
  induction before generalizing n with
  | zero => rfl
  | succ before ih => exact (ih (n + 1)).trans (congrArg replies (Nat.add_right_comm n 1 before))

/-- A server that fails, then cannot be reached, and then has no such document. -/
def recovering : Nat → Reply
  | 0 => .response ⟨503, .complete .empty⟩
  | 1 => .unreachable "no route"
  | _ => .response ⟨404, .complete .empty⟩

def recoveringPlace : Url where
  scheme := "http"
  authority := some { host := .name "ex.com" }
  path := .segments [""]

/-- Two attempts are not enough, and of five the third is the last. Its answer is no text. Where
none is allowed, one is made nevertheless. -/
theorem request_attempts_recovering :
    let network := Network.scripted recovering
    (∃ f, (request network 0 recoveringPlace 0).1 = .error f ∧
      f.message = "Network error: Failed after 1 retries for http://ex.com/: " ++
        "HTTP 503 Service Unavailable from http://ex.com/") ∧
    (∃ f, (request network 2 recoveringPlace 0).1 = .error f ∧
      f.message = "Network error: Failed after 2 retries for http://ex.com/: no route") ∧
    (request network.journaled 5 recoveringPlace (0, [])).2 =
      (3, List.replicate 3 recoveringPlace) ∧
    (request network 5 recoveringPlace 0).1 = .ok ⟨404, .complete .empty⟩ ∧
    ∀ t, (requestText network 5 recoveringPlace 0).1 ≠ .ok t := by
  intro network
  have hReply (i : Nat) : network.reply recoveringPlace 0 i = recovering i :=
    (Network.reply_scripted recovering recoveringPlace 0 i).trans (congrArg _ (Nat.zero_add i))
  obtain ⟨-, -, -, -, -, -, hFailed, -⟩ := request_attempts network 0 recoveringPlace 0
  obtain ⟨-, -, -, -, -, -, hExhausted, -⟩ := request_attempts network 2 recoveringPlace 0
  obtain ⟨before, hEnd, hSent, hResponse, -, -, -, hText⟩ :=
    request_attempts network 5 recoveringPlace 0
  have hThird : 3 ∈ network.ends recoveringPlace 0 (max 1 5) :=
    .inr ⟨2, rfl, by rw [hReply]; decide⟩
  obtain rfl : before = 2 := by
    have hBefore : before + 1 ≤ 3 := hEnd.2 hThird
    rcases hEnd.1 with hLimit | ⟨i, hSame, hStop⟩
    · omega
    · rw [hReply] at hStop
      have hFirst : i ≠ 0 := by rintro rfl; exact hStop rfl
      have hSecond : i ≠ 1 := by rintro rfl; exact hStop rfl
      omega
  have hAnswer : (request network 5 recoveringPlace 0).1 = .ok ⟨404, .complete .empty⟩ :=
    hResponse _ (hReply 2) (by decide)
  refine ⟨?_, ?_, hSent, hAnswer, fun t hRead => ?_⟩
  · obtain ⟨f, hFault, hMessage⟩ := hFailed fun i hi => by
      obtain rfl : i = 0 := Nat.lt_one_iff.1 hi
      rw [hReply]
      rfl
    rw [hReply] at hMessage
    exact ⟨f, hFault, hMessage.trans (by decide +kernel)⟩
  · obtain ⟨f, hFault, hMessage⟩ := hExhausted fun i hi => by
      rw [hReply]
      match i, hi with
      | 0, _ | 1, _ => rfl
    rw [hReply] at hMessage
    exact ⟨f, hFault, hMessage.trans (by decide +kernel)⟩
  · obtain ⟨octets, status, hResponse, hStatus, -⟩ := (hText t).1 hRead
    rw [hAnswer] at hResponse
    cases hResponse
    exact absurd hStatus (by decide)

end PackageManager.Registry
