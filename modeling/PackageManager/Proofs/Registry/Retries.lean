import PackageManager.Registry.Client

/-!
# Answers to repeated requests

The loop of attempts carries the number of attempts that are left and what became of the one
before. For those who send a request only two things matter: the reply that ends the loop, which is
the first one that repeating cannot change or else the last one, and how many requests it took.
`Network.answer` and `Network.tries` say these without the bookkeeping of the loop, and everything
about requests is stated in terms of them.

## Main results

* `request_eq` — the outcome of a request is that of the reply which ends the attempts.
* `request_journaled` — which requests are sent, as a network sees them that writes them down.
-/

namespace PackageManager.Registry

theorem isServerFailure_iff {status : Nat} :
    isServerFailure status ↔ 500 ≤ status ∧ status < 600 := by
  simp [isServerFailure]

/-- Whether another attempt may have another outcome. -/
def Reply.isTransient : Reply → Bool
  | .response r => 500 ≤ r.status ∧ r.status < 600
  | .unreachable _ => true
  | .failed _ => false

/-- What a reply means after which no attempt follows, out of a number of attempts. -/
def Reply.outcome (total : Nat) (url : Url) : Reply → Except Fault Response
  | .response r =>
    if 500 ≤ r.status ∧ r.status < 600 then
      .error (.network (.exhausted total url
        ("HTTP " ++ statusText r.status ++ " from " ++ url.text)))
    else .ok r
  | .unreachable reason => .error (.network (.exhausted total url reason))
  | .failed reason => .error (.network (.refused url reason))

namespace Network

variable {ν : Type} (network : Network ν)

/-- The reply that ends the attempts for a URL, and the network afterwards, if so many more
attempts may follow the first one. -/
def answer (url : Url) : Nat → ν → Reply × ν
  | 0, n => network.request url n
  | more + 1, n =>
    let (a, n) := network.request url n
    if a.isTransient then answer url more n else (a, n)

/-- How many requests these are. -/
def tries (url : Url) : Nat → ν → Nat
  | 0, _ => 1
  | more + 1, n =>
    let (a, n) := network.request url n
    if a.isTransient then tries url more n + 1 else 1

theorem one_le_tries (url : Url) (more : Nat) (n : ν) : 1 ≤ network.tries url more n := by
  cases more with
  | zero => exact Nat.le_refl 1
  | succ more =>
      simp only [tries]
      split
      · exact Nat.le_add_left 1 _
      · exact Nat.le_refl 1

/-- The network that writes down which requests are sent to it. -/
def journaled : Network (ν × List Url) where
  request url w :=
    let (a, n) := network.request url w.1
    (a, n, w.2 ++ [url])
  clock w :=
    let (now, n) := network.clock w.1
    (now, n, w.2)

theorem clock_journaled {now : Timestamp} {n n' : ν} (hClock : network.clock n = (now, n'))
    (sent : List Url) : network.journaled.clock (n, sent) = (now, n', sent) := by
  simp [journaled, hClock]

theorem answer_journaled (url : Url) (more : Nat) (n : ν) (sent : List Url) :
    network.journaled.answer url more (n, sent) =
      ((network.answer url more n).1, (network.answer url more n).2,
        sent ++ List.replicate (network.tries url more n) url) := by
  induction more generalizing n sent with
  | zero => rfl
  | succ more ih =>
      have hRequest : network.journaled.request url (n, sent) =
        ((network.request url n).1, (network.request url n).2, sent ++ [url]) := rfl
      unfold answer tries
      rw [hRequest]
      by_cases hTransient : (network.request url n).1.isTransient
      · simp only [hTransient, if_true]
        rw [ih, List.append_assoc, List.singleton_append, ← List.replicate_succ]
      · simp [hTransient]

end Network

variable {ν : Type} (network : Network ν)

/-- Where one more attempt may be made, what became of the one before plays no part. -/
theorem attempts_eq (total : Nat) (url : Url) (more : Nat) (last : String) (n : ν) :
    attempts network total url (more + 1) last n =
      ((network.answer url more n).1.outcome total url, (network.answer url more n).2) := by
  induction more generalizing last n with
  | zero =>
      unfold attempts Network.answer
      rcases network.request url n with ⟨r | reason | reason, n⟩
      · by_cases hFailure : 500 ≤ r.status ∧ r.status < 600
        · simp [isServerFailure_iff, hFailure, attempts, Reply.outcome]
        · simp [isServerFailure_iff, hFailure, Reply.outcome]
      · rfl
      · rfl
  | succ more ih =>
      unfold attempts Network.answer
      rcases network.request url n with ⟨r | reason | reason, n⟩
      · by_cases hFailure : 500 ≤ r.status ∧ r.status < 600
        · simp [isServerFailure_iff, hFailure, ih, Reply.isTransient]
        · simp [isServerFailure_iff, hFailure, Reply.outcome, Reply.isTransient]
      · simp [ih, Reply.isTransient]
      · simp [Reply.outcome, Reply.isTransient]

/-- A request comes to what is meant by the reply that ends its attempts. -/
theorem request_eq (retries : Nat) (url : Url) (n : ν) :
    request network retries url n =
      ((network.answer url (retries - 1) n).1.outcome (max 1 retries) url,
        (network.answer url (retries - 1) n).2) := by
  have hLeft : max 1 retries = retries - 1 + 1 := by omega
  unfold request
  rw [hLeft, attempts_eq]

/-- A request is sent to its URL as often as it takes, and to no other one. -/
theorem request_journaled (retries : Nat) (url : Url) (n : ν) (sent : List Url) :
    request network.journaled retries url (n, sent) =
      ((request network retries url n).1, (request network retries url n).2,
        sent ++ List.replicate (network.tries url (retries - 1) n) url) := by
  rw [request_eq, request_eq, network.answer_journaled]

end PackageManager.Registry
