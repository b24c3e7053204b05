import PackageManager.Proofs.Registry.Retries
import PackageManager.Proofs.Traversal
import PackageManager.Registry.Location

/-!
# Falling back on the default location

Whether the default location is asked depends on how the well-known place of a domain does without
a document. A server that answers with some other status declines, and the default location is
next. A server that cannot be reached or that keeps failing is an error of the network instead:
then the default location is not asked, whatever it has to say.

## Main results

* `baseUri_falls_back` — what becomes of a look-up, by what the two places answer.
* `failure_hides_default_location` — a default location that is of no use.
-/

namespace PackageManager.Registry

/-- A server has answered, but not with a document. -/
def Reply.Declines : Reply → Prop
  | .response r => r.status ≠ 200 ∧ ¬(500 ≤ r.status ∧ r.status < 600)
  | .unreachable _ | .failed _ => False

/-- No server has answered, or only to say that it failed. -/
def Reply.Fails : Reply → Prop
  | .response r => 500 ≤ r.status ∧ r.status < 600
  | .unreachable _ | .failed _ => True

theorem Reply.declines_or_fails (a : Reply) :
    a.Declines ∨ a.Fails ∨ ∃ body, a = .response ⟨200, body⟩ := by
  rcases a with ⟨status, body⟩ | reason | reason
  · by_cases hStatus : status = 200
    · exact .inr (.inr ⟨body, by rw [hStatus]⟩)
    · by_cases hFailure : 500 ≤ status ∧ status < 600
      · exact .inr (.inl hFailure)
      · exact .inl ⟨hStatus, hFailure⟩
  · exact .inr (.inl trivial)
  · exact .inr (.inl trivial)

theorem Reply.Fails.not_declines {a : Reply} (hFails : a.Fails) : ¬ a.Declines := by
  cases a with
  | response r => exact fun hDeclines => hDeclines.2 hFails
  | unreachable reason => exact id
  | failed reason => exact id

variable {ν : Type} {network : Network ν} {r : Registry} {domain : String} {s : Session ν}

/-! ## One place -/

section Place

variable {url : Url} {n n' : ν} {a : Reply}

theorem locationText_of_declines (hAnswer : network.answer url (r.retries - 1) n = (a, n'))
    (hDeclines : a.Declines) : locationText network r url n = (.ok none, n') := by
  rcases a with ⟨status, body⟩ | reason | reason
  · obtain ⟨hStatus, hFailure⟩ := hDeclines
    have hOutcome : (Reply.response ⟨status, body⟩).outcome (max 1 r.retries) url =
        .ok ⟨status, body⟩ := if_neg hFailure
    simp [locationText, request_eq, hAnswer, hOutcome, hStatus]
  · exact hDeclines.elim
  · exact hDeclines.elim

theorem locationText_of_fails (hAnswer : network.answer url (r.retries - 1) n = (a, n'))
    (hFails : a.Fails) : ∃ f, locationText network r url n = (.error (.network f), n') := by
  rcases a with ⟨status, body⟩ | reason | reason
  · have hFailure : 500 ≤ status ∧ status < 600 := hFails
    simp [locationText, request_eq, hAnswer, Reply.outcome, hFailure]
  · simp [locationText, request_eq, hAnswer, Reply.outcome]
  · simp [locationText, request_eq, hAnswer, Reply.outcome]

theorem locationText_of_document {body : Body}
    (hAnswer : network.answer url (r.retries - 1) n = (.response ⟨200, body⟩, n')) :
    locationText network r url n = ((body.text url).map some, n') := by
  simp [locationText, request_eq, hAnswer, Reply.outcome]

end Place

/-! ## Documents -/

/-- A location is that of a document whose base can be reached from where the document is. -/
theorem readLocation_eq_ok_iff {now : Timestamp} {source : Url} {body : String} {l : Location} :
    readLocation now source body = .ok l ↔ ∃ d base,
      readDocument LocationDocument.decode source body = .ok d ∧
      source.join d.baseUri = .ok base ∧
      l = ⟨base.asDirectory, d.expires.getD (now.plusHours defaultHours)⟩ := by
  unfold readLocation
  cases hRead : readDocument LocationDocument.decode source body with
  | error f => simp [bind, Except.bind]
  | ok d =>
      cases hJoin : source.join d.baseUri with
      | error flaw => simp [bind, Except.bind, hJoin, throw, throwThe, MonadExceptOf.throw]
      | ok base => simp [bind, Except.bind, hJoin, pure, Except.pure, eq_comm]

theorem kind_of_readLocation_eq_error {now : Timestamp} {source : Url} {body : String} {f : Fault}
    (hRead : readLocation now source body = .error f) : ∃ g, f = .parse g := by
  unfold readLocation readDocument at hRead
  cases hParse : Json.parse? body with
  | none =>
      simp only [hParse, bind, Except.bind, Except.error.injEq] at hRead
      exact ⟨_, hRead.symm⟩
  | some d =>
      cases hDecode : LocationDocument.decode d with
      | error g =>
          simp only [hParse, hDecode, bind, Except.bind, Except.mapError,
            Except.error.injEq] at hRead
          exact ⟨_, hRead.symm⟩
      | ok d =>
          cases hJoin : source.join d.baseUri with
          | error flaw =>
              simp [hParse, hDecode, bind, Except.bind, Except.mapError, hJoin, throw, throwThe,
                MonadExceptOf.throw] at hRead
              exact ⟨_, hRead.symm⟩
          | ok base =>
              simp [hParse, hDecode, bind, Except.bind, Except.mapError, hJoin, pure,
                Except.pure] at hRead

theorem kind_of_text_eq_error {url : Url} {body : Body} {f : Fault}
    (hText : body.text url = .error f) : ∃ g, f = .network g := by
  cases body with
  | complete octets => cases hText
  | cut => exact ⟨_, (Except.error.inj hText).symm⟩

/-- What is wrong with a document is never that there is no repository. -/
theorem bind_readLocation_ne_resolution {now : Timestamp} {source : Url} {body : Body}
    {f : ResolutionFault} :
    (body.text source).bind (readLocation now source) ≠ .error (.resolution f) := by
  intro hEq
  cases hText : body.text source with
  | error g =>
      obtain ⟨g, rfl⟩ := kind_of_text_eq_error hText
      simp [hText, Except.bind] at hEq
  | ok text =>
      rw [hText] at hEq
      obtain ⟨g, hParse⟩ := kind_of_readLocation_eq_error hEq
      cases hParse

/-! ## Look-ups -/

/-- What is found out about a domain by asking for its location, whatever is known already. -/
def askLocation (network : Network ν) (r : Registry) (domain : String) : Attempt ν Location :=
  fun n =>
    let (now, n) := network.clock n
    match findLocation network r domain n with
    | (.error f, n) => (.error f, n)
    | (.ok (source, body), n) => (readLocation now source body, n)

/-- A domain about which nothing is known is asked, and a location that is found is kept. -/
theorem baseUri_of_unknown {now : Timestamp} {n : ν} (hClock : network.clock s.network = (now, n))
    (hUnknown : s.known now domain = none) :
    baseUri network r domain s =
      match askLocation network r domain s.network with
      | (.error f, n) => (.error f, { s with network := n })
      | (.ok l, n) =>
        (.ok l.base, { s with network := n, locations := s.locations.insert domain l }) := by
  have hUnknown' : ({ s with network := n } : Session ν).known now domain = none := hUnknown
  unfold baseUri askLocation onNetwork Session.now
  simp only [hClock, hUnknown']
  rcases findLocation network r domain n with ⟨f | ⟨source, body⟩, n⟩
  · rfl
  · simp only
    cases readLocation now source body <;> rfl

theorem fst_baseUri_of_unknown {now : Timestamp} {n : ν}
    (hClock : network.clock s.network = (now, n)) (hUnknown : s.known now domain = none) :
    (baseUri network r domain s).1 =
      (askLocation network r domain s.network).1.map (·.base) := by
  rw [baseUri_of_unknown hClock hUnknown]
  rcases askLocation network r domain s.network with ⟨f | l, n⟩ <;> rfl

section Places

variable {now : Timestamp} {wellKnown default : Url} {a b : Reply} {body : Body} {n n₀ n₁ n₂ : ν}

theorem askLocation_of_fails (hClock : network.clock n = (now, n₀))
    (hWellKnown : r.wellKnownUrl domain = .ok wellKnown)
    (hFirst : network.answer wellKnown (r.retries - 1) n₀ = (a, n₁)) (hFails : a.Fails) :
    ∃ f, askLocation network r domain n = (.error (.network f), n₁) := by
  obtain ⟨f, hText⟩ := locationText_of_fails hFirst hFails
  exact ⟨f, by simp [askLocation, hClock, findLocation, hWellKnown, hText]⟩

theorem askLocation_of_document (hClock : network.clock n = (now, n₀))
    (hWellKnown : r.wellKnownUrl domain = .ok wellKnown)
    (hFirst : network.answer wellKnown (r.retries - 1) n₀ = (.response ⟨200, body⟩, n₁)) :
    askLocation network r domain n =
      ((body.text wellKnown).bind (readLocation now wellKnown), n₁) := by
  have hText := locationText_of_document hFirst
  unfold askLocation findLocation
  cases hBody : body.text wellKnown <;>
    simp [hClock, hWellKnown, hText, hBody, Except.map, Except.bind]

/-- The default location is asked after the well-known place has declined. -/
theorem askLocation_of_declines (hClock : network.clock n = (now, n₀))
    (hWellKnown : r.wellKnownUrl domain = .ok wellKnown)
    (hDefault : r.defaultLocation = some default)
    (hFirst : network.answer wellKnown (r.retries - 1) n₀ = (a, n₁)) (hDeclines : a.Declines) :
    askLocation network r domain n =
      match locationText network r default n₁ with
      | (.error f, n) => (.error f, n)
      | (.ok (some body), n) => (readLocation now default body, n)
      | (.ok none, n) => (.error (.resolution (.noRepository domain)), n) := by
  have hText := locationText_of_declines hFirst hDeclines
  unfold askLocation findLocation
  simp only [hClock, hWellKnown, hText, hDefault]
  rcases locationText network r default n₁ with ⟨f | (_ | body), n⟩ <;> rfl

theorem askLocation_of_declines_document (hClock : network.clock n = (now, n₀))
    (hWellKnown : r.wellKnownUrl domain = .ok wellKnown)
    (hDefault : r.defaultLocation = some default)
    (hFirst : network.answer wellKnown (r.retries - 1) n₀ = (a, n₁)) (hDeclines : a.Declines)
    (hSecond : network.answer default (r.retries - 1) n₁ = (.response ⟨200, body⟩, n₂)) :
    askLocation network r domain n = ((body.text default).bind (readLocation now default), n₂) := by
  rw [askLocation_of_declines hClock hWellKnown hDefault hFirst hDeclines,
    locationText_of_document hSecond]
  cases body.text default <;> rfl

/-- There is said to be no repository exactly if both places decline. -/
theorem askLocation_eq_noRepository_iff (hClock : network.clock n = (now, n₀))
    (hWellKnown : r.wellKnownUrl domain = .ok wellKnown)
    (hDefault : r.defaultLocation = some default)
    (hFirst : network.answer wellKnown (r.retries - 1) n₀ = (a, n₁))
    (hSecond : network.answer default (r.retries - 1) n₁ = (b, n₂)) :
    (askLocation network r domain n).1 = .error (.resolution (.noRepository domain)) ↔
      a.Declines ∧ b.Declines := by
  rcases a.declines_or_fails with hDeclines | hFails | ⟨body, rfl⟩
  · rcases b.declines_or_fails with hDeclines' | hFails | ⟨body, rfl⟩
    · rw [askLocation_of_declines hClock hWellKnown hDefault hFirst hDeclines,
        locationText_of_declines hSecond hDeclines']
      exact iff_of_true rfl ⟨hDeclines, hDeclines'⟩
    · obtain ⟨f, hText⟩ := locationText_of_fails hSecond hFails
      rw [askLocation_of_declines hClock hWellKnown hDefault hFirst hDeclines, hText]
      exact iff_of_false (by simp) fun hBoth => hFails.not_declines hBoth.2
    · rw [askLocation_of_declines_document hClock hWellKnown hDefault hFirst hDeclines hSecond]
      exact iff_of_false bind_readLocation_ne_resolution fun hBoth => hBoth.2.1 rfl
  · obtain ⟨f, hAsk⟩ := askLocation_of_fails hClock hWellKnown hFirst hFails
    rw [hAsk]
    exact iff_of_false (by simp) fun hBoth => hFails.not_declines hBoth.1
  · rw [askLocation_of_document hClock hWellKnown hFirst]
    exact iff_of_false bind_readLocation_ne_resolution fun hBoth => hBoth.1.1 rfl

/-- What becomes of a look-up that cannot rely on what is known is decided by what the well-known
place and the default location answer after all attempts. If the first one declines, a document at
the second one gives the base, relative to where that document is, and there is said to be no
repository exactly if both decline. If the first one fails, this is an error of the network, and
the second one is not asked; if it has a document, this is what counts. -/
theorem baseUri_falls_back (hClock : network.clock s.network = (now, n₀))
    (hUnknown : s.known now domain = none)
    (hWellKnown : r.wellKnownUrl domain = .ok wellKnown)
    (hDefault : r.defaultLocation = some default)
    (hFirst : network.answer wellKnown (r.retries - 1) n₀ = (a, n₁))
    (hSecond : network.answer default (r.retries - 1) n₁ = (b, n₂)) :
    (a.Declines → ∀ octets d base, b = .response ⟨200, .complete octets⟩ →
      readDocument LocationDocument.decode default (Text.decodeLossy octets.toList) = .ok d →
      default.join d.baseUri = .ok base →
      (baseUri network r domain s).1 = .ok base.asDirectory) ∧
    ((baseUri network r domain s).1 = .error (.resolution (.noRepository domain)) ↔
      a.Declines ∧ b.Declines) ∧
    (a.Declines → b.Fails → ∃ f, (baseUri network r domain s).1 = .error (.network f)) ∧
    (a.Fails → ∃ f, baseUri network r domain s = (.error (.network f), { s with network := n₁ })) ∧
    (∀ octets, a = .response ⟨200, .complete octets⟩ →
      (baseUri network r domain s).1 =
        (readLocation now wellKnown (Text.decodeLossy octets.toList)).map (·.base)) := by
  have hAnswer := fst_baseUri_of_unknown (r := r) hClock hUnknown
  refine ⟨fun hDeclines octets d base hb hRead hJoin => ?_, ?_, fun hDeclines hFails => ?_,
    fun hFails => ?_, fun octets ha => ?_⟩
  · subst hb
    have hLocation : readLocation now default (Text.decodeLossy octets.toList) =
        .ok ⟨base.asDirectory, d.expires.getD (now.plusHours defaultHours)⟩ :=
      readLocation_eq_ok_iff.2 ⟨d, base, hRead, hJoin, rfl⟩
    rw [hAnswer,
      askLocation_of_declines_document hClock hWellKnown hDefault hFirst hDeclines hSecond,
      Body.text, Except.bind, hLocation, Except.map]
  · rw [hAnswer, ← askLocation_eq_noRepository_iff hClock hWellKnown hDefault hFirst hSecond]
    cases (askLocation network r domain s.network).1 <;> simp [Except.map]
  · obtain ⟨f, hText⟩ := locationText_of_fails hSecond hFails
    refine ⟨f, ?_⟩
    rw [hAnswer, askLocation_of_declines hClock hWellKnown hDefault hFirst hDeclines, hText,
      Except.map]
  · obtain ⟨f, hAsk⟩ := askLocation_of_fails hClock hWellKnown hFirst hFails
    exact ⟨f, by rw [baseUri_of_unknown hClock hUnknown, hAsk]⟩
  · subst ha
    rw [hAnswer, askLocation_of_document hClock hWellKnown hFirst, Body.text, Except.bind]

end Places

/-! ## A domain and a default location -/

def domainPlace : Url where
  scheme := "http"
  authority := some { host := .name "ex.com" }
  path := .segments [".well-known", "pakt-pkgs", "location.json"]

def defaultPlace : Url where
  scheme := "http"
  authority := some { host := .name "default.test" }
  path := .segments ["location.json"]

/-- A document with a base relative to it. -/
def locationFile : ByteArray := "\x7b\"baseUri\": \"repo\"\x7d".toUTF8

/-- The base that is meant if the document is the one at the default location. -/
def defaultBase : Url where
  scheme := "http"
  authority := some { host := .name "default.test" }
  path := .segments ["repo", ""]

/-- The default location has a document, and all other places answer alike. -/
def fallbackNetwork (a : Reply) : Network Unit where
  request u n := (if u = defaultPlace then .response ⟨200, .complete locationFile⟩ else a, n)
  clock n := (⟨0, 0⟩, n)

def fallbackRegistry : Registry where
  defaultLocation := some defaultPlace
  scheme := "http"

def fallbackStart : Session Unit where
  files := { entries := ∅ }
  network := ()

theorem wellKnownUrl_fallbackRegistry :
    fallbackRegistry.wellKnownUrl "ex.com" = .ok domainPlace :=
  ok_of_toOption (by decide +kernel)

theorem answer_defaultPlace (a : Reply) :
    (fallbackNetwork a).answer defaultPlace (fallbackRegistry.retries - 1) () =
      (.response ⟨200, .complete locationFile⟩, ()) := by
  simp [fallbackNetwork, fallbackRegistry, Network.answer, Reply.isTransient]

theorem answer_domainPlace (a : Reply) :
    (fallbackNetwork a).answer domainPlace (fallbackRegistry.retries - 1) () = (a, ()) := by
  have hOther : domainPlace ≠ defaultPlace := by decide
  simp [fallbackNetwork, fallbackRegistry, Network.answer, hOther]

theorem readDocument_locationFile :
    readDocument LocationDocument.decode defaultPlace (Text.decodeLossy locationFile.toList) =
      .ok ⟨"repo", none⟩ :=
  ok_of_toOption (by decide +kernel)

theorem join_repo :
    defaultPlace.join "repo" = .ok { defaultBase with path := .segments ["repo"] } :=
  ok_of_toOption (by decide +kernel)

theorem baseUri_falls_back_after_missing_document :
    (baseUri (fallbackNetwork (.response ⟨404, .complete .empty⟩)) fallbackRegistry "ex.com"
      fallbackStart).1 = .ok defaultBase := by
  obtain ⟨hFound, -⟩ := baseUri_falls_back (s := fallbackStart) rfl rfl
    wellKnownUrl_fallbackRegistry rfl (answer_domainPlace (.response ⟨404, .complete .empty⟩))
    (answer_defaultPlace (.response ⟨404, .complete .empty⟩))
  exact hFound ⟨by decide, by decide⟩ locationFile ⟨"repo", none⟩ _ rfl readDocument_locationFile
    join_repo

/-- Where the server of a domain fails, a document at the default location is of no use; and where
no server can be reached, there is not said to be no repository. -/
theorem failure_hides_default_location :
    ((fallbackNetwork (.response ⟨503, .complete .empty⟩)).answer defaultPlace
        (fallbackRegistry.retries - 1) () = (.response ⟨200, .complete locationFile⟩, ()) ∧
      readDocument LocationDocument.decode defaultPlace (Text.decodeLossy locationFile.toList) =
        .ok ⟨"repo", none⟩ ∧
      defaultPlace.join "repo" = .ok { defaultBase with path := .segments ["repo"] } ∧
      ∃ f, baseUri (fallbackNetwork (.response ⟨503, .complete .empty⟩)) fallbackRegistry "ex.com"
        fallbackStart = (.error (.network f), fallbackStart)) ∧
    ∃ f, baseUri (.offline Unit ⟨0, 0⟩) fallbackRegistry "ex.com" fallbackStart =
      (.error (.network f), fallbackStart) := by
  refine ⟨⟨answer_defaultPlace _, readDocument_locationFile, join_repo, ?_⟩, ?_⟩
  · obtain ⟨f, hAsk⟩ := askLocation_of_fails (n := ()) rfl wellKnownUrl_fallbackRegistry
      (answer_domainPlace (.response ⟨503, .complete .empty⟩)) ⟨by decide, by decide⟩
    exact ⟨f, by rw [baseUri_of_unknown (s := fallbackStart) rfl rfl, hAsk]⟩
  · have hRequestable : isRequestable domainPlace.withoutLogin = true := by decide +kernel
    obtain ⟨reason, hAnswer⟩ : ∃ reason, (Network.offline Unit ⟨0, 0⟩).answer domainPlace
        (fallbackRegistry.retries - 1) () = (.unreachable reason, ()) := by
      simp [fallbackRegistry, Network.answer, Network.offline, hRequestable, Reply.isTransient]
    obtain ⟨f, hAsk⟩ := askLocation_of_fails (n := ()) rfl wellKnownUrl_fallbackRegistry hAnswer
      trivial
    exact ⟨f, by rw [baseUri_of_unknown (s := fallbackStart) rfl rfl, hAsk]⟩

end PackageManager.Registry
