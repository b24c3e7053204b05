import PackageManager.Proofs.Registry.LocationFallback
import PackageManager.Proofs.Timestamp
import PackageManager.Registry.Lookup

/-!
# Locations and their history

What a session knows about a domain was found by some earlier look-up, and which one is a matter of
the look-ups made so far: the latest of those that asked the domain and found its repository. So the
locations of a session can be read off its history, and with them whether a look-up sends requests
at all. A network that writes down its requests tells the look-ups that asked from those that did
not.

## Main results

* `baseUri_journaled` — writing requests down changes nothing else.
* `baseUri_follows_history` — what every look-up answers, asks and remembers.
-/

namespace PackageManager.Registry

variable {ν : Type}

/-! ## What a document says -/

/-- Until when a location can be relied on that was found at some time. The field of its document
is a text that spells the moment, or it says nothing, which means an hour. -/
inductive ExpiresAt (now : Timestamp) : Option Datum → Timestamp → Prop
  | moment {s : String} {t : Timestamp} (h : Timestamp.Spells s t) :
      ExpiresAt now (some (.text s)) t
  | null : ExpiresAt now (some .null) (now.plusHours 1)
  | missing : ExpiresAt now none (now.plusHours 1)

theorem spells_of_decodeTimestamp {d : Datum} {t : Timestamp} (hRead : decodeTimestamp d = .ok t) :
    ∃ s, d = .text s ∧ Timestamp.Spells s t := by
  obtain ⟨s, hText, hRead⟩ := ok_of_bind hRead
  refine ⟨s, ?_, Timestamp.parse?_eq_some_iff.1 ?_⟩
  · cases d <;> cases hText
    rfl
  · dsimp only at hRead
    cases hParse : Timestamp.parse? s with
    | none =>
        rw [hParse] at hRead
        cases hRead
    | some t' =>
        rw [hParse] at hRead
        exact congrArg some (Except.ok.inj hRead)

theorem expiresAt_of_optional {field : Option Datum} {t : Option Timestamp}
    (hRead : Decode.optional decodeTimestamp field = .ok t) (now : Timestamp) :
    ExpiresAt now field (t.getD (now.plusHours 1)) := by
  unfold Decode.optional at hRead
  split at hRead
  · cases hRead
    exact .null
  · cases hRead
    exact .missing
  · obtain ⟨t, hMoment, rfl⟩ := ok_of_map hRead
    obtain ⟨s, rfl, hSpells⟩ := spells_of_decodeTimestamp hMoment
    exact .moment hSpells

/-- What is read of a document is what its fields say. -/
theorem expiresAt_of_readDocument {source : Url} {body : String} {d : LocationDocument}
    (hRead : readDocument LocationDocument.decode source body = .ok d) (now : Timestamp) :
    ∃ datum field, Json.parse? body = some datum ∧
      Decode.record .json ["baseUri", "expires"] datum = .ok field ∧
      ExpiresAt now (field "expires") (d.expires.getD (now.plusHours 1)) := by
  unfold readDocument at hRead
  cases hDatum : Json.parse? body with
  | none =>
      rw [hDatum] at hRead
      cases hRead
  | some datum =>
      rw [hDatum] at hRead
      obtain ⟨field, hField, hFields⟩ := ok_of_bind (mapError_eq_ok_iff.1 hRead)
      obtain ⟨baseUri, -, hFields⟩ := ok_of_bind hFields
      obtain ⟨expires, hExpires, hFields⟩ := ok_of_bind hFields
      obtain rfl := Except.ok.inj hFields
      exact ⟨datum, field, rfl, hField, expiresAt_of_optional hExpires now⟩

/-! ## Requests of a look-up -/

section Requests

variable (network : Network ν) (r : Registry)

/-- The session in which no request has been written down yet. -/
def Session.journaled (s : Session ν) : Session (ν × List Url) where
  files := s.files
  locations := s.locations
  network := (s.network, [])

/-- The requests that are sent to find the repository of a domain. -/
def sent (domain : String) (s : Session ν) : List Url :=
  (baseUri network.journaled r domain s.journaled).2.network.2

theorem locationText_journaled (url : Url) (n : ν) (l : List Url) :
    locationText network.journaled r url (n, l) =
      ((locationText network r url n).1, (locationText network r url n).2,
        l ++ List.replicate (network.tries url (r.retries - 1) n) url) := by
  unfold locationText
  rw [request_journaled]
  rcases request network r.retries url n with ⟨f | response, n'⟩
  · rfl
  · by_cases hStatus : response.status = 200
    · simp [hStatus]
    · simp [hStatus]

/-- Asking for a location sends a request, unless there is no place to ask. -/
theorem findLocation_journaled (domain : String) (n : ν) (l : List Url) : ∃ asked,
    findLocation network.journaled r domain (n, l) =
      ((findLocation network r domain n).1, (findLocation network r domain n).2, l ++ asked) ∧
    ∀ wellKnown, r.wellKnownUrl domain = .ok wellKnown → asked ≠ [] := by
  unfold findLocation
  cases hPlace : r.wellKnownUrl domain with
  | error f => exact ⟨[], by simp, fun wellKnown hOk => by cases hOk⟩
  | ok wellKnown =>
      have hAsked : List.replicate (network.tries wellKnown (r.retries - 1) n) wellKnown ≠ [] := by
        have hTries := network.one_le_tries wellKnown (r.retries - 1) n
        simp only [ne_eq, List.replicate_eq_nil_iff]
        omega
      simp only [locationText_journaled]
      rcases locationText network r wellKnown n with ⟨f | (_ | body), n'⟩
      · exact ⟨_, rfl, fun _ _ => hAsked⟩
      · cases r.defaultLocation with
        | none => exact ⟨_, rfl, fun _ _ => hAsked⟩
        | some default =>
            simp only [locationText_journaled]
            refine ⟨_ ++ List.replicate (network.tries default (r.retries - 1) n') default, ?_,
              fun _ _ => List.append_ne_nil_of_left_ne_nil hAsked _⟩
            rw [List.append_assoc]
            rcases locationText network r default n' with ⟨f | (_ | body), n''⟩ <;> rfl
      · exact ⟨_, rfl, fun _ _ => hAsked⟩

theorem askLocation_journaled (domain : String) (n : ν) : ∃ asked,
    askLocation network.journaled r domain (n, []) =
      ((askLocation network r domain n).1, (askLocation network r domain n).2, asked) ∧
    ∀ l, (askLocation network r domain n).1 = .ok l → asked ≠ [] := by
  rcases hClock : network.clock n with ⟨now, n₀⟩
  have hClock' := network.clock_journaled hClock []
  obtain ⟨asked, hFind, hAsked⟩ := findLocation_journaled network r domain n₀ []
  refine ⟨asked, ?_, ?_⟩
  · unfold askLocation
    simp only [hClock, hClock', hFind, List.nil_append]
    rcases findLocation network r domain n₀ with ⟨f | ⟨source, body⟩, n'⟩ <;> rfl
  · intro l hOk
    cases hPlace : r.wellKnownUrl domain with
    | ok wellKnown => exact hAsked wellKnown hPlace
    | error f => simp [askLocation, hClock, findLocation, hPlace] at hOk

/-- A domain about which something is known is not asked. -/
theorem baseUri_of_known {domain : String} {s : Session ν} {now : Timestamp} {n : ν} {base : Url}
    (hClock : network.clock s.network = (now, n)) (hKnown : s.known now domain = some base) :
    baseUri network r domain s = (.ok base, { s with network := n }) := by
  have hKnown' : ({ s with network := n } : Session ν).known now domain = some base := hKnown
  unfold baseUri Session.now
  simp only [hClock, hKnown']

theorem baseUri_journaled (domain : String) (s : Session ν) :
    baseUri network.journaled r domain s.journaled =
      ((baseUri network r domain s).1, {
        files := (baseUri network r domain s).2.files
        locations := (baseUri network r domain s).2.locations
        network := ((baseUri network r domain s).2.network, sent network r domain s) }) := by
  rcases hClock : network.clock s.network with ⟨now, n⟩
  have hClock' := network.clock_journaled hClock []
  unfold sent
  cases hKnown : s.known now domain with
  | some base =>
      have hKnown' : s.journaled.known now domain = some base := hKnown
      rw [baseUri_of_known _ r hClock' hKnown', baseUri_of_known network r hClock hKnown]
      rfl
  | none =>
      have hKnown' : s.journaled.known now domain = none := hKnown
      obtain ⟨asked, hAsk, -⟩ := askLocation_journaled network r domain s.network
      rw [baseUri_of_unknown hClock' hKnown', baseUri_of_unknown hClock hKnown]
      simp only [Session.journaled, hAsk]
      rcases askLocation network r domain s.network with ⟨f | l, n'⟩ <;> rfl

/-! ## One look-up -/

section LookUp

variable {domain : String} {s : Session ν} {now : Timestamp} {n : ν} {base : Url} {l : Location}

theorem sent_of_known (hClock : network.clock s.network = (now, n))
    (hKnown : s.known now domain = some base) : sent network r domain s = [] := by
  have hClock' := network.clock_journaled hClock []
  have hKnown' : s.journaled.known now domain = some base := hKnown
  rw [sent, baseUri_of_known _ r hClock' hKnown']

theorem sent_of_unknown (hClock : network.clock s.network = (now, n))
    (hUnknown : s.known now domain = none) :
    sent network r domain s = (askLocation network.journaled r domain (s.network, [])).2.2 := by
  have hClock' := network.clock_journaled hClock []
  have hUnknown' : s.journaled.known now domain = none := hUnknown
  rw [sent, baseUri_of_unknown hClock' hUnknown']
  simp only [Session.journaled]
  rcases askLocation network.journaled r domain (s.network, []) with ⟨f | l, w⟩ <;> rfl

theorem sent_ne_nil (hClock : network.clock s.network = (now, n))
    (hUnknown : s.known now domain = none)
    (hAsk : (askLocation network r domain s.network).1 = .ok l) :
    sent network r domain s ≠ [] := by
  obtain ⟨asked, hJournal, hAsked⟩ := askLocation_journaled network r domain s.network
  rw [sent_of_unknown network r hClock hUnknown, hJournal]
  exact hAsked l hAsk

/-- A look-up has asked for the location of a domain, and it has found one. Unless the document
that it has found says otherwise, this can be relied on for an hour. -/
structure Finds (domain : String) (s : Session ν) (l : Location) : Prop where
  asked : sent network r domain s ≠ []
  answered : (baseUri network r domain s).1 = .ok l.base
  expires : ∃ source body n d,
    findLocation network r domain (network.clock s.network).2 = (.ok (source, body), n) ∧
      readDocument LocationDocument.decode source body = .ok d ∧
      l.expires = d.expires.getD ((network.clock s.network).1.plusHours 1)
  /-- In the text of that document, the field `expires` is where the moment is spelled. -/
  spelled : ∃ source body n datum field,
    findLocation network r domain (network.clock s.network).2 = (.ok (source, body), n) ∧
      Json.parse? body = some datum ∧
      Decode.record .json ["baseUri", "expires"] datum = .ok field ∧
      ExpiresAt (network.clock s.network).1 (field "expires") l.expires

theorem askLocation_eq_ok_iff (hClock : network.clock s.network = (now, n)) :
    (askLocation network r domain s.network).1 = .ok l ↔ ∃ source body n' d base,
      findLocation network r domain n = (.ok (source, body), n') ∧
      readDocument LocationDocument.decode source body = .ok d ∧
      source.join d.baseUri = .ok base ∧
      l = ⟨base.asDirectory, d.expires.getD (now.plusHours defaultHours)⟩ := by
  unfold askLocation
  simp only [hClock]
  rcases findLocation network r domain n with ⟨f | ⟨source, body⟩, n'⟩
  · simp
  · simp [readLocation_eq_ok_iff]

/-- What a look-up has found is what comes of asking, if nothing is known. -/
theorem finds_iff (hClock : network.clock s.network = (now, n)) :
    Finds network r domain s l ↔
      s.known now domain = none ∧ (askLocation network r domain s.network).1 = .ok l := by
  constructor
  · rintro ⟨hAsked, hAnswered, ⟨source, body, n', d, hFind, hRead, hExpires⟩, -⟩
    cases hKnown : s.known now domain with
    | some base => exact (hAsked (sent_of_known network r hClock hKnown)).elim
    | none =>
        rw [fst_baseUri_of_unknown hClock hKnown] at hAnswered
        obtain ⟨l', hAsk, hBase⟩ := ok_of_map hAnswered
        obtain ⟨source', body', n'', d', base', hFind', hRead', hJoin, rfl⟩ :=
          (askLocation_eq_ok_iff network r hClock).1 hAsk
        rw [hClock] at hFind hExpires
        obtain ⟨hFound, -⟩ := Prod.mk.inj (hFind.symm.trans hFind')
        obtain ⟨rfl, rfl⟩ := Prod.mk.inj (Except.ok.inj hFound)
        obtain rfl := Except.ok.inj (hRead.symm.trans hRead')
        obtain ⟨lBase, lExpires⟩ := l
        obtain rfl : base'.asDirectory = lBase := hBase
        obtain rfl : lExpires = _ := hExpires
        exact ⟨rfl, hAsk⟩
  · rintro ⟨hUnknown, hAsk⟩
    obtain ⟨source, body, n', d, base, hFind, hRead, -, hLocation⟩ :=
      (askLocation_eq_ok_iff network r hClock).1 hAsk
    have hExpires : l.expires = d.expires.getD (now.plusHours 1) := by rw [hLocation, defaultHours]
    obtain ⟨datum, field, hDatum, hField, hSpelled⟩ := expiresAt_of_readDocument hRead now
    rw [← hExpires] at hSpelled
    refine ⟨sent_ne_nil network r hClock hUnknown hAsk, ?_, ?_, ?_⟩
    · rw [fst_baseUri_of_unknown hClock hUnknown, hAsk, Except.map]
    · rw [hClock]
      exact ⟨source, body, n', d, hFind, hRead, hExpires⟩
    · rw [hClock]
      exact ⟨source, body, n', datum, field, hFind, hDatum, hField, hSpelled⟩

theorem Finds.eq {l' : Location} (hFinds : Finds network r domain s l)
    (hFinds' : Finds network r domain s l') : l = l' := by
  rcases hClock : network.clock s.network with ⟨now, n⟩
  obtain ⟨-, hAsk⟩ := (finds_iff network r hClock).1 hFinds
  obtain ⟨-, hAsk'⟩ := (finds_iff network r hClock).1 hFinds'
  exact Except.ok.inj (hAsk.symm.trans hAsk')

/-- A look-up remembers what it has found, and nothing else. -/
theorem locations_baseUri (domain : String) (s : Session ν) :
    (∃ l, Finds network r domain s l ∧
      (baseUri network r domain s).2.locations = s.locations.insert domain l) ∨
    (∀ l, ¬ Finds network r domain s l) ∧
      (baseUri network r domain s).2.locations = s.locations := by
  rcases hClock : network.clock s.network with ⟨now, n⟩
  simp only [finds_iff network r hClock]
  cases hKnown : s.known now domain with
  | some base =>
      rw [baseUri_of_known network r hClock hKnown]
      exact .inr ⟨by simp, rfl⟩
  | none =>
      rw [baseUri_of_unknown hClock hKnown]
      rcases askLocation network r domain s.network with ⟨f | l, n'⟩
      · exact .inr ⟨by simp, rfl⟩
      · exact .inl ⟨l, ⟨rfl, rfl⟩, rfl⟩

/-- What is known is what a look-up answers without sending any request. -/
theorem known_iff_answered (hClock : network.clock s.network = (now, n)) :
    s.known now domain = some base ↔
      (baseUri network r domain s).1 = .ok base ∧ sent network r domain s = [] := by
  constructor
  · intro hKnown
    rw [baseUri_of_known network r hClock hKnown]
    exact ⟨rfl, sent_of_known network r hClock hKnown⟩
  · rintro ⟨hAnswer, hSent⟩
    cases hKnown : s.known now domain with
    | some base' =>
        rw [baseUri_of_known network r hClock hKnown] at hAnswer
        exact congrArg some (Except.ok.inj hAnswer)
    | none =>
        rw [fst_baseUri_of_unknown hClock hKnown] at hAnswer
        obtain ⟨l, hAsk, -⟩ := ok_of_map hAnswer
        exact (sent_ne_nil network r hClock hKnown hAsk hSent).elim

/-- Without anything known about a domain, it does not matter what is known about others. -/
theorem baseUri_eq_of_unknown (hClock : network.clock s.network = (now, n))
    (hUnknown : s.known now domain = none) :
    (baseUri network r domain s).1 = (baseUri network r domain { s with locations := ∅ }).1 ∧
      (baseUri network r domain s).2.network =
        (baseUri network r domain { s with locations := ∅ }).2.network ∧
      sent network r domain s = sent network r domain { s with locations := ∅ } := by
  have hEmpty : ({ s with locations := ∅ } : Session ν).known now domain = none := rfl
  refine ⟨?_, ?_, ?_⟩
  · rw [fst_baseUri_of_unknown hClock hUnknown,
      fst_baseUri_of_unknown (s := { s with locations := ∅ }) hClock hEmpty]
  · rw [baseUri_of_unknown hClock hUnknown,
      baseUri_of_unknown (s := { s with locations := ∅ }) hClock hEmpty]
    rcases askLocation network r domain s.network with ⟨f | l, n'⟩ <;> rfl
  · rw [sent_of_unknown network r hClock hUnknown,
      sent_of_unknown network r (s := { s with locations := ∅ }) hClock hEmpty]

end LookUp

/-! ## Any number of look-ups -/

/-- What can be looked up. -/
inductive Operation
  | baseUri (domain : String)
  | repository (domain : String)
  | collection (id : PackageId)
  | package (v : Specifier)

/-- The domain whose repository is needed. -/
def Operation.domain : Operation → String
  | .baseUri domain | .repository domain => domain
  | .collection id => id.domain
  | .package v => v.id.domain

/-- The session after something was looked up. -/
def Operation.after : Operation → Session ν → Session ν
  | .baseUri domain, s => (Registry.baseUri network r domain s).2
  | .repository domain, s => (Registry.repository network r domain s).2
  | .collection id, s => (Registry.collection network r id s).2
  | .package v, s => (Registry.package network r v s).2

theorem locations_lookUp {α : Type} (domain path : String) (read : Url → String → Except Fault α)
    (s : Session ν) :
    (lookUp network r domain path read s).2.locations =
      (baseUri network r domain s).2.locations := by
  unfold lookUp documentUrl
  rcases baseUri network r domain s with ⟨f | base, s'⟩
  · rfl
  · simp only [onNetwork]
    cases base.join path with
    | error flaw => rfl
    | ok url =>
        simp only [Except.mapError]
        rcases requestText network r.retries url s'.network with ⟨f | body, n⟩ <;> rfl

/-- Whatever is looked up, what is remembered of it is the location of its repository. -/
theorem locations_after (o : Operation) (s : Session ν) :
    (o.after network r s).locations = (baseUri network r o.domain s).2.locations := by
  cases o with
  | baseUri domain => rfl
  | repository domain => exact locations_lookUp network r _ _ _ s
  | collection id => exact locations_lookUp network r _ _ _ s
  | package v => exact locations_lookUp network r _ _ _ s

/-- A look-up for the repository of a domain. -/
structure Call (ν : Type) where
  domain : String
  before : Session ν

/-- The look-ups made so far, the latest one first. In between, files and the network may change. -/
inductive Lookups : Session ν → List (Call ν) → Prop
  | start {s : Session ν} (hEmpty : s.locations = ∅) : Lookups s []
  | operation {s : Session ν} {history : List (Call ν)} (o : Operation) (h : Lookups s history) :
      Lookups (o.after network r s) (⟨o.domain, s⟩ :: history)
  | elsewhere {s : Session ν} {history : List (Call ν)} (files : FileStore) (n : ν)
      (h : Lookups s history) : Lookups { s with files, network := n } history

/-- What was found by the latest look-up that found the location of a domain by asking. -/
inductive Latest (domain : String) : List (Call ν) → Location → Prop
  | found {c : Call ν} {history : List (Call ν)} {l : Location} (hDomain : c.domain = domain)
      (hFinds : Finds network r domain c.before l) : Latest domain (c :: history) l
  | earlier {c : Call ν} {history : List (Call ν)} {l : Location}
      (hOther : c.domain = domain → ∀ l', ¬ Finds network r domain c.before l')
      (h : Latest domain history l) : Latest domain (c :: history) l

theorem latest_cons_iff {domain : String} {c : Call ν} {history : List (Call ν)} {l : Location} :
    Latest network r domain (c :: history) l ↔
      (c.domain = domain ∧ Finds network r domain c.before l) ∨
        (c.domain = domain → ∀ l', ¬ Finds network r domain c.before l') ∧
          Latest network r domain history l := by
  constructor
  · intro h
    cases h with
    | found hDomain hFinds => exact .inl ⟨hDomain, hFinds⟩
    | earlier hOther h => exact .inr ⟨hOther, h⟩
  · rintro (⟨hDomain, hFinds⟩ | ⟨hOther, h⟩)
    · exact .found hDomain hFinds
    · exact .earlier hOther h

/-- What is known about a domain is what was found by the latest look-up that found it. -/
theorem Lookups.get?_eq_some_iff {s : Session ν} {history : List (Call ν)}
    (h : Lookups network r s history) {domain : String} {l : Location} :
    s.locations.get? domain = some l ↔ Latest network r domain history l := by
  induction h generalizing l with
  | start hEmpty =>
      rw [hEmpty]
      exact iff_of_false (by simp) (by rintro ⟨⟩)
  | elsewhere files n h ih => exact ih
  | @operation s history o h ih =>
      rw [locations_after, latest_cons_iff]
      rcases locations_baseUri network r o.domain s with ⟨l', hFinds, hEq⟩ | ⟨hNone, hEq⟩
      · rw [hEq, OrderedMap.get?_insert]
        by_cases hDomain : domain = o.domain
        · subst hDomain
          have hFound : ¬ ∀ l, ¬ Finds network r o.domain s l := fun hNone => hNone l' hFinds
          simp only [if_true, Option.some.injEq, true_and, true_imp_iff, hFound, false_and,
            or_false]
          exact ⟨fun hSame => hSame ▸ hFinds, fun hFinds' => hFinds.eq network r hFinds'⟩
        · have hOther : o.domain ≠ domain := fun hSame => hDomain hSame.symm
          simp only [hDomain, hOther, if_false, false_and, false_or, false_imp_iff, true_and]
          exact ih
      · have hOther : o.domain = domain → ∀ l', ¬ Finds network r domain s l' :=
          fun hSame => hSame ▸ hNone
        rw [hEq, ih]
        constructor
        · exact fun hLatest => .inr ⟨hOther, hLatest⟩
        · rintro (⟨hDomain, hFinds⟩ | ⟨-, hLatest⟩)
          · exact (hOther hDomain l hFinds).elim
          · exact hLatest

theorem known_eq_some_iff {s : Session ν} {now : Timestamp} {domain : String} {base : Url} :
    s.known now domain = some base ↔
      ∃ l, s.locations.get? domain = some l ∧ now < l.expires ∧ l.base = base := by
  simp only [← Timestamp.before_iff_lt]
  unfold Session.known
  cases s.locations.get? domain with
  | none => simp
  | some l =>
      by_cases hBefore : now.before l.expires
      · simp [hBefore]
      · simp [hBefore]

/-- A look-up is answered without any request exactly if what the latest successful look-up of the
same domain has found can still be relied on, and then with the base that was found there. All other
look-ups do what they would do if nothing were known. Those that fail change nothing that is known,
those that succeed nothing about other domains, and operations remember what their look-up does. -/
theorem baseUri_follows_history {s : Session ν} {history : List (Call ν)}
    (hLookups : Lookups network r s history) (domain : String) :
    (∀ base, (baseUri network r domain s).1 = .ok base ∧ sent network r domain s = [] ↔
      ∃ l, Latest network r domain history l ∧ (s.now network).1 < l.expires ∧ l.base = base) ∧
    ((¬ ∃ l, Latest network r domain history l ∧ (s.now network).1 < l.expires) →
      (baseUri network r domain s).1 = (baseUri network r domain { s with locations := ∅ }).1 ∧
      (baseUri network r domain s).2.network =
        (baseUri network r domain { s with locations := ∅ }).2.network ∧
      sent network r domain s = sent network r domain { s with locations := ∅ }) ∧
    (∀ f, (baseUri network r domain s).1 = .error f →
      (baseUri network r domain s).2.locations = s.locations) ∧
    (∀ other, other ≠ domain →
      (baseUri network r domain s).2.locations.get? other = s.locations.get? other) ∧
    (∀ o : Operation, o.domain = domain →
      (o.after network r s).locations = (baseUri network r domain s).2.locations) := by
  rcases hClock : network.clock s.network with ⟨now, n⟩
  have hNow : (s.now network).1 = now := congrArg Prod.fst hClock
  have hKnown (base : Url) : s.known now domain = some base ↔
      ∃ l, Latest network r domain history l ∧ now < l.expires ∧ l.base = base := by
    simp only [known_eq_some_iff, hLookups.get?_eq_some_iff]
  rw [hNow]
  refine ⟨fun base => ?_, fun hNone => ?_, fun f hError => ?_, fun other hOther => ?_,
    fun o hDomain => ?_⟩
  · rw [← hKnown, known_iff_answered network r hClock]
  · refine baseUri_eq_of_unknown network r hClock ?_
    refine Option.eq_none_iff_forall_not_mem.2 fun base hBase => ?_
    obtain ⟨l, hLatest, hBefore, -⟩ := (hKnown base).1 hBase
    exact hNone ⟨l, hLatest, hBefore⟩
  · rcases locations_baseUri network r domain s with ⟨l, hFinds, -⟩ | ⟨-, hEq⟩
    · cases hFinds.answered.symm.trans hError
    · exact hEq
  · rcases locations_baseUri network r domain s with ⟨l, -, hEq⟩ | ⟨-, hEq⟩
    · rw [hEq, OrderedMap.get?_insert, if_neg hOther]
    · rw [hEq]
  · rw [locations_after, hDomain]

end Requests

/-! ## Locations that are known for a while -/

/-- Every place has the same document, and the same time passes whenever the clock is read. -/
def ticking (file : ByteArray) (pace : Nat) : Network Nat where
  request _ n := (.response ⟨200, .complete file⟩, n)
  clock n := (⟨pace * n, 0⟩, n + 1)

/-- The session after the location of a domain was looked up so many times, where the clock had been
read so often before. -/
def tickingSession (file : ByteArray) (pace readings : Nat) : Nat → Session Nat
  | 0 => { files := { entries := ∅ }, network := readings }
  | k + 1 =>
    (baseUri (ticking file pace) fallbackRegistry "ex.com" (tickingSession file pace readings k)).2

/-- The base that all these documents name. -/
def tickingBase : Url where
  __ := domainPlace
  path := .segments [".well-known", "pakt-pkgs", "repo", ""]

variable {file : ByteArray} {pace : Nat} {expires : Option Timestamp}

theorem askLocation_ticking
    (hRead : readDocument LocationDocument.decode domainPlace (Text.decodeLossy file.toList) =
      .ok ⟨"repo", expires⟩) (n : Nat) :
    askLocation (ticking file pace) fallbackRegistry "ex.com" n =
      (.ok ⟨tickingBase, expires.getD ⟨pace * n + 3600, 0⟩⟩, n + 1) := by
  have hClock : (ticking file pace).clock n = (⟨pace * n, 0⟩, n + 1) := rfl
  have hFirst : (ticking file pace).answer domainPlace (fallbackRegistry.retries - 1) (n + 1) =
      (.response ⟨200, .complete file⟩, n + 1) := by
    simp [ticking, fallbackRegistry, Network.answer, Reply.isTransient]
  have hJoin : domainPlace.join "repo" =
      .ok { domainPlace with path := .segments [".well-known", "pakt-pkgs", "repo"] } :=
    ok_of_toOption (by decide +kernel)
  have hLocation : readLocation ⟨pace * n, 0⟩ domainPlace (Text.decodeLossy file.toList) =
      .ok ⟨tickingBase, expires.getD ⟨pace * n + 3600, 0⟩⟩ :=
    readLocation_eq_ok_iff.2 ⟨_, _, hRead, hJoin, rfl⟩
  rw [askLocation_of_document hClock wellKnownUrl_fallbackRegistry hFirst, Body.text, Except.bind,
    hLocation]

theorem lookups_tickingSession (file : ByteArray) (pace readings : Nat) :
    Lookups (ticking file pace) fallbackRegistry (tickingSession file pace readings 1)
      [⟨"ex.com", tickingSession file pace readings 0⟩] :=
  .operation (.baseUri "ex.com") (.start rfl)

theorem finds_ticking
    (hRead : readDocument LocationDocument.decode domainPlace (Text.decodeLossy file.toList) =
      .ok ⟨"repo", expires⟩) (readings : Nat) :
    Finds (ticking file pace) fallbackRegistry "ex.com" (tickingSession file pace readings 0)
      ⟨tickingBase, expires.getD ⟨pace * readings + 3600, 0⟩⟩ :=
  (finds_iff _ _ rfl).2 ⟨rfl, congrArg Prod.fst (askLocation_ticking hRead readings)⟩

theorem sent_ticking_ne_nil
    (hRead : readDocument LocationDocument.decode domainPlace (Text.decodeLossy file.toList) =
      .ok ⟨"repo", expires⟩) (s : Session Nat) :
    sent (ticking file pace) fallbackRegistry "ex.com" { s with locations := ∅ } ≠ [] :=
  sent_ne_nil _ _ rfl rfl (congrArg Prod.fst (askLocation_ticking hRead _))

/-- What has run out is not known any more. -/
theorem Lookups.not_exists_latest {network : Network ν} {r : Registry} {s : Session ν}
    {history : List (Call ν)} (hLookups : Lookups network r s history) (domain : String)
    (now : Timestamp) {l : Location} (hGet : s.locations.get? domain = some l)
    (hOver : l.expires ≤ now) :
    ¬∃ l', Latest network r domain history l' ∧ now < l'.expires := by
  rintro ⟨l', hLatest, hBefore⟩
  have hSame := (hLookups.get?_eq_some_iff network r).2 hLatest
  obtain rfl : l = l' := Option.some.inj (hGet.symm.trans hSame)
  exact not_lt_of_ge hOver hBefore

/-- Half an hour passes whenever the time is read, and no document says how long it is good. -/
abbrev clockwork : Network Nat := ticking locationFile 1800

/-- The session after so many look-ups by this clock. -/
abbrev clockworkSession : Nat → Session Nat := tickingSession locationFile 1800 0

/-- What the first of these look-ups finds. -/
def clockworkLocation : Location := ⟨tickingBase, ⟨3600, 0⟩⟩

theorem readDocument_undated :
    readDocument LocationDocument.decode domainPlace (Text.decodeLossy locationFile.toList) =
      .ok ⟨"repo", none⟩ :=
  ok_of_toOption (by decide +kernel)

theorem finds_clockworkLocation :
    Finds clockwork fallbackRegistry "ex.com" (clockworkSession 0) clockworkLocation :=
  finds_ticking readDocument_undated 0

/-- A document that says how long it is good. -/
def datedFile (expires : String) : ByteArray :=
  ("\x7b\"baseUri\": \"repo\", \"expires\": \"" ++ expires ++ "\"\x7d").toUTF8

def futureFile : ByteArray := datedFile "2999-01-01T00:00:00Z"

def pastFile : ByteArray := datedFile "2000-01-01T00:00:00Z"

theorem readDocument_future :
    readDocument LocationDocument.decode domainPlace (Text.decodeLossy futureFile.toList) =
      .ok ⟨"repo", some ⟨32472144000, 0⟩⟩ :=
  ok_of_toOption (by decide +kernel)

theorem readDocument_past :
    readDocument LocationDocument.decode domainPlace (Text.decodeLossy pastFile.toList) =
      .ok ⟨"repo", some ⟨946684800, 0⟩⟩ :=
  ok_of_toOption (by decide +kernel)

/-- Where the document says nothing, the second look-up is answered from memory after half an hour,
and the third one after an hour asks again. A document that is good for centuries is remembered
after a day, and one that has run out is not. -/
theorem baseUri_follows_history_for_an_hour :
    ((baseUri clockwork fallbackRegistry "ex.com" (clockworkSession 1)).1 =
        .ok clockworkLocation.base ∧
      sent clockwork fallbackRegistry "ex.com" (clockworkSession 1) = [] ∧
      sent clockwork fallbackRegistry "ex.com" (clockworkSession 2) ≠ []) ∧
    ((baseUri (ticking futureFile 86400) fallbackRegistry "ex.com"
          (tickingSession futureFile 86400 20000 1)).1 = .ok tickingBase ∧
      sent (ticking futureFile 86400) fallbackRegistry "ex.com"
        (tickingSession futureFile 86400 20000 1) = []) ∧
    sent (ticking pastFile 86400) fallbackRegistry "ex.com"
      (tickingSession pastFile 86400 20000 1) ≠ [] := by
  have hHour : Lookups clockwork fallbackRegistry (clockworkSession 2)
      [⟨"ex.com", clockworkSession 1⟩, ⟨"ex.com", clockworkSession 0⟩] :=
    .operation (.baseUri "ex.com") (lookups_tickingSession locationFile 1800 0)
  have hPast := lookups_tickingSession pastFile 86400 20000
  have hHourOver := hHour.not_exists_latest "ex.com" ((clockworkSession 2).now clockwork).1
    (l := clockworkLocation) (by decide +kernel) (by decide +kernel)
  have hPastOver := hPast.not_exists_latest "ex.com"
    ((tickingSession pastFile 86400 20000 1).now (ticking pastFile 86400)).1
    (l := ⟨tickingBase, ⟨946684800, 0⟩⟩) (by decide +kernel) (by decide +kernel)
  obtain ⟨hKnown, -⟩ := baseUri_follows_history clockwork fallbackRegistry
    (lookups_tickingSession locationFile 1800 0) "ex.com"
  obtain ⟨-, hAgain, -⟩ := baseUri_follows_history clockwork fallbackRegistry hHour "ex.com"
  obtain ⟨hLongKnown, -⟩ := baseUri_follows_history (ticking futureFile 86400) fallbackRegistry
    (lookups_tickingSession futureFile 86400 20000) "ex.com"
  obtain ⟨-, hAtOnce, -⟩ :=
    baseUri_follows_history (ticking pastFile 86400) fallbackRegistry hPast "ex.com"
  obtain ⟨hAnswer, hSent⟩ := (hKnown clockworkLocation.base).2
    ⟨clockworkLocation, .found rfl finds_clockworkLocation, by decide +kernel, rfl⟩
  refine ⟨⟨hAnswer, hSent, fun hNil => ?_⟩, ?_, fun hNil => ?_⟩
  · exact sent_ticking_ne_nil readDocument_undated _ ((hAgain hHourOver).2.2.symm.trans hNil)
  · exact (hLongKnown tickingBase).2
      ⟨_, .found rfl (finds_ticking readDocument_future 20000), by decide +kernel, rfl⟩
  · exact sent_ticking_ne_nil readDocument_past _ ((hAtOnce hPastOver).2.2.symm.trans hNil)

end PackageManager.Registry
