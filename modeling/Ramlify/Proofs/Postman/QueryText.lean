import Ramlify.Proofs.Postman.SavedRequest
import Ramlify.Proofs.Text.Percent
import Ramlify.Proofs.Text.Split

/-!
# Ramlify — what a query is read as

A query is written with escapes for everything that could be taken for a separator, so it can be
split again wherever it stands in a URL, and its parts are decoded to what they were written from.

* **`queryProperties_queryText`** — names and values are read as they were before they were written.
* **`exists_operationOf_iff`**, **`exists_savedEntryOf_iff`** — when a request is imported at all,
  which does not depend on its URL as long as that is a text.
* **`query_read`** — the schema of a query on its own, and that of a request with it.
-/

namespace Ramlify.Postman

open Text (AreDigits percentEncode)

/-! ## Writing a query

A query is written by joining names and values that are escaped. The escapes leave no character that
a query is split at, so reading it finds the same names and values. -/

/-- A name with its value, as they are written. -/
def pairText (digit : Nat → Char) (pair : String × String) : List Char :=
  percentEncode digit pair.1.toList ++ '=' :: percentEncode digit pair.2.toList

def queryText (digit : Nat → Char) (pairs : Entries String String) : List Char :=
  Text.joined '&' (pairs.map (pairText digit))

section

variable {digit : Nat → Char} (hdigit : AreDigits digit)

include hdigit

/-- A separator does not occur in a written pair: where it stood in a name or a value, it was
escaped. -/
theorem not_mem_pairText {c : Char} (hpercent : c ≠ '%')
    (hescaped : Text.isUnreserved c.toNat = false) (hequals : c ≠ '=')
    (pair : String × String) : c ∉ pairText digit pair := by
  have hencoded := Text.not_mem_percentEncode hdigit hpercent hescaped
  rw [pairText, List.mem_append, List.mem_cons, not_or, not_or]
  exact ⟨hencoded _, hequals, hencoded _⟩

/-- A name and a value are read as they were before they were written. -/
theorem queryProperty_pairText (pair : String × String) :
    queryProperty (pairText digit pair) = (pair.1, textProperty (defaultOf pair.2.toList)) := by
  have hequals : ∀ cs, '=' ∉ percentEncode digit cs :=
    Text.not_mem_percentEncode hdigit (by decide) (by decide)
  unfold queryProperty pairText
  dsimp only
  rw [Text.firstField_append_cons (hequals _), Text.secondField?_append_cons (hequals _),
    Option.getD_some, Text.firstField_eq_self_iff.mpr (hequals _),
    Text.percentDecode_percentEncode hdigit, Text.percentDecode_percentEncode hdigit,
    String.ofList_toList]

/-- A query has no question mark in it, so it is not split from itself in a URL. -/
theorem not_mem_queryText (pairs : Entries String String) : '?' ∉ queryText digit pairs := by
  intro h
  rcases Text.mem_joined h with hand | ⟨field, hfield, hmem⟩
  · cases hand
  · obtain ⟨pair, _, rfl⟩ := List.mem_map.mp hfield
    exact not_mem_pairText hdigit (by decide) (by decide) (by decide) pair hmem

/-- The names and values of a query are those that it was written from. -/
theorem queryProperties_queryText {pairs : Entries String String} (hpairs : pairs ≠ [])
    (hdistinct : (Entries.keys pairs).Nodup) :
    queryProperties (queryText digit pairs)
      = pairs.map fun pair => (pair.1, textProperty (defaultOf pair.2.toList)) := by
  have hfields : ∀ field ∈ pairs.map (pairText digit), '&' ∉ field := by
    rw [List.forall_mem_map]
    exact fun pair _ => not_mem_pairText hdigit (by decide) (by decide) (by decide) pair
  -- There is at least one pair, and a pair has at least its sign in it.
  have hgiven : queryText digit pairs ≠ [] := by
    cases pairs with
    | nil => exact absurd rfl hpairs
    | cons pair rest => cases rest <;> simp [queryText, Text.joined, pairText]
  rw [queryProperties, if_neg (by rwa [List.isEmpty_iff]), queryText,
    Text.split_joined (by simpa using hpairs) hfields, List.map_map, Entries.ofList_of_nodup]
  · exact List.map_congr_left fun pair _ => queryProperty_pairText hdigit pair
  · rw [Entries.keys, List.map_map]
    have hnames : (Prod.fst ∘ queryProperty ∘ pairText digit) = Prod.fst :=
      funext fun pair => congrArg Prod.fst (queryProperty_pairText hdigit pair)
    rwa [hnames]

end

/-! ## When a request is imported

Importing asks some members of a request to be of the right kind, and nothing of them depends on
another one. A request is imported if and only if each part of it can be read; written so, the
condition can be carried over to a request with another URL. -/

/-- A request whose line, path variables and headers can be read. -/
structure Readable (m : Members) : Prop where
  line : ∃ entry, requestLine m = .ok entry
  pathParams : ∃ given, pathVariables m = .ok given
  headers : ∃ schema, headersOf (Members.find m "headers") = .ok schema

/-- Headers and query can be added where the headers can be read: the query is a text by then. -/
theorem exists_addHeaders_iff {m : Members} {entry : Entry} :
    (∃ entry', addHeaders m entry = .ok entry')
      ↔ ∃ schema, headersOf (Members.find m "headers") = .ok schema := by
  constructor
  · rintro ⟨entry', h⟩
    obtain ⟨schema, hschema, _⟩ := Outcome.bind_eq_ok.mp h
    exact ⟨schema, hschema⟩
  · rintro ⟨schema, hschema⟩
    exact ⟨_, Outcome.bind_eq_ok.mpr ⟨schema, hschema, rfl⟩⟩

/-- A request becomes an operation if and only if its line, its path variables and its headers can
be read, and its data as form fields. -/
theorem exists_operationOf_iff {m : Members} :
    (∃ e, operationOf (.obj m) = .ok e)
      ↔ Readable m ∧ ∃ body, requestBody (Members.find m "data") = .ok body := by
  -- The request is read step by step, and each step can be made unless its part is missing.
  constructor
  · rintro ⟨e, h⟩
    obtain ⟨m, ⟨⟩, h⟩ := Outcome.bind_eq_ok.mp h
    obtain ⟨entry, hentry, h⟩ := Outcome.bind_eq_ok.mp h
    obtain ⟨given, hgiven, h⟩ := Outcome.bind_eq_ok.mp h
    obtain ⟨headed, hheaded, h⟩ := Outcome.bind_eq_ok.mp h
    obtain ⟨body, hbody, _⟩ := Outcome.bind_eq_ok.mp h
    exact ⟨⟨⟨entry, hentry⟩, ⟨given, hgiven⟩, exists_addHeaders_iff.mp ⟨headed, hheaded⟩⟩,
      body, hbody⟩
  · rintro ⟨⟨⟨entry, hentry⟩, ⟨given, hgiven⟩, hheaders⟩, body, hbody⟩
    obtain ⟨headed, hheaded⟩ := exists_addHeaders_iff.mpr hheaders
    exact ⟨_, Outcome.bind_eq_ok.mpr ⟨m, rfl, Outcome.bind_eq_ok.mpr ⟨entry, hentry,
      Outcome.bind_eq_ok.mpr ⟨given, hgiven, Outcome.bind_eq_ok.mpr ⟨headed, hheaded,
        Outcome.bind_eq_ok.mpr ⟨body, hbody, rfl⟩⟩⟩⟩⟩⟩

/-- A request is saved under the same condition, but its data are looked at only where its method
sends a body. -/
theorem exists_savedEntryOf_iff {m : Members} :
    (∃ e, savedEntryOf (.obj m) = .ok e)
      ↔ Readable m ∧ (Unicode.lower (givenMethod m) ∉ bodilessMethods →
        ∃ body, requestBody (Members.find m "data") = .ok body) := by
  -- The method that decides about the body is the one that is given.
  have hmethod : ∀ {entry headed : Entry} {given : Value}, requestLine m = .ok entry →
      addHeaders m { entry with request := entry.request.setPathParams given } = .ok headed →
        headed.request.method = Unicode.lower (givenMethod m) := by
    intro entry headed given hentry hheaded
    rw [addHeaders_eq_ok hheaded, requestLine_eq_ok hentry]
    rfl
  constructor
  · rintro ⟨e, h⟩
    obtain ⟨m, ⟨⟩, h⟩ := Outcome.bind_eq_ok.mp h
    obtain ⟨entry, hentry, h⟩ := Outcome.bind_eq_ok.mp h
    obtain ⟨given, hgiven, h⟩ := Outcome.bind_eq_ok.mp h
    obtain ⟨headed, hheaded, h⟩ := Outcome.bind_eq_ok.mp h
    refine ⟨⟨⟨entry, hentry⟩, ⟨given, hgiven⟩, exists_addHeaders_iff.mp ⟨headed, hheaded⟩⟩, ?_⟩
    intro hbodied
    rw [hmethod hentry hheaded, if_neg hbodied] at h
    obtain ⟨body, hbody, _⟩ := Outcome.bind_eq_ok.mp h
    exact ⟨body, hbody⟩
  · rintro ⟨⟨⟨entry, hentry⟩, ⟨given, hgiven⟩, hheaders⟩, hbodies⟩
    obtain ⟨headed, hheaded⟩ := exists_addHeaders_iff.mpr hheaders
    suffices hlast : ∃ e, (if headed.request.method ∈ bodilessMethods then return headed else do
        let body ← requestBody (Members.find m "data")
        return { headed with request := headed.request.appendBody body } : Outcome Entry)
          = .ok e by
      obtain ⟨e, he⟩ := hlast
      exact ⟨e, Outcome.bind_eq_ok.mpr ⟨m, rfl, Outcome.bind_eq_ok.mpr ⟨entry, hentry,
        Outcome.bind_eq_ok.mpr ⟨given, hgiven, Outcome.bind_eq_ok.mpr ⟨headed, hheaded, he⟩⟩⟩⟩⟩
    rw [hmethod hentry hheaded]
    split
    · exact ⟨_, rfl⟩
    · next hbodied =>
      obtain ⟨body, hbody⟩ := hbodies hbodied
      exact ⟨_, Outcome.bind_eq_ok.mpr ⟨body, hbody, rfl⟩⟩

/-! ## Another URL

The URL is read in one place, the line of the request, and any text will do there. -/

/-- A request with another URL. -/
def withUrl (m : Members) (url : List Char) : Members :=
  Entries.put m "url" (.str (String.ofList url))

section

variable (m : Members) (url : List Char)

/-- The other members of a request stay as they are. -/
theorem get?_withUrl {name : String} (h : name ≠ "url") :
    Entries.get? (withUrl m url) name = Entries.get? m name :=
  Entries.get?_put_of_ne m _ (Ne.symm h)

theorem find_withUrl {name : String} (h : name ≠ "url") :
    Members.find (withUrl m url) name = Members.find m name := by
  rw [Members.find, get?_withUrl m url h, Members.find]

theorem urlOf_withUrl : urlOf (withUrl m url) = url := by
  rw [urlOf, withUrl, Members.find, Entries.get?_put_self]
  exact String.toList_ofList

theorem givenMethod_withUrl : givenMethod (withUrl m url) = givenMethod m := by
  rw [givenMethod, get?_withUrl m url (by decide), givenMethod]

end

/-- A request is as readable with another URL. -/
theorem Readable.withUrl {m : Members} (h : Readable m) (url : List Char) :
    Readable (withUrl m url) := by
  obtain ⟨⟨entry, hentry⟩, ⟨given, hgiven⟩, ⟨schema, hschema⟩⟩ := h
  refine ⟨?_, ⟨given, ?_⟩, ⟨schema, ?_⟩⟩
  · -- The line reads name, id and method besides the URL, all of which are as before.
    obtain ⟨named, hnamed, hentry⟩ := Outcome.bind_eq_ok.mp hentry
    obtain ⟨_, _, hentry⟩ := Outcome.bind_eq_ok.mp hentry
    obtain ⟨method, hmethod, _⟩ := Outcome.bind_eq_ok.mp hentry
    have hurl : textMember (Postman.withUrl m url) "url" "" = .ok (String.ofList url) := by
      rw [textMember, Postman.withUrl, Entries.get?_put_self]
      show (.ok (String.ofList (String.ofList url).toList) : Outcome String) = _
      rw [String.ofList_toList]
    refine ⟨_, Outcome.bind_eq_ok.mpr ⟨named, ?_, Outcome.bind_eq_ok.mpr ⟨_, hurl,
      Outcome.bind_eq_ok.mpr ⟨method, ?_, rfl⟩⟩⟩⟩
    · rw [← hnamed]
      unfold Shape.field
      rw [get?_withUrl m url (by decide), get?_withUrl m url (by decide)]
    · rw [← hmethod, textMember, get?_withUrl m url (by decide), textMember]
  · rw [← hgiven, pathVariables, find_withUrl m url (by decide), pathVariables]
  · rw [← hschema, find_withUrl m url (by decide)]

/-! ## The query of a request

The URL is split at its question marks, and of its parts the first two are read. So the path may
have no question mark, and the query has none because it is escaped. -/

/-- The address of a request: a path with a query after it. -/
def address (path : String) (query : List Char) : List Char := path.toList ++ '?' :: query

/-- The path of an address, with its variables in brackets. -/
theorem pathOf_withUrl_address (m : Members) {path : String} (hpath : '?' ∉ path.toList)
    (query : List Char) : pathOf (withUrl m (address path query)) = bracketVariable path := by
  rw [pathOf, urlOf_withUrl, address, Text.firstField_append_cons hpath]
  rfl

theorem queryIn_withUrl_address (m : Members) {path : String} (hpath : '?' ∉ path.toList)
    {query : List Char} (hquery : '?' ∉ query) :
    queryIn (withUrl m (address path query)) = queryProperties query := by
  rw [queryIn, urlOf_withUrl, address, Text.secondField?_append_cons hpath, Option.getD_some,
    Text.firstField_eq_self_iff.mpr hquery]

/-- The schema of a query with some names and values. -/
def pairsSchema (pairs : Entries String String) : Value :=
  objectSchema (pairs.map fun pair => (pair.1, textProperty (defaultOf pair.2.toList)))

/-- **A query is read as what it was written from.** Of names that differ from each other, with
values:

* the schema has exactly these names, in their order, each for a text with its complete value as
  default, or with null for the empty one;
* a request that can be imported or saved can be so with this query after any path, and has that
  path and this schema. -/
theorem query_read {digit : Nat → Char} (hdigit : AreDigits digit) {pairs : Entries String String}
    (hpairs : pairs ≠ []) (hdistinct : (Entries.keys pairs).Nodup) :
    queryOf (.str (String.ofList (queryText digit pairs))) = .ok (pairsSchema pairs)
      ∧ ∀ path : String, '?' ∉ path.toList → ∀ m : Members,
        ((∃ e, operationOf (.obj m) = .ok e) →
          ∃ e, operationOf (.obj (withUrl m (address path (queryText digit pairs)))) = .ok e
            ∧ e.request.path = bracketVariable path
            ∧ e.request.read .query = .ok (pairsSchema pairs))
        ∧ ((∃ e, savedEntryOf (.obj m) = .ok e) →
          ∃ e, savedEntryOf (.obj (withUrl m (address path (queryText digit pairs)))) = .ok e
            ∧ e.request.path = bracketVariable path
            ∧ e.request.read .query = .ok (pairsSchema pairs)) := by
  have hread := queryProperties_queryText hdigit hpairs hdistinct
  refine ⟨?_, fun path hpath m => ?_⟩
  · rw [queryOf_str, String.toList_ofList, querySchema, hread, pairsSchema]
  · have hquery := queryIn_withUrl_address m hpath (not_mem_queryText hdigit pairs)
    rw [hread] at hquery
    have hdata : Members.find (withUrl m (address path (queryText digit pairs))) "data"
        = Members.find m "data" := find_withUrl m _ (by decide)
    refine ⟨fun himported => ?_, fun hsaved => ?_⟩
    · -- With the other URL the request is as readable, and its form is the same.
      obtain ⟨hreadable, hbody⟩ := exists_operationOf_iff.mp himported
      obtain ⟨e, he⟩ := exists_operationOf_iff.mpr
        ⟨hreadable.withUrl (address path (queryText digit pairs)), hdata ▸ hbody⟩
      obtain ⟨_, rfl⟩ := operationOf_eq_ok he
      refine ⟨_, he, pathOf_withUrl_address m hpath _, ?_⟩
      exact (Operation.read_query (operation_tidy _)).trans (by rw [pairsSchema, ← hquery]; rfl)
    · obtain ⟨hreadable, hbody⟩ := exists_savedEntryOf_iff.mp hsaved
      obtain ⟨e, he⟩ := exists_savedEntryOf_iff.mpr
        ⟨hreadable.withUrl (address path (queryText digit pairs)), by
          rwa [givenMethod_withUrl, hdata]⟩
      obtain ⟨_, rfl⟩ := savedEntryOf_eq_ok he
      have hsaves := saves_savedRequest (withUrl m (address path (queryText digit pairs)))
      exact ⟨_, he, hsaves.path.trans (pathOf_withUrl_address m hpath _),
        hsaves.query.trans (by rw [pairsSchema, ← hquery])⟩

/-- Digits with capital letters. -/
def capitalDigit (n : Nat) : Char := "0123456789ABCDEF".toList.getD n '0'

/-- A name with a separator and a letter of two bytes, and one without a value. -/
def samplePairs : Entries String String := [("prix=é", "{{p}} & 1"), ("q", "")]

/-- The query of the sample is decoded, and a request that has nothing else is imported with it. -/
theorem query_read_sample :
    AreDigits capitalDigit ∧ samplePairs ≠ [] ∧ (Entries.keys samplePairs).Nodup
      ∧ String.ofList (queryText capitalDigit samplePairs)
        = "prix%3D%C3%A9=%7B%7Bp%7D%7D%20%26%201&q="
      ∧ queryOf (.str "prix%3D%C3%A9=%7B%7Bp%7D%7D%20%26%201&q=")
        = .ok (objectSchema [("prix=é", textProperty (.str "<<p>> & 1")),
          ("q", textProperty .null)])
      ∧ ∃ e, operationOf (.obj [("url", .str "/{{shop}}?prix%3D%C3%A9=%7B%7Bp%7D%7D%20%26%201&q=")])
          = .ok e
        ∧ e.request.path = "/<<shop>>"
        ∧ e.request.read .query = .ok (pairsSchema samplePairs) := by
  have hdigit : AreDigits capitalDigit := by
    unfold AreDigits
    decide
  have hpairs : samplePairs ≠ [] := nofun
  have hdistinct : (Entries.keys samplePairs).Nodup := by decide
  have htext : String.ofList (queryText capitalDigit samplePairs)
      = "prix%3D%C3%A9=%7B%7Bp%7D%7D%20%26%201&q=" := by decide
  obtain ⟨hquery, hrequests⟩ := query_read hdigit hpairs hdistinct
  refine ⟨hdigit, hpairs, hdistinct, htext, htext ▸ hquery, ?_⟩
  exact (hrequests "/{{shop}}" (by decide) []).1 ⟨_, rfl⟩

end Ramlify.Postman
