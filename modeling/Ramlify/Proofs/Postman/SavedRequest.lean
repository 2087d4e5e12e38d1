import Ramlify.Proofs.Postman.Operation

/-!
# Ramlify — what a request is saved as

A request is also saved as it was sent: its path variables have literal values, and a method that
sends no body is saved without one. Everything else is stored as it is for the operation.

* **`savedEntryOf_eq_ok`** — what a request is saved as, if it is saved.
* **`saves_savedRequest`** — the parts of a saved request, as they are read again.
-/

namespace Ramlify.Postman

/-- The bodies that a request is saved with. -/
def savedBodies (m : Members) : List Members :=
  if Unicode.lower (givenMethod m) ∈ bodilessMethods then []
  else [[("body", .str (Json.stored (objectSchema (fieldsIn m))))]]

/-- What a request with some members is saved as. -/
def savedRequest (m : Members) : SavedEntry where
  id := idOf m
  name := String.ofList (lettersOf (Members.find m "name"))
  consumes := mediaTypes (Members.find m "dataMode")
  request :=
    { path := pathOf m
      method := Unicode.lower (givenMethod m)
      headers := Json.stored (objectSchema (headersIn m))
      query := some (Json.stored (objectSchema (queryIn m)))
      pathParams := some (Json.stored (.obj (literalsIn m)))
      bodies := savedBodies m }

/-- **What a request is saved as**, where it is saved at all. -/
theorem savedEntryOf_eq_ok {v : Value} {entry : SavedEntry} (h : savedEntryOf v = .ok entry) :
    v = .obj (membersOf v) ∧ entry = savedRequest (membersOf v) := by
  unfold savedEntryOf at h
  obtain ⟨m, hm, h⟩ := Outcome.bind_eq_ok.mp h
  rw [Value.members_eq_ok hm]
  refine ⟨rfl, ?_⟩
  obtain ⟨line, hline, h⟩ := Outcome.bind_eq_ok.mp h
  obtain ⟨given, hgiven, h⟩ := Outcome.bind_eq_ok.mp h
  obtain ⟨headed, hheaded, h⟩ := Outcome.bind_eq_ok.mp h
  have hread := addHeaders_eq_ok hheaded
  rw [requestLine_eq_ok hline, pathVariables_eq_literalsIn hgiven] at hread
  -- Whether there is a body depends on the method that was stored, which is that of the request in
  -- lower case.
  have hmethod : headed.request.method = Unicode.lower (givenMethod m) := by
    rw [hread]
    rfl
  rw [hmethod] at h
  unfold savedRequest savedBodies
  split at h
  · next hbodiless =>
    cases h
    rw [membersOf, if_pos hbodiless, hread]
    rfl
  · next hbodied =>
    obtain ⟨body, hbody, h⟩ := Outcome.bind_eq_ok.mp h
    cases h
    rw [membersOf, if_neg hbodied, requestBody_eq_ok hbody, hread]
    rfl

/-- A saved entry with what a request says: its texts as they are, and its headers, its query and
its form as schemas. -/
structure Saves (m : Members) (entry : SavedEntry) : Prop where
  id : entry.id = idOf m
  name : entry.name = String.ofList (lettersOf (Members.find m "name"))
  path : entry.request.path = pathOf m
  method : entry.request.method = Unicode.lower (givenMethod m)
  headers : entry.request.read .headers = .ok (objectSchema (headersIn m))
  query : entry.request.read .query = .ok (objectSchema (queryIn m))
  bodied : entry.request.bodies ≠ [] ↔
    entry.request.method ≠ "get" ∧ entry.request.method ≠ "head"
  form : entry.request.bodies ≠ [] → Json.parseStored (Members.find entry.request.body "body")
    = .ok (objectSchema (Entries.ofList (fieldsIn m)))

/-- A request is saved with a body unless its method sends none. -/
theorem savedBodies_ne_nil {m : Members} :
    savedBodies m ≠ [] ↔ Unicode.lower (givenMethod m) ∉ bodilessMethods := by
  unfold savedBodies
  split
  · next hbodiless => simp [hbodiless]
  · next hbodied => simp [hbodied]

/-- The parts of a saved request are read as they were stored. -/
theorem saves_savedRequest (m : Members) : Saves m (savedRequest m) where
  id := rfl
  name := rfl
  path := rfl
  method := rfl
  headers := by
    have hnames : (Entries.keys (headersIn m)).Nodup := (operation_tidy m).headerNames
    have hread := Request.read_setHeaders (savedRequest m).request
      (storable_objectSchema (areProperties_headersIn m)) (kind_objectSchema _)
    rwa [settled_objectSchema (areProperties_headersIn m), Entries.ofList_of_nodup hnames] at hread
  query := by
    have hnames : (Entries.keys (queryIn m)).Nodup := (operation_tidy m).queryNames
    have hread := Request.read_setQuery (savedRequest m).request
      (storable_objectSchema (areProperties_queryIn m)) (kind_objectSchema _)
    rwa [settled_objectSchema (areProperties_queryIn m), Entries.ofList_of_nodup hnames] at hread
  bodied := by
    show savedBodies m ≠ [] ↔ _
    rw [savedBodies_ne_nil, bodilessMethods, List.mem_cons, List.mem_singleton, not_or]
    exact Iff.rfl
  form := by
    intro hne
    -- A body that is saved is the body that the operation of the request has.
    have hbodies : savedBodies m = (operation m).endpoint.request.bodies :=
      if_neg (savedBodies_ne_nil.mp hne)
    have hbody : (savedRequest m).request.body = (operation m).endpoint.request.body :=
      congrArg (·.headD []) hbodies
    rw [hbody]
    exact Operation.parse_body (operation_tidy m)

end Ramlify.Postman
