import Ramlify.Model.Endpoint
import Ramlify.Proofs.StoredRequest

/-!
# Ramlify — the parts of a request are independent cells

Operations and saved requests keep their parts as JSON texts. Reading and writing go through a
printer and a parser, and reading a query or path parameters for the first time stores a text. Seen
from outside there is nothing of this: after **any** sequence of operations on a new request each
part reads as what was last set for it, and the body entries are those that were added.

* **`Json.parse_stored_of_faithful`** — a value that can be stored and has each name once is read
  back as it is.
* **`read_perform_of_not_changes`** — an operation leaves alone what all other parts read as.
* **`Holds.perform`** — one more operation; **`holds_run`** is the whole run.
* **`parts_independent`** — the run, and whatever is done next.
-/

namespace Ramlify.Json

/-! ## Values that are read back as they are

The round trip gives a value in which each name stands once. A value that is so already comes back
as it is. -/

mutual

/-- A value in whose objects each name stands once. -/
def NamesOnce : Value → Prop
  | .list items => NamesOnceItems items
  | .obj members => (Entries.keys members).Nodup ∧ NamesOnceMembers members
  | _ => True

@[inherit_doc NamesOnce]
def NamesOnceItems : List Value → Prop
  | [] => True
  | item :: rest => NamesOnce item ∧ NamesOnceItems rest

/-- Members whose values have each name once. -/
def NamesOnceMembers : List (String × Value) → Prop
  | [] => True
  | (_, member) :: rest => NamesOnce member ∧ NamesOnceMembers rest

end

/-- Each member of an object has its names once. -/
theorem namesOnceMembers_iff {members : List (String × Value)} :
    NamesOnceMembers members ↔ ∀ p ∈ members, NamesOnce p.2 := by
  induction members with
  | nil => exact ⟨fun _ => nofun, fun _ => trivial⟩
  | cons entry rest ih => rw [List.forall_mem_cons, NamesOnceMembers, ih]

/-- What stands under a name has its names once. -/
theorem NamesOnce.of_get? {members : Members} (h : NamesOnce (.obj members)) {name : String}
    {v : Value} (hget : Entries.get? members name = some v) : NamesOnce v :=
  namesOnceMembers_iff.mp h.2 (name, v) (Entries.mem_of_get? hget)

mutual

-- Along the recursion of `settled`: only where a name stands twice would an object change.

/-- A value that has each name once does not change. -/
theorem settled_of_namesOnce : ∀ v : Value, NamesOnce v → settled v = v
  | .null, _ => rfl
  | .bool _, _ => rfl
  | .int _, _ => rfl
  | .float _, _ => rfl
  | .str _, _ => rfl
  | .list items, h => by rw [settled, settledItems_of_namesOnce items h]
  | .obj members, h => by
    rw [settled, settledMembers_of_namesOnce members h.2, Entries.ofList_of_nodup h.1]

theorem settledItems_of_namesOnce : ∀ items : List Value,
    NamesOnceItems items → settledItems items = items
  | [], _ => rfl
  | item :: rest, h => by
    rw [settledItems, settled_of_namesOnce item h.1, settledItems_of_namesOnce rest h.2]

theorem settledMembers_of_namesOnce : ∀ members : List (String × Value),
    NamesOnceMembers members → settledMembers members = members
  | [], _ => rfl
  | (name, member) :: rest, h => by
    rw [settledMembers, settled_of_namesOnce member h.1, settledMembers_of_namesOnce rest h.2]

end

/-- A value that its stored text tells: no text itself, no floating-point numbers and no numbers of
too many digits in it, and each name once in every object. -/
structure Faithful (v : Value) : Prop where
  storable : Storable v
  namesOnce : NamesOnce v
  kind : v.kind ≠ .str

theorem faithful_emptyObject : Faithful (.obj []) := ⟨trivial, ⟨List.nodup_nil, trivial⟩, by decide⟩

/-- A faithful value is read back as it is. -/
theorem parse_stored_of_faithful {v : Value} (h : Faithful v) : parse (stored v) = .ok v := by
  rw [parse_stored h.storable h.kind, settled_of_namesOnce v h.namesOnce]

end Ramlify.Json

namespace Ramlify.Request

/-! ## Operations

A request can be set, read and given bodies. Reading is an operation as well, since it can store a
text that was missing. -/

/-- What can be done to a request. -/
inductive Operation where
  | set (part : Part) (v : Value)
  | read (part : Part)
  | addBody (entry : Members)

namespace Operation

/-- The values that parts are set to: a text for the path and the method, and for the others a value
that its stored text tells. The body entries are added to and never set. -/
def Admissible : Operation → Prop
  | set .path v => ∃ s, v = .str s
  | set .method v => ∃ s, v = .str s
  | set .body _ => False
  | set _ v => Json.Faithful v
  | read _ => True
  | addBody entry => ∀ v, Entries.get? entry "body" = some v → Json.Faithful v

/-- Whether an operation is there to change a part. -/
def Changes (part : Part) : Operation → Prop
  | set other _ => other = part
  | read _ => False
  | addBody _ => part = .body

/-- The value that an operation sets a part to. -/
def setTo? (part : Part) : Operation → Option Value
  | set other v => if other = part then some v else none
  | _ => none

/-- The body entry that an operation adds. -/
def added? : Operation → Option Members
  | addBody entry => some entry
  | _ => none

end Operation

/-- Performs an operation: the request afterwards, and the answer. -/
def perform (r : Request) : Operation → Request × Outcome Value
  | .set part v =>
    match r.write part v with
    | .ok after => (after, .ok .null)
    | .error failure => (r, .error failure)
  | .read part => (r.afterReading part, r.read part)
  | .addBody entry => (r.appendBody entry, .ok .null)

/-- The request after some operations. -/
def run (r : Request) (operations : List Operation) : Request :=
  operations.foldl (fun r operation => (r.perform operation).1) r

/-- The last of some operations comes after all others. -/
theorem run_concat (r : Request) (operations : List Operation) (operation : Operation) :
    r.run (operations ++ [operation]) = ((r.run operations).perform operation).1 := by
  rw [run, List.foldl_append]
  rfl

/-! ## What should be found

What a request should read as is told by the operations alone: by the last one that set a part, and
by those that added bodies. -/

/-- The value that a part was last set to. -/
def lastSet (operations : List Operation) (part : Part) : Option Value :=
  operations.reverse.findSome? (·.setTo? part)

/-- One more operation sets a part, or leaves it what it was. -/
theorem lastSet_concat (operations : List Operation) (operation : Operation) (part : Part) :
    lastSet (operations ++ [operation]) part
      = (operation.setTo? part).or (lastSet operations part) := by
  rw [lastSet, List.reverse_append, List.reverse_singleton, List.singleton_append,
    List.findSome?_cons]
  cases operation.setTo? part <;> rfl

/-- The body entries that were added, in order. -/
def addedBodies (operations : List Operation) : List Members := operations.filterMap (·.added?)

/-- What a value reads as where it was set as the method. -/
def methodRead : Value → Value
  | .str s => .str (Unicode.lower s)
  | v => v

/-- What a part other than the body entries should read as after some operations on a new
request. -/
def expected (operations : List Operation) : Part → Value
  | .path => (lastSet operations .path).getD (.str "")
  | .method => ((lastSet operations .method).map methodRead).getD (.str "")
  | part => (lastSet operations part).getD (.obj [])

/-- A body entry as it was added, but with the text of its body, which is the empty object if it
came without one. -/
def KeepsBody (entry kept : Members) : Prop :=
  ∃ text, kept = Entries.put entry "body" (.str text)
    ∧ Json.parse text = .ok ((Entries.get? entry "body").getD (.obj []))

/-- A request that holds what some operations on a new one should have left. -/
structure Holds (operations : List Operation) (r : Request) : Prop where
  parts : ∀ part, part ≠ .body → r.read part = .ok (expected operations part)
  bodies : List.Forall₂ KeepsBody (addedBodies operations) r.bodies

/-! ## One operation

The parts are changed one at a time, and what an operation does not change reads as before. -/

/-- The text that stands for nothing stored is read as any other. -/
theorem filled_filled (text : Option String) : filled (some (filled text)) = filled text := by
  unfold filled
  cases text with
  | none => rfl
  | some s =>
    by_cases hs : s.isEmpty = true
    · simp [hs]
    · simp [hs]

/-- Reading a part stores at most what it read. -/
theorem read_afterReading (r : Request) (part other : Part) :
    (r.afterReading part).read other = r.read other := by
  cases part with
  | query =>
    cases other with
    | query => exact congrArg Json.parse (filled_filled r.query)
    | path | method | headers | pathParams | body => rfl
  | pathParams =>
    cases other with
    | pathParams => exact congrArg Json.parse (filled_filled r.pathParams)
    | path | method | headers | query | body => rfl
  | path | method | headers | body => rfl

/-- Writing a part leaves all others alone. -/
theorem read_write_of_ne {r after : Request} {part other : Part} {v : Value}
    (h : r.write part v = .ok after) (hne : part ≠ other) : after.read other = r.read other := by
  cases part with
  | path =>
    obtain ⟨s, hs⟩ : ∃ s : String, after = { r with path := s } := by
      cases v <;> cases h
      exact ⟨_, rfl⟩
    rw [hs]
    cases other <;> first | rfl | exact absurd rfl hne
  | method =>
    obtain ⟨s, hs⟩ : ∃ s : String, after = { r with method := s } := by
      cases v <;> cases h
      exact ⟨_, rfl⟩
    rw [hs]
    cases other <;> first | rfl | exact absurd rfl hne
  -- These parts are stored as texts of their own.
  | headers | query | pathParams =>
    cases h
    cases other <;> first | rfl | exact absurd rfl hne
  | body => cases h

/-- **An operation leaves alone** what the parts read as that it is not there to change. -/
theorem read_perform_of_not_changes (r : Request) {operation : Operation} {part : Part}
    (h : ¬ operation.Changes part) : (r.perform operation).1.read part = r.read part := by
  cases operation with
  | set other v =>
    cases hwrite : r.write other v with
    | error failure => simp only [perform, hwrite]
    | ok after =>
      simp only [perform, hwrite]
      exact read_write_of_ne hwrite h
  | read other => exact read_afterReading r other part
  | addBody entry =>
    cases part with
    | body => exact absurd rfl h
    | path | method | headers | query | pathParams => rfl

/-- A part that is set to an admissible value reads as that value. -/
theorem perform_set {r : Request} {part : Part} {v : Value}
    (h : (Operation.set part v).Admissible) :
    (r.perform (.set part v)).2 = .ok .null
      ∧ (r.perform (.set part v)).1.read part = .ok (if part = .method then methodRead v else v)
      ∧ (r.perform (.set part v)).1.bodies = r.bodies := by
  cases part with
  | path =>
    obtain ⟨s, rfl⟩ := h
    refine ⟨rfl, ?_, rfl⟩
    show Except.ok (Value.str (String.ofList s.toList)) = _
    rw [String.ofList_toList]
    rfl
  | method =>
    obtain ⟨s, rfl⟩ := h
    have hwrite : r.write .method (.str s) = .ok (r.setMethod (String.ofList s.toList)) := rfl
    rw [String.ofList_toList] at hwrite
    simp only [perform, hwrite, true_and]
    exact ⟨rfl, rfl⟩
  | headers =>
    exact ⟨rfl, Json.parse_stored_of_faithful h, rfl⟩
  -- What was stored is not empty, so nothing is filled in when it is read.
  | query =>
    refine ⟨rfl, ?_, rfl⟩
    show Json.parse (filled (some (Json.stored v))) = _
    rw [filled_stored h.storable h.kind]
    exact Json.parse_stored_of_faithful h
  | pathParams =>
    refine ⟨rfl, ?_, rfl⟩
    show Json.parse (filled (some (Json.stored v))) = _
    rw [filled_stored h.storable h.kind]
    exact Json.parse_stored_of_faithful h
  | body => exact absurd h id

/-- A body entry is kept with the text of its body. -/
theorem keepsBody_of_admissible {entry : Members} (h : (Operation.addBody entry).Admissible) :
    KeepsBody entry (Entries.put entry "body"
      (.str (Json.stored ((Entries.get? entry "body").getD (.obj []))))) := by
  refine ⟨_, rfl, ?_⟩
  cases hbody : Entries.get? entry "body" with
  | none => exact Json.parse_stored_of_faithful Json.faithful_emptyObject
  | some v => exact Json.parse_stored_of_faithful (h v hbody)

/-- The entries stay, and an entry that is added comes behind them. -/
theorem bodies_perform (r : Request) {operation : Operation} (h : operation.Admissible) :
    (r.perform operation).1.bodies = r.bodies ++ operation.added?.toList.map fun entry =>
      Entries.put entry "body"
        (.str (Json.stored ((Entries.get? entry "body").getD (.obj [])))) := by
  cases operation with
  | set part v =>
    rw [(perform_set h).2.2]
    exact (List.append_nil _).symm
  | read part =>
    show (r.afterReading part).bodies = _
    rw [show (r.afterReading part).bodies = r.bodies by cases part <;> rfl]
    exact (List.append_nil _).symm
  | addBody entry => rfl

/-- What is expected of a part changes only where it is set. -/
theorem expected_concat_of_not_changes {operations : List Operation} {operation : Operation}
    {part : Part} (hbody : part ≠ .body) (h : ¬ operation.Changes part) :
    expected (operations ++ [operation]) part = expected operations part := by
  have hnone : operation.setTo? part = none := by
    cases operation with
    | set other v => exact if_neg h
    | read other => rfl
    | addBody entry => rfl
  have hlast : lastSet (operations ++ [operation]) part = lastSet operations part := by
    rw [lastSet_concat, hnone, Option.none_or]
  cases part with
  | body => exact absurd rfl hbody
  | path | method | headers | query | pathParams => simp only [expected, hlast]

/-- Setting a part is what should be found there next. -/
theorem expected_concat_set (operations : List Operation) {part : Part} (hbody : part ≠ .body)
    (v : Value) : expected (operations ++ [.set part v]) part
      = if part = .method then methodRead v else v := by
  have hlast : lastSet (operations ++ [.set part v]) part = some v := by
    rw [lastSet_concat, show (Operation.set part v).setTo? part = some v from if_pos rfl]
    rfl
  cases part with
  | body => exact absurd rfl hbody
  | path | method | headers | query | pathParams => simp [expected, hlast]

/-- **One more operation.** -/
theorem Holds.perform {operations : List Operation} {r : Request} (h : Holds operations r)
    {operation : Operation} (hadmissible : operation.Admissible) :
    Holds (operations ++ [operation]) (r.perform operation).1 where
  parts := by
    intro part hbody
    -- The part that is set reads as it was set, and every other one as before.
    by_cases hchanges : operation.Changes part
    · cases operation with
      | set other v =>
        obtain rfl : other = part := hchanges
        rw [(perform_set hadmissible).2.1, expected_concat_set operations hbody v]
      | read other => exact absurd hchanges id
      | addBody entry => exact absurd hchanges hbody
    · rw [read_perform_of_not_changes r hchanges, h.parts part hbody,
        expected_concat_of_not_changes hbody hchanges]
  bodies := by
    rw [addedBodies, List.filterMap_append, bodies_perform r hadmissible]
    refine List.rel_append h.bodies ?_
    cases operation with
    | set part v => exact .nil
    | read part => exact .nil
    | addBody entry => exact .cons (keepsBody_of_admissible hadmissible) .nil

/-! ## All operations

The invariant holds of a new request, and each operation keeps it. -/

/-- A new request holds what no operations leave. -/
theorem holds_new : Holds [] {} where
  parts := by
    intro part hbody
    cases part with
    | path | method => rfl
    | headers | query | pathParams => exact parse_emptyObject
    | body => exact absurd rfl hbody
  bodies := .nil

/-- **The run.** -/
theorem holds_run {operations : List Operation} (h : ∀ o ∈ operations, o.Admissible) :
    Holds operations (run {} operations) := by
  -- The last operation comes to a request that holds what those before it left.
  induction operations using List.reverseRecOn with
  | nil => exact holds_new
  | append_singleton operations operation ih =>
    rw [run_concat]
    exact (ih fun o ho => h o (List.mem_append_left _ ho)).perform (h _ List.mem_concat_self)

/-- **The parts of a request are independent cells.** After any admissible operations on a new
operation or saved request:

* the path, the headers, the query and the path parameters read as what they were last set to, and
  the method as that in lower case; what was never set reads as the empty text or the empty object;
* the body entries are those that were added, in order, each with the text of its body, and the body
  is the first of them;
* whatever admissible operation comes next succeeds, leaves alone what all other parts read as, and
  keeps the body entries at the beginning, so that the body stays the one that it is. -/
theorem parts_independent {entry : Entry} (hnew : entry.request = {}) {operations : List Operation}
    (h : ∀ o ∈ operations, o.Admissible) :
    ((entry.request.run operations).read .path
        = .ok ((lastSet operations .path).getD (.str ""))
      ∧ (entry.request.run operations).read .method
        = .ok (((lastSet operations .method).map methodRead).getD (.str ""))
      ∧ ∀ part ∈ [Part.headers, .query, .pathParams], (entry.request.run operations).read part
        = .ok ((lastSet operations part).getD (.obj [])))
    ∧ (List.Forall₂ KeepsBody (addedBodies operations) (entry.request.run operations).bodies
      ∧ (entry.request.run operations).read .body
        = .ok (.obj ((entry.request.run operations).bodies.headD [])))
    ∧ ∀ next : Operation, next.Admissible →
      (∃ answer, ((entry.request.run operations).perform next).2 = .ok answer)
      ∧ (∀ part, ¬ next.Changes part → ((entry.request.run operations).perform next).1.read part
          = (entry.request.run operations).read part)
      ∧ (entry.request.run operations).bodies
          <+: ((entry.request.run operations).perform next).1.bodies := by
  rw [hnew]
  -- What the run leaves in each part is known for all runs (`Holds`).
  have hholds := holds_run h
  refine ⟨⟨hholds.parts .path (by decide), hholds.parts .method (by decide), ?_⟩,
    ⟨hholds.bodies, rfl⟩, fun next hnext => ⟨?_, ?_, ?_⟩⟩
  · intro part hpart
    have hbody : part ≠ .body := by
      rintro rfl
      exact absurd hpart (by decide)
    rw [hholds.parts part hbody]
    simp only [List.mem_cons, List.not_mem_nil, or_false] at hpart
    rcases hpart with rfl | rfl | rfl <;> rfl
  · -- Nothing fails: what is set can be stored, and what is stored can be read.
    cases next with
    | set part v => exact ⟨_, (perform_set hnext).1⟩
    | read part =>
      by_cases hbody : part = .body
      · subst hbody
        exact ⟨_, rfl⟩
      · exact ⟨_, hholds.parts part hbody⟩
    | addBody entry => exact ⟨_, rfl⟩
  · exact fun part hchanges => read_perform_of_not_changes _ hchanges
  · rw [bodies_perform _ hnext]
    exact List.prefix_append _ _

/-- A header whose name and default need escapes, below an object with an empty list. -/
def escapedHeaders : Value :=
  .obj [("properties", .obj [("X-\"A\"\n", .obj [("default", .str "tab\t\\ é"),
    ("minimum", .int (-12345678901234567890))])]), ("required", .list []), ("nothing", .null)]

/-- Settings and readings in turn, and two body entries, of which the first has no body. -/
def mixedOperations : List Operation :=
  [.set .headers (.obj []), .read .query, .set .method (.str "PaTCh"), .addBody [],
   .set .headers escapedHeaders, .read .headers, .set .query (.list [.bool true]),
   .addBody [("description", .str "second"), ("body", .list [.null])]]

theorem escapedHeaders_faithful : Json.Faithful escapedHeaders where
  storable := by
    simp only [escapedHeaders, Json.Storable, Json.StorableMembers, Json.StorableItems, and_true,
      true_and]
    decide
  namesOnce := by
    simp [escapedHeaders, Json.NamesOnce, Json.NamesOnceMembers, Json.NamesOnceItems, Entries.keys]
  kind := by decide

theorem mixedOperations_admissible : ∀ o ∈ mixedOperations, o.Admissible := by
  intro o ho
  simp only [mixedOperations, List.mem_cons, List.not_mem_nil, or_false] at ho
  rcases ho with rfl | rfl | rfl | rfl | rfl | rfl | rfl | rfl
  · exact Json.faithful_emptyObject
  · trivial
  · exact ⟨_, rfl⟩
  · rintro v ⟨⟩
  · exact escapedHeaders_faithful
  · trivial
  · exact ⟨⟨trivial, trivial⟩, ⟨trivial, trivial⟩, by decide⟩
  · rintro v ⟨⟩
    exact ⟨⟨trivial, trivial⟩, ⟨trivial, trivial⟩, by decide⟩

/-- What is found after these operations. -/
theorem parts_independent_mixed :
    (∀ o ∈ mixedOperations, o.Admissible)
      ∧ (run {} mixedOperations).read .headers = .ok escapedHeaders
      ∧ (run {} mixedOperations).read .method = .ok (.str "patch")
      ∧ (run {} mixedOperations).read .pathParams = .ok (.obj [])
      ∧ List.Forall₂ KeepsBody [[], [("description", .str "second"), ("body", .list [.null])]]
          (run {} mixedOperations).bodies := by
  have hnew : ({} : Entry).request = {} := rfl
  have hlower : Unicode.lower "PaTCh" = "patch" := by decide +kernel
  have hheaders : lastSet mixedOperations .headers = some escapedHeaders := rfl
  have hmethod : lastSet mixedOperations .method = some (.str "PaTCh") := rfl
  have hpathParams : lastSet mixedOperations .pathParams = none := rfl
  have hadded : addedBodies mixedOperations
      = [[], [("description", .str "second"), ("body", .list [.null])]] := rfl
  obtain ⟨⟨_, hreadMethod, hread⟩, ⟨hbodies, _⟩, _⟩ :=
    parts_independent hnew mixedOperations_admissible
  refine ⟨mixedOperations_admissible, ?_, ?_, ?_, ?_⟩
  · rw [← hnew, hread .headers (by decide), hheaders, Option.getD_some]
  · rw [← hnew, hreadMethod, hmethod, Option.map_some, Option.getD_some, methodRead, hlower]
  · rw [← hnew, hread .pathParams (by decide), hpathParams, Option.getD_none]
  · rw [← hnew, ← hadded]
    exact hbodies

end Ramlify.Request
