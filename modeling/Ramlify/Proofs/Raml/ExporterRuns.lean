import Mathlib.Data.List.Induction
import Mathlib.Logic.Function.Basic
import Ramlify.Proofs.Raml.ParameterWhitelist
import Ramlify.Proofs.RequestCells
import Ramlify.Raml.Exporter

/-!
# Ramlify — a write leaves a definition or nothing

An exporter lives through many loads and writes, and it shares its project with its user: what one
write filled in where it read the project is still there at the next one, also if it failed on the
way. A definition only depends on what the parts of the operations read as, and reading changes
none of that. So a write sees the projects as they were at the beginning, and of the writes before
it nothing but the definition that was built last.

* **`definition_afterBuilding`** — what a pass leaves in a project does not show.
* **`afterBuilding_of_definition`** — a pass that succeeds has read every operation.
* **`Session.Shares.perform`**, **`Session.shares_run`** — one step, and by induction all of them.
* **`Session.write_leaves_no_trace`** — the answer of any write after any steps.
-/

namespace Ramlify.Raml

/-! ## What reading fills in

Reading a query or path parameters that are missing stores an empty schema for them. Doing so again
changes nothing, and neither does it change what is read. -/

/-- An operation whose query and path parameters have been read. -/
def filledIn (e : Endpoint) : Endpoint := afterReading (afterReading e .query) .pathParams

/-- What one reading fills in is filled in anyway. -/
theorem filledIn_afterReading (e : Endpoint) (part : Request.Part) :
    filledIn (afterReading e part) = filledIn e := by
  cases part with
  | query | pathParams =>
    simp only [filledIn, afterReading, Request.afterReading, Request.filled_filled]
  | path | method | headers | body => rfl

/-- Nothing is left to be filled in a second time. -/
theorem filledIn_filledIn (e : Endpoint) : filledIn (filledIn e) = filledIn e :=
  (filledIn_afterReading _ .pathParams).trans (filledIn_afterReading e .query)

/-- The same for what a declaration has read, whether or not it was made. -/
theorem filledIn_afterDeclaring (version : Version) (mediaType : Value) (e : Endpoint) :
    filledIn (afterDeclaring version mediaType e) = filledIn e := by
  unfold afterDeclaring
  split
  · rfl
  · split
    · exact filledIn_afterReading e .query
    · exact filledIn_filledIn e

/-- A part that was filled in is read as it was before. -/
theorem read_filledIn (e : Endpoint) (part : Request.Part) :
    (filledIn e).request.read part = e.request.read part :=
  (Request.read_afterReading _ .pathParams part).trans (Request.read_afterReading _ .query part)

/-- A project all of whose operations have been read. -/
def allFilledIn (project : Project) : Project :=
  { project with endpoints := project.endpoints.map filledIn }

/-- The operations of a project after a pass, some of which it has read. -/
theorem map_filledIn_endpointsAfter (version : Version) (project : Project) (mediaType : Value)
    (written : Annotations) (ids : List Scalar) :
    (endpointsAfter version project mediaType written ids).map filledIn
      = project.endpoints.map filledIn := by
  unfold endpointsAfter
  refine List.ext_getElem (by simp) fun number _ _ => ?_
  simp only [List.getElem_map, List.getElem_mapIdx]
  split
  · exact filledIn_afterDeclaring version mediaType _
  · rfl

/-- Whatever a pass has read, it has changed nothing but what reading fills in. -/
theorem allFilledIn_afterBuilding (version : Version) (project : Project) :
    allFilledIn (afterBuilding version project) = allFilledIn project := by
  unfold afterBuilding
  split
  · rfl
  · split
    · rfl
    · unfold allFilledIn
      dsimp only
      rw [map_filledIn_endpointsAfter]

/-! ## What was filled in does not show

Each function of the pass takes of an operation only what is read of it; so a project and the same
project filled in are one and the same to it. -/

/-- What an operation exchanges is made from what is read. -/
theorem addExchange_filledIn (version : Version) (mediaType : Value) (e : Endpoint) (m : Members) :
    addExchange version mediaType (filledIn e) m = addExchange version mediaType e m := by
  unfold addExchange
  rw [read_filledIn, read_filledIn, read_filledIn]
  rfl

/-- A declaration is made from what is read. -/
theorem methodOf_filledIn (version : Version) (project : Project) (mediaType : Value)
    (e : Endpoint) :
    methodOf version (allFilledIn project) mediaType (filledIn e)
      = methodOf version project mediaType e := by
  show (introduction version project.traits e >>= fun m =>
    addExchange version mediaType (filledIn e) m >>= _) = _
  simp only [addExchange_filledIn]
  rfl

/-- An operation is put in the tree by its declaration. -/
theorem addOperation_filledIn (version : Version) (project : Project) (mediaType tree : Value)
    (e : Endpoint) :
    addOperation version (allFilledIn project) mediaType tree (filledIn e)
      = addOperation version project mediaType tree e := by
  unfold addOperation
  rw [methodOf_filledIn]
  rfl

/-- The order is told by ids, which reading leaves alone. -/
theorem inDisplayOrder_filledIn (groups : List Members) (endpoints : List Endpoint) :
    inDisplayOrder groups (endpoints.map filledIn)
      = (inDisplayOrder groups endpoints).map (List.map filledIn) := by
  unfold inDisplayOrder
  cases listedIds groups with
  | error failure => rfl
  | ok ids =>
    refine congrArg Except.ok ?_
    have hsorted : (sortByPosition ids endpoints).map filledIn
        = sortByPosition ids (endpoints.map filledIn) := by
      unfold sortByPosition
      refine List.map_mergeSort fun a _ b _ => ?_
      rfl
    exact hsorted.symm

theorem resources_allFilledIn (version : Version) (project : Project) (mediaType : Value) :
    resources version (allFilledIn project) mediaType = resources version project mediaType := by
  have hstep :
      (fun tree e => addOperation version (allFilledIn project) mediaType tree (filledIn e))
        = addOperation version project mediaType :=
    funext fun tree => funext fun e => addOperation_filledIn version project mediaType tree e
  unfold resources
  show (liftM (inDisplayOrder project.environment.resourcesOrder.docs
    (project.endpoints.map filledIn)) : Pass (List Endpoint)) >>= _ = _
  rw [inDisplayOrder_filledIn]
  -- If the order cannot be told, neither pass goes on.
  cases inDisplayOrder project.environment.resourcesOrder.docs project.endpoints with
  | error failure => rfl
  | ok shown =>
    have hshown : (shown.map filledIn).foldlM
          (addOperation version (allFilledIn project) mediaType) (.obj [])
        = shown.foldlM (addOperation version project mediaType) (.obj []) := by
      rw [List.foldlM_map, hstep]
    exact congrArg (fun tree : Pass Value => tree >>= fun tree => liftM tree.members) hshown

theorem definition_allFilledIn (version : Version) (project : Project) :
    definition version (allFilledIn project) = definition version project := by
  have hcontent : content version (allFilledIn project) = content version project := by
    show opening version project >>= (fun m =>
      resources version (allFilledIn project) (Members.find m "mediaType") >>= _) = _
    simp only [resources_allFilledIn]
    rfl
  unfold definition
  rw [hcontent]

/-- **What a pass leaves in a project does not show** in the definitions of the project. -/
theorem definition_afterBuilding (version other : Version) (project : Project) :
    definition version (afterBuilding other project) = definition version project := by
  rw [← definition_allFilledIn, allFilledIn_afterBuilding, definition_allFilledIn]

/-! ## What a pass that succeeds has read

A pass that fails has read the operations up to the one it failed at. One that succeeds has read all
of them, whatever their order. -/

/-- Whether the parameters of an address can be declared does not depend on the annotations. -/
theorem exists_addressParameters {schema : Value} {given : Option Value} {a a' : Annotations}
    (h : addressParameters schema a = .ok (given, a')) (other : Annotations) :
    ∃ result, addressParameters schema other = .ok result := by
  obtain ⟨members, hmembers, hcases⟩ := addressParameters_cases h
  have hparameters : ∃ result, addressParametersOf members other = .ok result := by
    unfold addressParametersOf
    rcases hcases with ⟨hvacant, _⟩ | ⟨hgiven, properties, _, hproperties, _⟩
    · rw [hvacant]
      exact ⟨(none, other), rfl⟩
    · obtain ⟨a₁, hmapped, _⟩ := exists_mapM_addressParameter (objectProperties properties) other
      rw [if_neg hgiven, hproperties]
      exact ⟨_, Pass.bind_eq_ok.mpr ⟨properties, other, rfl,
        Pass.bind_eq_ok.mpr ⟨_, a₁, hmapped, rfl⟩⟩⟩
  obtain ⟨result, hresult⟩ := hparameters
  rw [addressParameters_eq]
  exact ⟨result, Pass.bind_eq_ok.mpr
    ⟨members, other, Pass.lift_eq_ok.mpr ⟨hmembers, rfl⟩, hresult⟩⟩

/-- An operation that was declared has been read. -/
theorem afterDeclaring_of_methodOf {version : Version} {project : Project} {mediaType : Value}
    {e : Endpoint} {m : Members} {a a' : Annotations}
    (h : methodOf version project mediaType e a = .ok (m, a')) :
    afterDeclaring version mediaType e = filledIn e := by
  have hparts := methodParts h
  obtain ⟨body, hbody, _⟩ := hparts.body
  obtain ⟨schema, headers, hschema, hheaders, _⟩ := hparts.headers
  obtain ⟨a₁, responses, a₂, hresponses, _⟩ := hparts.responses
  obtain ⟨querySchema, a₃, query, a₄, hread, hquery, _⟩ := hparts.query
  obtain ⟨byCode, a₅, hlift, _⟩ := Pass.bind_eq_ok.mp hresponses
  -- What comes before the query was made, so the query was read; it gave parameters, so the path
  -- was read as well.
  have hbefore : declareBeforeQuery version mediaType e = .ok () := by
    unfold declareBeforeQuery
    rw [hbody, hschema]
    show (namedParameters schema >>= fun _ => _) = _
    rw [hheaders]
    show (responsesByCode version (mediaTypeFor e.produces mediaType) e.responses
      >>= fun _ => _) = _
    rw [(Pass.lift_eq_ok.mp hlift).1]
    rfl
  obtain ⟨result, hresult⟩ := exists_addressParameters hquery {}
  have hdeclared : (declareQuery e).run {} = .ok result := by
    unfold declareQuery
    rw [hread]
    exact hresult
  unfold afterDeclaring
  rw [hbefore]
  dsimp only
  rw [hdeclared]
  rfl

/-- Where all operations have been added to a tree, all were begun and have been read. -/
theorem begun_of_added {version : Version} {project : Project} {mediaType : Value}
    {operations : List Endpoint} {tree result : Value} {a a' : Annotations}
    (h : operations.foldlM (addOperation version project mediaType) tree a = .ok (result, a')) :
    begun version project mediaType tree a operations = operations.length
      ∧ ∀ e ∈ operations, afterDeclaring version mediaType e = filledIn e := by
  induction operations generalizing tree a with
  | nil => exact ⟨rfl, fun e he => nomatch he⟩
  | cons e operations ih =>
    rw [List.foldlM_cons] at h
    obtain ⟨next, a₁, hnext, hrest⟩ := Pass.bind_eq_ok.mp h
    obtain ⟨method, a₂, hmethod, _⟩ := Pass.bind_eq_ok.mp hnext
    obtain ⟨hcount, hread⟩ := ih hrest
    constructor
    · have hrun : (addOperation version project mediaType tree e).run a = .ok (next, a₁) := hnext
      rw [begun, hrun]
      exact congrArg (· + 1) hcount
    · exact List.forall_mem_cons.mpr ⟨afterDeclaring_of_methodOf hmethod, hread⟩

/-- Numbering the operations does not change the order in which they are shown. -/
theorem map_fst_numberedByPosition (ids : List Scalar) (endpoints : List Endpoint) :
    (numberedByPosition ids endpoints).map (·.1) = sortByPosition ids endpoints := by
  have hsorted : (numberedByPosition ids endpoints).map (·.1)
      = sortByPosition ids (endpoints.zipIdx.map (·.1)) := by
    unfold numberedByPosition sortByPosition
    refine List.map_mergeSort fun a _ b _ => ?_
    rfl
  rw [hsorted, List.zipIdx_map_fst]

/-- Each operation has its number among those that are shown. -/
theorem map_snd_numberedByPosition (ids : List Scalar) (endpoints : List Endpoint) :
    ((numberedByPosition ids endpoints).map (·.2)).Perm (List.range endpoints.length) := by
  have hperm : (numberedByPosition ids endpoints).Perm endpoints.zipIdx :=
    List.mergeSort_perm _ _
  have hnumbers := hperm.map (·.2)
  rwa [List.zipIdx_map_snd, ← List.range_eq_range'] at hnumbers

/-- **A pass that succeeds has read every operation** of the project. -/
theorem afterBuilding_of_definition {version : Version} {project : Project} {data : Members}
    (h : definition version project = .ok data) :
    afterBuilding version project = allFilledIn project := by
  obtain ⟨⟨m, written⟩, hcontent, _⟩ := Outcome.bind_eq_ok.mp h
  obtain ⟨head, a₁, hopening, h₁⟩ := Pass.bind_eq_ok.mp hcontent
  obtain ⟨tree, a₂, hresources, _⟩ := Pass.bind_eq_ok.mp h₁
  obtain ⟨shown, a₃, hlift, h₂⟩ := Pass.bind_eq_ok.mp hresources
  obtain ⟨hshown, rfl⟩ := Pass.lift_eq_ok.mp hlift
  obtain ⟨ids, hids, hsorted⟩ := Outcome.bind_eq_ok.mp hshown
  cases hsorted
  obtain ⟨result, a₄, hadded, _⟩ := Pass.bind_eq_ok.mp h₂
  obtain ⟨hcount, hread⟩ := begun_of_added hadded
  have hopening : (opening version project).run { enabled := version.hasAnnotations }
    = .ok (head, a₃) := hopening
  unfold afterBuilding
  rw [hopening]
  dsimp only
  rw [hids]
  dsimp only
  unfold allFilledIn endpointsAfter
  dsimp only
  rw [map_fst_numberedByPosition, hcount,
    List.take_of_length_le (by simp [numberedByPosition, sortByPosition])]
  congr 1
  -- All operations are compared by their places in the project: each was begun, as its number is
  -- among those that were shown, and begun ones are filled in.
  refine List.ext_getElem (by simp) fun number hnumber _ => ?_
  rw [List.length_mapIdx] at hnumber
  have hbegun : number ∈ (numberedByPosition ids project.endpoints).map (·.2) :=
    (map_snd_numberedByPosition ids project.endpoints).mem_iff.mpr (List.mem_range.mpr hnumber)
  rw [List.getElem_mapIdx, List.getElem_map, if_pos hbegun]
  exact hread _ (List.mem_mergeSort.mpr (List.getElem_mem hnumber))

/-! ## One write

What a write does, by what becomes of the definition. -/

namespace Exporter

variable {exporter : Exporter} {project : Project}

/-- Without a project a write fails and changes nothing. -/
theorem write_of_none (h : exporter.project = none) (form : String) :
    exporter.write form = (exporter, .error .noProject) := by
  unfold write
  rw [h]

/-- If the definition cannot be made, the exporter keeps the one that it had. -/
theorem write_of_error (h : exporter.project = some project) {failure : Failure}
    (hfails : definition exporter.version project = .error failure) (form : String) :
    exporter.write form
      = (exporter.load (afterBuilding exporter.version project), .error failure) := by
  unfold write
  rw [h]
  dsimp only
  rw [hfails]

/-- If it can be made, the exporter keeps it, also if the form is one that is not written. -/
theorem write_of_definition (h : exporter.project = some project) {data : Members}
    (hdata : definition exporter.version project = .ok data) (form : String) :
    exporter.write form
      = ({ exporter.load (afterBuilding exporter.version project) with data := some data },
        serialize exporter.version form data) := by
  unfold write
  rw [h]
  dsimp only
  rw [hdata]

/-- A write keeps its version, and its project up to what reading fills in. -/
theorem write_keeps (exporter : Exporter) (form : String) :
    (exporter.write form).1.version = exporter.version
      ∧ (exporter.write form).1.project
        = exporter.project.map (afterBuilding exporter.version) := by
  cases hproject : exporter.project with
  | none =>
    rw [write_of_none hproject]
    exact ⟨rfl, hproject⟩
  | some project =>
    cases hdata : definition exporter.version project with
    | error failure =>
      rw [write_of_error hproject hdata]
      exact ⟨rfl, rfl⟩
    | ok data =>
      rw [write_of_definition hproject hdata]
      exact ⟨rfl, rfl⟩

/-- Exporters of one version answer alike for projects with one definition, whatever they wrote
before. -/
theorem write_congr (h : exporter.project = some project) (fresh : Exporter)
    (hversion : fresh.version = exporter.version) {current : Project}
    (hsame : definition exporter.version current = definition exporter.version project)
    (form : String) :
    ((fresh.load current).write form).2 = (exporter.write form).2
      ∧ ∀ data, definition exporter.version project = .ok data →
        ((fresh.load current).write form).1.data = (exporter.write form).1.data := by
  have hcurrent : definition (fresh.load current).version current
      = definition exporter.version project := by
    rw [← hsame, ← hversion]
    rfl
  cases hdata : definition exporter.version project with
  | error failure =>
    rw [write_of_error h hdata, write_of_error rfl (hcurrent.trans hdata)]
    exact ⟨rfl, fun _ hother => nomatch hother⟩
  | ok data =>
    rw [write_of_definition h hdata, write_of_definition rfl (hcurrent.trans hdata)]
    refine ⟨?_, fun _ _ => rfl⟩
    rw [← hversion]
    rfl

/-! ## An exporter and its user

The projects belong to the user and are shared with the exporter. So a session has both, and what a
write fills in shows in the project of the user too. -/

/-- What can be asked of an exporter: to load a project of its user, or to write. -/
inductive Step where
  | load (number : Nat)
  | write (form : String)

/-- The project that a step loads. -/
def Step.loaded? : Step → Option Nat
  | load number => some number
  | write _ => none

/-- The project that was loaded last in some steps. -/
def lastLoaded (steps : List Step) : Option Nat := steps.reverse.findSome? Step.loaded?

/-- The last step loads, or what was loaded before it stays. -/
theorem lastLoaded_concat (steps : List Step) (step : Step) :
    lastLoaded (steps ++ [step]) = step.loaded?.or (lastLoaded steps) := by
  rw [lastLoaded, List.reverse_append, List.findSome?_append]
  cases step <;> rfl

/-- An exporter, and the projects of its user by their numbers. The project that is loaded belongs
to both: what is filled in for the one is filled in for the other. -/
structure Session where
  exporter : Exporter
  projects : Nat → Project
  loaded : Option Nat := none

namespace Session

/-- A new exporter, which has loaded nothing. -/
def new (version : Version) (projects : Nat → Project) : Session :=
  { exporter := { version }, projects }

def load (s : Session) (number : Nat) : Session :=
  { s with exporter := s.exporter.load (s.projects number), loaded := some number }

/-- The projects of a user whose exporter has come to hold a project. -/
def shared (projects : Nat → Project) : Option Nat → Option Project → Nat → Project
  | some number, some project => Function.update projects number project
  | _, _ => projects

/-- Writes the project that is loaded. -/
def write (s : Session) (form : String) : Session × Outcome String :=
  let (exporter, outcome) := s.exporter.write form
  ({ s with exporter, projects := shared s.projects s.loaded exporter.project }, outcome)

def perform (s : Session) : Step → Session
  | .load number => s.load number
  | .write form => (s.write form).1

/-- A session after some steps. -/
def run (s : Session) (steps : List Step) : Session := steps.foldl perform s

/-- The last of some steps comes after all others. -/
theorem run_concat (s : Session) (steps : List Step) (step : Step) :
    s.run (steps ++ [step]) = (s.run steps).perform step := by
  rw [run, List.foldl_append]
  rfl

/-! ## What steps leave behind

The invariant of a session has four parts: version and number do not change unless something is
loaded, the exporter holds what the user has, and the projects of the user are those of the
beginning up to what reading fills in. The last part is what makes the answers independent of the
steps. -/

/-- A session of an exporter of some version, for a user who had some projects at the beginning and
loaded one of them last. The exporter holds that project as the user has it now, and no project has
changed but for what reading fills in. -/
structure Shares (version : Version) (projects : Nat → Project) (loaded : Option Nat)
    (s : Session) : Prop where
  version : s.exporter.version = version
  number : s.loaded = loaded
  held : s.exporter.project = loaded.map s.projects
  unchanged : ∀ number, allFilledIn (s.projects number) = allFilledIn (projects number)

variable {version : Version} {projects : Nat → Project} {loaded : Option Nat} {s : Session}

/-- A write changes the project that is loaded, for both at once, and only by what reading fills in.
-/
theorem Shares.write (h : Shares version projects loaded s) (form : String) :
    Shares version projects loaded (s.write form).1 := by
  obtain ⟨hversion, hproject⟩ := write_keeps s.exporter form
  rw [h.held] at hproject
  have hprojects : (s.write form).1.projects = shared s.projects loaded
      ((loaded.map s.projects).map (afterBuilding s.exporter.version)) := by
    rw [← hproject, ← h.number]
    rfl
  refine ⟨hversion.trans h.version, h.number, ?_, ?_⟩
  · show (s.exporter.write form).1.project = _
    rw [hproject, hprojects]
    cases loaded with
    | none => rfl
    | some number => exact congrArg some (Function.update_self number _ s.projects).symm
  · rw [hprojects]
    cases loaded with
    | none => exact h.unchanged
    | some number =>
      intro other
      show allFilledIn (Function.update s.projects number _ other) = _
      -- Of the projects of the user only the loaded one was written back.
      by_cases hother : other = number
      · rw [hother, Function.update_self, allFilledIn_afterBuilding, h.unchanged]
      · rw [Function.update_of_ne hother, h.unchanged]

/-- **One step** loads a project as it is, or fills in what it reads of the one that is loaded. -/
theorem Shares.perform (h : Shares version projects loaded s) (step : Step) :
    Shares version projects (step.loaded?.or loaded) (s.perform step) := by
  cases step with
  | load number => exact ⟨h.version, rfl, rfl, h.unchanged⟩
  | write form => exact h.write form

/-- **All steps**: the exporter holds what was loaded last, as the user has it now. -/
theorem shares_run (version : Version) (projects : Nat → Project) (steps : List Step) :
    Shares version projects (lastLoaded steps) ((new version projects).run steps) := by
  induction steps using List.reverseRecOn with
  | nil => exact ⟨rfl, rfl, rfl, fun _ => rfl⟩
  | append_singleton steps step ih =>
    rw [run_concat, lastLoaded_concat]
    exact ih.perform step

/-- What a project of the user becomes does not depend on the steps. -/
theorem Shares.definition_eq (h : Shares version projects loaded s) (number : Nat) :
    definition version (s.projects number) = definition version (projects number) := by
  rw [← definition_allFilledIn, h.unchanged, definition_allFilledIn]

/-- **A write leaves a definition or nothing.** After any steps of a new exporter with the projects
of its user, where `s` is what has become of them:

* if no project was loaded, a write fails and changes nothing;
* if the definition of the project that is loaded cannot be built, a write fails for the same reason
  and the exporter keeps the definition that it had;
* if it can be built, the exporter keeps it, and the write can only fail because of the form;
* a write is answered as by a new exporter of the version which loads the project that was loaded
  last, as it was at the beginning or as it is now, and writes once; where it is answered by a text,
  that exporter also keeps the same definition. -/
theorem write_leaves_no_trace (version : Version) (projects : Nat → Project) (steps : List Step)
    (form : String) {s : Session} (hs : (new version projects).run steps = s) :
    (lastLoaded steps = none → s.write form = (s, .error .noProject))
    ∧ ∀ number, lastLoaded steps = some number →
      (∀ failure, definition version (s.projects number) = .error failure →
        (s.write form).2 = .error failure
          ∧ (s.write form).1.exporter.data = s.exporter.data)
      ∧ (∀ data, definition version (s.projects number) = .ok data →
        (s.write form).1.exporter.data = some data
          ∧ (form = "yaml" → (s.write form).2 = .ok (document version data))
          ∧ (form ≠ "yaml" → (s.write form).2 = .error (.noSerialization form)))
      ∧ ∀ project, project = projects number ∨ project = s.projects number →
        (((Exporter.mk version none none).load project).write form).2 = (s.write form).2
          ∧ ∀ text, (s.write form).2 = .ok text →
            (((Exporter.mk version none none).load project).write form).1.data
              = (s.write form).1.exporter.data := by
  have hshares : Shares version projects (lastLoaded steps) s := hs ▸ shares_run _ _ steps
  have hversion := hshares.version
  have hloaded := hshares.number
  have hheld := hshares.held
  refine ⟨fun hnone => ?_, fun number hnumber => ?_⟩
  · rw [hnone] at hheld hloaded
    unfold Session.write
    rw [write_of_none hheld, hloaded]
    obtain ⟨exporter, held, _⟩ := s
    cases hloaded
    rfl
  · rw [hnumber] at hheld
    have hwrite : (s.write form).1.exporter = (s.exporter.write form).1
      ∧ (s.write form).2 = (s.exporter.write form).2 := ⟨rfl, rfl⟩
    rw [hwrite.1, hwrite.2, ← hversion]
    refine ⟨fun failure hfails => ?_, fun data hdata => ?_, fun project hproject => ?_⟩
    · rw [write_of_error hheld hfails]
      exact ⟨rfl, rfl⟩
    · rw [write_of_definition hheld hdata]
      exact ⟨rfl, fun hform => if_pos hform, fun hform => if_neg hform⟩
    · -- The project as it was at the beginning and as it is now have one definition.
      have hsame : definition s.exporter.version project
          = definition s.exporter.version (s.projects number) := by
        rcases hproject with rfl | rfl
        · rw [hversion, hshares.definition_eq]
        · rfl
      obtain ⟨hanswer, hkept⟩ := write_congr hheld ⟨s.exporter.version, none, none⟩ rfl hsame form
      refine ⟨hanswer, fun text htext => ?_⟩
      cases hdata : definition s.exporter.version (s.projects number) with
      | error failure =>
        rw [write_of_error hheld hdata] at htext
        cases htext
      | ok data => exact hkept data hdata

def bare (path : String) (pathParams : Option String) : Endpoint :=
  { request := { path, method := "get", pathParams } }

/-- A clinic whose visits have no text for their query, and one whose pets are read before the
owners turn out to have broken path parameters. -/
def clinicProjects : Nat → Project
  | 0 => { name := "Visits", endpoints := [bare "/visits" none] }
  | _ => { name := "Pets", endpoints := [bare "/pets" none, bare "/owners" (some "\x7b")] }

theorem definition_visits : ∃ data, definition .v10 (clinicProjects 0) = .ok data := by
  refine Outcome.exists_of_isSome ?_
  unfold definition content resources
  rw [show (clinicProjects 0).environment.resourcesOrder.docs = [] from rfl, inDisplayOrder_nil]
  decide +kernel

/-- The pets have none, since the path parameters of the owners cannot be read. -/
theorem definition_pets : ∃ failure, definition .v10 (clinicProjects 1) = .error failure := by
  have hfails : (definition .v10 (clinicProjects 1)).toOption = none := by
    unfold definition content resources
    rw [show (clinicProjects 1).environment.resourcesOrder.docs = [] from rfl, inDisplayOrder_nil]
    decide +kernel
  cases h : definition .v10 (clinicProjects 1) with
  | error failure => exact ⟨failure, rfl⟩
  | ok data =>
    rw [h] at hfails
    cases hfails

/-- The visits are asked for in a form that there is not, the pets fail, and the visits are written
as if nothing had been. -/
theorem write_leaves_no_trace_clinic :
    ∃ s₁ s₂ s₃ data failure text,
      (new .v10 clinicProjects).run [.load 0] = s₁ ∧ s₁.run [.write "json", .load 1] = s₂
      ∧ s₂.run [.write "yaml", .load 0] = s₃
      ∧ definition .v10 (clinicProjects 0) = .ok data
      ∧ definition .v10 (clinicProjects 1) = .error failure
      ∧ (s₁.write "json").2 = .error (.noSerialization "json") ∧ s₂.exporter.data = some data
      ∧ (s₂.write "yaml").2 = .error failure ∧ s₃.exporter.data = some data
      ∧ (s₃.write "yaml").2 = .ok text
      ∧ (((Exporter.mk .v10 none none).load (clinicProjects 0)).write "yaml").2 = .ok text := by
  obtain ⟨data, hvisits⟩ := definition_visits
  obtain ⟨failure, hpets⟩ := definition_pets
  have hcurrent : ∀ steps number, definition .v10
      (((new .v10 clinicProjects).run steps).projects number)
        = definition .v10 (clinicProjects number) :=
    fun steps number => (shares_run .v10 clinicProjects steps).definition_eq number
  -- The three writes in their order, each after the steps before it.
  obtain ⟨-, hdata₁, -⟩ :=
    (write_leaves_no_trace .v10 clinicProjects [.load 0] "json" rfl).2 0 rfl
  obtain ⟨hkept₁, -, hanswer₁⟩ := hdata₁ data ((hcurrent _ 0).trans hvisits)
  obtain ⟨hfails₂, -⟩ := (write_leaves_no_trace .v10 clinicProjects
    [.load 0, .write "json", .load 1] "yaml" rfl).2 1 rfl
  obtain ⟨hanswer₂, hkept₂⟩ := hfails₂ failure ((hcurrent _ 1).trans hpets)
  obtain ⟨-, hdata₃, hfresh₃⟩ := (write_leaves_no_trace .v10 clinicProjects
    [.load 0, .write "json", .load 1, .write "yaml", .load 0] "yaml" rfl).2 0 rfl
  obtain ⟨-, hanswer₃, -⟩ := hdata₃ data ((hcurrent _ 0).trans hvisits)
  exact ⟨_, _, _, data, failure, document .v10 data, rfl, rfl, rfl, hvisits, hpets,
    hanswer₁ (by decide), hkept₁, hanswer₂, hkept₂.trans hkept₁, hanswer₃ rfl,
    (hfresh₃ (clinicProjects 0) (Or.inl rfl)).1.trans (hanswer₃ rfl)⟩

end Session

end Exporter

end Ramlify.Raml
