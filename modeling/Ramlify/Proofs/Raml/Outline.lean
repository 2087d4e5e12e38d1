import Mathlib.Data.List.Forall2
import Ramlify.Proofs.Raml.AnnotationNames
import Ramlify.Proofs.Raml.ResourceTree

/-!
# Ramlify — outlines of resources

The outline of a resource is what it says in any version: the resources below it, its name and its
parameters without annotations, and of each method the parts that are the same in all versions. An
outline keeps all keys in their order, and only the values are replaced; so trees can be built in
lockstep, and their outlines stay equal.

* **`outline`**, **`outlineMembers`** — the outline of a tree; **`outlineMembers_eq`** says it key
  by key.
* **`outline_insertHere`** — the last step of an insertion in two trees;
  **`outline_insertMethod`** is the whole insertion and **`outline_insertAll`** the whole run.
-/

namespace Ramlify.Raml

/-! ## Without annotations

Annotations are told by their names, here as a test, because members are filtered by it. -/

/-- Whether a name is that of an annotation. -/
def isMarked (name : String) : Bool := (occurringInMembers.kindOfName? name).isSome

/-- The test and the property say the same. -/
theorem isMarked_eq_false_iff {name : String} : isMarked name = false ↔ Unmarked name := by
  unfold isMarked
  constructor
  · rintro h kind rfl
    rw [kindOfName?_eq_some_iff.mpr ⟨kind, rfl, rfl⟩] at h
    cases h
  · intro h
    cases hkind : occurringInMembers.kindOfName? name with
    | none => rfl
    | some kind =>
      obtain ⟨k, _, heq⟩ := kindOfName?_eq_some_iff.mp hkind
      exact absurd heq (h k)

/-- Members without annotations. -/
def unannotated (m : Members) : Members := m.filter fun member => !isMarked member.1

/-- A parameter without annotations. -/
def plainParameter : Value → Value
  | .obj fields => .obj (unannotated fields)
  | v => v

/-- Some parameters, each without annotations. -/
def plainMembers (parameters : Members) : Members :=
  Entries.mapValues (fun _ => plainParameter) parameters

/-- Parameters without annotations. -/
def plainParameters : Value → Value
  | .obj parameters => .obj (plainMembers parameters)
  | v => v

/-! ## Outlines

An outline replaces the values of a tree and keeps its keys. Which member is replaced by what
depends on its name, so reading and writing under a name can be done before or after. -/

/-- Whether a member of a response is the same in all versions. -/
def isCommonField (name : String) : Bool := name ∈ ["description", "headers"]

/-- The description and the headers of a response. -/
def outlineResponse : Value → Value
  | .obj fields => .obj (fields.filter fun field => isCommonField field.1)
  | v => v

/-- The responses by their codes, without annotations. -/
def outlineResponses : Value → Value
  | .obj responses =>
    .obj (Entries.mapValues (fun _ => outlineResponse) (unannotated responses))
  | v => v

/-- The parts of a method that are the same in all versions. -/
def commonNames : List String :=
  ["protocols", "is", "securedBy", "headers", "queryParameters", "responses"]

/-- A part of a method without what is different between versions. -/
def outlinePart (name : String) : Value → Value :=
  if name = "queryParameters" then plainParameters
  else if name = "responses" then outlineResponses
  else id

/-- The parts of a method that are the same in all versions. -/
def outlineMethod : Value → Value
  | .obj m => .obj (commonNames.filterMap fun name =>
      (Entries.get? m name).map fun v => (name, outlinePart name v))
  | v => v

mutual

/-- The outline of a resource. -/
def outline : Value → Value
  | .obj members => .obj (outlineMembers members)
  | v => v

/-- The outlines of some members of a resource: of the resources below it, of its name and its
parameters, and of its methods. -/
def outlineMembers : List (String × Value) → List (String × Value)
  | [] => []
  | (name, v) :: rest =>
    (name,
      if name.startsWith "/" then outline v
      else if name = "displayName" then v
      else if name = "uriParameters" then plainParameters v
      else outlineMethod v) :: outlineMembers rest

end

/-- The outline of a member of a resource. -/
def outlineMember (name : String) (v : Value) : Value :=
  if name.startsWith "/" then outline v
  else if name = "displayName" then v
  else if name = "uriParameters" then plainParameters v
  else outlineMethod v

/-- **Outlines keep the keys.** -/
theorem outlineMembers_eq (members : Members) :
    outlineMembers members = Entries.mapValues outlineMember members := by
  induction members with
  | nil => rfl
  | cons member rest ih =>
    obtain ⟨name, v⟩ := member
    rw [outlineMembers, ih]
    rfl

theorem outlineMember_resourceKey (segment : String) (v : Value) :
    outlineMember (resourceKey segment) v = outline v := by
  rw [outlineMember, if_pos (startsWith_resourceKey segment)]

/-- The name of a resource is the same in all versions. -/
theorem outlineMember_displayName (v : Value) : outlineMember "displayName" v = v := by
  rw [outlineMember, if_neg (by simp), if_pos rfl]

/-- The parameters of a resource are told without annotations. -/
theorem outlineMember_uriParameters (v : Value) :
    outlineMember "uriParameters" v = plainParameters v := by
  rw [outlineMember, if_neg (by simp), if_neg (by decide), if_pos rfl]

/-- Under the key of a method stands a method. -/
theorem outlineMember_method {key : String} (h : IsMethodKey key) (v : Value) :
    outlineMember key v = outlineMethod v := by
  rw [outlineMember, if_neg (by rw [h.1]; exact Bool.false_ne_true), if_neg h.2.1, if_neg h.2.2]

section

variable (m : Members) (name : String)

theorem get?_outlineMembers :
    Entries.get? (outlineMembers m) name = (Entries.get? m name).map (outlineMember name) := by
  rw [outlineMembers_eq, Entries.get?_mapValues]

theorem put_outlineMembers (v : Value) :
    outlineMembers (Entries.put m name v)
      = Entries.put (outlineMembers m) name (outlineMember name v) := by
  rw [outlineMembers_eq, outlineMembers_eq, Entries.put_mapValues]

theorem erase_outlineMembers :
    outlineMembers (Entries.erase m name) = Entries.erase (outlineMembers m) name := by
  rw [outlineMembers_eq, outlineMembers_eq, Entries.erase_mapValues]

theorem filter_outlineMembers (kept : String → Bool) :
    outlineMembers (m.filter fun member => kept member.1)
      = (outlineMembers m).filter fun member => kept member.1 := by
  rw [outlineMembers_eq, outlineMembers_eq, Entries.filter_mapValues]

end

/-! ## The last step of an insertion

The step opens the resource, moves parameters and puts the method. Each of these can be done with
the outlines instead, and the outline of what comes of it is the same. -/

/-- Parameters without annotations are as many as before. -/
@[simp] theorem isVacant_plainParameters (v : Value) :
    (plainParameters v).isVacant = v.isVacant := by
  cases v with
  | obj members => exact Entries.isEmpty_mapValues _ members
  | null | bool | int | float | str | list => rfl

theorem openedFor_outlineMembers (resource : Members) :
    outlineMembers (openedFor resource) = openedFor (outlineMembers resource) := by
  have hhas : Entries.has (outlineMembers resource) "uriParameters"
      = Entries.has resource "uriParameters" := by
    rw [Entries.has, get?_outlineMembers, Option.isSome_map, ← Entries.has]
  unfold openedFor
  rw [hhas]
  split
  · rfl
  · rw [put_outlineMembers, outlineMember_uriParameters]
    rfl

theorem withParameters_outlineMembers (resource : Members) (moved : Value) :
    outlineMembers (withParameters resource moved)
      = withParameters (outlineMembers resource) (plainParameters moved) := by
  unfold withParameters
  rw [isVacant_plainParameters]
  split
  · rw [erase_outlineMembers, put_outlineMembers, outlineMember_uriParameters,
      openedFor_outlineMembers]
  · rw [put_outlineMembers, outlineMember_uriParameters, openedFor_outlineMembers]

/-- Looking for a member, which may be missing. -/
theorem find_outlineMembers (m : Members) (name : String) :
    Members.find (outlineMembers m) name = outlineMember name (Members.find m name) := by
  have hnull : outlineMember name .null = .null := by
    unfold outlineMember
    split
    · rfl
    · split
      · rfl
      · split <;> rfl
  unfold Members.find
  rw [get?_outlineMembers]
  cases Entries.get? m name with
  | none => exact hnull.symm
  | some v => rfl

/-- Parameters move by their names, whatever annotations they have. -/
theorem hoist_plain {displayName : Value} {parameters : Members} : ∀ {moved result : Value},
    hoist displayName moved parameters = (result, none) →
    hoist displayName (plainParameters moved) (plainMembers parameters)
      = (plainParameters result, none) := by
  -- Over the parameters; those moved before are general, as each one may be added to them.
  induction parameters with
  | nil =>
    intro moved result h
    cases h
    rfl
  | cons parameter rest ih =>
    obtain ⟨name, v⟩ := parameter
    intro moved result h
    show hoist displayName (plainParameters moved) ((name, plainParameter v) :: plainMembers rest)
      = _
    rw [hoist] at h ⊢
    split at h
    · next hvacant =>
      rw [if_pos hvacant]
      exact ih h
    · next hgiven =>
      rw [if_neg hgiven]
      split at h
      · cases h
      · exact ih h
      · split at h
        · cases h
        · next hput =>
          cases moved with
          | obj members =>
            cases hput
            have hmoved := ih h
            rw [plainParameters, plainMembers, ← Entries.put_mapValues] at hmoved
            exact hmoved
          | null | bool | int | float | str | list => cases hput

/-- The parameters of a method that are to be moved. -/
theorem parameterMembers_plain {parameters : Value} {members : Members}
    (h : parameterMembers parameters = .ok members) :
    parameterMembers (plainParameters parameters) = .ok (plainMembers members) := by
  unfold parameterMembers at h ⊢
  rw [isVacant_plainParameters]
  split at h
  · next hvacant =>
    cases h
    rw [if_pos hvacant]
    rfl
  · next hgiven =>
    rw [if_neg hgiven]
    cases Value.members_eq_ok h
    rfl

/-! ## Insertions in lockstep

Two trees are built by insertions at the same places under the same keys, of methods that agree. By
induction over the path for one insertion, and over the insertions for the run. -/

/-- Declarations of an operation that have one outline and the same parameters. -/
structure MethodsAgree (m m' : Members) : Prop where
  outline : outlineMethod (.obj m) = outlineMethod (.obj m')
  parameters : plainParameters (Members.find m "uriParameters")
    = plainParameters (Members.find m' "uriParameters")

/-- The parameters of its path are not in the outline of a method. -/
theorem outlineMethod_erase (m : Members) :
    outlineMethod (.obj (Entries.erase m "uriParameters")) = outlineMethod (.obj m) := by
  unfold outlineMethod
  dsimp only
  congr 1
  refine List.filterMap_congr fun name hname => ?_
  have hne : "uriParameters" ≠ name := by
    rintro rfl
    exact absurd hname (by decide)
  rw [Entries.get?_erase_of_ne m hne]

/-- The last step leaves an outline that depends on outlines alone. -/
theorem outline_of_insertHere {key : String} (hkey : IsMethodKey key) {m resource : Members}
    {result : Value} (h : insertHere key (.obj m) resource = (result, none)) :
    ∃ parameters moved,
      parameterMembers (plainParameters (Members.find m "uriParameters")) = .ok parameters
      ∧ hoist (Members.find (outlineMembers resource) "displayName")
          (Members.find (openedFor (outlineMembers resource)) "uriParameters") parameters
        = (moved, none)
      ∧ outline result = .obj (Entries.put (withParameters (outlineMembers resource) moved) key
          (outlineMethod (.obj m))) := by
  obtain ⟨members, parameters, moved, heq, hparameters, hhoist, rfl⟩ := insertHere_eq_none h
  cases heq
  refine ⟨_, plainParameters moved, parameterMembers_plain hparameters, ?_, ?_⟩
  · rw [← openedFor_outlineMembers, find_outlineMembers, find_outlineMembers,
      outlineMember_displayName, outlineMember_uriParameters]
    exact hoist_plain hhoist
  · rw [outline, put_outlineMembers, withParameters_outlineMembers, outlineMember_method hkey,
      outlineMethod_erase]

section

variable {key : String} (hkey : IsMethodKey key) {m m' : Members} (hagree : MethodsAgree m m')

include hkey hagree

/-- **The last step**, in two resources of one outline. -/
theorem outline_insertHere {resource resource' : Members} {result result' : Value}
    (h : insertHere key (.obj m) resource = (result, none))
    (h' : insertHere key (.obj m') resource' = (result', none))
    (hsame : outlineMembers resource = outlineMembers resource') :
    outline result = outline result' := by
  obtain ⟨parameters, moved, hparameters, hhoist, hresult⟩ := outline_of_insertHere hkey h
  obtain ⟨parameters', moved', hparameters', hhoist', hresult'⟩ := outline_of_insertHere hkey h'
  -- What the outline depends on is the same on both sides.
  rw [hagree.parameters, hparameters'] at hparameters
  cases hparameters
  rw [hsame, hhoist'] at hhoist
  cases hhoist
  rw [hresult, hresult', hsame, hagree.outline]

/-- **One insertion**, into two trees of one outline. -/
theorem outline_insertMethod (segments : List String) : ∀ {tree tree' result result' : Value},
    insertMethod key (.obj m) segments tree = (result, none) →
    insertMethod key (.obj m') segments tree' = (result', none) →
    outline tree = outline tree' → outline result = outline result' := by
  -- Over the segments; the children on the way have one outline, or are new on both sides.
  induction segments with
  | nil =>
    intro tree tree' result result' h h' hsame
    cases tree with
    | obj resource =>
      cases tree' with
      | obj resource' => exact outline_insertHere hkey hagree h h' (Value.obj.inj hsame)
      | null | bool | int | float | str | list => cases h'
    | null | bool | int | float | str | list => cases h
  | cons segment segments ih =>
    intro tree tree' result result' h h' hsame
    cases tree with
    | obj resource =>
      cases tree' with
      | obj resource' =>
        have hmembers : outlineMembers resource = outlineMembers resource' := Value.obj.inj hsame
        rw [insertMethod] at h h'
        obtain ⟨hresult, hnone⟩ := Prod.mk.inj h
        obtain ⟨hresult', hnone'⟩ := Prod.mk.inj h'
        have hchild : outline ((Entries.get? resource (resourceKey segment)).getD
              (newResource segment))
            = outline ((Entries.get? resource' (resourceKey segment)).getD
              (newResource segment)) := by
          have hget := get?_outlineMembers resource (resourceKey segment)
          rw [hmembers, get?_outlineMembers] at hget
          cases hfound : Entries.get? resource (resourceKey segment) with
          | none =>
            rw [hfound] at hget
            rw [Option.map_eq_none_iff.mp hget]
          | some child =>
            rw [hfound] at hget
            obtain ⟨child', hfound', houtline⟩ := Option.map_eq_some_iff.mp hget
            rw [outlineMember_resourceKey, outlineMember_resourceKey] at houtline
            rw [hfound']
            exact houtline.symm
        have hbelow := ih (Prod.ext rfl hnone) (Prod.ext rfl hnone') hchild
        rw [← hresult, ← hresult', outline, outline, put_outlineMembers, put_outlineMembers,
          outlineMember_resourceKey, outlineMember_resourceKey, hmembers]
        exact congrArg (fun v => Value.obj (Entries.put _ _ v)) hbelow
      | null | bool | int | float | str | list => cases h'
    | null | bool | int | float | str | list => cases h

end

/-- Insertions at one place under one key, of methods that agree. -/
structure InsertionsAgree (i i' : Insertion) : Prop where
  segments : i.segments = i'.segments
  key : i.key = i'.key
  methods : MethodsAgree i.method i'.method

/-- **All insertions.** Trees that are built in lockstep have one outline. -/
theorem outline_insertAll {insertions insertions' : List Insertion}
    (hagree : List.Forall₂ InsertionsAgree insertions insertions')
    (hkeys : ∀ i ∈ insertions, IsMethodKey i.key) {tree tree' result result' : Value}
    (h : insertAll tree insertions = .ok result) (h' : insertAll tree' insertions' = .ok result')
    (hsame : outline tree = outline tree') : outline result = outline result' := by
  induction hagree generalizing tree tree' with
  | nil =>
    cases h
    cases h'
    exact hsame
  | @cons i i' _ _ hfirst _ ih =>
    obtain ⟨next, hinserted, hrest⟩ := insertAll_cons_eq_ok.mp h
    obtain ⟨next', hinserted', hrest'⟩ := insertAll_cons_eq_ok.mp h'
    rw [← hfirst.segments, ← hfirst.key] at hinserted'
    rw [List.forall_mem_cons] at hkeys
    exact ih hkeys.2 hrest hrest'
      (outline_insertMethod hkeys.1 hfirst.methods i.segments hinserted hinserted' hsame)

end Ramlify.Raml
