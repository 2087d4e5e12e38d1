import Ramlify.Proofs.Raml.AnnotatedMethod
import Ramlify.Proofs.Raml.DefinitionParts
import Ramlify.Proofs.Raml.MethodParts
import Ramlify.Proofs.Raml.ParameterFields
import Ramlify.Proofs.Raml.ResourceTree

/-!
# Ramlify — where what is read from a tree comes from

What an operation declares is read off a member of a resource: its references, its bodies. A method
may be called like a resource, like the parameters of one, or like a part of a declaration, so other
members look like declarations too. `Reading` says what a way to read has to satisfy so that none of
them is taken for one; then all that is found in a tree comes from the operation that was inserted
there, whatever the methods are called.

* **`Reading.insertHere_foundFrom`** — the last step of an insertion, at the resource itself.
* **`Reading.insertMethod_foundFrom`** — one insertion brings in what it declares and nothing else;
  **`Reading.insertAll_foundFrom`** is the whole run.
* **`Reading.unread_of_methodParts`** — no part of a declaration is taken for one.
* **`DefinitionParts.foundFrom`** — what is found in the resources of a definition.
-/

namespace Ramlify.Raml

variable {ρ : Type}

/-- A way to read something off the members of resources. It goes by a few members of an object,
which are none of those that resources have for themselves. -/
structure Reading (ρ : Type) where
  /-- What is found in a value. -/
  Finds : Value → ρ → Prop
  /-- The names of the members that it is found by. -/
  names : List String
  /-- The names of members of resources that it is looked for in. -/
  Counts : String → Prop
  /-- Objects in which nothing is found, whatever they are put under. -/
  Inert : Members → Prop
  own : ∀ name ∈ names, name.startsWith "/" = false ∧ name ∉ ["displayName", "uriParameters"]
  counts_parameters : Counts "uriParameters"
  counts_resource : ∀ segment, Counts (resourceKey segment)
  objects : ∀ {v r}, Finds v r → ∃ m, v = .obj m
  nothing : ∀ {r}, ¬ Finds (.obj []) r
  congr : ∀ {m m' : Members} {r}, (∀ name ∈ names, Entries.get? m' name = Entries.get? m name) →
    Finds (.obj m') r → Finds (.obj m) r
  put : ∀ {m fields : Members} {name r}, Inert fields →
    Finds (.obj (Entries.put m name (.obj fields))) r → Finds (.obj m) r

namespace Reading

variable (R : Reading ρ)

/-- A declaration none of whose parts has something of its own to be found, and which has no
resources. -/
structure Unread (m : Members) : Prop where
  nodup : (Entries.keys m).Nodup
  parts : ∀ name v r, R.Counts name → Entries.get? m name = some v → ¬ R.Finds v r
  leaf : ∀ segment, Entries.get? m (resourceKey segment) = none
  inert : R.Inert (Entries.erase m "uriParameters")
  parameters : ∀ inner, parameterMembers (Members.find m "uriParameters") = .ok inner →
    ∀ parameter ∈ inner, ∃ fields, parameter.2 = .obj fields ∧ R.Inert fields

/-- A resource in whose members something is found from a source only. -/
structure Sourced (source : String → ρ → Prop) (resource : Members) : Prop where
  nodup : (Entries.keys resource).Nodup
  origin : ∀ key v r, R.Counts key → Entries.get? resource key = some v → R.Finds v r → source key r

/-- A tree in all of whose resources something is found from a source only. -/
def FoundFrom (source : List String → String → ρ → Prop) (tree : Value) : Prop :=
  ∀ path resource, resourceAt path tree = some resource → R.Sourced (source path) resource

variable {R}

/-- What is found does not depend on the members that resources have for themselves. -/
theorem finds_put_own {m : Members} {name : String} {v : Value} {r : ρ}
    (hname : name.startsWith "/" = true ∨ name ∈ ["displayName", "uriParameters"])
    (h : R.Finds (.obj (Entries.put m name v)) r) : R.Finds (.obj m) r := by
  refine R.congr (fun other hother => Entries.get?_put_of_ne m v ?_) h
  rintro rfl
  obtain ⟨hslash, howned⟩ := R.own _ hother
  rcases hname with hstarts | hmem
  · rw [hslash] at hstarts
    cases hstarts
  · exact howned hmem

/-- Nothing is found by the parameters of a resource. -/
theorem finds_withParameters {resource : Members} {moved : Value} {r : ρ}
    (h : R.Finds (.obj (withParameters resource moved)) r) : R.Finds (.obj resource) r := by
  refine R.congr (fun name hname => get?_withParameters_of_ne resource moved ?_) h
  rintro rfl
  exact (R.own _ hname).2 (by simp)

/-- A declaration is the same to a reader without its parameters. -/
theorem finds_erase_parameters {m : Members} {r : ρ}
    (h : R.Finds (.obj (Entries.erase m "uriParameters")) r) : R.Finds (.obj m) r := by
  refine R.congr (fun name hname => Entries.get?_erase_of_ne m ?_) h
  rintro rfl
  exact (R.own _ hname).2 (by simp)

/-! ## Resources

What is done to a resource in the last step of an insertion, with what may be found in it
afterwards. -/

namespace Sourced

variable {source : String → ρ → Prop} {resource : Members}

/-- Putting a member in which something is found from the source only. -/
theorem put (h : R.Sourced source resource) {key : String} {v : Value}
    (hv : ∀ r, R.Finds v r → source key r) : R.Sourced source (Entries.put resource key v) where
  nodup := Entries.nodup_keys_put h.nodup key v
  origin := by
    intro other w r hcounts hget hfound
    rw [Entries.get?_put] at hget
    split at hget
    · next heq =>
      cases hget
      exact heq ▸ hv r hfound
    · exact h.origin other w r hcounts hget hfound

theorem erase (h : R.Sourced source resource) (key : String) :
    R.Sourced source (Entries.erase resource key) where
  nodup := Entries.nodup_keys_erase h.nodup key
  origin := by
    intro other w r hcounts hget hfound
    by_cases heq : key = other
    · subst heq
      rw [Entries.get?_erase_self h.nodup] at hget
      cases hget
    · rw [Entries.get?_erase_of_ne _ heq] at hget
      exact h.origin other w r hcounts hget hfound

/-- Opening a resource brings in an empty object. -/
theorem openedFor (h : R.Sourced source resource) : R.Sourced source (openedFor resource) := by
  unfold Raml.openedFor
  split
  · exact h
  · exact h.put fun r hfound => absurd hfound R.nothing

/-- Storing the parameters of a resource, which may be taken away again. -/
theorem withParameters (h : R.Sourced source resource) {moved : Value}
    (hmoved : ∀ r, R.Finds moved r → source "uriParameters" r) :
    R.Sourced source (withParameters resource moved) := by
  unfold Raml.withParameters
  split
  · exact (h.openedFor.put hmoved).erase _
  · exact h.openedFor.put hmoved

end Sourced

/-- In a declaration without its parameters nothing is found from anywhere. -/
theorem Unread.sourced {m : Members} (h : R.Unread m) (source : String → ρ → Prop) :
    R.Sourced source m where
  nodup := h.nodup
  origin := fun key v r hcounts hget hfound => absurd hfound (h.parts key v r hcounts hget)

/-- Parameters that are inert move without bringing in anything to be found. -/
theorem finds_hoist {displayName : Value} {parameters : List (String × Value)}
    (hinert : ∀ parameter ∈ parameters, ∃ fields, parameter.2 = .obj fields ∧ R.Inert fields)
    {r : ρ} : ∀ {moved result : Value}, hoist displayName moved parameters = (result, none) →
      R.Finds result r → R.Finds moved r := by
  -- Over the parameters, each of which is put to those moved before.
  induction parameters with
  | nil =>
    intro moved result h hresult
    cases h
    exact hresult
  | cons parameter rest ih =>
    obtain ⟨name, v⟩ := parameter
    obtain ⟨⟨fields, rfl, hfields⟩, hrest⟩ := List.forall_mem_cons.mp hinert
    intro moved result h hresult
    rw [hoist] at h
    split at h
    · exact ih hrest h hresult
    · split at h
      · cases h
      · exact ih hrest h hresult
      · split at h
        · cases h
        · next hput =>
          have hmoved := ih hrest h hresult
          cases moved with
          | obj members =>
            cases hput
            exact R.put hfields hmoved
          | null | bool | int | float | str | list => cases hput

/-! ## Trees

An insertion makes resources on its way. These have nothing in them but a name, so nothing is found
there. -/

/-- In a new resource nothing is found, neither by its members nor in them. -/
theorem not_finds_newResource (segment : String) (r : ρ) : ¬ R.Finds (newResource segment) r := by
  intro hfound
  unfold newResource at hfound
  split at hfound
  · exact R.nothing hfound
  · have hput : R.Finds (.obj (Entries.put [] "displayName" (.str segment))) r := hfound
    exact R.nothing (finds_put_own (Or.inr (by simp)) hput)

/-- In a new resource nothing is found from anywhere. -/
theorem foundFrom_newResource (source : List String → String → ρ → Prop) (segment : String) :
    R.FoundFrom source (newResource segment) := by
  intro path child hfound
  unfold newResource at hfound
  cases path with
  | nil =>
    cases hfound
    split
    · exact ⟨List.nodup_nil, nofun⟩
    · refine ⟨List.nodup_singleton _, fun key v r _ hget hread => ?_⟩
      cases List.mem_singleton.mp (Entries.mem_of_get? hget)
      obtain ⟨m, hm⟩ := R.objects hread
      cases hm
  | cons other path =>
    -- There is nothing below a new resource.
    have hnone : Entries.get? (if segment.isEmpty then [] else [("displayName", .str segment)])
        (resourceKey other) = (none : Option Value) := by
      split
      · rfl
      · rw [Entries.get?_cons, if_neg (resourceKey_ne_displayName other).symm]
        rfl
    rw [resourceAt_cons, hnone] at hfound
    cases hfound

variable {key : String} {method : Members}

/-- An insertion leaves what is found in the resources on its way as it is. -/
theorem finds_insertMethod (hinert : R.Inert (Entries.erase method "uriParameters"))
    {segments : List String} {tree result : Value} {r : ρ}
    (h : insertMethod key (.obj method) segments tree = (result, none))
    (hfound : R.Finds result r) : R.Finds tree r := by
  cases tree with
  | obj resource =>
    -- The method is put here, or in the resource under the next segment.
    cases segments with
    | nil =>
      obtain ⟨_, _, moved, heq, _, _, rfl⟩ := insertHere_eq_none h
      cases heq
      exact finds_withParameters (R.put hinert hfound)
    | cons segment segments =>
      rw [insertMethod] at h
      obtain ⟨hresult, _⟩ := Prod.mk.inj h
      rw [← hresult] at hfound
      exact finds_put_own (Or.inl (startsWith_resourceKey segment)) hfound
  | null | bool | int | float | str | list => cases segments <;> cases h

/-- **The last step of an insertion**, at the resource itself. -/
theorem insertHere_foundFrom (hmethod : R.Unread method)
    {source : List String → String → ρ → Prop} {resource : Members} {result : Value}
    (h : insertHere key (.obj method) resource = (result, none))
    (hself : ∀ r, R.Finds (.obj method) r → source [] key r)
    (htree : R.FoundFrom source (.obj resource)) : R.FoundFrom source result := by
  obtain ⟨members, parameters, moved, heq, hinner, hhoist, rfl⟩ := insertHere_eq_none h
  cases heq
  have hresource : R.Sourced (source []) resource := htree [] resource rfl
  have hkept : R.Sourced (source []) (withParameters resource moved) := by
    refine hresource.withParameters fun r hfound => ?_
    have hbefore := finds_hoist (hmethod.parameters _ hinner) hhoist hfound
    unfold Members.find at hbefore
    cases hget : Entries.get? (openedFor resource) "uriParameters" with
    | none =>
      rw [hget] at hbefore
      obtain ⟨m, hm⟩ := R.objects hbefore
      cases hm
    | some v =>
      rw [hget] at hbefore
      exact hresource.openedFor.origin _ v r R.counts_parameters hget hbefore
  intro path child hchild
  cases path with
  | nil =>
    cases hchild
    exact hkept.put fun r hfound => hself r (finds_erase_parameters hfound)
  | cons segment path =>
    rw [resourceAt_cons, Entries.get?_put] at hchild
    split at hchild
    · -- The method is called like a resource; below it there is nothing.
      have hleaf : ∀ other,
          Entries.get? (Entries.erase method "uriParameters") (resourceKey other) = none := by
        intro other
        rw [Entries.get?_erase_of_ne _ (resourceKey_ne_uriParameters other).symm]
        exact hmethod.leaf other
      cases path with
      | nil =>
        cases hchild
        exact (hmethod.sourced _).erase _
      | cons other path =>
        rw [Option.bind_some, resourceAt_cons, hleaf] at hchild
        cases hchild
    · rw [get?_withParameters_of_ne _ _ (resourceKey_ne_uriParameters segment)] at hchild
      exact htree (segment :: path) child hchild

/-- **One insertion** brings in what it declares. -/
theorem insertMethod_foundFrom (hmethod : R.Unread method) (segments : List String) :
    ∀ {source : List String → String → ρ → Prop} {tree result : Value},
      insertMethod key (.obj method) segments tree = (result, none) →
      (∀ r, R.Finds (.obj method) r → source segments key r) →
      R.FoundFrom source tree → R.FoundFrom source result := by
  -- Over the segments; for the child the source begins behind the first segment.
  induction segments with
  | nil =>
    intro source tree result h hself htree
    cases tree with
    | obj resource => exact insertHere_foundFrom hmethod h hself htree
    | null | bool | int | float | str | list => cases h
  | cons segment segments ih =>
    intro source tree result h hself htree
    cases tree with
    | obj resource =>
      rw [insertMethod] at h
      obtain ⟨hresult, hnone⟩ := Prod.mk.inj h
      obtain ⟨after, hrun⟩ : ∃ after, insertMethod key (.obj method) segments
          ((Entries.get? resource (resourceKey segment)).getD (newResource segment))
            = (after, none) := ⟨_, Prod.ext rfl hnone⟩
      rw [hrun] at hresult
      have hchild : R.FoundFrom (fun path => source (segment :: path))
            ((Entries.get? resource (resourceKey segment)).getD (newResource segment))
          ∧ ∀ r, R.Finds
            ((Entries.get? resource (resourceKey segment)).getD (newResource segment)) r →
              source [] (resourceKey segment) r := by
        cases hget : Entries.get? resource (resourceKey segment) with
        | some child =>
          refine ⟨fun path members hfound => htree (segment :: path) members ?_, ?_⟩
          · rw [resourceAt_cons, hget]
            exact hfound
          · intro r hfound
            exact (htree [] resource rfl).origin _ child r (R.counts_resource segment) hget hfound
        | none =>
          exact ⟨foundFrom_newResource _ segment,
            fun r hfound => absurd hfound (not_finds_newResource segment r)⟩
      have hafter := ih hrun hself hchild.1
      rw [← hresult]
      intro path members hfound
      cases path with
      | nil =>
        cases hfound
        exact (htree [] resource rfl).put fun r hread =>
          hchild.2 r (finds_insertMethod hmethod.inert hrun hread)
      | cons other path =>
        rw [resourceAt_cons, Entries.get?_put] at hfound
        split at hfound
        · next heq =>
          cases resourceKey_injective heq
          exact hafter path members hfound
        · exact htree (other :: path) members hfound
    | null | bool | int | float | str | list => cases h

/-- **All insertions.** Whatever is found in a tree comes from the insertions. -/
theorem insertAll_foundFrom {source : List String → String → ρ → Prop}
    {insertions : List Insertion} (hmethods : ∀ i ∈ insertions, R.Unread i.method)
    (hself : ∀ i ∈ insertions, ∀ r, R.Finds (.obj i.method) r → source i.segments i.key r)
    {tree result : Value} (h : insertAll tree insertions = .ok result)
    (htree : R.FoundFrom source tree) : R.FoundFrom source result := by
  induction insertions generalizing tree with
  | nil =>
    cases h
    exact htree
  | cons i insertions ih =>
    obtain ⟨next, hinserted, hrest⟩ := insertAll_cons_eq_ok.mp h
    rw [List.forall_mem_cons] at hmethods hself
    exact ih hmethods.2 hself.2 hrest
      (insertMethod_foundFrom hmethods.1 i.segments hinserted hself.1 htree)

theorem foundFrom_empty (source : List String → String → ρ → Prop) :
    R.FoundFrom source (.obj []) := by
  intro path resource hresource
  cases path with
  | nil =>
    cases hresource
    exact ⟨List.nodup_nil, nofun⟩
  | cons segment path => cases hresource

/-- Nothing is found in an object whose members are inert. -/
theorem not_finds_of_inert {m : Members}
    (h : ∀ member ∈ m, ∃ fields, member.2 = .obj fields ∧ R.Inert fields) (r : ρ) :
    ¬ R.Finds (.obj m) r := by
  induction m with
  | nil => exact R.nothing
  | cons member rest ih =>
    obtain ⟨name, v⟩ := member
    obtain ⟨⟨fields, rfl, hfields⟩, hrest⟩ := List.forall_mem_cons.mp h
    -- The first member reads as if it were put to the others.
    intro hfound
    have hput : R.Finds (.obj (Entries.put rest name (.obj fields))) r := by
      refine R.congr (fun other _ => ?_) hfound
      rw [Entries.get?_cons, Entries.get?_put]
    exact ih hrest (R.put hfields hput)

end Reading

/-! ## Declarations

A declaration has parts that were accepted, bodies under media types and responses under codes. A
reading that goes by other names finds nothing in any of them. -/

/-- Parameters that are missing, or some that were accepted. -/
def AcceptedOnly (v : Option Value) : Prop := ∀ w ∈ v, ∃ parameters, w = accepted parameters

theorem acceptedOnly_namedParameters {schema : Value} {v : Option Value}
    (h : namedParameters schema = .ok v) : AcceptedOnly v := by
  unfold namedParameters at h
  split at h
  · cases h
    exact nofun
  · obtain ⟨members, _, h⟩ := Outcome.bind_eq_ok.mp h
    unfold namedParametersOf at h
    dsimp only at h
    split at h
    · cases h
      exact nofun
    · obtain ⟨properties, _, h⟩ := Outcome.bind_eq_ok.mp h
      obtain ⟨parameters, _, h⟩ := Outcome.bind_eq_ok.mp h
      cases h
      exact fun w hw => ⟨parameters, (Option.mem_some.mp hw).symm⟩

/-- Parameters of the address were accepted. -/
theorem acceptedOnly_addressParameters {schema : Value} {a a' : Annotations} {v : Option Value}
    (h : addressParameters schema a = .ok (v, a')) : AcceptedOnly v := by
  obtain ⟨_, _, hcases⟩ := addressParameters_cases h
  rcases hcases with ⟨_, rfl, _⟩ | ⟨_, _, parameters, _, _, rfl⟩
  · exact nofun
  · exact fun w hw => ⟨parameters, (Option.mem_some.mp hw).symm⟩

/-- What is kept of parameters is an object of objects. -/
theorem AcceptedOnly.eq_obj {v : Option Value} (h : AcceptedOnly v) {w : Value}
    (hw : (v.getD .null).given? = some w) :
    ∃ parameters, w = .obj (acceptedMembers parameters) := by
  unfold Value.given? at hw
  split at hw
  · cases hw
  · cases hw
    cases v with
    | none => next hvacant => exact absurd rfl hvacant
    | some w => exact h w rfl

/-- A body stands under a media type that is supported. -/
theorem requestBody_eq_some {version : Version} {entry : Members} {mediaType : String} {v : Value}
    (h : requestBody version entry mediaType = .ok (some v)) :
    mediaType ∈ "application/json" :: formTypes ∧ ∃ body, v = .obj [(mediaType, body)] := by
  unfold requestBody at h
  split at h
  · cases h
  · obtain ⟨mapped, hmapped, h⟩ := Outcome.bind_eq_ok.mp h
    dsimp only at h
    split at h
    · cases h
    · next hgiven =>
      refine ⟨?_, ?_⟩
      · -- A body of another media type would have been left out.
        by_contra hother
        rw [List.mem_cons, not_or] at hother
        rw [mappedBody, if_neg hother.1, if_neg hother.2] at hmapped
        cases hmapped
        exact hgiven rfl
      · split at h
        · cases h
          exact ⟨_, rfl⟩
        · obtain ⟨described, _, h⟩ := Outcome.bind_eq_ok.mp h
          cases h
          exact ⟨_, rfl⟩

/-- The body of an operation stands under a media type that is supported. -/
theorem operationBody_eq_some {version : Version} {mediaType : Value} {e : Endpoint} {v : Value}
    (h : operationBody version mediaType e = .ok (some v)) :
    ∃ type ∈ "application/json" :: formTypes, ∃ body, v = .obj [(type, body)] := by
  unfold operationBody at h
  split at h
  · obtain ⟨htype, hbody⟩ := requestBody_eq_some h
    exact ⟨_, htype, hbody⟩
  · cases h

/-- **No part of a declaration is taken for a declaration**, if what is found goes neither by the
media type of a body nor by the code of a response, and parameters are inert. -/
theorem Reading.unread_of_methodParts {R : Reading ρ} {version : Version} {project : Project}
    {mediaType : Value} {e : Endpoint} {m : Members}
    (h : MethodParts version project mediaType e m)
    (hnames : ∀ name ∈ R.names, name ∉ "application/json" :: formTypes
      ∧ Unicode.isDigits name = false ∧ Unmarked name)
    (hparameters : ∀ fields kept, Schema.acceptParameter? fields = some kept → R.Inert kept)
    (hcounts : ∀ name, R.Counts name → name ∉ declaredNames → Entries.get? m name = none)
    (hinert : R.Inert (Entries.erase m "uriParameters")) : R.Unread m := by
  obtain ⟨body, hbody, hbodyPart⟩ := h.body
  obtain ⟨_, headers, _, hheaders, hheadersPart⟩ := h.headers
  obtain ⟨_, responses, _, hresponses, hresponsesPart⟩ := h.responses
  obtain ⟨_, _, query, _, _, hquery, hqueryPart⟩ := h.query
  obtain ⟨_, _, path, _, _, hpath, hpathPart⟩ := h.path
  have hobject : ∀ {v r}, R.Finds v r → v.kind = .obj := by
    intro v r hfound
    obtain ⟨fields, rfl⟩ := R.objects hfound
    rfl
  have haccepted : ∀ parameters, ∀ member ∈ acceptedMembers parameters,
      ∃ fields, member.2 = .obj fields ∧ R.Inert fields := by
    rintro parameters ⟨name, v⟩ hmember
    obtain ⟨fields, kept, _, hkept, rfl⟩ := mem_acceptedMembers_iff.mp hmember
    exact ⟨kept, rfl, hparameters fields kept hkept⟩
  have hunread : ∀ {v w}, AcceptedOnly v → (v.getD .null).given? = some w → ∀ r, ¬ R.Finds w r := by
    intro v w honly hw r
    obtain ⟨parameters, rfl⟩ := honly.eq_obj hw
    exact not_finds_of_inert (haccepted parameters) r
  refine ⟨h.toFrames.nodup List.nodup_nil, fun name v r hcounted hv hfound => ?_, fun segment => ?_,
    hinert, fun inner hinner => ?_⟩
  · by_cases hname : name ∈ declaredNames
    · simp only [declaredNames, introducedNames, exchangedNames, List.cons_append, List.nil_append,
        List.mem_cons, List.not_mem_nil, or_false] at hname
      rcases hname with rfl | rfl | rfl | rfl | rfl | rfl | rfl | rfl | rfl | rfl
      · obtain ⟨s, rfl⟩ := h.named _ (by decide) v hv
        cases hobject hfound
      · obtain ⟨s, rfl⟩ := h.named _ (by decide) v hv
        cases hobject hfound
      · obtain ⟨rfl, _⟩ := Value.given?_eq_some_iff.mp (h.protocols.symm.trans hv)
        cases hobject hfound
      · obtain ⟨rfl, _⟩ := Value.given?_eq_some_iff.mp (h.traits.symm.trans hv)
        cases hobject hfound
      · -- In a body there is nothing but its media type.
        obtain ⟨rfl, _⟩ := Value.given?_eq_some_iff.mp (hbodyPart.symm.trans hv)
        cases body with
        | none => cases hobject hfound
        | some v =>
          obtain ⟨type, htype, inner, rfl⟩ := operationBody_eq_some hbody
          refine R.nothing (R.congr (m := []) (fun other hother => ?_) hfound)
          rw [Entries.get?_cons, if_neg]
          rintro rfl
          exact (hnames _ hother).1 htype
      · exact hunread (acceptedOnly_namedParameters hheaders) (hheadersPart.symm.trans hv) r hfound
      · -- In responses there is nothing but codes and annotations.
        obtain ⟨rfl, _⟩ := Value.given?_eq_some_iff.mp (hresponsesPart.symm.trans hv)
        obtain ⟨byCode, hbyCode, hframes⟩ := operationResponses_frames hresponses
        refine R.nothing (R.congr (m := []) (fun other hother => ?_) hfound)
        obtain ⟨_, hdigits, hplain⟩ := hnames other hother
        rw [hframes.get? other List.not_mem_nil hplain, Entries.get?_eq_none_iff.mpr fun hmem => ?_]
        · rfl
        · rw [isDigits_of_responsesByCode hbyCode other hmem] at hdigits
          cases hdigits
      · exact hunread (acceptedOnly_addressParameters hquery) (hqueryPart.symm.trans hv) r hfound
      · exact hunread (acceptedOnly_addressParameters hpath) (hpathPart.symm.trans hv) r hfound
      · obtain ⟨rfl, _⟩ := Value.given?_eq_some_iff.mp (h.securedBy.symm.trans hv)
        cases hobject hfound
    · rw [hcounts name hcounted hname] at hv
      cases hv
  · refine hcounts _ (R.counts_resource segment) fun hmem => ?_
    have hplain : ∀ name ∈ declaredNames, name.startsWith "/" = false := by
      simp [declaredNames, introducedNames, exchangedNames]
    have hslash := hplain _ hmem
    rw [startsWith_resourceKey] at hslash
    cases hslash
  · cases hget : Entries.get? m "uriParameters" with
    | none =>
      rw [Members.find, hget] at hinner
      cases hinner
      exact List.forall_mem_nil _
    | some w =>
      obtain ⟨parameters, rfl⟩ :=
        (acceptedOnly_addressParameters hpath).eq_obj (hpathPart.symm.trans hget)
      rw [Members.find, hget, Option.getD_some, parameterMembers] at hinner
      split at hinner
      · cases hinner
        exact List.forall_mem_nil _
      · cases hinner
        exact haccepted parameters

/-- **What is found in the resources of a definition** comes from an operation at the place where it
is found, if no part of a declaration is taken for one. -/
theorem DefinitionParts.foundFrom {R : Reading ρ} {version : Version} {project : Project}
    {data : Members} {mediaType : Value} {ordered : List Endpoint} {insertions : List Insertion}
    {head tree : Members}
    (h : DefinitionParts version project data mediaType ordered insertions head tree)
    {gives : Endpoint → ρ → Prop}
    (hunread : ∀ e i, Inserts version project mediaType e i → R.Unread i.method)
    (hgives : ∀ e ∈ project.endpoints, ∀ m, MethodParts version project mediaType e m →
      ∀ r, R.Finds (.obj m) r → gives e r) :
    R.FoundFrom (fun path key r => ∃ e ∈ project.endpoints,
        segmentsOf e.request.path = path ∧ e.request.method = key ∧ gives e r)
      (.obj tree) := by
  refine Reading.insertAll_foundFrom (fun i hi => ?_) (fun i hi r hfound => ?_) h.built
    (Reading.foundFrom_empty _)
  · obtain ⟨e, _, hinserts⟩ := h.exists_endpoint hi
    exact hunread e i hinserts
  · obtain ⟨e, he, hinserts⟩ := h.exists_endpoint hi
    obtain ⟨_, _, hmethod⟩ := hinserts.declared
    exact ⟨e, he, hinserts.segments.symm, hinserts.key.symm,
      hgives e he i.method (methodParts hmethod) r hfound⟩

end Ramlify.Raml
