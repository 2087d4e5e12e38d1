import Ramlify.Proofs.ImportedCollection
import Ramlify.Proofs.Raml.DefinitionParts

/-!
# Ramlify — where the operations of a collection stand

Requests are merged by their paths, but a definition has its resources under the segments behind
the first slash. So operations with different paths may come to one place, where the last of them
stands, and those without a slash stand at the top of the definition, where members without
anything in them are left out.

* **`operations_placed`** — what stands in the definition at the place of an operation.
* **`entries_not_separate`** — collections with operations that are not found in the definition.
-/

namespace Ramlify.Raml

open Postman

/-! ## All the places of a member

To say that an operation is found nowhere, all places where its method stands have to be listed.
They are collected along the tree. -/

mutual

/-- The paths to those resources of a tree that have a member. -/
def pathsTo (key : String) : Value → List (List String)
  | .obj members => (if Entries.has members key then [[]] else []) ++ pathsBelow key members
  | _ => []

/-- The paths that begin with a resource among some members. -/
def pathsBelow (key : String) : List (String × Value) → List (List String)
  | [] => []
  | (name, child) :: rest =>
    match name.toList with
    | '/' :: segment => (pathsTo key child).map (String.ofList segment :: ·) ++ pathsBelow key rest
    | _ => pathsBelow key rest

end

/-- A path in a child goes on with the segment under which the child stands. -/
theorem mem_pathsBelow {key segment : String} {rest : List String} {child : Value}
    (hrest : rest ∈ pathsTo key child) {members : Members}
    (h : (resourceKey segment, child) ∈ members) : segment :: rest ∈ pathsBelow key members := by
  induction members with
  | nil => cases h
  | cons member members ih =>
    obtain ⟨name, v⟩ := member
    rw [pathsBelow]
    rcases List.mem_cons.mp h with heq | hmem
    · cases heq
      -- The name of the child is taken apart where the list was read, so it is written out in
      -- letters.
      have hletters : (resourceKey segment).toList = '/' :: segment.toList := by
        rw [resourceKey, String.toList_append]
        rfl
      rw [hletters]
      show _ ∈ (pathsTo key child).map (String.ofList segment.toList :: ·) ++ _
      rw [String.ofList_toList]
      exact List.mem_append_left _ (List.mem_map_of_mem hrest)
    · split
      · exact List.mem_append_right _ (ih hmem)
      · exact ih hmem

/-- Whatever stands under a key stands at one of these paths. -/
theorem mem_pathsTo {path : List String} {key : String} {tree v : Value}
    (h : entryAt path key tree = some v) : path ∈ pathsTo key tree := by
  induction path generalizing tree with
  | nil =>
    cases tree with
    | obj members =>
      have hhas : Entries.has members key = true := by
        have hget : Entries.get? members key = some v := h
        rw [Entries.has, hget]
        rfl
      rw [pathsTo, if_pos hhas]
      exact List.mem_append_left _ List.mem_cons_self
    | null | bool | int | float | str | list => cases h
  | cons segment rest ih =>
    cases tree with
    | obj members =>
      -- The path goes first to the child of its first segment, and the rest of it is a path in the
      -- child.
      obtain ⟨resource, hresource, hkey⟩ := Option.bind_eq_some_iff.mp h
      rw [resourceAt_cons] at hresource
      obtain ⟨child, hchild, hbelow⟩ := Option.bind_eq_some_iff.mp hresource
      have hrest := ih (Option.bind_eq_some_iff.mpr ⟨resource, hbelow, hkey⟩)
      rw [pathsTo]
      exact List.mem_append_right _ (mem_pathsBelow hrest (Entries.mem_of_get? hchild))
    | null | bool | int | float | str | list => cases h

/-! ## Operations that are not found

Three ways in which an operation of a collection has no entry of its own. In two of them this is how
the definition is made: a first part of the path is cut off, and the top of the definition is
cleaned. In the third a method stands where the resource of a path is kept. -/

/-- Each of some operations has an entry of its own: under its method, and at a resource where no
other one of its method has its entry. -/
def SeparateEntries (endpoints : List Endpoint) (data : Members) : Prop :=
  ∃ resource : Endpoint → List String,
    (∀ e ∈ endpoints, ∃ method,
      entryAt (resource e) e.request.method (.obj data) = some (.obj method))
    ∧ ∀ e ∈ endpoints, ∀ other ∈ endpoints, resource e = resource other →
        e.request.method = other.request.method → e = other

/-- Two operations of one method have no separate entries where there is only one resource with
that method. -/
theorem not_separateEntries (only : List String) {endpoints : List Endpoint} {data : Members}
    {e other : Endpoint} (he : e ∈ endpoints) (hother : other ∈ endpoints)
    (hne : e.request.path ≠ other.request.path) (hmethod : e.request.method = other.request.method)
    (honly : ∀ path ∈ pathsTo e.request.method (.obj data), path = only) :
    ¬ SeparateEntries endpoints data := by
  rintro ⟨resource, hentries, hseparate⟩
  obtain ⟨_, hfound⟩ := hentries e he
  obtain ⟨_, hfoundOther⟩ := hentries other hother
  rw [← hmethod] at hfoundOther
  have hsame : resource e = resource other :=
    (honly _ (mem_pathsTo hfound)).trans (honly _ (mem_pathsTo hfoundOther)).symm
  exact hne (congrArg (·.request.path) (hseparate e he other hother hsame hmethod))

/-- An operation has no entry where no resource has its method. -/
theorem not_separateEntries_of_lost {endpoints : List Endpoint} {data : Members} {e : Endpoint}
    (he : e ∈ endpoints) (hlost : pathsTo e.request.method (.obj data) = []) :
    ¬ SeparateEntries endpoints data := by
  rintro ⟨resource, hentries, _⟩
  obtain ⟨_, hfound⟩ := hentries e he
  have hmem := mem_pathsTo hfound
  rw [hlost] at hmem
  cases hmem

/-- Requests of distinct paths and methods, with their definition. -/
theorem exists_definition_of_requests (requests : List Members) {tree : Members}
    (hroutes : (requests.map routeOf).Nodup)
    (hstorable : Json.Storable (collectionOf "N" requests))
    (hsettled : Json.settled (collectionOf "N" requests) = collectionOf "N" requests)
    (hoperations : (requests.map Value.obj).mapM operationOf
      = .ok ((requests.map operation).map Operation.endpoint))
    (hsaved : ∃ saved, (requests.map Value.obj).mapM savedEntryOf = .ok saved)
    (htree : insertAll (.obj []) (requests.map fun m => insertionOf .v10 (operation m))
      = .ok (.obj tree)) :
    ∃ p, Importer.Imports {} (Json.stored (collectionOf "N" requests)) p
      ∧ p.endpoints = requests.map (fun m => (operation m).endpoint)
      ∧ definition .v10 p = .ok (importedDefinition .v10 "N" "" tree) := by
  obtain ⟨saved, hsaved⟩ := hsaved
  have himports := (Importer.imports_collectionOf hstorable hsettled hoperations hsaved {}).1
  rw [operationsOf_of_nodup hroutes] at himports
  refine ⟨_, himports, List.map_map .., definition_imported ?_ ?_⟩
  · intro o ho
    obtain ⟨m, _, rfl⟩ := List.mem_map.mp ho
    exact operation_tidy m
  · rw [List.map_map]
    exact htree

/-- Requests that import, and of whose operations one has no entry of its own in RAML 1.0. -/
def LosesEntry (requests : List Members) : Prop :=
  ∃ p data, Importer.Imports {} (Json.stored (collectionOf "N" requests)) p
    ∧ definition .v10 p = .ok data ∧ ¬ SeparateEntries p.endpoints data

/-- Two requests whose paths differ only before the first slash. -/
def prefixedRequests : List Members :=
  [[("name", .str "A"), ("url", .str "\x7b\x7ba\x7d\x7d/users")],
   [("name", .str "B"), ("url", .str "\x7b\x7bb\x7d\x7d/users")]]

/-- A request without a slash in its path and with nothing to be declared. -/
def slashlessRequests : List Members := [[("url", .str "users")]]

/-- A request and one whose method is called like the resource of the first. -/
def slashedRequests : List Members :=
  [[("url", .str "/a/x")], [("name", .str "B"), ("url", .str "/a"), ("method", .str "/x")]]

set_option maxRecDepth 100000 in
/-- The later request takes the place of the first one. -/
theorem prefixedRequests_loseEntry : LosesEntry prefixedRequests := by
  have hroutes : prefixedRequests.map routeOf
      = [("<<a>>/users", "get"), ("<<b>>/users", "get")] := rfl
  have hinsertions : prefixedRequests.map (fun m => insertionOf .v10 (operation m))
      = [{ segments := ["users"], key := "get", method := [("displayName", .str "A")] },
         { segments := ["users"], key := "get", method := [("displayName", .str "B")] }] := rfl
  have hstorable : Json.Storable (collectionOf "N" prefixedRequests) := by
    simp [collectionOf, prefixedRequests, Json.Storable, Json.StorableItems, Json.StorableMembers]
  obtain ⟨p, himports, hendpoints, hdefinition⟩ := exists_definition_of_requests
    prefixedRequests (by rw [hroutes]; decide) hstorable rfl rfl ⟨_, rfl⟩
    (by rw [hinsertions]; rfl)
  refine ⟨p, _, himports, hdefinition, ?_⟩
  rw [hendpoints]
  -- There is one place with the method in the whole tree, and two operations for it.
  refine not_separateEntries ["users"] List.mem_cons_self
    (List.mem_cons_of_mem _ List.mem_cons_self) ?_ rfl ?_
  · intro heq
    have hdiffer : ("<<a>>/users", "get") = ("<<b>>/users", "get") := congrArg (·, "get") heq
    exact absurd hdiffer (by decide)
  · exact fun path hpath => List.mem_singleton.mp hpath

set_option maxRecDepth 100000 in
/-- Nothing is declared at the top, so nothing is kept there. -/
theorem slashlessRequests_loseEntry : LosesEntry slashlessRequests := by
  have hinsertions : slashlessRequests.map (fun m => insertionOf .v10 (operation m))
      = [{ segments := [], key := "get", method := [] }] := rfl
  have hstorable : Json.Storable (collectionOf "N" slashlessRequests) := by
    simp [collectionOf, slashlessRequests, Json.Storable, Json.StorableItems, Json.StorableMembers]
  obtain ⟨p, himports, hendpoints, hdefinition⟩ := exists_definition_of_requests
    slashlessRequests (List.nodup_singleton _) hstorable rfl rfl ⟨_, rfl⟩
    (by rw [hinsertions]; rfl)
  refine ⟨p, _, himports, hdefinition, ?_⟩
  rw [hendpoints]
  exact not_separateEntries_of_lost List.mem_cons_self rfl

set_option maxRecDepth 100000 in
/-- The declaration of the second request takes the place of the resource of the first one. -/
theorem slashedRequests_loseEntry : LosesEntry slashedRequests := by
  have hroutes : slashedRequests.map routeOf = [("/a/x", "get"), ("/a", "/x")] := rfl
  have hinsertions : slashedRequests.map (fun m => insertionOf .v10 (operation m))
      = [{ segments := ["a", "x"], key := "get", method := [] },
         { segments := ["a"], key := "/x", method := [("displayName", .str "B")] }] := rfl
  have hstorable : Json.Storable (collectionOf "N" slashedRequests) := by
    simp [collectionOf, slashedRequests, Json.Storable, Json.StorableItems, Json.StorableMembers]
  obtain ⟨p, himports, hendpoints, hdefinition⟩ := exists_definition_of_requests
    slashedRequests (by rw [hroutes]; decide) hstorable rfl rfl ⟨_, rfl⟩
    (by rw [hinsertions]; rfl)
  refine ⟨p, _, himports, hdefinition, ?_⟩
  rw [hendpoints]
  exact not_separateEntries_of_lost List.mem_cons_self rfl

/-- **Not every operation has an entry of its own**: one may come to the place of another, be left
out at the top, or lie where another one has its method. -/
theorem entries_not_separate :
    LosesEntry prefixedRequests ∧ LosesEntry slashlessRequests ∧ LosesEntry slashedRequests :=
  ⟨prefixedRequests_loseEntry, slashlessRequests_loseEntry, slashedRequests_loseEntry⟩

/-! ## Operations that are found

Where no method begins with a slash, the resource tree keeps methods and resources apart, and each
operation has the place that its path tells. -/

/-- A path without a slash leads to the top. -/
theorem segmentsOf_eq_nil {path : String} (h : '/' ∉ path.toList) : segmentsOf path = [] := by
  rw [segmentsOf, Text.drop_split, Text.after?_eq_none h]
  rfl

/-- What stands under a member of a definition, if anything does: nothing vacant is kept at the
top. -/
theorem entryAt_placed {version : Version} {name description : String} {tree : Members}
    (hnodup : (Entries.keys tree).Nodup) {path key : String} {method : Members}
    (h : entryAt (segmentsOf path) key (.obj tree) = some (.obj method)) :
    entryAt (segmentsOf path) key (.obj (importedDefinition version name description tree))
      = if '/' ∈ path.toList then some (.obj method) else partOf method := by
  split
  · next hslash => exact entryAt_importedDefinition hnodup (segmentsOf_ne_nil hslash) h
  · next hslash =>
    rw [segmentsOf_eq_nil hslash] at h ⊢
    have hmember : Entries.get? tree key = some (.obj method) := h
    show Entries.get? (importedDefinition version name description tree) key = partOf method
    rw [get?_importedDefinition hnodup hmember]
    rfl

/-- **Where the operations of an imported text stand** in the definition, if no method begins with a
slash: the last operation of a method and a text behind the first slash has its declaration there,
without the parameters of its path. Only at the top is one left out, if there is nothing in it. -/
theorem operations_placed {importer : Importer} {text : String} {p : Project}
    (h : importer.Imports text p)
    (hmethods : ∀ m ∈ importer.requests text, (givenMethod m).startsWith "/" = false)
    (exporter : Exporter) :
    ∃ data, ((exporter.load p).write "yaml").1.data = some data
      ∧ ∀ before e after, p.endpoints = before ++ e :: after →
          (∀ later ∈ after, later.request.method = e.request.method →
            Text.after? '/' later.request.path.toList ≠ Text.after? '/' e.request.path.toList) →
          ∃ declared,
            (∀ mediaType a, methodOf exporter.version p mediaType e a = .ok (declared, a))
              ∧ entryAt (segmentsOf e.request.path) e.request.method (.obj data)
                = if '/' ∈ e.request.path.toList
                  then some (.obj (Entries.erase declared "uriParameters"))
                  else partOf (Entries.erase declared "uriParameters") := by
  obtain ⟨name, description, saved, groups, rfl⟩ := project_eq_ok h.collection
  have hslashes : ∀ o ∈ operationsOf (requestsIn (importer.load (.str text)).1.data),
      o.method.startsWith "/" = false := method_of_mem_operationsOf hmethods
  obtain ⟨tree, hrun, htree⟩ := exists_treeFor exporter.version operationsOf_tidy hslashes
  refine ⟨_, Exporter.data_write (definition_imported operationsOf_tidy hrun) _, ?_⟩
  intro before e after hendpoints hlast
  -- The endpoints are those of the merged operations, so the endpoint in question and the later
  -- ones are split off there.
  obtain ⟨done, rest, hsplit, rfl, hrest⟩ := List.map_eq_append_iff.mp hendpoints
  obtain ⟨o, later, rfl, rfl, rfl⟩ := List.map_eq_cons_iff.mp hrest
  have hself : o ∈ operationsOf (requestsIn (importer.load (.str text)).1.data) := by
    rw [hsplit]
    exact List.mem_append_right _ List.mem_cons_self
  have htidy := operationsOf_tidy o hself
  rw [hsplit] at htree
  -- Later operations go elsewhere, so nothing is put in the place of this one.
  have hentry := entryAt_tree htree htidy (hslashes o hself) fun other hother hsame =>
    hlast other.endpoint (List.mem_map_of_mem hother) hsame.2 (segmentsOf_eq_iff.mp hsame.1)
  refine ⟨importedMethod exporter.version o, fun mediaType a =>
    methodOf_imported exporter.version _ mediaType htidy a, ?_⟩
  exact entryAt_placed (htree.resource [] tree rfl).nodup hentry

/-- Two requests that come to one place, and one that is left out. -/
def placedRequests : List Members := prefixedRequests ++ slashlessRequests

set_option maxRecDepth 100000 in
/-- Of the first two requests the second one is declared, and the third request is left out. -/
theorem operations_placed_prefixed : ∃ p data,
    Importer.Imports {} (Json.stored (collectionOf "N" placedRequests)) p
      ∧ (((Exporter.mk .v10 none none).load p).write "yaml").1.data = some data
      ∧ entryAt ["users"] "get" (.obj data) = some (.obj [("displayName", .str "B")])
      ∧ entryAt [] "get" (.obj data) = none := by
  have hroutes : placedRequests.map routeOf
      = [("<<a>>/users", "get"), ("<<b>>/users", "get"), ("users", "get")] := rfl
  have hstorable : Json.Storable (collectionOf "N" placedRequests) := by
    simp [collectionOf, placedRequests, prefixedRequests, slashlessRequests, Json.Storable,
      Json.StorableItems, Json.StorableMembers]
  obtain ⟨saved, hsaved⟩ : ∃ saved,
      (placedRequests.map Value.obj).mapM savedEntryOf = .ok saved := ⟨_, rfl⟩
  obtain ⟨himports, hrequests⟩ := Importer.imports_collectionOf hstorable rfl rfl hsaved {}
  rw [operationsOf_of_nodup (by rw [hroutes]; decide)] at himports
  have hmethods : ∀ m ∈ placedRequests, (givenMethod m).startsWith "/" = false := by
    have hgiven : placedRequests.map givenMethod = ["get", "get", "get"] := rfl
    intro m hm
    have hmem : givenMethod m ∈ ["get", "get", "get"] := hgiven ▸ List.mem_map_of_mem hm
    simp only [List.mem_cons, List.not_mem_nil, or_false, or_self] at hmem
    simp [hmem]
  obtain ⟨data, hdata, hplaced⟩ := operations_placed himports (by rw [hrequests]; exact hmethods)
    (Exporter.mk .v10 none none)
  -- A declaration is what the exporter writes of an operation.
  have hdeclares : ∀ {m declared}, (∀ mediaType a, methodOf .v10 (imported "N" ""
      (placedRequests.map operation) saved []) mediaType (operation m).endpoint a
        = .ok (declared, a)) → declared = importedMethod .v10 (operation m) := by
    intro m declared h
    have hsame := (h .null {}).symm.trans (methodOf_imported _ _ _ (operation_tidy m) _)
    exact congrArg Prod.fst (Except.ok.inj hsame)
  refine ⟨_, data, himports, hdata, ?_, ?_⟩
  · obtain ⟨declared, hdeclared, hentry⟩ := hplaced [_] _ [_] rfl (by
      intro later hlater _
      rw [List.mem_singleton.mp hlater]
      exact (Option.some_ne_none _).symm)
    rw [hdeclares hdeclared] at hentry
    exact hentry
  · obtain ⟨declared, hdeclared, hentry⟩ := hplaced [_, _] _ [] rfl (List.forall_mem_nil _)
    rw [hdeclares hdeclared] at hentry
    exact hentry

end Ramlify.Raml
