import Ramlify.Importer
import Ramlify.Proofs.Lowercase
import Ramlify.Proofs.Raml.ImportedDefinition
import Ramlify.Proofs.Raml.PassableTree
import Ramlify.Raml.Exporter

/-!
# Ramlify — whatever imports also exports

A request may be called anything, have any method and any path, and its fields may have any names.
None of that makes an export fail: an imported operation is declared without failing
(`methodOf_imported`), its declaration looks like a resource wherever a path may lead into it
(`passable_importedMethod`), and so all operations find their place in the tree.

* **`export_of_import`** — a text that is imported can be exported, in both versions of RAML.
-/

namespace Ramlify

/-- Loading a text that can be parsed keeps what it says, and only that. -/
theorem Importer.load_eq {text : String} {data : Value} (h : Json.parse text = .ok data)
    (importer : Importer) : importer.load (.str text) = ({ importer with data }, .ok ()) := by
  unfold Importer.load Json.parseStored
  dsimp only
  rw [h]

/-- A text that can be read and gives a project. -/
structure Importer.Imports (importer : Importer) (text : String) (p : Project) : Prop where
  load : (importer.load (.str text)).2 = .ok ()
  project : (importer.load (.str text)).1.project = .ok p

/-- A text of a collection that gives a project. -/
theorem Importer.imports_of_parse {text : String} {members : Members} {p : Project}
    (hparse : Json.parse text = .ok (.obj members))
    (hproject : Postman.project (.obj members) = .ok p) (importer : Importer) :
    importer.Imports text p := by
  constructor
  · rw [Importer.load_eq hparse]
  · rw [Importer.load_eq hparse]
    exact hproject

/-- The importer then holds what the text says. -/
theorem Importer.Imports.parse {importer : Importer} {text : String} {p : Project}
    (h : importer.Imports text p) :
    Json.parse text = .ok (importer.load (.str text)).1.data := by
  have hload := h.load
  unfold Importer.load Json.parseStored at hload ⊢
  dsimp only at hload ⊢
  cases hparse : Json.parse text with
  | ok data => rfl
  | error failure =>
    rw [hparse] at hload
    cases hload

/-- The project is that of the collection that was read. -/
theorem Importer.Imports.collection {importer : Importer} {text : String} {p : Project}
    (h : importer.Imports text p) :
    Postman.project (importer.load (.str text)).1.data = .ok p := by
  obtain ⟨data, hdata, hproject⟩ := Outcome.bind_eq_ok.mp h.project
  have hsame : data = (importer.load (.str text)).1.data := by
    unfold Importer.loaded at hdata
    split at hdata
    · cases hdata
    · exact (Except.ok.inj hdata).symm
  rw [← hsame]
  exact hproject

namespace Raml

open Postman (Operation imported operationsOf)

/-- The declaration of an imported operation can stand where a resource is looked for. -/
theorem passable_importedMethod (version : Version) (o : Operation) :
    Passable (.obj (importedMethod version o)) := by
  have hnodup := nodup_importedMethod version o
  refine .obj (fun v hv => ?_) (fun v hv => ?_) fun segment v hv => ?_
  · have hget := Entries.get?_of_mem hnodup hv
    -- A name that is shown is a text.
    rcases get?_displayName_importedMethod version o with hnone | hname
    · rw [hnone] at hget
      cases hget
    · rw [hname] at hget
      cases hget
      exact ⟨o.name, rfl⟩
  · have hget := Entries.get?_of_mem hnodup hv
    -- The parameters of a path are an object where there are any.
    rw [get?_uriParameters_importedMethod, partOf] at hget
    split at hget
    · cases hget
    · cases hget
      exact ⟨_, rfl⟩
  · -- A method of an import has no member whose name begins with a slash, so no path leads further.
    have hkey : resourceKey segment ∈ Entries.keys (importedMethod version o) :=
      List.mem_map_of_mem hv
    have hname := not_isResource_importedMethod version o hkey
    rw [startsWith_resourceKey] at hname
    cases hname

/-- Methods are in lower case, and the names that resources have for themselves are not. -/
theorem method_ne_label {o : Operation} (h : o.Tidy) :
    o.method ≠ "displayName" ∧ o.method ≠ "uriParameters" := by
  obtain ⟨given, hgiven⟩ := h.lowered
  rw [hgiven]
  exact ⟨Unicode.lower_ne ⟨'N', by decide, by decide⟩ given,
    Unicode.lower_ne ⟨'P', by decide, by decide⟩ given⟩

/-- Imported operations always find their place in a tree. -/
theorem exists_tree (version : Version) {operations : List Operation}
    (htidy : ∀ o ∈ operations, o.Tidy) :
    ∃ tree, insertAll (.obj []) (operations.map (insertionOf version)) = .ok (.obj tree) := by
  have hkeys : ∀ i ∈ operations.map (insertionOf version),
      i.key ≠ "displayName" ∧ i.key ≠ "uriParameters" := by
    intro i hi
    obtain ⟨o, ho, rfl⟩ := List.mem_map.mp hi
    exact method_ne_label (htidy o ho)
  have hmethods : ∀ i ∈ operations.map (insertionOf version), Passable (.obj i.method) := by
    intro i hi
    obtain ⟨o, _, rfl⟩ := List.mem_map.mp hi
    exact passable_importedMethod version o
  obtain ⟨after, hrun, hafter⟩ := insertAll_passable hkeys hmethods _ Passable.empty
  cases hafter with
  | @obj members _ _ _ => exact ⟨members, hrun⟩

/-- The same for a whole project: the definition of an imported collection has a tree in both
versions, and nothing else in it can fail. -/
theorem exists_definition (version : Version) {collection : Value} {p : Project}
    (h : Postman.project collection = .ok p) : ∃ data, definition version p = .ok data := by
  obtain ⟨name, description, saved, groups, rfl⟩ := Postman.project_eq_ok h
  -- The operations may be any tidy ones: what their requests say does not matter.
  have htidy : ∀ o ∈ operationsOf (Postman.requestsIn collection), o.Tidy :=
    Postman.operationsOf_tidy
  obtain ⟨tree, htree⟩ := exists_tree version htidy
  exact ⟨_, definition_imported htidy htree⟩

/-- **Whatever imports also exports.** -/
theorem export_of_import {importer : Importer} {text : String} {p : Project}
    (h : importer.Imports text p) {tag : String} (htag : tag ∈ ["0.8", "1.0"]) :
    ∃ exporter output, Exporter.ofTag tag = .ok exporter
      ∧ ((exporter.load p).write "yaml").2 = .ok output := by
  obtain ⟨version, hversion⟩ : ∃ version, Version.ofTag tag = .ok version := by
    simp only [List.mem_cons, List.not_mem_nil, or_false] at htag
    rcases htag with rfl | rfl
    · exact ⟨.v08, rfl⟩
    · exact ⟨.v10, rfl⟩
  obtain ⟨data, hdata⟩ := exists_definition version h.collection
  refine ⟨{ version }, document version data, ?_, ?_⟩
  · rw [Exporter.ofTag, hversion]
    rfl
  · unfold Exporter.write Exporter.load
    dsimp only
    rw [hdata]
    rfl

/-! ### A path that leads into a method

The one way an export could fail on an imported project is a path that goes through a member which
is no resource. The requests here build the closest case there is: a method with a slash in front,
and below it a path with the same name. -/

/-- A collection in which a path leads into a method: the method of the first request is called
like a resource, and the second request lies below it. -/
def strayingCollection : Value :=
  .obj [("name", .str "Straying"), ("requests", .list
    [.obj [("name", .str "First"), ("url", .str "pets/all"), ("method", .str "/Named")],
     .obj [("name", .str "Second"), ("url", .str "pets/all/named/1")]])]

/-- The text of the collection is read as the collection. -/
theorem parse_strayingCollection :
    Json.parse (Json.stored strayingCollection) = .ok strayingCollection := by
  have hstorable : Json.Storable strayingCollection := by
    simp [strayingCollection, Json.Storable, Json.StorableItems, Json.StorableMembers]
  have hsettled : Json.settled strayingCollection = strayingCollection := rfl
  rw [Json.parse_stored hstorable (by rintro ⟨⟩), hsettled]

set_option maxRecDepth 100000 in
/-- The collection is imported, and its project is written in spite of the path that leads into a
method. -/
theorem export_of_import_straying :
    ∃ p, Importer.Imports {} (Json.stored strayingCollection) p
      ∧ ∃ exporter output, Exporter.ofTag "1.0" = .ok exporter
        ∧ ((exporter.load p).write "yaml").2 = .ok output := by
  obtain ⟨p, hp⟩ : ∃ p, Postman.project strayingCollection = .ok p := ⟨_, rfl⟩
  have himports : Importer.Imports {} (Json.stored strayingCollection) p :=
    Importer.imports_of_parse parse_strayingCollection hp {}
  exact ⟨p, himports, export_of_import himports (by simp)⟩

end Raml

end Ramlify
