import Ramlify.Proofs.RequestCells
import Ramlify.Proofs.Schema.Typing
import Ramlify.Schema.Required

/-!
# Ramlify — which properties are required

A schema says in a list which of its properties are required; afterwards each of the others says so
itself. Two passes are made, and neither may lose a name or a list that the other one needs: turning
references into types (`typed`) goes through the map of properties as if it were a schema, and
spreading the lists (`spreadRequired`) reads the list of a schema before the lists of its properties
are gone.

* **`exists_rewrittenProperty`** — the first pass keeps the properties and their order, at one
  level.
* **`get?_required_spreadMembers`**, **`propertiesOf_spreadMembers`** — what the second pass
  changes, at one level.
* **`schemaAt_spread`** — both passes along a path of properties, by induction on the path.
-/

namespace Ramlify.Schema

open Json (NamesOnce NamesOnceMembers)

/-! ## Levels

A level is an object schema, and the levels below it are its properties. Both passes are followed
along a path of names. -/

/-- The properties of an object schema. -/
def propertiesOf (members : Members) : Members :=
  match Members.find members "properties" with
  | .obj properties => properties
  | _ => []

/-- The object schema that names of properties lead to, each a property of the one before. -/
def schemaAt (members : Members) : List String → Option Members
  | [] => some members
  | name :: path =>
    match Entries.get? (propertiesOf members) name with
    | some (.obj property) => schemaAt property path
    | _ => none

/-- A schema that says in a list what is required, and whose properties are schemas. -/
structure ListsRequired (members : Members) : Prop where
  required : ∀ v, Entries.get? members "required" = some v → ∃ names, v = .list names
  properties : ∀ v, Entries.get? members "properties" = some v →
    ∃ properties, v = .obj properties ∧ ∀ p ∈ properties, ∃ property, p.2 = .obj property

/-- A schema that does so at every level. -/
def IsListing (members : Members) : Prop :=
  ∀ path level, schemaAt members path = some level → ListsRequired level

/-- What a level says afterwards: the same properties, and of those that were not required that they
are not. -/
structure MarksOptional (before after : Members) : Prop where
  names : Entries.keys (propertiesOf after) = Entries.keys (propertiesOf before)
  optional : ∀ name ∈ Entries.keys (propertiesOf before), ∃ property,
    Entries.get? (propertiesOf after) name = some (.obj property)
      ∧ (Entries.get? property "required" = some (.bool false)
        ↔ .str name ∉ requiredItems before)

theorem propertiesOf_congr {members others : Members}
    (h : Entries.get? members "properties" = Entries.get? others "properties") :
    propertiesOf members = propertiesOf others := by
  rw [propertiesOf, propertiesOf, Members.find, Members.find, h]

/-- The properties are those of that member. -/
theorem propertiesOf_of_get? {members properties : Members}
    (h : Entries.get? members "properties" = some (.obj properties)) :
    propertiesOf members = properties := by
  rw [propertiesOf, Members.find, h]
  rfl

theorem propertiesOf_of_none {members : Members}
    (h : Entries.get? members "properties" = none) : propertiesOf members = [] := by
  rw [propertiesOf, Members.find, h]
  rfl

/-- A property of such a schema is such a schema. -/
theorem IsListing.property {members property : Members} (h : IsListing members) {name : String}
    (hget : Entries.get? (propertiesOf members) name = some (.obj property)) :
    IsListing property := by
  intro path level hlevel
  apply h (name :: path) level
  rw [schemaAt, hget]
  exact hlevel

theorem exists_property {members : Members} (h : ListsRequired members) {name : String} {v : Value}
    (hget : Entries.get? (propertiesOf members) name = some v) : ∃ property, v = .obj property := by
  cases hproperties : Entries.get? members "properties" with
  | none =>
    rw [propertiesOf_of_none hproperties] at hget
    cases hget
  | some w =>
    obtain ⟨properties, rfl, hschemas⟩ := h.properties w hproperties
    rw [propertiesOf_of_get? hproperties] at hget
    exact hschemas (name, v) (Entries.mem_of_get? hget)

/-- What stands under a property has its names once. -/
theorem namesOnce_property {members : Members} (honce : NamesOnce (.obj members)) {name : String}
    {v : Value} (hget : Entries.get? (propertiesOf members) name = some v) : NamesOnce v := by
  cases hproperties : Entries.get? members "properties" with
  | none =>
    rw [propertiesOf_of_none hproperties] at hget
    cases hget
  | some w =>
    have honce' := honce.of_get? hproperties
    cases w with
    | obj properties =>
      rw [propertiesOf_of_get? hproperties] at hget
      exact honce'.of_get? hget
    | null | bool | int | float | str | list =>
      rw [propertiesOf, Members.find, hproperties] at hget
      cases hget

/-! ## Turning references into types, at one level

The first pass rewrites the map of properties like a schema. It may do so without harm, since all
that stands in it are schemas. -/

/-- What becomes of a schema in the first pass. Below a schema of type string nothing does. -/
def Rewritten (before now : Members) : Prop := now = before ∨ now = typedObject before

theorem Rewritten.nodup {before now : Members} (h : Rewritten before now)
    (hnames : (Entries.keys before).Nodup) : (Entries.keys now).Nodup := by
  rcases h with rfl | rfl
  · exact hnames
  · rw [typedObject]
    split
    · exact nodup_typedText hnames
    · exact nodup_typedMembers before false List.Pairwise.nil

/-- The map of properties is rewritten as a schema of its own, but all that stands in it are
schemas, which are neither types nor references nor titles. -/
theorem typedObject_properties {properties : Members}
    (hnames : (Entries.keys properties).Nodup)
    (hschemas : ∀ p ∈ properties, ∃ property, p.2 = .obj property) :
    typedObject properties = Entries.mapValues (fun _ => typed) properties := by
  -- The map is no text: under the name of the type stands a schema.
  have htext : ¬ isTextSchema properties = true := by
    rw [isTextSchema, Members.find]
    cases hget : Entries.get? properties "type" with
    | none => exact Bool.false_ne_true
    | some v =>
      obtain ⟨property, hproperty⟩ := hschemas _ (Entries.mem_of_get? hget)
      rw [show v = .obj property from hproperty]
      exact Bool.false_ne_true
  have hkept : ∀ p ∈ properties, typedMember? p.1 p.2 = some (typed p.2) := by
    intro p hp
    obtain ⟨property, hproperty⟩ := hschemas p hp
    rw [hproperty]
    rfl
  have hall : (Entries.keys ([] ++ properties)).Nodup := hnames
  rw [typedObject, if_neg htext, typedMembers_of_kept hkept hall, List.nil_append,
    Entries.mapValues]

/-- The first pass keeps the properties of a schema: the same names, each with what becomes of its
property. -/
theorem exists_rewrittenProperty {before now : Members} (hrewritten : Rewritten before now)
    (honce : NamesOnce (.obj before)) (h : ListsRequired before) :
    Entries.keys (propertiesOf now) = Entries.keys (propertiesOf before)
      ∧ ∀ name property, Entries.get? (propertiesOf before) name = some (.obj property) →
        ∃ rewritten, Entries.get? (propertiesOf now) name = some (.obj rewritten)
          ∧ Rewritten property rewritten := by
  -- In two of the cases the properties are not touched at all.
  have hsame : propertiesOf now = propertiesOf before →
      Entries.keys (propertiesOf now) = Entries.keys (propertiesOf before)
        ∧ ∀ name property, Entries.get? (propertiesOf before) name = some (.obj property) →
          ∃ rewritten, Entries.get? (propertiesOf now) name = some (.obj rewritten)
            ∧ Rewritten property rewritten := by
    intro heq
    rw [heq]
    exact ⟨rfl, fun name property hget => ⟨property, hget, Or.inl rfl⟩⟩
  rcases hrewritten with rfl | rfl
  · exact hsame rfl
  · by_cases htext : isTextSchema before = true
    · apply hsame
      apply propertiesOf_congr
      rw [typedObject, if_pos htext, get?_typedText before (by decide)]
    · have hread : Entries.get? (typedObject before) "properties"
          = (Entries.get? before "properties").bind (typedMember? "properties") := by
        rw [typedObject, if_neg htext, get?_typedMembers honce.1 (by decide)]
      cases hget : Entries.get? before "properties" with
      | none =>
        rw [hget] at hread
        apply hsame
        rw [propertiesOf_of_none hread, propertiesOf_of_none hget]
      | some v =>
        obtain ⟨properties, rfl, hschemas⟩ := h.properties v hget
        have hnames : (Entries.keys properties).Nodup := (honce.of_get? hget).1
        have hnow : propertiesOf (typedObject before)
            = Entries.mapValues (fun _ => typed) properties := by
          apply propertiesOf_of_get?
          rw [hread, hget, Option.bind_some, ← typedObject_properties hnames hschemas, ← typed_obj]
          rfl
        rw [propertiesOf_of_get? hget, hnow]
        refine ⟨Entries.keys_mapValues _ properties, fun name property hproperty => ?_⟩
        refine ⟨typedObject property, ?_, Or.inr rfl⟩
        rw [Entries.get?_mapValues, hproperty, Option.map_some, typed_obj]

/-- The first pass keeps the list of what is required. -/
theorem mem_requiredItems_iff {before now : Members} (hrewritten : Rewritten before now)
    (hnames : (Entries.keys before).Nodup) (h : ListsRequired before) {name : String} :
    .str name ∈ requiredItems now ↔ .str name ∈ requiredItems before := by
  rcases hrewritten with rfl | rfl
  · exact Iff.rfl
  · rw [requiredItems, requiredItems, Members.find, Members.find, typedObject]
    by_cases htext : isTextSchema before = true
    · rw [if_pos htext, get?_typedText before (by decide)]
    · rw [if_neg htext, get?_typedMembers hnames (by decide)]
      cases hget : Entries.get? before "required" with
      | none => exact Iff.rfl
      | some v =>
        obtain ⟨items, rfl⟩ := h.required v hget
        show .str name ∈ typedItems items ↔ _
        -- The items of the list are rewritten one by one, and texts stay as they are.
        rw [typedItems_eq_map, List.mem_map]
        constructor
        · rintro ⟨item, hitem, htyped⟩
          rw [typed_eq_str_iff] at htyped
          exact htyped ▸ hitem
        · exact fun hname => ⟨.str name, hname, rfl⟩

theorem Rewritten.required {before now : Members} (hrewritten : Rewritten before now)
    (hnames : (Entries.keys before).Nodup) (h : ListsRequired before) :
    ∀ v, Entries.get? now "required" = some v → ∃ names, v = .list names := by
  rcases hrewritten with rfl | rfl
  · exact h.required
  · intro v hv
    rw [typedObject] at hv
    by_cases htext : isTextSchema before = true
    · rw [if_pos htext, get?_typedText before (by decide)] at hv
      exact h.required v hv
    · rw [if_neg htext, get?_typedMembers hnames (by decide)] at hv
      obtain ⟨w, hw, hkept⟩ := Option.bind_eq_some_iff.mp hv
      obtain ⟨names, rfl⟩ := h.required w hw
      cases hkept
      exact ⟨typedItems names, rfl⟩

/-! ## Spreading the list of what is required, at one level

The second pass takes the list of a schema away and gives it to the properties, each of which
spreads its own list before it is marked. -/

/-- The map of properties stays where it was, with the list spread over it. -/
theorem get?_properties_spreadMembers (required : List Value) (members : Members) :
    Entries.get? (spreadMembers required members) "properties"
      = (Entries.get? members "properties").map (spreadProperties required) := by
  induction members with
  | nil => rfl
  | cons entry rest ih =>
    obtain ⟨name, member⟩ := entry
    rw [spreadMembers, Entries.get?_cons]
    -- A list of required names is left out, and it does not stand under this name.
    by_cases hlist : isRequiredList name member = true
    · have hname : name ≠ "properties" := by
        rintro rfl
        cases member <;> cases hlist
      rw [if_pos hlist, if_neg hname, ih]
    · rw [if_neg hlist]
      by_cases hname : name = "properties"
      · rw [if_pos hname, if_pos hname, Entries.get?_cons, if_pos hname, Option.map_some]
      · rw [if_neg hname, if_neg hname, Entries.get?_cons, if_neg hname, ih]

/-- No list of what is required is left, if there was nothing else in its place. -/
theorem get?_required_spreadMembers (required : List Value) {members : Members}
    (hnames : (Entries.keys members).Nodup)
    (h : ∀ v, Entries.get? members "required" = some v → ∃ names, v = .list names) :
    Entries.get? (spreadMembers required members) "required" = none := by
  induction members with
  | nil => rfl
  | cons entry rest ih =>
    obtain ⟨name, member⟩ := entry
    rw [Entries.keys, List.map_cons, List.nodup_cons] at hnames
    have hrest : Entries.get? (spreadMembers required rest) "required" = none := by
      apply ih hnames.2
      intro v hv
      -- The first member was no list, so it does not have that name.
      have hne : name ≠ "required" := by
        rintro rfl
        exact hnames.1 (Entries.isSome_get?_iff.mp (by rw [hv]; rfl))
      exact h v (by rw [Entries.get?_cons, if_neg hne, hv])
    rw [spreadMembers]
    by_cases hlist : isRequiredList name member = true
    · rw [if_pos hlist, hrest]
    · have hne : name ≠ "required" := by
        rintro rfl
        obtain ⟨names, rfl⟩ := h member (by rw [Entries.get?_cons, if_pos rfl])
        exact hlist rfl
      rw [if_neg hlist]
      split
      · rw [Entries.get?_cons, if_neg hne, hrest]
      · rw [Entries.get?_cons, if_neg hne, hrest]

/-- The properties are gone through one by one. -/
theorem spreadEach_eq (required : List Value) (properties : Members) :
    spreadEach required properties = Entries.mapValues (spreadProperty required) properties := by
  induction properties with
  | nil => rfl
  | cons entry rest ih => rw [spreadEach, ih, Entries.mapValues, Entries.mapValues, List.map_cons]

theorem propertiesOf_spreadMembers (required : List Value) (members : Members) :
    propertiesOf (spreadMembers required members)
      = Entries.mapValues (spreadProperty required) (propertiesOf members) := by
  rw [propertiesOf, propertiesOf, Members.find, Members.find, get?_properties_spreadMembers]
  cases Entries.get? members "properties" with
  | none => rfl
  | some v =>
    cases v with
    | obj properties => exact spreadEach_eq required properties
    | null | bool | int | float | str | list => rfl

/-- A property afterwards, without the mark that it may get. -/
def spreadInner (property : Members) : Members :=
  if Entries.has property "properties" then spreadMembers (requiredItems property) property
  else property

/-- A property is spread first and then marked. -/
theorem spreadProperty_obj (required : List Value) (name : String) (property : Members) :
    spreadProperty required name (.obj property)
      = .obj (markOptional required name (spreadInner property)) := by
  rw [spreadProperty]
  rfl

/-- A property without properties is left as it is, which is what spreading its list would do to the
properties that it has. -/
theorem propertiesOf_spreadProperty (required : List Value) (name : String) (property : Members) :
    propertiesOf (markOptional required name (spreadInner property))
      = propertiesOf (spreadMembers (requiredItems property) property) := by
  have hmark : propertiesOf (markOptional required name (spreadInner property))
      = propertiesOf (spreadInner property) := by
    apply propertiesOf_congr
    rw [markOptional]
    split
    · rfl
    · exact Entries.get?_put_of_ne _ _ (by decide)
  rw [hmark, spreadInner]
  split
  · rfl
  · -- There are no properties that the list could be spread over.
    next hnone =>
    apply propertiesOf_congr
    rw [get?_properties_spreadMembers]
    cases hget : Entries.get? property "properties" with
    | none => rfl
    | some v => exact absurd (by rw [Entries.has, hget]; rfl) hnone

/-- A name is listed if the text that it is stands in the list. -/
theorem any_isText_iff {items : List Value} {name : String} :
    items.any (Value.isText name) = true ↔ .str name ∈ items := by
  rw [List.any_eq_true]
  constructor
  · rintro ⟨v, hv, htext⟩
    cases v with
    | str s => exact beq_iff_eq.mp htext ▸ hv
    | null | bool | int | float | list | obj => cases htext
  · exact fun hname => ⟨.str name, hname, beq_self_eq_true name⟩

/-- A property says that it is not required exactly if it is not listed. It says nothing of that
kind before. -/
theorem get?_required_markOptional {required : List Value} {name : String} {property : Members}
    (hnames : (Entries.keys property).Nodup)
    (h : ∀ v, Entries.get? property "required" = some v → ∃ names, v = .list names) :
    Entries.get? (markOptional required name (spreadInner property)) "required"
        = some (.bool false)
      ↔ .str name ∉ required := by
  rw [markOptional]
  by_cases hname : .str name ∈ required
  · rw [if_pos (any_isText_iff.mpr hname)]
    refine ⟨fun hread => ?_, fun hnot => absurd hname hnot⟩
    rw [spreadInner] at hread
    split at hread
    · rw [get?_required_spreadMembers _ hnames h] at hread
      cases hread
    · obtain ⟨names, hlist⟩ := h _ hread
      cases hlist
  · rw [if_neg (mt any_isText_iff.mp hname)]
    exact ⟨fun _ => hname, fun _ => Entries.get?_put_self _ _ _⟩

/-! ## Both passes

The second pass reads what the first one has left. What it needs, the properties and the list, is
there. -/

section

variable {before now after : Members} (hrewritten : Rewritten before now)
  (honce : NamesOnce (.obj before)) (h : IsListing before)
  (hafter : propertiesOf after = propertiesOf (spreadMembers (requiredItems now) now))

include hrewritten honce h hafter

/-- A property after both passes: rewritten, spread and marked. -/
theorem exists_markedProperty {name : String} {property : Members}
    (hget : Entries.get? (propertiesOf before) name = some (.obj property)) :
    ∃ rewritten, Rewritten property rewritten
      ∧ Entries.get? (propertiesOf after) name
        = some (.obj (markOptional (requiredItems now) name (spreadInner rewritten))) := by
  obtain ⟨rewritten, hnow, hproperty⟩ :=
    (exists_rewrittenProperty hrewritten honce (h [] before rfl)).2 name property hget
  refine ⟨rewritten, hproperty, ?_⟩
  rw [hafter, propertiesOf_spreadMembers, Entries.get?_mapValues, hnow, Option.map_some,
    spreadProperty_obj]

/-- The properties have the same names afterwards. -/
theorem keys_spread : Entries.keys (propertiesOf after) = Entries.keys (propertiesOf before) := by
  rw [hafter, propertiesOf_spreadMembers, Entries.keys_mapValues,
    (exists_rewrittenProperty hrewritten honce (h [] before rfl)).1]

theorem marksOptional_spread : MarksOptional before after := by
  refine ⟨keys_spread hrewritten honce h hafter, fun name hname => ?_⟩
  obtain ⟨v, hget⟩ := Option.isSome_iff_exists.mp (Entries.isSome_get?_iff.mpr hname)
  obtain ⟨property, rfl⟩ := exists_property (h [] before rfl) hget
  obtain ⟨rewritten, hproperty, hmarked⟩ := exists_markedProperty hrewritten honce h hafter hget
  refine ⟨_, hmarked, ?_⟩
  have hlists : ListsRequired property := h.property hget [] property rfl
  have hnames : (Entries.keys property).Nodup := (namesOnce_property honce hget).1
  rw [get?_required_markOptional (hproperty.nodup hnames) (hproperty.required hnames hlists),
    mem_requiredItems_iff hrewritten honce.1 (h [] before rfl)]

end

/-- **Every level after both passes.** By induction on the path: below a property stands what the
first pass made of it, with its own list spread. -/
theorem schemaAt_spread (path : List String) : ∀ {before now after : Members},
    Rewritten before now → NamesOnce (.obj before) → IsListing before →
      propertiesOf after = propertiesOf (spreadMembers (requiredItems now) now) →
      Option.Rel MarksOptional (schemaAt before path) (schemaAt after path) := by
  induction path with
  | nil =>
    intro before now after hrewritten honce h hafter
    exact .some (marksOptional_spread hrewritten honce h hafter)
  | cons name path ih =>
    intro before now after hrewritten honce h hafter
    rw [schemaAt, schemaAt]
    cases hget : Entries.get? (propertiesOf before) name with
    | none =>
      -- A property that is not there before is not there afterwards.
      have hnone : Entries.get? (propertiesOf after) name = none := by
        rw [Entries.get?_eq_none_iff, keys_spread hrewritten honce h hafter]
        exact Entries.get?_eq_none_iff.mp hget
      rw [hnone]
      exact .none
    | some v =>
      obtain ⟨property, rfl⟩ := exists_property (h [] before rfl) hget
      obtain ⟨rewritten, hproperty, hmarked⟩ :=
        exists_markedProperty hrewritten honce h hafter hget
      rw [hmarked]
      exact ih hproperty (namesOnce_property honce hget) (h.property hget)
        (propertiesOf_spreadProperty _ name rewritten)

/-- **What is required is still required**, and nothing else is, once references have become types
and the lists of required properties are spread: at every level that properties lead to there are
the same properties in the same order, and one of them says that it is not required exactly if its
level did not list it. The schema itself has no list any more. -/
theorem required_preserved {members : Members} (honce : NamesOnce (.obj members))
    (h : IsListing members) :
    ∃ after, spreadRequired (typed (.obj members)) = .obj after
      ∧ Entries.get? after "required" = none
      ∧ ∀ path, Option.Rel MarksOptional (schemaAt members path) (schemaAt after path) := by
  have hrewritten : Rewritten members (typedObject members) := Or.inr rfl
  refine ⟨spreadMembers (requiredItems (typedObject members)) (typedObject members), ?_, ?_, ?_⟩
  · rw [typed_obj, spreadRequired]
  · exact get?_required_spreadMembers _ (hrewritten.nodup honce.1)
      (hrewritten.required honce.1 (h [] members rfl))
  · exact fun path => schemaAt_spread path hrewritten honce h rfl

theorem isListing_of_properties {members : Members} (h : ListsRequired members)
    (hproperties : ∀ name property,
      (name, .obj property) ∈ propertiesOf members → IsListing property) : IsListing members := by
  intro path level hlevel
  cases path with
  | nil =>
    cases hlevel
    exact h
  | cons name path =>
    rw [schemaAt] at hlevel
    split at hlevel
    · next property hget =>
      exact hproperties name property (Entries.mem_of_get? hget) path level hlevel
    · cases hlevel

/-- A schema without properties has no levels below. -/
theorem isListing_of_none {members : Members}
    (hrequired : ∀ v, Entries.get? members "required" = some v → ∃ names, v = .list names)
    (hnone : Entries.get? members "properties" = none) : IsListing members := by
  apply isListing_of_properties
  · exact ⟨hrequired, fun v hv => by rw [hnone] at hv; cases hv⟩
  · intro name property hmem
    rw [propertiesOf_of_none hnone] at hmem
    cases hmem

/-- The owner of a pet. Its properties have names that mean something in a schema. -/
def ownerMembers : Members :=
  [("required", .list [.str "ref"]),
    ("properties", .obj [
      ("ref", .obj [("type", .str "string"), ("format", .str "date")]),
      ("required",
        .obj [("$ref", .str "#/definitions/Rights"), ("required", .list [.str "ref"])])])]

/-- The owner lists what is required, and its properties have none of their own. -/
theorem ownerMembers_listing : IsListing ownerMembers := by
  refine isListing_of_properties ⟨by simp [ownerMembers, Entries.get?], ?_⟩ ?_
  · simp [ownerMembers, Entries.get?, or_imp, forall_and]
  · intro name property hmem
    simp [ownerMembers, propertiesOf, Members.find, Entries.get?] at hmem
    rcases hmem with ⟨_, rfl⟩ | ⟨_, rfl⟩
    · exact isListing_of_none (by simp [Entries.get?]) rfl
    · exact isListing_of_none (by simp [Entries.get?]) rfl

/-- A schema in which one property has properties of its own. -/
def petMembers : Members :=
  [("title", .str "Pet"), ("type", .str "object"),
    ("properties", .obj [
      ("title", .obj [("type", .str "string"), ("title", .str "Name")]),
      ("owner", .obj ownerMembers),
      ("type", .obj [("ref", .str "Kind"), ("type", .str "object")])]),
    ("required", .list [.str "owner", .str "type"])]

/-- The owner still has two properties, of which the second is not required. -/
theorem required_preserved_owner :
    NamesOnce (.obj petMembers) ∧ IsListing petMembers
      ∧ ∃ after owner rights, spreadRequired (typed (.obj petMembers)) = .obj after
        ∧ schemaAt after ["owner"] = some owner
        ∧ Entries.keys (propertiesOf owner) = ["ref", "required"]
        ∧ Entries.get? (propertiesOf owner) "required" = some (.obj rights)
        ∧ Entries.get? rights "required" = some (.bool false) := by
  have honce : NamesOnce (.obj petMembers) := by
    simp [petMembers, ownerMembers, NamesOnce, NamesOnceMembers, Json.NamesOnceItems, Entries.keys]
  -- Each property is a schema, and only the owner has properties again.
  have hlisting : IsListing petMembers := by
    refine isListing_of_properties ⟨by simp [petMembers, Entries.get?], ?_⟩ ?_
    · simp [petMembers, Entries.get?, or_imp, forall_and]
    · intro name property hmem
      simp [petMembers, propertiesOf, Members.find, Entries.get?] at hmem
      rcases hmem with ⟨_, rfl⟩ | ⟨_, rfl⟩ | ⟨_, rfl⟩
      · exact isListing_of_none (by simp [Entries.get?]) rfl
      · exact ownerMembers_listing
      · exact isListing_of_none (by simp [Entries.get?]) rfl
  obtain ⟨after, hafter, _, hlevels⟩ := required_preserved honce hlisting
  have howner := hlevels ["owner"]
  rw [show schemaAt petMembers ["owner"] = some ownerMembers from rfl] at howner
  cases hread : schemaAt after ["owner"] with
  | none =>
    rw [hread] at howner
    cases howner
  | some owner =>
    rw [hread] at howner
    obtain ⟨hnames, hoptional⟩ : MarksOptional ownerMembers owner := by
      cases howner
      assumption
    obtain ⟨rights, hrights, hmark⟩ := hoptional "required" (by decide)
    refine ⟨honce, hlisting, after, owner, rights, hafter, hread, hnames, hrights, hmark.mpr ?_⟩
    simp [requiredItems, ownerMembers, Members.find, Entries.get?]

end Ramlify.Schema
