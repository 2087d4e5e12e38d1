import Ramlify.Proofs.Schema.RequiredNames

/-!
# Ramlify — which lists of required properties are left

Spreading takes the list of a schema away and goes on within those of its properties that have
properties themselves. A property that has none is copied with all that it says, and its list with
it; only where the property is not required does the mark take the place of the list. So a list is
left exactly at a property that is required, has a list, and has no properties that the list could
be about.

* **`schemaAt_spread_concat`** — what stands at a path afterwards, by induction on the path: a
  property of the level before, spread and marked by the list of that level.
* **`get?_required_marked`** — what such a property says of being required.
* **`lists_left_iff`** — both together, for all levels.
-/

namespace Ramlify.Schema

open Json (NamesOnce NamesOnceMembers)

/-! ## Levels

A level of a schema is what some names of properties lead to. Levels are followed from the top for
the schema and from the end for its last property. -/

theorem schemaAt_cons (members : Members) (name : String) (path : List String) :
    schemaAt members (name :: path)
      = (schemaAt members [name]).bind fun property => schemaAt property path := by
  rw [schemaAt, schemaAt]
  cases Entries.get? (propertiesOf members) name with
  | none => rfl
  | some v => cases v <;> rfl

theorem schemaAt_concat (members : Members) (front : List String) (name : String) :
    schemaAt members (front ++ [name])
      = (schemaAt members front).bind fun parent => schemaAt parent [name] := by
  induction front generalizing members with
  | nil => rfl
  | cons first front ih =>
    rw [List.cons_append, schemaAt_cons, schemaAt_cons members first front, Option.bind_assoc]
    exact Option.bind_congr fun property _ => ih property

/-- The properties of a level afterwards are those of before, each spread and marked. -/
theorem schemaAt_spread_single {members after : Members}
    (h : propertiesOf after = propertiesOf (spreadMembers (requiredItems members) members))
    (name : String) :
    schemaAt after [name] = (schemaAt members [name]).map fun property =>
      markOptional (requiredItems members) name (spreadInner property) := by
  rw [schemaAt, schemaAt, h, propertiesOf_spreadMembers, Entries.get?_mapValues]
  cases Entries.get? (propertiesOf members) name with
  | none => rfl
  | some v =>
    cases v with
    | obj property =>
      rw [Option.map_some, spreadProperty_obj]
      rfl
    | null | bool | int | float | str | list => rfl

/-- **What stands at a path afterwards.** Only the properties of a level count on the way, and these
are the same whether its own list was spread or not. -/
theorem schemaAt_spread_concat (front : List String) (name : String) : ∀ {members after : Members},
    propertiesOf after = propertiesOf (spreadMembers (requiredItems members) members) →
      schemaAt after (front ++ [name]) = (schemaAt members front).bind fun parent =>
        (schemaAt parent [name]).map fun property =>
          markOptional (requiredItems parent) name (spreadInner property) := by
  induction front with
  | nil =>
    intro members after h
    exact schemaAt_spread_single h name
  | cons first front ih =>
    intro members after h
    rw [List.cons_append, schemaAt_cons, schemaAt_cons members first front,
      schemaAt_spread_single h first, Option.bind_map, Option.bind_assoc]
    exact Option.bind_congr fun property _ => ih (propertiesOf_spreadProperty _ first property)

/-! ## What a level says of being required

After spreading a level says that it is not required, or says nothing, or has kept its list. The
last case is what the statement is about. -/

/-- A property that is not required says so. One that is required says nothing if it has properties,
and else what it said before. -/
theorem get?_required_marked (required : List Value) (name : String) {property : Members}
    (hnames : (Entries.keys property).Nodup) (h : ListsRequired property) :
    Entries.get? (markOptional required name (spreadInner property)) "required"
      = if required.any (Value.isText name) then
          if Entries.has property "properties" then none else Entries.get? property "required"
        else some (.bool false) := by
  rw [markOptional, spreadInner]
  split
  · split
    · exact get?_required_spreadMembers _ hnames h.required
    · rfl
  · exact Entries.get?_put_self _ _ _

/-- A property that keeps its list of required properties: it is required itself, and has no
properties. -/
def KeepsList (members : Members) (path : List String) (items : List Value) : Prop :=
  ∃ front name parent property, path = front ++ [name]
    ∧ schemaAt members front = some parent ∧ schemaAt parent [name] = some property
    ∧ .str name ∈ requiredItems parent
    ∧ Entries.get? property "properties" = none
    ∧ Entries.get? property "required" = some (.list items)

/-- The schema itself is no property, so it keeps no list. -/
theorem not_keepsList_nil (members : Members) (items : List Value) :
    ¬ KeepsList members [] items := by
  rintro ⟨front, name, parent, property, hpath, -⟩
  exact List.concat_ne_nil name front hpath.symm

/-- For a property whose level is known the conditions are about two levels only. -/
theorem keepsList_concat_iff {members parent property : Members} (front : List String)
    {name : String} (hparent : schemaAt members front = some parent)
    (hproperty : schemaAt parent [name] = some property) {items : List Value} :
    KeepsList members (front ++ [name]) items
      ↔ .str name ∈ requiredItems parent ∧ Entries.get? property "properties" = none
        ∧ Entries.get? property "required" = some (.list items) := by
  constructor
  · rintro ⟨front', name', parent', property', hpath, hparent', hproperty', hkeeps⟩
    obtain ⟨rfl, hname⟩ := List.append_inj' hpath rfl
    cases hname
    cases hparent.symm.trans hparent'
    cases hproperty.symm.trans hproperty'
    exact hkeeps
  · exact fun hkeeps => ⟨front, name, parent, property, rfl, hparent, hproperty, hkeeps⟩

/-- What a level says of being required after its list was spread: nothing, that it is not, or the
list that it kept. -/
structure SaysRequired (members : Members) (path : List String) (level : Members) : Prop where
  list_iff : ∀ items, Entries.get? level "required" = some (.list items)
    ↔ KeepsList members path items
  other : (∀ items, ¬ KeepsList members path items) →
    Entries.get? level "required" = none ∨ Entries.get? level "required" = some (.bool false)

/-- What a property says, by the list of its parent and by what it says itself. -/
theorem saysRequired_concat {members parent property : Members} {front : List String}
    {name : String} (hparent : schemaAt members front = some parent)
    (hproperty : schemaAt parent [name] = some property)
    (hnames : (Entries.keys property).Nodup) (h : ListsRequired property) :
    SaysRequired members (front ++ [name])
      (markOptional (requiredItems parent) name (spreadInner property)) := by
  have hread := get?_required_marked (requiredItems parent) name hnames h
  by_cases hlisted : .str name ∈ requiredItems parent
  · rw [if_pos (any_isText_iff.mpr hlisted), Entries.has] at hread
    cases hproperties : Entries.get? property "properties" with
    | some v =>
      rw [hproperties, Option.isSome_some, if_pos rfl] at hread
      refine ⟨fun items => ?_, fun _ => Or.inl hread⟩
      rw [hread, keepsList_concat_iff front hparent hproperty, hproperties]
      simp
    | none =>
      rw [hproperties, Option.isSome_none, if_neg Bool.false_ne_true] at hread
      have hiff : ∀ items, KeepsList members (front ++ [name]) items
          ↔ Entries.get? property "required" = some (.list items) := fun items => by
        rw [keepsList_concat_iff front hparent hproperty, hproperties]
        simp [hlisted]
      refine ⟨fun items => by rw [hread, hiff], fun hnone => Or.inl ?_⟩
      -- What a property says of being required is a list, and this one would keep it.
      rw [hread, Option.eq_none_iff_forall_ne_some]
      intro v hv
      obtain ⟨items, rfl⟩ := h.required v hv
      exact hnone items ((hiff items).mpr hv)
  · rw [if_neg (mt any_isText_iff.mp hlisted)] at hread
    refine ⟨fun items => ?_, fun _ => Or.inr hread⟩
    rw [hread, keepsList_concat_iff front hparent hproperty]
    simp [hlisted]

/-! ## All levels

The schema itself loses its list, and every other level is a property of a level before. -/

theorem namesOnce_schemaAt (path : List String) : ∀ {members level : Members},
    NamesOnce (.obj members) → schemaAt members path = some level → NamesOnce (.obj level) := by
  induction path with
  | nil =>
    intro members level honce hlevel
    cases hlevel
    exact honce
  | cons name path ih =>
    intro members level honce hlevel
    rw [schemaAt] at hlevel
    split at hlevel
    · next property hget => exact ih (namesOnce_property honce hget) hlevel
    · cases hlevel

/-- **Which lists of required properties are left.** After the lists of a schema were spread, the
schema itself has none, and properties lead to levels as before. Of these a level has a list exactly
if it is a property that its parent requires and that has a list but no properties; every other one
says nothing of being required, or that it is not. -/
theorem lists_left_iff {members : Members} (honce : NamesOnce (.obj members))
    (h : IsListing members) :
    ∃ after, spreadRequired (.obj members) = .obj after
      ∧ Entries.get? after "required" = none
      ∧ ∀ path, ((schemaAt after path).isSome ↔ (schemaAt members path).isSome)
        ∧ ∀ level, schemaAt after path = some level → SaysRequired members path level := by
  have hroot := get?_required_spreadMembers (requiredItems members) honce.1
    (h [] members rfl).required
  refine ⟨spreadMembers (requiredItems members) members, rfl, hroot, fun path => ?_⟩
  -- The root loses its list in any case. What stands at a longer path is decided by the level
  -- before it.
  rcases List.eq_nil_or_concat path with rfl | ⟨front, name, rfl⟩
  · refine ⟨Iff.rfl, fun level hlevel => ?_⟩
    cases hlevel
    refine ⟨fun items => ?_, fun _ => Or.inl hroot⟩
    rw [hroot]
    exact ⟨nofun, fun hkeeps => absurd hkeeps (not_keepsList_nil members items)⟩
  · rw [List.concat_eq_append, schemaAt_concat members, schemaAt_spread_concat front name rfl]
    cases hparent : schemaAt members front with
    | none => exact ⟨Iff.rfl, nofun⟩
    | some parent =>
      rw [Option.bind_some, Option.bind_some]
      refine ⟨by rw [Option.isSome_map], fun level hlevel => ?_⟩
      obtain ⟨property, hproperty, rfl⟩ := Option.map_eq_some_iff.mp hlevel
      have hat : schemaAt members (front ++ [name]) = some property := by
        rw [schemaAt_concat, hparent]
        exact hproperty
      exact saysRequired_concat hparent hproperty (namesOnce_schemaAt _ honce hat).1
        (h _ property hat)

/-- A flock. Its owner and its marks are required and list what they require, but only the owner
says what properties there are. -/
def flockMembers : Members :=
  [("type", .str "object"),
    ("properties", .obj [
      ("owner", .obj [("required", .list [.str "name"]),
        ("properties", .obj [("name", .obj [("type", .str "string")])])]),
      ("marks", .obj [("type", .str "object"), ("required", .list [.str "ear"])]),
      ("notes", .obj [("required", .list [.str "date"])])]),
    ("required", .list [.str "owner", .str "marks"])]

theorem flockMembers_once : NamesOnce (.obj flockMembers) := by
  simp [flockMembers, NamesOnce, NamesOnceMembers, Json.NamesOnceItems, Entries.keys]

/-- What is required is listed at every level. -/
theorem flockMembers_listing : IsListing flockMembers := by
  refine isListing_of_properties ⟨by simp [flockMembers, Entries.get?], ?_⟩ ?_
  · simp [flockMembers, Entries.get?, or_imp, forall_and]
  · -- The properties are few, and only one of them has properties itself.
    intro name property hmem
    simp [flockMembers, propertiesOf, Members.find, Entries.get?] at hmem
    rcases hmem with ⟨_, rfl⟩ | ⟨_, rfl⟩ | ⟨_, rfl⟩
    · refine isListing_of_properties ⟨by simp [Entries.get?], ?_⟩ ?_
      · simp [Entries.get?]
      · intro name property hmem
        simp [propertiesOf, Members.find, Entries.get?] at hmem
        obtain ⟨_, rfl⟩ := hmem
        exact isListing_of_none (by simp [Entries.get?]) rfl
    · exact isListing_of_none (by simp [Entries.get?]) rfl
    · exact isListing_of_none (by simp [Entries.get?]) rfl

/-- The marks of a flock keep their list, its owner does not. -/
theorem lists_left_iff_flock : NamesOnce (.obj flockMembers) ∧ IsListing flockMembers
    ∧ ∃ after owner marks, spreadRequired (.obj flockMembers) = .obj after
      ∧ schemaAt after ["owner"] = some owner ∧ schemaAt after ["marks"] = some marks
      ∧ KeepsList flockMembers ["marks"] [.str "ear"]
      ∧ Entries.get? marks "required" = some (.list [.str "ear"])
      ∧ ∀ items, Entries.get? owner "required" ≠ some (.list items) := by
  obtain ⟨after, hafter, _, hlevels⟩ := lists_left_iff flockMembers_once flockMembers_listing
  obtain ⟨owner, howner⟩ := Option.isSome_iff_exists.mp ((hlevels ["owner"]).1.mpr rfl)
  obtain ⟨marks, hmarks⟩ := Option.isSome_iff_exists.mp ((hlevels ["marks"]).1.mpr rfl)
  have hkeeps : KeepsList flockMembers ["marks"] [.str "ear"] := by
    refine (keepsList_concat_iff [] rfl rfl).mpr ⟨?_, rfl, rfl⟩
    simp [flockMembers, requiredItems, Members.find, Entries.get?]
  refine ⟨flockMembers_once, flockMembers_listing, after, owner, marks, hafter, howner, hmarks,
    hkeeps, (((hlevels ["marks"]).2 marks hmarks).list_iff _).mpr hkeeps, fun items hlist => ?_⟩
  have hkept := (((hlevels ["owner"]).2 owner howner).list_iff items).mp hlist
  have hnone := ((keepsList_concat_iff [] rfl rfl).mp hkept).2.1
  cases hnone

/-- **A list is left**: what the marks of a flock require is not taken away, although the lists of
the flock and of its owner are. -/
theorem list_left : NamesOnce (.obj flockMembers) ∧ IsListing flockMembers
    ∧ ∃ after marks, spreadRequired (.obj flockMembers) = .obj after
      ∧ schemaAt after ["marks"] = some marks
      ∧ Entries.get? marks "required" = some (.list [.str "ear"]) :=
  ⟨flockMembers_once, flockMembers_listing, _, _, rfl, rfl, rfl⟩

end Ramlify.Schema
