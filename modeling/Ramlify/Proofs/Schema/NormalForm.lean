import Ramlify.Proofs.Schema.TypingTwice

/-!
# Ramlify — the normal form of schemas

Turning references into types goes through a whole value. This module says what stands afterwards at
the places of the value, each reached by steps to members and items.

## The architecture

* **`NormalForm`** — what becomes of one schema: no references and no marks are left, the type is
  the one that the last reference gives, and all else stands where it stood, rewritten.
* **`normalForm_typedMembers`** — every schema that is searched for references gets it, also a map
  of properties, whose members may have any names.
* **`at?_typed`** — a place leads to the same place afterwards. Two things end that: a text, in
  which nothing is searched (`IsSearched`), and a type next to a reference (`IsOverwritten`). By
  induction on the steps.
* **`length_list_typed`** — lists keep their length everywhere, in texts too.
-/

namespace Ramlify

/-! ## Places in a value

A place is told by steps to members and items, in the same way for schemas and for what stands in
them. -/

/-- A step into a value: to the member of a name, or to the item at a position. -/
inductive Step where
  | member (name : String)
  | item (position : Nat)

namespace Value

/-- What a step leads to. -/
def step? : Value → Step → Option Value
  | .obj members, .member name => Entries.get? members name
  | .list items, .item position => items[position]?
  | _, _ => none

/-- What some steps lead to, one after the other. -/
def at? : Value → List Step → Option Value
  | v, [] => some v
  | v, step :: path => (v.step? step).bind fun part => part.at? path

/-- Whether a value is a list or an object. -/
def isContainer : Value → Bool
  | .list _ => true
  | .obj _ => true
  | _ => false

theorem at?_cons (v : Value) (step : Step) (path : List Step) :
    v.at? (step :: path) = (v.step? step).bind fun part => part.at? path := rfl

/-- Only lists and objects have parts, so what a list or an object stands in is one itself. -/
theorem isContainer_of_at? {v part : Value} {path : List Step} (h : v.at? path = some part)
    (hpart : part.isContainer = true) : v.isContainer = true := by
  cases path with
  | nil =>
    cases h
    exact hpart
  | cons step path =>
    cases v with
    | list | obj => rfl
    | null | bool | int | float | str => cases h

theorem eq_str_of_at? {s : String} {part : Value} {path : List Step}
    (h : (Value.str s).at? path = some part) : part = .str s := by
  cases path with
  | nil => exact (Option.some.inj h).symm
  | cons step path => cases h

end Value

end Ramlify

namespace Ramlify.Schema

open Json (NamesOnce NamesOnceItems NamesOnceMembers)

/-! ## One schema

The members of a schema are gone through in their order. Whether one is kept can be told from the
member alone, but what becomes of the type depends on all references. -/

/-- The names that a reference or a title has. -/
def markNames : List String := ["$ref", "ref", "include", "title"]

/-- The names of bounds that are exclusive. -/
def exclusiveNames : List String := ["exclusiveMinimum", "exclusiveMaximum"]

/-- Whether a member stays a member of its schema. The type may change, a reference or a title goes
if it is a text, and the mark of an exclusive bound goes if it is a scalar of another kind. -/
def isKept (name : String) (member : Value) : Bool :=
  name != "type" &&
    match member with
    | .str _ => name ∉ markNames
    | .list _ => true
    | .obj _ => true
    | _ => name ∉ exclusiveNames

/-- What a schema reads as once its references are types. -/
structure NormalForm (before after : Members) : Prop where
  nodup : (Entries.keys after).Nodup
  marks : ∀ name ∈ markNames, ∀ s, (name, Value.str s) ∉ after
  bounds : ∀ name ∈ exclusiveNames, ∀ v, (name, v) ∈ after → v.kind = .str ∨ v.isContainer = true
  type : Entries.get? after "type"
    = ((lastReference? before).map Value.str).or ((Entries.get? before "type").map typed)
  others : after.filter (fun member => member.1 != "type")
    = (before.filter fun member => isKept member.1 member.2).map fun member =>
        (member.1, typed member.2)
  names : (∀ member ∈ before, member.2.isContainer = true) →
    Entries.keys after = Entries.keys before

/-- A member is kept if it is neither the type nor a reference nor left out. -/
theorem isKept_iff {name : String} {v : Value} :
    isKept name v = true
      ↔ name ≠ "type" ∧ referenceOf? name v = none ∧ isLeftOut name v = false := by
  cases v with
  | list | obj => simp [isKept, referenceOf?, isLeftOut]
  | null | bool | int | float => simp [isKept, referenceOf?, isLeftOut, exclusiveNames]
  | str s =>
    -- The three names of references are tried in turn.
    have hreference : referenceOf? name (.str s) = none
        ↔ name ≠ "$ref" ∧ name ≠ "ref" ∧ name ≠ "include" := by
      rw [referenceOf?]
      by_cases hdollar : name = "$ref"
      · simp [hdollar]
      · by_cases href : name = "ref"
        · simp [href]
        · by_cases hinclude : name = "include"
          · simp [hinclude]
          · simp [hdollar, href, hinclude]
    rw [hreference]
    simp [isKept, markNames, isLeftOut, and_assoc]

/-- A list or an object is kept as a member whatever its name is. -/
theorem typedMember?_of_isContainer {v : Value} (name : String) (h : v.isContainer = true) :
    typedMember? name v = some (typed v) := by
  cases v with
  | list | obj => rfl
  | null | bool | int | float | str => cases h

/-- The members that stay, in their order, after those before. -/
theorem filter_typedMembersFrom {members : Members} (hnames : (Entries.keys members).Nodup) :
    ∀ (referred : Bool) (before : Members),
      (∀ name ∈ Entries.keys members, name ≠ "type" → name ∉ Entries.keys before) →
      (typedMembers referred before members).filter (fun member => member.1 != "type")
        = before.filter (fun member => member.1 != "type")
          ++ (members.filter fun member => isKept member.1 member.2).map fun member =>
              (member.1, typed member.2) := by
  -- Induction on the members still to go. What was written before has other names, but for a type,
  -- which is not looked at.
  induction members with
  | nil =>
    intro referred before _
    rw [typedMembers, List.filter_nil, List.map_nil, List.append_nil]
  | cons entry rest ih =>
    intro referred before hnew
    obtain ⟨name, member⟩ := entry
    rw [Entries.keys, List.map_cons, List.nodup_cons] at hnames
    have hrest : ∀ other ∈ Entries.keys rest, other ≠ "type" → other ∉ Entries.keys before :=
      fun other hother => hnew other (List.mem_cons_of_mem _ hother)
    have hput : ∀ v, (∀ other ∈ Entries.keys rest, other ≠ "type" →
        other ∉ Entries.keys (Entries.put before "type" v)) := by
      intro v other hother htype hmem
      rcases Entries.mem_keys_put.mp hmem with heq | hbefore
      · exact htype heq
      · exact hrest other hother htype hbefore
    have hsame : ∀ v, (Entries.put before "type" v).filter (fun member => member.1 != "type")
        = before.filter fun member => member.1 != "type" := fun v =>
      Entries.filter_put before (fun name => name != "type") "type" v
    rw [typedMembers, List.filter_cons]
    cases hreference : referenceOf? name member with
    | some type =>
      have hgone : ¬ isKept name member = true := fun h => by
        have hnone := (isKept_iff.mp h).2.1
        rw [hreference] at hnone
        cases hnone
      show (typedMembers true (Entries.put before "type" (.str type)) rest).filter _ = _
      rw [ih hnames.2 true _ (hput _), hsame, if_neg hgone]
    | none =>
      show (if _ then _ else _ : Members).filter _ = _
      by_cases htype : name = "type"
      · have hgone : ¬ isKept name member = true := fun h => (isKept_iff.mp h).1 htype
        rw [if_neg hgone]
        subst htype
        split
        · exact ih hnames.2 _ _ hrest
        · rw [ih hnames.2 _ _ (hput _), hsame]
      · have hno : (name == "type") = false := by simpa using htype
        rw [hno, Bool.false_and, Bool.false_or]
        cases hout : isLeftOut name member with
        | true =>
          have hgone : ¬ isKept name member = true := fun h => by
            have hstays := (isKept_iff.mp h).2.2
            rw [hout] at hstays
            cases hstays
          rw [if_pos rfl, if_neg hgone]
          exact ih hnames.2 _ _ hrest
        | false =>
          have hfresh : name ∉ Entries.keys before := hnew name List.mem_cons_self htype
          have hlater : ∀ other ∈ Entries.keys rest, other ≠ "type" →
              other ∉ Entries.keys (Entries.put before name (typed member)) := by
            intro other hother hne hmem
            rcases Entries.mem_keys_put.mp hmem with rfl | hbefore
            · exact hnames.1 hother
            · exact hrest other hother hne hbefore
          have hself : [(name, typed member)].filter (fun member => member.1 != "type")
              = [(name, typed member)] := by simp [htype]
          rw [if_neg Bool.false_ne_true, if_pos (isKept_iff.mpr ⟨htype, hreference, hout⟩),
            ih hnames.2 _ _ hlater, Entries.put_of_not_mem _ hfresh, List.filter_append, hself,
            List.append_assoc, List.singleton_append, List.map_cons]

/-- **The normal form of one schema**, if it is none of type string. -/
theorem normalForm_typedMembers {before : Members} (hnames : (Entries.keys before).Nodup) :
    NormalForm before (typedMembers false [] before) := by
  have hothers := filter_typedMembersFrom hnames false [] fun _ _ _ => List.not_mem_nil
  rw [List.filter_nil, List.nil_append] at hothers
  -- All members but the type are known, so each is a kept one of the schema, rewritten.
  have hsource : ∀ name v, name ≠ "type" → (name, v) ∈ typedMembers false [] before →
      ∃ w, isKept name w = true ∧ typed w = v := by
    intro name v htype hmem
    have hfiltered : (name, v) ∈ (typedMembers false [] before).filter
        (fun member => member.1 != "type") := List.mem_filter.mpr ⟨hmem, by simpa using htype⟩
    rw [hothers, List.mem_map] at hfiltered
    obtain ⟨member, hmember, heq⟩ := hfiltered
    cases heq
    exact ⟨member.2, (List.mem_filter.mp hmember).2, rfl⟩
  refine { nodup := nodup_typed, marks := ?_, bounds := ?_, type := get?_type_typedMembers hnames,
           others := hothers, names := ?_ }
  · intro name hname s hmem
    have htype : name ≠ "type" := by
      rintro rfl
      exact absurd hname (by decide)
    obtain ⟨w, hkept, hw⟩ := hsource name _ htype hmem
    rw [typed_eq_str_iff.mp hw] at hkept
    simp [isKept, hname] at hkept
  · intro name hname v hmem
    have htype : name ≠ "type" := by
      rintro rfl
      exact absurd hname (by decide)
    obtain ⟨w, hkept, rfl⟩ := hsource name _ htype hmem
    cases w with
    | str s => exact Or.inl rfl
    | list items => exact Or.inr rfl
    | obj members =>
      rw [typed_obj]
      exact Or.inr rfl
    | null | bool | int | float => simp [isKept, hname] at hkept
  · intro hall
    have hkept : ∀ member ∈ before, typedMember? member.1 member.2 = some (typed member.2) :=
      fun member hmember => typedMember?_of_isContainer member.1 (hall member hmember)
    rw [typedMembers_of_kept hkept (show (Entries.keys ([] ++ before)).Nodup from hnames),
      List.nil_append, Entries.keys, Entries.keys, List.map_map]
    rfl

/-! ## Every schema of a value

Going down along a path, each schema on the way is searched and gets its normal form. The two
properties say when the search does not come as far as the place. -/

/-- No schema of type string stands at a place or on the way to it. -/
def IsSearched (v : Value) (path : List Step) : Prop :=
  ∀ upTo members, upTo <+: path → v.at? upTo = some (.obj members) →
    Entries.get? members "type" ≠ some (.str "string")

/-- A place is a type next to a reference, or stands in one. -/
def IsOverwritten (v : Value) (path : List Step) : Prop :=
  ∃ upTo members rest, path = upTo ++ .member "type" :: rest
    ∧ v.at? upTo = some (.obj members) ∧ (lastReference? members).isSome = true

section

variable {v part : Value} {step : Step} {path : List Step}

/-- What is searched is searched from the first step on. -/
theorem IsSearched.next (h : IsSearched v (step :: path)) (hstep : v.step? step = some part) :
    IsSearched part path := by
  intro upTo members hupTo hread
  apply h (step :: upTo) members (List.cons_prefix_cons.mpr ⟨rfl, hupTo⟩)
  rw [Value.at?_cons, hstep]
  exact hread

/-- A type that gives way below the first step gives way in the whole. -/
theorem IsOverwritten.next (h : IsOverwritten part path) (hstep : v.step? step = some part) :
    IsOverwritten v (step :: path) := by
  obtain ⟨upTo, members, rest, rfl, hread, hreference⟩ := h
  refine ⟨step :: upTo, members, rest, rfl, ?_, hreference⟩
  rw [Value.at?_cons, hstep]
  exact hread

/-- A step leads to a value that has its names once. -/
theorem namesOnce_step (honce : NamesOnce v) (hstep : v.step? step = some part) :
    NamesOnce part := by
  cases v with
  | obj members =>
    cases step with
    | member name => exact honce.of_get? hstep
    | item position => cases hstep
  | list items =>
    cases step with
    | member name => cases hstep
    | item position =>
      have hmem : part ∈ items := List.mem_of_getElem? hstep
      have honceItems : NamesOnceItems items := honce
      clear hstep honce
      -- The item is one of the list, wherever it stands.
      induction items with
      | nil => cases hmem
      | cons first rest ih =>
        rcases List.mem_cons.mp hmem with rfl | hrest
        · exact honceItems.1
        · exact ih hrest honceItems.2
  | null | bool | int | float | str => cases hstep

theorem namesOnce_at? (honce : NamesOnce v) (hread : v.at? path = some part) :
    NamesOnce part := by
  induction path generalizing v with
  | nil =>
    cases hread
    exact honce
  | cons step path ih =>
    obtain ⟨next, hstep, hrest⟩ := Option.bind_eq_some_iff.mp hread
    exact ih (namesOnce_step honce hstep) hrest

/-- **One step**, outside of texts: it leads to the same list or object, rewritten, unless that is a
type which a reference overwrites. -/
theorem step?_typed (honce : NamesOnce v) (hpart : part.isContainer = true)
    (htext : ∀ members, v = .obj members → ¬ isTextSchema members = true)
    (hstep : v.step? step = some part) :
    (typed v).step? step = some (typed part)
      ∨ ∃ members type, v = .obj members ∧ step = .member "type"
        ∧ lastReference? members = some type ∧ (typed v).step? step = some (.str type) := by
  cases v with
  | list items =>
    cases step with
    | member name => cases hstep
    | item position =>
      have hitem : items[position]? = some part := hstep
      left
      show (typedItems items)[position]? = _
      rw [typedItems_eq_map, List.getElem?_map, hitem, Option.map_some]
  | obj members =>
    cases step with
    | item position => cases hstep
    | member name =>
      have hmember : Entries.get? members name = some part := hstep
      have hobject : typed (.obj members) = .obj (typedMembers false [] members) := by
        rw [typed_obj, typedObject, if_neg (htext members rfl)]
      rw [hobject, Value.step?]
      -- Only the type can give way, to the last reference of the schema.
      by_cases htype : name = "type"
      · subst htype
        rw [get?_type_typedMembers honce.1, hmember]
        cases hreference : lastReference? members with
        | none => exact Or.inl rfl
        | some type => exact Or.inr ⟨members, type, rfl, rfl, hreference, rfl⟩
      · left
        rw [get?_typedMembers honce.1 htype, hmember, Option.bind_some,
          typedMember?_of_isContainer name hpart]
  | null | bool | int | float | str => cases hstep

end

/-- **A place afterwards.** The list or the object that stood there stands there rewritten, unless
it stood in a type that gave way to a reference: then there is a text at most. -/
theorem at?_typed {part : Value} (hpart : part.isContainer = true) (path : List Step) :
    ∀ {v : Value}, NamesOnce v → IsSearched v path → v.at? path = some part →
      (typed v).at? path = some (typed part)
        ∨ (IsOverwritten v path ∧ ∀ w, (typed v).at? path = some w → ∃ s, w = .str s) := by
  induction path with
  | nil =>
    intro v _ _ hread
    cases hread
    exact Or.inl rfl
  | cons step path ih =>
    intro v honce hsearched hread
    obtain ⟨next, hstep, hrest⟩ := Option.bind_eq_some_iff.mp hread
    have hnext : next.isContainer = true := Value.isContainer_of_at? hrest hpart
    have htext : ∀ members, v = .obj members → ¬ isTextSchema members = true := by
      rintro members rfl htext
      exact hsearched [] members List.nil_prefix rfl (isTextSchema_iff.mp htext)
    rw [Value.at?_cons]
    rcases step?_typed honce hnext htext hstep with htyped | ⟨members, type, rfl, rfl, href, htyped⟩
    · -- The step leads to the same part, rewritten, and the rest of the path goes on there.
      rw [htyped, Option.bind_some]
      exact (ih (namesOnce_step honce hstep) (hsearched.next hstep) hrest).imp_right fun h =>
        ⟨h.1.next hstep, h.2⟩
    · rw [htyped, Option.bind_some]
      refine Or.inr ⟨⟨[], members, path, rfl, rfl, by rw [href]; rfl⟩, fun w hw => ?_⟩
      exact ⟨type, Value.eq_str_of_at? hw⟩

/-! ## Lists

In a text nothing is searched, but its type and its format may change. No list comes or goes by
that. -/

/-- A list in a text stays as it is, or is gone. Only the facets of a text that is only read become
others, and among these there is no list. -/
theorem list_at?_typedText {members : Members} (hnames : (Entries.keys members).Nodup)
    (htext : isTextSchema members = true) {step : Step} {path : List Step}
    {items after : List Value}
    (hbefore : (Value.obj members).at? (step :: path) = some (.list items))
    (hafter : (Value.obj (typedText members)).at? (step :: path) = some (.list after)) :
    after = items := by
  cases step with
  | item position => cases hbefore
  | member name =>
    rw [Value.at?_cons, Value.step?] at hbefore hafter
    have hsame : Entries.get? (typedText members) name = Entries.get? members name →
        after = items := by
      intro heq
      rw [heq] at hafter
      exact Value.list.inj (Option.some.inj (hafter.symm.trans hbefore))
    by_cases hname : name ∈ ["type", "format", "facets"]
    · simp only [List.mem_cons, List.not_mem_nil, or_false] at hname
      rcases hname with rfl | rfl | rfl
      · rw [isTextSchema_iff.mp htext] at hbefore
        cases Value.eq_str_of_at? hbefore
      · -- A format that is left is a text.
        obtain ⟨format, hformat, hrest⟩ := Option.bind_eq_some_iff.mp hafter
        have hkept := isKeptFormat_adaptFormat hnames
        rw [get?_typedText_of_ne members (by decide)] at hformat
        rw [hformat] at hkept
        obtain ⟨s, rfl⟩ := exists_of_isKeptFormat hkept
        cases Value.eq_str_of_at? hrest
      · have hfacets := get?_facets_typedText members
        by_cases hvacant : (Members.find members "readOnly").isVacant = true
        · rw [if_pos hvacant] at hfacets
          exact hsame hfacets
        · rw [if_neg hvacant] at hfacets
          rw [hfacets, Option.bind_some] at hafter
          cases path with
          | nil => cases hafter
          | cons step path =>
            obtain ⟨facet, hfacet, hrest⟩ := Option.bind_eq_some_iff.mp hafter
            cases step with
            | item position => cases hfacet
            | member other =>
              have hmem : (other, facet) ∈ [("readOnly?", Value.str "boolean")] :=
                Entries.mem_of_get? hfacet
              cases List.mem_singleton.mp hmem
              cases Value.eq_str_of_at? hrest
    · exact hsame (get?_typedText members hname)

/-- **Every list keeps its length.** -/
theorem length_list_typed {items after : List Value} (path : List Step) :
    ∀ {v : Value}, NamesOnce v → v.at? path = some (.list items) →
      (typed v).at? path = some (.list after) → after.length = items.length := by
  induction path with
  | nil =>
    intro v _ hbefore hafter
    cases hbefore
    rw [typed, typedItems_eq_map] at hafter
    cases hafter
    exact List.length_map _
  | cons step path ih =>
    intro v honce hbefore hafter
    obtain ⟨next, hstep, hrest⟩ := Option.bind_eq_some_iff.mp hbefore
    have hnext : next.isContainer = true := Value.isContainer_of_at? hrest rfl
    -- Within a text all lists stay as they are.
    by_cases htext : ∃ members, v = .obj members ∧ isTextSchema members = true
    · obtain ⟨members, rfl, htext⟩ := htext
      rw [typed_obj, typedObject, if_pos htext] at hafter
      rw [list_at?_typedText honce.1 htext hbefore hafter]
    · have hsearched : ∀ members, v = .obj members → ¬ isTextSchema members = true :=
        fun members hv hmembers => htext ⟨members, hv, hmembers⟩
      rw [Value.at?_cons] at hafter
      rcases step?_typed honce hnext hsearched hstep with htyped | ⟨_, type, _, _, _, htyped⟩
      · rw [htyped] at hafter
        exact ih (namesOnce_step honce hstep) hrest hafter
      · rw [htyped] at hafter
        cases Value.eq_str_of_at? hafter

/-- **The normal form of a value** whose references were turned into types. At each place of an
object that does not lie in a schema of type string there is afterwards an object in normal form
(`NormalForm`): without references, titles and marks of exclusive bounds, with the type that the
last reference gives, and with all other members in their order, rewritten. The only other case is
an object in a type next to a reference, of which nothing is left. Every list, wherever it stands,
keeps its length. -/
theorem typed_normalForm {v : Value} (honce : NamesOnce v) :
    (∀ path before, v.at? path = some (.obj before) → IsSearched v path →
      (∃ after, (typed v).at? path = some (.obj after) ∧ NormalForm before after)
        ∨ (IsOverwritten v path ∧ ∀ after, (typed v).at? path ≠ some (.obj after)))
      ∧ ∀ path items after, v.at? path = some (.list items) →
          (typed v).at? path = some (.list after) → after.length = items.length := by
  refine ⟨fun path before hread hsearched => ?_, fun path items after hbefore hafter =>
    length_list_typed path honce hbefore hafter⟩
  rcases at?_typed rfl path honce hsearched hread with hsame | ⟨hover, htexts⟩
  · have htext : ¬ isTextSchema before = true := fun htext =>
      hsearched path before List.prefix_rfl hread (isTextSchema_iff.mp htext)
    have hnames : (Entries.keys before).Nodup := (namesOnce_at? honce hread).1
    refine Or.inl ⟨typedMembers false [] before, ?_, normalForm_typedMembers hnames⟩
    rw [hsame, typed_obj, typedObject, if_neg htext]
  · refine Or.inr ⟨hover, fun after hafter => ?_⟩
    obtain ⟨s, hs⟩ := htexts _ hafter
    cases hs

/-- A schema with two references and two types, of which the last reference counts, and with
properties that are called like references and titles. -/
def rivalSchema : Value :=
  .obj [("$ref", .str "#/definitions/Pet"), ("type", .obj [("title", .str "Pet")]),
    ("ref", .str "Animal"),
    ("properties", .obj [
      ("title", .obj [("type", .str "string"), ("title", .str "Name")]),
      ("$ref", .obj [("include", .str "link.json")]),
      ("type", .list [.str "cat", .str "dog"])])]

/-- Neither the schema nor its map of properties is a text. -/
theorem rivalSchema_searched : IsSearched rivalSchema [.member "properties"] := by
  intro upTo members hupTo hread htext
  rcases List.prefix_cons_iff.mp hupTo with rfl | ⟨rest, rfl, hrest⟩
  · cases hread
    cases htext
  · cases List.prefix_nil.mp hrest
    cases hread
    cases htext

/-- The properties keep their names, and the schema has the type of its last reference. -/
theorem typed_normalForm_rival :
    NamesOnce rivalSchema
      ∧ ∃ after properties, typed rivalSchema = .obj after
        ∧ Entries.get? after "type" = some (.str "Animal")
        ∧ (typed rivalSchema).at? [.member "properties"] = some (.obj properties)
        ∧ Entries.keys properties = ["title", "$ref", "type"] := by
  have honce : NamesOnce rivalSchema := by
    simp [rivalSchema, NamesOnce, NamesOnceMembers, NamesOnceItems, Entries.keys]
  obtain ⟨hplaces, _⟩ := typed_normalForm honce
  have hroot : IsSearched rivalSchema [] := fun upTo members hupTo =>
    rivalSchema_searched upTo members (hupTo.trans List.nil_prefix)
  rcases hplaces [] _ rfl hroot with ⟨after, hafter, hform⟩ | ⟨_, hnone⟩
  · rcases hplaces [.member "properties"] _ rfl rivalSchema_searched with
      ⟨properties, hread, hkept⟩ | ⟨_, hnone⟩
    · refine ⟨honce, after, properties, Option.some.inj hafter, hform.type, hread, ?_⟩
      exact hkept.names (by decide)
    · exact absurd rfl (hnone _)
  · exact absurd rfl (hnone _)

end Ramlify.Schema
