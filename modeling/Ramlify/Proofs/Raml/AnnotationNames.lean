import Ramlify.Proofs.MemberNames
import Ramlify.Proofs.Outcome
import Ramlify.Proofs.Raml.ResourceTree
import Ramlify.Raml.Body
import Ramlify.Raml.Trait
import Ramlify.Raml.Security

/-!
# Ramlify — annotation names in what is written

Which names of annotations can occur in a part of a definition? Those that were in the schemas it
was made from, because the fixed names of RAML and the names made from paths, codes and traits are
none. `Unmarked` is a name that is none of an annotation; `Declared kinds` also lets through the
names of annotations of some kinds.

* **`mem_occurringKinds_iff`** — what the walk over a definition collects.
* **`allNames_typed`**, **`allNames_spreadRequired`** — the two passes over schemas bring in no
  annotation names.
-/

namespace Ramlify.Raml

/-- Putting a member in a value adds its name and the names in it. -/
theorem allNames_put {v w : Value} {ok : String → Prop} {name : String} {member : Value}
    (h : v.put name member = .ok w) (hv : v.AllNames ok) (hname : ok name)
    (hmember : member.AllNames ok) : w.AllNames ok := by
  cases v with
  | obj members =>
    cases h
    exact Value.allNames_obj_iff.mpr ((Value.allNames_obj_iff.mp hv).put hname hmember)
  | null | bool | int | float | str | list => cases h

/-! ## Annotation names

An annotation of a kind is written as `(oas-kind)` and declared as `oas-kind`. The kind is told by
the name. -/

theorem toList_annotationName (kind : String) :
    (annotationName kind).toList = "(oas-".toList ++ (kind.toList ++ [')']) := by
  simp [annotationName, declaredKind]

theorem toList_declaredKind (kind : String) :
    (declaredKind kind).toList = "oas-".toList ++ kind.toList := by
  simp [declaredKind]

/-- Different kinds have different annotation names. -/
theorem annotationName_injective {a b : String} (h : annotationName a = annotationName b) :
    a = b := by
  have hlist := congrArg String.toList h
  rw [toList_annotationName, toList_annotationName] at hlist
  exact String.toList_inj.mp (List.append_cancel_right (List.append_cancel_left hlist))

/-- The end of a text as the end of its letters. -/
theorem endsWith_iff {s suffix : String} :
    s.endsWith suffix = true ↔ suffix.toList <:+ s.toList := by
  rw [String.endsWith, String.Slice.endsWith_string_iff, String.copy_toSlice]

/-- What is left of an annotation name without its brackets. -/
theorem dropLast_annotationName (inner : List Char) :
    (("(oas-".toList ++ (inner ++ [')'])).drop 1).dropLast = "oas-".toList ++ inner := by
  show ("oas-".toList ++ (inner ++ [')'])).dropLast = _
  rw [← List.append_assoc, List.dropLast_concat]

/-- A name is taken for that of an annotation exactly if it is one. -/
theorem kindOfName?_eq_some_iff {name kind : String} :
    occurringInMembers.kindOfName? name = some kind
      ↔ ∃ k, kind = declaredKind k ∧ name = annotationName k := by
  unfold occurringInMembers.kindOfName?
  constructor
  · intro h
    split at h
    · next hends =>
      rw [Bool.and_eq_true, String.startsWith_string_iff, endsWith_iff] at hends
      obtain ⟨⟨rest, hrest⟩, hsuffix⟩ := hends
      -- The closing bracket is not the opening one, so it belongs to the rest.
      have hlast : ∃ inner, rest = inner ++ [')'] := by
        rw [← hrest] at hsuffix
        rcases List.eq_nil_or_concat rest with rfl | ⟨inner, c, rfl⟩
        · exact absurd hsuffix (by decide)
        · obtain ⟨before, hbefore⟩ := hsuffix
          rw [List.concat_eq_append, ← List.append_assoc] at hbefore
          rw [List.concat_eq_append]
          exact ⟨inner, by rw [(List.append_inj' hbefore rfl).2.symm]; rfl⟩
      obtain ⟨inner, rfl⟩ := hlast
      refine ⟨String.ofList inner, ?_, ?_⟩
      · rw [← Option.some.inj h, ← hrest, ← String.toList_inj, toList_declaredKind,
          dropLast_annotationName]
        simp
      · rw [← String.toList_inj, toList_annotationName, ← hrest]
        simp
    · cases h
  · rintro ⟨k, rfl, rfl⟩
    have hstarts : (annotationName k).startsWith "(oas-" = true := by
      rw [String.startsWith_string_iff, toList_annotationName]
      exact List.prefix_append _ _
    have hends : (annotationName k).endsWith ")" = true := by
      rw [endsWith_iff, toList_annotationName, ← List.append_assoc]
      exact List.suffix_append _ _
    rw [if_pos (by rw [hstarts, hends]; rfl), Option.some.injEq, ← String.toList_inj,
      toList_annotationName, toList_declaredKind, dropLast_annotationName]
    simp

mutual

/-- **What the walk over a definition collects.** The kinds of the annotation names at all
depths. -/
theorem mem_occurringKinds_iff (k : String) : ∀ v : Value,
    k ∈ occurringKinds v ↔ ∃ kind, k = declaredKind kind ∧ v.HasName (annotationName kind)
  | .null | .bool _ | .int _ | .float _ | .str _ => by
    simp only [occurringKinds, List.not_mem_nil, false_iff]
    nofun
  | .list items => by
    rw [occurringKinds, mem_occurringInItems_iff]
    constructor
    · rintro ⟨kind, hk, v, hv, hname⟩
      exact ⟨kind, hk, .item hv hname⟩
    · rintro ⟨kind, hk, h⟩
      -- A name in a list is in one of its items.
      cases h with
      | item hv hname => exact ⟨kind, hk, _, hv, hname⟩
  | .obj members => by
    rw [occurringKinds, mem_occurringInMembers_iff]
    constructor
    · rintro ⟨kind, hk, name, v, hmem, rfl | hname⟩
      · exact ⟨kind, hk, .here hmem⟩
      · exact ⟨kind, hk, .member hmem hname⟩
    · rintro ⟨kind, hk, h⟩
      cases h with
      | here hmem => exact ⟨kind, hk, _, _, hmem, Or.inl rfl⟩
      | member hmem hname => exact ⟨kind, hk, _, _, hmem, Or.inr hname⟩

theorem mem_occurringInItems_iff (k : String) : ∀ items : List Value,
    k ∈ occurringInItems items
      ↔ ∃ kind, k = declaredKind kind ∧ ∃ v ∈ items, v.HasName (annotationName kind)
  | [] => by simp [occurringInItems]
  | item :: rest => by
    rw [occurringInItems, List.mem_append, mem_occurringKinds_iff k item,
      mem_occurringInItems_iff k rest]
    constructor
    · rintro (⟨kind, hk, hname⟩ | ⟨kind, hk, v, hv, hname⟩)
      · exact ⟨kind, hk, item, List.mem_cons_self, hname⟩
      · exact ⟨kind, hk, v, List.mem_cons_of_mem _ hv, hname⟩
    · rintro ⟨kind, hk, v, hv, hname⟩
      rcases List.mem_cons.mp hv with rfl | hv
      · exact Or.inl ⟨kind, hk, hname⟩
      · exact Or.inr ⟨kind, hk, v, hv, hname⟩

/-- The same for the members of an object, where the name may be that of a member itself. -/
theorem mem_occurringInMembers_iff (k : String) : ∀ members : List (String × Value),
    k ∈ occurringInMembers members
      ↔ ∃ kind, k = declaredKind kind ∧ ∃ name v, (name, v) ∈ members
          ∧ (name = annotationName kind ∨ v.HasName (annotationName kind))
  | [] => by simp [occurringInMembers]
  | (name, member) :: rest => by
    rw [occurringInMembers, List.mem_append, List.mem_append, mem_occurringKinds_iff k member,
      mem_occurringInMembers_iff k rest, Option.mem_toList, kindOfName?_eq_some_iff]
    constructor
    · rintro ((⟨kind, hk, hname⟩ | ⟨kind, hk, hname⟩) | ⟨kind, hk, other, v, hmem, hor⟩)
      · exact ⟨kind, hk, name, member, List.mem_cons_self, Or.inl hname⟩
      · exact ⟨kind, hk, name, member, List.mem_cons_self, Or.inr hname⟩
      · exact ⟨kind, hk, other, v, List.mem_cons_of_mem _ hmem, hor⟩
    · rintro ⟨kind, hk, other, v, hmem, hor⟩
      rcases List.mem_cons.mp hmem with heq | hmem
      · cases heq
        exact Or.inl (hor.imp (fun hname => ⟨kind, hk, hname⟩) (fun hname => ⟨kind, hk, hname⟩))
      · exact Or.inr ⟨kind, hk, other, v, hmem, hor⟩

end

/-! ## Names that are declared

What is said of names is either that they are no annotations, or that they are annotations of
recorded kinds only. The first holds of everything that comes from a project or is fixed, the second
of what has been written. -/

/-- A name that is none of an annotation. -/
def Unmarked (name : String) : Prop := ∀ kind, name ≠ annotationName kind

/-- A name that is none of an annotation, or of one of some kinds. -/
def Declared (kinds : List String) (name : String) : Prop :=
  ∀ kind, name = annotationName kind → declaredKind kind ∈ kinds

/-- Names that do not begin with a bracket are no names of annotations. -/
theorem unmarked_of_head {name : String} (h : name.toList.head? ≠ some '(') : Unmarked name := by
  rintro kind rfl
  rw [toList_annotationName] at h
  exact h rfl

/-- The key of a resource begins with a slash. -/
theorem unmarked_resourceKey (segment : String) : Unmarked (resourceKey segment) :=
  unmarked_of_head (by simp [resourceKey])

/-- A name that is no annotation is covered by any record. -/
theorem Unmarked.declared {name : String} (h : Unmarked name) (kinds : List String) :
    Declared kinds name :=
  fun kind hname => absurd hname (h kind)

/-- An annotation of a recorded kind is covered. -/
theorem declared_annotationName {kind : String} {kinds : List String}
    (h : declaredKind kind ∈ kinds) : Declared kinds (annotationName kind) := by
  intro other heq
  rwa [← annotationName_injective heq]

/-- A larger record covers what a smaller one does. -/
theorem Declared.mono {kinds more : List String} (hsub : kinds ⊆ more) {name : String}
    (h : Declared kinds name) : Declared more name :=
  fun kind hname => hsub (h kind hname)

/-! ## Names made from codes and words

Some names are made up while a definition is written: from status codes and from the words of a
trait's name. None of them begins with a bracket. -/

/-- Lower case makes no bracket of a letter, a digit or an underscore. -/
theorem toLower_ne_bracket {c : Char} (h : Text.isWordChar c = true) : c.toLower ≠ '(' := by
  intro heq
  unfold Char.toLower at heq
  split at heq
  · -- A capital becomes a small letter, and the bracket comes long before these.
    next hcap =>
    have hval := congrArg (fun c : Char => c.val.toNat) heq
    simp at hval
    have h1 : 65 ≤ c.toNat := hcap.1
    have h2 : c.toNat ≤ 90 := hcap.2
    omega
  · subst heq
    revert h
    decide

/-- The code of a response is no annotation name. -/
theorem unmarked_of_isDigits {s : String} (h : Unicode.isDigits s = true) : Unmarked s := by
  apply unmarked_of_head
  intro hhead
  rw [Unicode.isDigits, Bool.and_eq_true, List.all_eq_true] at h
  have := h.2 _ (List.mem_of_mem_head? hhead)
  revert this
  decide

/-- Words are not empty and consist of letters and digits. -/
theorem wordsFrom_spec (cs : List Char) : ∀ current : List Char,
    (∀ c ∈ current, Text.isWordChar c = true) →
      ∀ word ∈ Text.wordsFrom current cs, word ≠ [] ∧ ∀ c ∈ word, Text.isWordChar c = true := by
  -- For any word that has begun, since each letter makes it longer.
  induction cs with
  | nil =>
    intro current hcurrent word hword
    rw [Text.wordsFrom] at hword
    split at hword
    · cases hword
    · next hne =>
      rw [List.mem_singleton.mp hword]
      exact ⟨fun h => hne (by rw [h]; rfl), hcurrent⟩
  | cons c cs ih =>
    intro current hcurrent word hword
    rw [Text.wordsFrom] at hword
    split at hword
    · next hc =>
      refine ih (current ++ [c]) ?_ word hword
      intro d hd
      rcases List.mem_append.mp hd with hd | hd
      · exact hcurrent d hd
      · rwa [List.mem_singleton.mp hd]
    · split at hword
      · exact ih [] nofun word hword
      · next hne =>
        rcases List.mem_cons.mp hword with rfl | hword
        · exact ⟨fun h => hne (by rw [h]; rfl), hcurrent⟩
        · exact ih [] nofun word hword

/-- The declared name of a trait is no annotation name. -/
theorem unmarked_camelCase (s : String) : Unmarked (Text.camelCase s) := by
  apply unmarked_of_head
  unfold Text.camelCase
  have hspec := wordsFrom_spec s.toList [] nofun
  rw [show Text.wordsFrom [] s.toList = Text.words s.toList from rfl] at hspec
  split
  · simp
  · -- The name begins with the lower-case form of the first letter of the first word.
    next first more heq =>
    rw [heq] at hspec
    obtain ⟨hne, hword⟩ := hspec first List.mem_cons_self
    cases first with
    | nil => exact absurd rfl hne
    | cons c cs =>
      rw [String.toList_ofList, Text.mapFirst, List.cons_append, List.head?_cons]
      intro hbracket
      exact toLower_ne_bracket (hword c List.mem_cons_self) (Option.some.inj hbracket)

/-! ## Schemas

The passes over schemas put types, rename formats and spread `required`. All of these have fixed
names. -/

/-- Adapting a format puts only members with fixed names. -/
theorem allNames_adaptFormat {members : Members} (h : members.AllNames Unmarked) :
    (Schema.adaptFormat members).AllNames Unmarked := by
  have htype : Unmarked "type" := unmarked_of_head (by simp)
  have hformat : Unmarked "format" := unmarked_of_head (by simp)
  unfold Schema.adaptFormat
  split
  · split
    · exact h.erase _
    · split
      · exact (h.put htype (Value.allNames_str _)).erase _
      · split
        · exact (h.put htype (Value.allNames_str _)).put hformat (Value.allNames_str _)
        · split
          · exact h
          · exact h.erase _
  · exact h.erase _

/-- Typing a text puts only members with fixed names. -/
theorem allNames_typedText {members : Members} (h : members.AllNames Unmarked) :
    (Schema.typedText members).AllNames Unmarked := by
  have hfacet : Schema.readOnlyFacet.AllNames Unmarked := by
    rw [Schema.readOnlyFacet, Value.allNames_obj_iff, Members.allNames_cons_iff]
    exact ⟨⟨unmarked_of_head (by simp), Value.allNames_str _⟩, Members.allNames_nil⟩
  simp only [Schema.typedText]
  split
  · exact allNames_adaptFormat h
  · exact (allNames_adaptFormat h).put (unmarked_of_head (by simp)) hfacet

mutual

/-- Turning references into types brings in no annotation names. -/
theorem allNames_typed : ∀ v : Value, v.AllNames Unmarked →
    (Schema.typed v).AllNames Unmarked
  | .null, h | .bool _, h | .int _, h | .float _, h | .str _, h => by
    rw [Schema.typed]
    · exact h
    all_goals nofun
  | .list items, h => by
    rw [Schema.typed, Value.allNames_list_iff]
    exact allNames_typedItems items (Value.allNames_list_iff.mp h)
  | .obj members, h => by
    have hmembers := Value.allNames_obj_iff.mp h
    rw [Schema.typed]
    split
    · exact Value.allNames_obj_iff.mpr (allNames_typedText hmembers)
    · exact Value.allNames_obj_iff.mpr
        (allNames_typedMembers members false [] Members.allNames_nil hmembers)

theorem allNames_typedItems : ∀ items : List Value,
    (∀ v ∈ items, v.AllNames Unmarked) →
      ∀ v ∈ Schema.typedItems items, v.AllNames Unmarked
  | [], _ => by
    rw [Schema.typedItems]
    exact nofun
  | item :: rest, h => by
    rw [Schema.typedItems]
    intro v hv
    rcases List.mem_cons.mp hv with rfl | hv
    · exact allNames_typed item (h item List.mem_cons_self)
    · exact allNames_typedItems rest (fun w hw => h w (List.mem_cons_of_mem _ hw)) v hv

/-- The same for members, which are put to those before one by one. -/
theorem allNames_typedMembers : ∀ (members : List (String × Value)) (referred : Bool)
    (before : Members), before.AllNames Unmarked →
      Members.AllNames Unmarked members →
      (Schema.typedMembers referred before members).AllNames Unmarked
  | [], _, before, hbefore, _ => by
    rw [Schema.typedMembers]
    exact hbefore
  | (name, member) :: rest, referred, before, hbefore, h => by
    obtain ⟨⟨hname, hmember⟩, hrest⟩ := Members.allNames_cons_iff.mp h
    rw [Schema.typedMembers]
    split
    · refine allNames_typedMembers rest true _ ?_ hrest
      exact hbefore.put (unmarked_of_head (by simp)) (Value.allNames_str _)
    · split
      · exact allNames_typedMembers rest referred before hbefore hrest
      · exact allNames_typedMembers rest referred _
          (hbefore.put hname (allNames_typed member hmember)) hrest

end

mutual

/-- Marking the optional properties brings in no annotation names. -/
theorem allNames_spreadMembers (required : List Value) : ∀ members : List (String × Value),
    Members.AllNames Unmarked members →
      (Schema.spreadMembers required members).AllNames Unmarked
  | [], _ => by
    rw [Schema.spreadMembers]
    exact Members.allNames_nil
  | (name, member) :: rest, h => by
    obtain ⟨⟨hname, hmember⟩, hrest⟩ := Members.allNames_cons_iff.mp h
    have ih := allNames_spreadMembers required rest hrest
    rw [Schema.spreadMembers]
    split
    · exact ih
    · split
      · exact Members.allNames_cons_iff.mpr
          ⟨⟨hname, allNames_spreadProperties required member hmember⟩, ih⟩
      · exact Members.allNames_cons_iff.mpr ⟨⟨hname, hmember⟩, ih⟩
termination_by structural members => members

theorem allNames_spreadProperties (required : List Value) : ∀ v : Value,
    v.AllNames Unmarked →
      (Schema.spreadProperties required v).AllNames Unmarked
  | .null, h | .bool _, h | .int _, h | .float _, h | .str _, h | .list _, h => by
    rw [Schema.spreadProperties]
    · exact h
    all_goals nofun
  | .obj properties, h => by
    rw [Schema.spreadProperties, Value.allNames_obj_iff]
    exact allNames_spreadEach required properties (Value.allNames_obj_iff.mp h)
termination_by structural v => v

theorem allNames_spreadEach (required : List Value) : ∀ properties : List (String × Value),
    Members.AllNames Unmarked properties →
      Members.AllNames Unmarked (Schema.spreadEach required properties)
  | [], _ => by
    rw [Schema.spreadEach]
    exact Members.allNames_nil
  | (name, property) :: rest, h => by
    obtain ⟨⟨hname, hproperty⟩, hrest⟩ := Members.allNames_cons_iff.mp h
    rw [Schema.spreadEach, Members.allNames_cons_iff]
    exact ⟨⟨hname, allNames_spreadProperty required name property hproperty⟩,
      allNames_spreadEach required rest hrest⟩
termination_by structural properties => properties

/-- A property is marked as required or not, which is a fixed name. -/
theorem allNames_spreadProperty (required : List Value) (name : String) : ∀ v : Value,
    v.AllNames Unmarked →
      (Schema.spreadProperty required name v).AllNames Unmarked
  | .null, h | .bool _, h | .int _, h | .float _, h | .str _, h | .list _, h => by
    rw [Schema.spreadProperty]
    · exact h
    all_goals nofun
  | .obj members, h => by
    have hmembers := Value.allNames_obj_iff.mp h
    have hinner := allNames_spreadMembers (Schema.requiredItems members) members hmembers
    simp only [Schema.spreadProperty, Value.allNames_obj_iff, Schema.markOptional]
    split
    · split
      · exact hinner
      · exact hmembers
    · refine Members.AllNames.put ?_ (unmarked_of_head (by simp)) (Value.allNames_bool _)
      split
      · exact hinner
      · exact hmembers
termination_by structural v => v

end

/-- Spreading `required` over a schema brings in no annotation names. -/
theorem allNames_spreadRequired {v : Value} (h : v.AllNames Unmarked) :
    (Schema.spreadRequired v).AllNames Unmarked := by
  unfold Schema.spreadRequired
  split
  · exact Value.allNames_obj_iff.mpr
      (allNames_spreadMembers _ _ (Value.allNames_obj_iff.mp h))
  · exact h

end Ramlify.Raml
