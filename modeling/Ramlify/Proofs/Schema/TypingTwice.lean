import Ramlify.Proofs.RequestCells
import Ramlify.Proofs.Schema.Typing

/-!
# Ramlify — turning references into types a second time

Where references have become types there should be nothing left to do. Two things undo that, and
nothing else does. A text is not searched, but a date is no text any more once it has its type of
its own: then its members are searched for the first time. And a reference to a type called `string`
makes a text of a schema whose format and marks were not those of a text.

* **`typed_eq_self_iff`** — the values that stay as they are, said member by member (`isTyped`).
* **`typedMembers_revisited`** — one schema, rewritten twice: its members decide.
* **`typed_typed_iff`** — a value, rewritten twice: no schema that is looked at again may be a
  text that uncovers its members (`uncovers`) or one that becomes a text (`becomesText`).
-/

namespace Ramlify.Schema

open Json (NamesOnce NamesOnceItems NamesOnceMembers namesOnceMembers_iff)

/-! ## Values that stay as they are

Whether a value stays as it is can be computed from it, schema by schema: a text by its format and
its facets, any other schema by its members. -/

/-- Whether a text stays as it is: its format is one that is kept, and it has its facet if it is
only read. -/
def isTypedText (members : Members) : Bool :=
  isKeptFormat (Entries.get? members "format")
    && ((Members.find members "readOnly").isVacant
      || isReadOnlyFacet (Members.find members "facets"))

mutual

/-- Whether there is nothing to rewrite in a value. -/
def isTyped : Value → Bool
  | .list items => isTypedItems items
  | .obj members => if isTextSchema members then isTypedText members else areTypedMembers members
  | _ => true
termination_by structural v => v

@[inherit_doc isTyped]
def isTypedItems : List Value → Bool
  | [] => true
  | item :: rest => isTyped item && isTypedItems rest
termination_by structural items => items

/-- Whether members are neither references nor left out, and have nothing to rewrite in them. -/
def areTypedMembers : List (String × Value) → Bool
  | [] => true
  | (name, member) :: rest =>
    (referenceOf? name member).isNone && !isLeftOut name member && isTyped member
      && areTypedMembers rest
termination_by structural members => members

end

/-- Whether a member stays as it is. -/
def Stays (name : String) (v : Value) : Prop := typedMember? name v = some v

/-- A member stays if it is kept and has nothing to rewrite in it. -/
theorem stays_iff {name : String} {v : Value} :
    Stays name v ↔ referenceOf? name v = none ∧ isLeftOut name v = false ∧ typed v = v :=
  typedMember?_eq_some_iff

/-- There is nothing to rewrite in a reference, and nothing in a member that is left out. -/
theorem typed_of_not_kept {name : String} {v : Value} (h : typedMember? name v = none) :
    typed v = v := by
  rw [typedMember?, ite_eq_left_iff, Bool.or_eq_true] at h
  by_cases hreference : (referenceOf? name v).isSome = true
  · exact typed_of_reference hreference
  · by_cases hout : isLeftOut name v = true
    · exact typed_of_isLeftOut hout
    · have hnone := h (by simp [hreference, hout])
      cases hnone

/-- A member that was kept is kept again, if only its value stays as it is. -/
theorem stays_iff_of_kept {name : String} {v w : Value} (h : typedMember? name v = some w) :
    Stays name w ↔ typed w = w := by
  obtain ⟨hreference, hout, rfl⟩ := typedMember?_eq_some_iff.mp h
  rw [stays_iff, referenceOf?_typed, isLeftOut_typed]
  exact ⟨fun h => h.2.2, fun h => ⟨hreference, hout, h⟩⟩

/-- A schema stays as it is if each of its members does. -/
theorem typedMembers_eq_self_iff {members : Members} (hnames : (Entries.keys members).Nodup) :
    typedMembers false [] members = members
      ↔ ∀ p ∈ members, Stays p.1 p.2 := by
  constructor
  · intro h
    have hother : ∀ p ∈ members, p.1 ≠ "type" → Stays p.1 p.2 := by
      intro p hp htype
      have hget : Entries.get? members p.1 = some p.2 := Entries.get?_of_mem hnames hp
      have hread := get?_typedMembers hnames htype
      rw [h, hget] at hread
      exact hread.symm
    -- No member is a reference, so the type is rewritten where it stands.
    have hnone : lastReference? members = none := by
      rw [lastReference?_eq_none_iff]
      intro p hp
      by_cases htype : p.1 = "type"
      · rw [htype, referenceOf?_type]
      · exact (stays_iff.mp (hother p hp htype)).1
    intro p hp
    by_cases htype : p.1 = "type"
    · have hget : Entries.get? members p.1 = some p.2 := Entries.get?_of_mem hnames hp
      rw [htype] at hget
      have htyped := get?_type_typedMembers hnames
      rw [h, hnone, hget] at htyped
      rw [htype]
      refine stays_iff.mpr ⟨referenceOf?_type _, isLeftOut_type _, ?_⟩
      simpa using htyped.symm
    · exact hother p hp htype
  · intro h
    have hvalues : members.map (fun p => (p.1, typed p.2)) = members := by
      rw [List.map_congr_left fun p hp => by rw [(stays_iff.mp (h p hp)).2.2], List.map_id']
    have hkept : ∀ p ∈ members, typedMember? p.1 p.2 = some (typed p.2) := fun p hp =>
      typedMember?_eq_some_iff.mpr ⟨(stays_iff.mp (h p hp)).1, (stays_iff.mp (h p hp)).2.1, rfl⟩
    have hnone : (Entries.keys ([] ++ members)).Nodup := hnames
    rw [typedMembers_of_kept hkept hnone, List.nil_append, hvalues]

/-- The formats that are known are neither those of texts nor those of dates. -/
theorem ne_of_knownFormat : ∀ format ∈ knownFormats,
    format ∉ textFormats ∧ format ≠ "date" ∧ format ≠ "date-time" := by decide

/-- A text stays as it is if its format is kept and its facets are there. -/
theorem typedText_eq_self_iff {members : Members} (hnames : (Entries.keys members).Nodup) :
    typedText members = members ↔ isTypedText members = true := by
  rw [isTypedText, Bool.and_eq_true, Bool.or_eq_true]
  constructor
  · intro h
    constructor
    · rw [← h, get?_typedText_of_ne members (by decide)]
      exact isKeptFormat_adaptFormat hnames
    · by_cases hread : (Members.find members "readOnly").isVacant
      · exact Or.inl hread
      · have hfacets := get?_facets_typedText members
        rw [h, if_neg hread] at hfacets
        rw [Members.find, Members.find, hfacets]
        exact Or.inr rfl
  · rintro ⟨hformat, hread⟩
    -- A format that is kept is not adapted.
    have hadapted : adaptFormat members = members := by
      rw [adaptFormat]
      cases hget : Entries.get? members "format" with
      | none => simp [Members.find, hget, Entries.erase_eq_self hget]
      | some format =>
        cases format with
        | str format =>
          have hknown : format ∈ knownFormats := by simpa [hget, isKeptFormat] using hformat
          simp [Members.find, hget, ne_of_knownFormat format hknown, hknown]
        | null | bool | int | float | list | obj => simp [hget, isKeptFormat] at hformat
    rw [typedText, hadapted]
    by_cases hvacant : (Members.find members "readOnly").isVacant
    · exact if_pos hvacant
    · have hfacet := isReadOnlyFacet_iff.mp (hread.resolve_left hvacant)
      have hget : Entries.get? members "facets" = some readOnlyFacet :=
        Members.get?_of_find hfacet (by simp [readOnlyFacet])
      rw [if_neg hvacant, Entries.put_eq_self hget]

mutual

-- Along the recursion of `isTyped`.

/-- A value stays as it is exactly if the computation says so. -/
theorem typed_eq_self_iff : ∀ v : Value, NamesOnce v → (typed v = v ↔ isTyped v = true)
  | .null, _ => ⟨fun _ => rfl, fun _ => rfl⟩
  | .bool _, _ => ⟨fun _ => rfl, fun _ => rfl⟩
  | .int _, _ => ⟨fun _ => rfl, fun _ => rfl⟩
  | .float _, _ => ⟨fun _ => rfl, fun _ => rfl⟩
  | .str _, _ => ⟨fun _ => rfl, fun _ => rfl⟩
  | .list items, h => by
    rw [typed, isTyped, Value.list.injEq]
    exact typedItems_eq_self_iff items h
  | .obj members, h => by
    rw [typed_obj, isTyped, typedObject, Value.obj.injEq]
    by_cases htext : isTextSchema members = true
    · rw [if_pos htext, if_pos htext]
      exact typedText_eq_self_iff h.1
    · rw [if_neg htext, if_neg htext, typedMembers_eq_self_iff h.1]
      exact areTypedMembers_iff members h.2

theorem typedItems_eq_self_iff : ∀ items : List Value,
    NamesOnceItems items → (typedItems items = items ↔ isTypedItems items = true)
  | [], _ => ⟨fun _ => rfl, fun _ => rfl⟩
  | item :: rest, h => by
    rw [typedItems, isTypedItems, List.cons.injEq, Bool.and_eq_true,
      typed_eq_self_iff item h.1, typedItems_eq_self_iff rest h.2]

theorem areTypedMembers_iff : ∀ members : List (String × Value), NamesOnceMembers members →
    ((∀ p ∈ members, Stays p.1 p.2) ↔ areTypedMembers members = true)
  | [], _ => ⟨fun _ => rfl, fun _ => nofun⟩
  | (name, member) :: rest, h => by
    rw [List.forall_mem_cons, areTypedMembers_iff rest h.2, stays_iff,
      typed_eq_self_iff member h.1, areTypedMembers]
    simp [and_assoc]

end

/-! ## Schemas that are not settled

The two kinds of schemas to which a second rewriting does something, and the list of all schemas
that it comes to. -/

/-- Whether a text becomes a date and has members that are rewritten once it is no text any more. A
text that is only read gets its facets anew. -/
def uncovers (members : Members) : Bool :=
  isTextSchema members && (dateType? (Members.find members "format")).isSome
    && !areTypedMembers (members.filter fun member =>
      member.1 != "facets" || (Members.find members "readOnly").isVacant)

/-- Whether a schema becomes a text by a reference to a type of that name, and has a format that
texts do not keep, or is only read without the facet that texts have then. -/
def becomesText (members : Members) : Bool :=
  !isTextSchema members && lastReference? members == some "string"
    && !(isKeptFormat (Entries.get? members "format")
      && ((typed (Members.find members "readOnly")).isVacant
        || isReadOnlyFacet (typed (Members.find members "facets"))))

mutual

/-- The schemas in a value that are looked at again when it is rewritten for a second time. -/
def revisited : Value → List Members
  | .list items => revisitedItems items
  | .obj members =>
    members :: (if isTextSchema members || lastReference? members == some "string" then []
      else revisitedMembers (lastReference? members).isSome members)
  | _ => []
termination_by structural v => v

@[inherit_doc revisited]
def revisitedItems : List Value → List Members
  | [] => []
  | item :: rest => revisited item ++ revisitedItems rest
termination_by structural items => items

/-- Where there is a reference, the type of a schema is gone. -/
def revisitedMembers (referred : Bool) : List (String × Value) → List Members
  | [] => []
  | (name, member) :: rest =>
    if name == "type" && referred then revisitedMembers referred rest
    else revisited member ++ revisitedMembers referred rest
termination_by structural members => members

end

/-! ## One schema

What a schema is rewritten to decides how it is looked at for the second time: as a text or as
members. -/

theorem isTextSchema_iff {members : Members} :
    isTextSchema members = true ↔ Entries.get? members "type" = some (.str "string") := by
  rw [isTextSchema, Members.find]
  cases Entries.get? members "type" with
  | none => simp [Value.isText]
  | some v => cases v <;> simp [Value.isText]

/-- Whether a text is only read stays what it was. -/
theorem find_readOnly_typedText (members : Members) :
    Members.find (typedText members) "readOnly" = Members.find members "readOnly" := by
  rw [Members.find, get?_typedText members (by decide), Members.find]

/-- Of a text that stays a text nothing is left to do. -/
theorem typedText_typedText {members : Members} (hnames : (Entries.keys members).Nodup) :
    typedText (typedText members) = typedText members := by
  rw [typedText_eq_self_iff (nodup_typedText hnames), isTypedText, Bool.and_eq_true,
    Bool.or_eq_true, find_readOnly_typedText]
  constructor
  · rw [get?_typedText_of_ne members (by decide)]
    exact isKeptFormat_adaptFormat hnames
  · have hfacets := get?_facets_typedText members
    by_cases hvacant : (Members.find members "readOnly").isVacant = true
    · exact Or.inl hvacant
    · rw [if_neg hvacant] at hfacets
      rw [Members.find, Members.find, hfacets]
      exact Or.inr rfl

theorem exists_of_dateType? {format : Value} (h : (dateType? format).isSome) :
    ∃ s, format = .str s := by
  cases format with
  | str s => exact ⟨s, rfl⟩
  | null | bool | int | float | list | obj => cases h

theorem exists_of_isKeptFormat {format : Value} (h : isKeptFormat (some format) = true) :
    ∃ s, format = .str s := by
  cases format with
  | str s => exact ⟨s, rfl⟩
  | null | bool | int | float | list | obj => cases h

theorem eq_of_dateType? {format : Value} {date : String} (h : dateType? format = some date) :
    (format = .str "date" ∧ date = "date-only")
      ∨ (format = .str "date-time" ∧ date = "datetime") := by
  obtain ⟨s, rfl⟩ := exists_of_dateType? (by rw [h]; rfl)
  rw [dateType?] at h
  split at h
  · next hs => exact Or.inl ⟨by rw [hs], (Option.some.inj h).symm⟩
  · split at h
    · next hs => exact Or.inr ⟨by rw [hs], (Option.some.inj h).symm⟩
    · cases h

theorem ne_string_of_dateType? {format : Value} {date : String} (h : dateType? format = some date) :
    date ≠ "string" := by
  rcases eq_of_dateType? h with ⟨_, rfl⟩ | ⟨_, rfl⟩
  · decide
  · decide

/-- A text that becomes a date shows the members that it hid, but for the facets that it gets. -/
theorem typedText_uncovered {members : Members} (hnames : (Entries.keys members).Nodup)
    (htext : isTextSchema members = true)
    (hdate : (dateType? (Members.find members "format")).isSome) :
    (∀ p ∈ typedText members, Stays p.1 p.2)
      ↔ ∀ p ∈ members.filter (fun member =>
          member.1 != "facets" || (Members.find members "readOnly").isVacant),
        Stays p.1 p.2 := by
  have hfiltered : (Entries.keys (members.filter fun member =>
      member.1 != "facets" || (Members.find members "readOnly").isVacant)).Nodup :=
    hnames.sublist (List.filter_sublist.map _)
  rw [Entries.forall_mem_iff (nodup_typedText hnames), Entries.forall_mem_iff hfiltered]
  apply forall_congr'
  intro name
  rw [Entries.get?_filter_keys members fun name =>
    name != "facets" || (Members.find members "readOnly").isVacant]
  by_cases htype : name = "type"
  · -- A text on both sides.
    subst htype
    obtain ⟨date, hdate⟩ := Option.isSome_iff_exists.mp hdate
    rw [get?_type_typedText, hdate, isTextSchema_iff.mp htext]
    constructor
    · intro _ v hv
      cases hv
      rfl
    · intro _ v hv
      cases hv
      rfl
  · by_cases hformat : name = "format"
    · subst hformat
      obtain ⟨s, hs⟩ := exists_of_dateType? hdate
      constructor
      · intro _ v hv
        rw [if_pos (by simp)] at hv
        rw [Members.find, hv] at hs
        rw [show v = .str s from hs]
        rfl
      · intro _ v hv
        have hkept := isKeptFormat_adaptFormat hnames
        rw [get?_typedText_of_ne members (by decide)] at hv
        rw [hv] at hkept
        obtain ⟨s, rfl⟩ := exists_of_isKeptFormat hkept
        rfl
    · by_cases hfacets : name = "facets"
      · subst hfacets
        rw [get?_facets_typedText]
        by_cases hvacant : (Members.find members "readOnly").isVacant = true
        · rw [if_pos hvacant, if_pos (by simpa using hvacant)]
        · rw [if_neg hvacant, if_neg (by simpa using hvacant)]
          constructor
          · intro _ v hv
            cases hv
          · intro _ v hv
            cases hv
            rfl
      · rw [get?_typedText members (by simp [htype, hformat, hfacets]), if_pos (by simp [hfacets])]

/-- Of a schema that stays what it is, the values of its members decide. The type does not, if there
is a reference. -/
theorem typedMembers_revisited {members : Members} (hnames : (Entries.keys members).Nodup) :
    (∀ p ∈ typedMembers false [] members, Stays p.1 p.2)
      ↔ ∀ p ∈ members, (p.1 = "type" → lastReference? members = none) →
        typed (typed p.2) = typed p.2 := by
  have hnodup : (Entries.keys (typedMembers false [] members)).Nodup :=
    nodup_typedMembers members false (show (Entries.keys ([] : Members)).Nodup from List.nodup_nil)
  rw [Entries.forall_mem_iff hnodup,
    Entries.forall_mem_iff (P := fun name v => (name = "type" → lastReference? members = none) →
      typed (typed v) = typed v) hnames]
  apply forall_congr'
  intro name
  -- Name by name: the type first, where a reference puts its own.
  by_cases htype : name = "type"
  · subst htype
    rw [get?_type_typedMembers hnames]
    cases hreference : lastReference? members with
    | some type =>
      constructor
      · exact fun _ _ _ h => absurd (h rfl) nofun
      · intro _ v hv
        cases hv
        rfl
    | none =>
      rw [Option.map_none, Option.none_or]
      constructor
      · intro h v hv _
        exact (stays_iff.mp (h (typed v) (by rw [hv]; rfl))).2.2
      · intro h v hv
        obtain ⟨w, hw, rfl⟩ := Option.map_eq_some_iff.mp hv
        exact stays_iff.mpr ⟨referenceOf?_type _, isLeftOut_type _, h w hw fun _ => rfl⟩
  · rw [get?_typedMembers hnames htype]
    constructor
    · intro h v hv _
      rw [hv, Option.bind_some] at h
      cases hkept : typedMember? name v with
      | some w =>
        obtain ⟨_, _, rfl⟩ := typedMember?_eq_some_iff.mp hkept
        exact (stays_iff_of_kept hkept).mp (h _ hkept)
      | none => rw [typed_of_not_kept hkept, typed_of_not_kept hkept]
    · intro h w hw
      obtain ⟨v, hv, hkept⟩ := Option.bind_eq_some_iff.mp hw
      obtain ⟨_, _, rfl⟩ := typedMember?_eq_some_iff.mp hkept
      exact (stays_iff_of_kept hkept).mpr (h v hv fun heq => absurd heq htype)

/-- A schema that is rewritten is a text afterwards exactly if the last reference says so. -/
theorem isTextSchema_typedMembers {members : Members} (hnames : (Entries.keys members).Nodup)
    (htext : ¬ isTextSchema members = true) :
    isTextSchema (typedMembers false [] members) = true
      ↔ lastReference? members = some "string" := by
  rw [isTextSchema, Members.find, get?_type_typedMembers hnames]
  -- A reference decides the type. Without one the type is what it was, and that is not a text.
  cases lastReference? members with
  | some type => simp [Value.isText]
  | none =>
    have hfind : ((Entries.get? members "type").map typed).getD .null
        = typed (Members.find members "type") := by
      rw [Members.find]
      cases Entries.get? members "type" <;> rfl
    rw [Option.map_none, Option.none_or, hfind, isText_typed]
    constructor
    · intro h
      exact absurd h htext
    · intro h
      cases h

/-- A schema that was rewritten has each name once. -/
theorem nodup_typed {members : Members} :
    (Entries.keys (typedMembers false [] members)).Nodup :=
  nodup_typedMembers members false (show (Entries.keys ([] : Members)).Nodup from List.nodup_nil)

theorem typed_typed_text {members : Members} (h : NamesOnce (.obj members))
    (htext : isTextSchema members = true) :
    typed (typed (.obj members)) = typed (.obj members) ↔ uncovers members = false := by
  have hnodup := nodup_typedText h.1
  have hfirst : typedObject members = typedText members := if_pos htext
  have htype := get?_type_typedText members
  rw [typed_obj, hfirst, typed_obj, Value.obj.injEq, uncovers, htext, Bool.true_and]
  cases hdate : dateType? (Members.find members "format") with
  | none =>
    have hstill : isTextSchema (typedText members) = true := by
      rw [isTextSchema_iff, htype, hdate]
      exact isTextSchema_iff.mp htext
    have hsecond : typedObject (typedText members) = typedText (typedText members) :=
      if_pos hstill
    rw [hsecond, typedText_typedText h.1]
    exact ⟨fun _ => rfl, fun _ => rfl⟩
  -- The date is no text any more, so its members are searched.
  | some date =>
    have hno : ¬ isTextSchema (typedText members) = true := by
      rw [isTextSchema_iff, htype, hdate]
      exact fun heq => ne_string_of_dateType? hdate (by simpa using heq)
    have hsecond : typedObject (typedText members) = typedMembers false [] (typedText members) :=
      if_neg hno
    have honce : NamesOnceMembers (members.filter fun member =>
        member.1 != "facets" || (Members.find members "readOnly").isVacant) :=
      namesOnceMembers_iff.mpr fun p hp =>
        namesOnceMembers_iff.mp h.2 p (List.mem_of_mem_filter hp)
    rw [hsecond, typedMembers_eq_self_iff hnodup,
      typedText_uncovered h.1 htext (by rw [hdate]; rfl), areTypedMembers_iff _ honce]
    simp

/-- A schema that becomes a text, rewritten twice. -/
theorem typed_typed_becoming {members : Members} (hnames : (Entries.keys members).Nodup)
    (htext : ¬ isTextSchema members = true) (hreference : lastReference? members = some "string") :
    typed (typed (.obj members)) = typed (.obj members) ↔ becomesText members = false := by
  have hfirst : typedObject members = typedMembers false [] members := if_neg htext
  have hsecond : typedObject (typedMembers false [] members)
      = typedText (typedMembers false [] members) :=
    if_pos ((isTextSchema_typedMembers hnames htext).mpr hreference)
  -- The second rewriting reads format and marks as the first one has left them.
  have hfind : ∀ name, name ≠ "type" → (∀ v, typedMember? name v = some (typed v)) →
      Members.find (typedMembers false [] members) name = typed (Members.find members name) := by
    intro name htype hkept
    rw [Members.find, get?_typedMembers hnames htype, Members.find]
    cases Entries.get? members name with
    | none => rfl
    | some v => rw [Option.bind_some, hkept]; rfl
  have hformat : isKeptFormat (Entries.get? (typedMembers false [] members) "format")
      = isKeptFormat (Entries.get? members "format") := by
    rw [get?_typedMembers hnames (by decide)]
    cases Entries.get? members "format" with
    | none => rfl
    | some v =>
      have hkept : typedMember? "format" v = some (typed v) := by cases v <;> rfl
      rw [Option.bind_some, hkept, isKeptFormat_typed]
  rw [typed_obj, hfirst, typed_obj, hsecond, Value.obj.injEq, typedText_eq_self_iff nodup_typed,
    isTypedText, hformat, hfind "readOnly" (by decide) fun v => by cases v <;> rfl,
    hfind "facets" (by decide) fun v => by cases v <;> rfl, becomesText, hreference]
  simp only [htext, Bool.not_false, Bool.true_and, beq_self_eq_true, Bool.not_eq_eq_eq_not]

theorem typed_typed_schema {members : Members} (hnames : (Entries.keys members).Nodup)
    (htext : ¬ isTextSchema members = true) (hreference : lastReference? members ≠ some "string") :
    typed (typed (.obj members)) = typed (.obj members)
      ↔ ∀ p ∈ members, (p.1 = "type" → lastReference? members = none) →
        typed (typed p.2) = typed p.2 := by
  have hfirst : typedObject members = typedMembers false [] members := if_neg htext
  have hsecond : typedObject (typedMembers false [] members)
      = typedMembers false [] (typedMembers false [] members) :=
    if_neg fun h => hreference ((isTextSchema_typedMembers hnames htext).mp h)
  rw [typed_obj, hfirst, typed_obj, hsecond, Value.obj.injEq, typedMembers_eq_self_iff nodup_typed,
    typedMembers_revisited hnames]

/-! ## Every schema of a value

By induction along the schemas that are looked at again. A schema that becomes a text ends the
search, and so does a type that a reference overwrites. -/

/-- Whether a second rewriting finds nothing to do at a schema. -/
def IsSettled (members : Members) : Prop := uncovers members = false ∧ becomesText members = false

instance (members : Members) : Decidable (IsSettled members) :=
  inferInstanceAs (Decidable (_ ∧ _))

mutual

-- Along the recursion of `revisited`. A schema is looked into again only if it was searched before
-- and is no text afterwards.

theorem typed_typed_iff : ∀ v : Value, NamesOnce v →
    (typed (typed v) = typed v ↔ ∀ m ∈ revisited v, IsSettled m)
  | .null, _ => ⟨fun _ => nofun, fun _ => rfl⟩
  | .bool _, _ => ⟨fun _ => nofun, fun _ => rfl⟩
  | .int _, _ => ⟨fun _ => nofun, fun _ => rfl⟩
  | .float _, _ => ⟨fun _ => nofun, fun _ => rfl⟩
  | .str _, _ => ⟨fun _ => nofun, fun _ => rfl⟩
  | .list items, h => by
    rw [typed, typed, Value.list.injEq, revisited]
    exact typedItems_typedItems_iff items h
  | .obj members, h => by
    rw [revisited, List.forall_mem_cons, IsSettled]
    -- The three kinds of schemas: a text, one that becomes a text, and one that is searched again.
    by_cases htext : isTextSchema members = true
    · rw [typed_typed_text h htext]
      simp [htext, becomesText]
    · by_cases hreference : lastReference? members = some "string"
      · rw [typed_typed_becoming h.1 htext hreference]
        simp [htext, hreference, uncovers]
      · rw [typed_typed_schema h.1 htext hreference]
        have hmembers := typedMembers_typedMembers_iff (lastReference? members).isSome members h.2
        simpa [htext, hreference, uncovers, becomesText] using hmembers

theorem typedItems_typedItems_iff : ∀ items : List Value, NamesOnceItems items →
    (typedItems (typedItems items) = typedItems items ↔ ∀ m ∈ revisitedItems items, IsSettled m)
  | [], _ => ⟨fun _ => nofun, fun _ => rfl⟩
  | item :: rest, h => by
    rw [typedItems, typedItems, List.cons.injEq, typed_typed_iff item h.1,
      typedItems_typedItems_iff rest h.2, revisitedItems, List.forall_mem_append]

/-- The same for the members of a schema, where the type does not count if there is a reference. -/
theorem typedMembers_typedMembers_iff (referred : Bool) : ∀ members : List (String × Value),
    NamesOnceMembers members →
    ((∀ p ∈ members, (p.1 = "type" → referred = false) → typed (typed p.2) = typed p.2)
      ↔ ∀ m ∈ revisitedMembers referred members, IsSettled m)
  | [], _ => ⟨fun _ => nofun, fun _ => nofun⟩
  | (name, member) :: rest, h => by
    rw [List.forall_mem_cons, typedMembers_typedMembers_iff referred rest h.2,
      typed_typed_iff member h.1, revisitedMembers]
    by_cases hgone : name = "type" ∧ referred = true
    · simp [hgone]
    · have hseen : name = "type" → referred = false := by simpa using hgone
      rw [if_neg (by simpa using hgone), List.forall_mem_append]
      exact and_congr_left' ⟨fun hm => hm hseen, fun hm _ => hm⟩

end

/-- **When rewriting a second time changes nothing.** The two ways in which it can change something
are all: a date that uncovers its members, and a schema that becomes a text. -/
theorem typed_idempotent_iff {v : Value} (h : NamesOnce v) :
    typed (typed v) = typed v
      ↔ (∀ m ∈ revisited v, uncovers m = false) ∧ ∀ m ∈ revisited v, becomesText m = false := by
  rw [typed_typed_iff v h]
  exact forall₂_and

/-- A schema with references, with a date and with a type that is called `date`. -/
def petSchema : Value :=
  .obj [("title", .str "Pet"), ("type", .str "object"),
    ("properties", .obj [
      ("born", .obj [("type", .str "string"), ("format", .str "date"), ("readOnly", .bool true)]),
      ("day", .obj [("ref", .str "date"), ("type", .str "string")]),
      ("tags", .obj [("type", .str "array"), ("items", .obj [("include", .str "tag.json")])])])]

/-- The date has no title and the reference no format, so nothing is left to do. -/
theorem typed_idempotent_iff_pet :
    NamesOnce petSchema ∧ typed (typed petSchema) = typed petSchema := by
  have honce : NamesOnce petSchema := by
    simp [petSchema, NamesOnce, NamesOnceMembers, Entries.keys]
  exact ⟨honce, (typed_idempotent_iff honce).mpr ⟨by decide +kernel, by decide +kernel⟩⟩

/-- A date with a title. -/
def titledDate : Value :=
  .obj [("type", .str "string"), ("format", .str "date"), ("title", .str "Born")]

/-- A reference to a type called `string`, with a format that texts do not keep. -/
def namedText : Value := .obj [("ref", .str "string"), ("format", .str "uuid")]

/-- The title of a date goes only the second time, and so does the format of a schema that becomes a
text. -/
theorem typed_not_idempotent :
    typed (typed titledDate) ≠ typed titledDate ∧ typed (typed namedText) ≠ typed namedText := by
  have htitled : typed titledDate = .obj [("type", .str "date-only"), ("title", .str "Born")] := rfl
  have hnamed : typed namedText = .obj [("type", .str "string"), ("format", .str "uuid")] := rfl
  rw [htitled, hnamed]
  constructor
  · rw [show typed (.obj [("type", .str "date-only"), ("title", .str "Born")])
      = .obj [("type", .str "date-only")] from rfl]
    simp
  · rw [show typed (.obj [("type", .str "string"), ("format", .str "uuid")])
      = .obj [("type", .str "string")] from rfl]
    simp

end Ramlify.Schema
