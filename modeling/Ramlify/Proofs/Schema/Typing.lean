import Ramlify.Proofs.Entries
import Ramlify.Schema.References

/-!
# Ramlify — what a schema reads as with its references turned into types

`typed` takes the members of a schema from the left and puts what becomes of them: a reference
overwrites a type before it, and hides one behind it. Read by names there is no order in it.

* **`get?_type_typedMembers`** — the type is the one that the last reference gives, and without
  references the type of the schema, rewritten.
* **`get?_typedMembers`** — any other name reads as its member, rewritten, unless the member is a
  reference or left out.
* **`get?_type_typedText`**, **`get?_typedText`** — a schema of type string changes its type only
  for a date, and otherwise its format and the facet of a text that is only read.
-/

namespace Ramlify.Schema

/-- Whether a schema is one of a text, which is not searched for references. -/
def isTextSchema (members : Members) : Bool := (Members.find members "type").isText "string"

/-- The type that the references among some members give. The last one counts. -/
def lastReference? (members : Members) : Option String :=
  members.reverse.findSome? fun member => referenceOf? member.1 member.2

/-- What a member becomes, unless it is a reference or left out. -/
def typedMember? (name : String) (member : Value) : Option Value :=
  if (referenceOf? name member).isSome || isLeftOut name member then none else some (typed member)

/-- The members of a schema with its references turned into types. -/
def typedObject (members : Members) : Members :=
  if isTextSchema members then typedText members else typedMembers false [] members

theorem typed_obj (members : Members) : typed (.obj members) = .obj (typedObject members) := by
  rw [typed, typedObject, isTextSchema]
  split <;> rfl

/-! ## Members by themselves

Rewriting changes neither the kind of a value nor a text, so a member that is kept is kept again. -/

@[simp] theorem referenceOf?_type (v : Value) : referenceOf? "type" v = none := by
  cases v <;> simp [referenceOf?]

@[simp] theorem isLeftOut_type (v : Value) : isLeftOut "type" v = false := by
  cases v <;> simp [isLeftOut]

/-- Rewriting a member makes no reference of it. -/
theorem referenceOf?_typed (name : String) (v : Value) :
    referenceOf? name (typed v) = referenceOf? name v := by
  cases v with
  | obj members => rw [typed_obj]; rfl
  | null | bool | int | float | str | list => rfl

/-- Whether a member is left out does not change. -/
theorem isLeftOut_typed (name : String) (v : Value) :
    isLeftOut name (typed v) = isLeftOut name v := by
  cases v with
  | obj members => rw [typed_obj]; rfl
  | null | bool | int | float | str | list => rfl

theorem isText_typed (text : String) (v : Value) : (typed v).isText text = v.isText text := by
  cases v with
  | obj members => rw [typed_obj]; rfl
  | null | bool | int | float | str | list => rfl

/-- A reference is a text, so it stands as it is where it is rewritten by itself. -/
theorem typed_of_reference {name : String} {v : Value} (h : (referenceOf? name v).isSome) :
    typed v = v := by
  cases v with
  | str s => rfl
  | null | bool | int | float | list | obj => cases h

/-- A member that is left out has nothing to rewrite. -/
theorem typed_of_isLeftOut {name : String} {v : Value} (h : isLeftOut name v = true) :
    typed v = v := by
  cases v with
  | list | obj => cases h
  | null | bool | int | float | str => rfl

/-! ## A schema of any type but string

The members are put one after another. Behind a reference the type of the schema is passed over, and
each reference puts a type anew. -/

/-- The last reference stands in the rest, or it is the first member. -/
theorem lastReference?_cons (name : String) (member : Value) (rest : Members) :
    lastReference? ((name, member) :: rest)
      = (lastReference? rest).or (referenceOf? name member) := by
  rw [lastReference?, List.reverse_cons, List.findSome?_append]
  cases h : referenceOf? name member <;> simp [lastReference?, h]

/-- There is no last reference if no member is one. -/
theorem lastReference?_eq_none_iff {members : Members} :
    lastReference? members = none ↔ ∀ p ∈ members, referenceOf? p.1 p.2 = none := by
  simp [lastReference?]

/-- Putting members keeps the names distinct. -/
theorem nodup_typedMembers (members : Members) : ∀ (referred : Bool) {before : Members},
    (Entries.keys before).Nodup → (Entries.keys (typedMembers referred before members)).Nodup := by
  induction members with
  | nil => exact fun _ _ h => h
  | cons entry rest ih =>
    intro referred before h
    obtain ⟨name, member⟩ := entry
    rw [typedMembers]
    split
    · exact ih true (Entries.nodup_keys_put h _ _)
    · split
      · exact ih referred h
      · exact ih referred (Entries.nodup_keys_put h _ _)

/-- The type, where some members were put before. By induction over the members, with the flag that
tells whether one of those before was a reference. -/
theorem get?_type_typedMembersFrom {members : Members} (hnames : (Entries.keys members).Nodup) :
    ∀ (referred : Bool) (before : Members),
      Entries.get? (typedMembers referred before members) "type"
        = match lastReference? members with
          | some type => some (.str type)
          | none =>
            if referred then Entries.get? before "type"
            else ((Entries.get? members "type").map typed).or (Entries.get? before "type") := by
  induction members with
  | nil =>
    intro referred before
    simp [typedMembers, lastReference?]
  | cons entry rest ih =>
    intro referred before
    obtain ⟨name, member⟩ := entry
    rw [Entries.keys, List.map_cons, List.nodup_cons] at hnames
    rw [typedMembers, lastReference?_cons]
    cases hreference : referenceOf? name member with
    | some type =>
      -- From here on a type of the schema does not count.
      show Entries.get? (typedMembers true (Entries.put before "type" (.str type)) rest) "type" = _
      rw [ih hnames.2, Entries.get?_put_self]
      cases lastReference? rest <;> simp
    | none =>
      rw [Option.or_none]
      show Entries.get? (if _ then _ else _) "type" = _
      by_cases hname : name = "type"
      · subst hname
        have hnew : Entries.get? rest "type" = none := Entries.get?_eq_none_iff.mpr hnames.1
        cases referred with
        | true => simp [ih hnames.2]
        | false =>
          rw [if_neg (by simp), ih hnames.2, hnew, Entries.get?_put_self]
          simp [Entries.get?_cons]
      · have hother : Entries.get? ((name, member) :: rest) "type" = Entries.get? rest "type" := by
          rw [Entries.get?_cons, if_neg hname]
        rw [hother]
        split
        · exact ih hnames.2 _ _
        · rw [ih hnames.2, Entries.get?_put_of_ne _ _ hname]

/-- **The type** is the one that the last reference gives, or the type of the schema. -/
theorem get?_type_typedMembers {members : Members} (hnames : (Entries.keys members).Nodup) :
    Entries.get? (typedMembers false [] members) "type"
      = ((lastReference? members).map Value.str).or ((Entries.get? members "type").map typed) := by
  rw [get?_type_typedMembersFrom hnames]
  cases lastReference? members <;> simp

/-- Any other name, where some members were put before. -/
theorem get?_typedMembersFrom {members : Members} (hnames : (Entries.keys members).Nodup)
    {key : String} (hkey : key ≠ "type") : ∀ (referred : Bool) (before : Members),
      Entries.get? (typedMembers referred before members) key
        = ((Entries.get? members key).bind (typedMember? key)).or (Entries.get? before key) := by
  induction members with
  | nil =>
    intro referred before
    rfl
  | cons entry rest ih =>
    intro referred before
    obtain ⟨name, member⟩ := entry
    rw [Entries.keys, List.map_cons, List.nodup_cons] at hnames
    rw [typedMembers, Entries.get?_cons]
    by_cases hname : name = key
    · -- The name stands only here.
      subst hname
      have hnew : Entries.get? rest name = none := Entries.get?_eq_none_iff.mpr hnames.1
      rw [if_pos rfl, Option.bind_some, typedMember?]
      cases hreference : referenceOf? name member with
      | some type =>
        show Entries.get? (typedMembers true (Entries.put before "type" (.str type)) rest) name = _
        rw [ih hnames.2, hnew, Entries.get?_put_of_ne _ _ (Ne.symm hkey)]
        rfl
      | none =>
        show Entries.get? (if _ then _ else _) name = _
        have htype : (name == "type") = false := by simpa using hkey
        rw [htype, Bool.false_and, Bool.false_or]
        cases hout : isLeftOut name member with
        | true => simp [ih hnames.2, hnew]
        | false => simp [ih hnames.2, hnew]
    · rw [if_neg hname]
      split
      · rw [ih hnames.2, Entries.get?_put_of_ne _ _ (Ne.symm hkey)]
      · split
        · exact ih hnames.2 _ _
        · rw [ih hnames.2, Entries.get?_put_of_ne _ _ hname]

/-- **Any other name** reads as its member, rewritten, unless there is nothing to keep of it. -/
theorem get?_typedMembers {members : Members} (hnames : (Entries.keys members).Nodup)
    {key : String} (hkey : key ≠ "type") :
    Entries.get? (typedMembers false [] members) key
      = (Entries.get? members key).bind (typedMember? key) := by
  rw [get?_typedMembersFrom hnames hkey, Entries.get?_nil, Option.or_none]

theorem typedMember?_eq_some_iff {name : String} {v w : Value} :
    typedMember? name v = some w
      ↔ referenceOf? name v = none ∧ isLeftOut name v = false ∧ typed v = w := by
  rw [typedMember?]
  cases referenceOf? name v <;> cases isLeftOut name v <;> simp

/-- Members that are all kept are rewritten one by one. -/
theorem typedMembers_of_kept {before rest : Members}
    (hrest : ∀ p ∈ rest, typedMember? p.1 p.2 = some (typed p.2))
    (hnames : (Entries.keys (before ++ rest)).Nodup) :
    typedMembers false before rest = before ++ rest.map fun p => (p.1, typed p.2) := by
  induction rest generalizing before with
  | nil => rw [typedMembers, List.map_nil, List.append_nil]
  | cons entry rest ih =>
    obtain ⟨name, member⟩ := entry
    obtain ⟨hreference, hout, _⟩ :=
      typedMember?_eq_some_iff.mp (hrest (name, member) List.mem_cons_self)
    -- The name is new, so the member is put at the end.
    have hnew : name ∉ Entries.keys before := by
      rw [Entries.keys, List.map_append, List.nodup_append] at hnames
      exact fun hmem => hnames.2.2 name hmem name (by simp) rfl
    have hmore : (Entries.keys ((before ++ [(name, typed member)]) ++ rest)).Nodup := by
      simpa [Entries.keys] using hnames
    rw [typedMembers, hreference]
    show (if _ then _ else _) = _
    rw [hout, Bool.and_false, Bool.or_false, if_neg Bool.false_ne_true,
      Entries.put_of_not_mem _ hnew, ih (fun p hp => hrest p (List.mem_cons_of_mem _ hp)) hmore,
      List.append_assoc, List.singleton_append, List.map_cons]

theorem typedItems_eq_map (items : List Value) : typedItems items = items.map typed := by
  induction items with
  | nil => rfl
  | cons item rest ih => rw [typedItems, ih, List.map_cons]

theorem typed_eq_str_iff {v : Value} {s : String} : typed v = .str s ↔ v = .str s := by
  cases v with
  | obj members => rw [typed_obj]; exact ⟨nofun, nofun⟩
  | list items => rw [typed]; exact ⟨nofun, nofun⟩
  | null | bool | int | float | str => exact Iff.rfl

/-- Only a truth value becomes a truth value. -/
theorem typed_eq_bool_iff {v : Value} {b : Bool} : typed v = .bool b ↔ v = .bool b := by
  cases v with
  | obj members => rw [typed_obj]; exact ⟨nofun, nofun⟩
  | list items => rw [typed]; exact ⟨nofun, nofun⟩
  | null | bool | int | float | str => exact Iff.rfl

/-! ## A schema of type string

Texts are not searched. What changes is the format: that of a date or a time becomes a type, and
most of the others are taken away. -/

/-- The type of the texts of a format, if it is a type of its own. -/
def dateType? : Value → Option String
  | .str format =>
    if format = "date" then some "date-only"
    else if format = "date-time" then some "datetime"
    else none
  | _ => none

/-- Whether a format stays as it is. -/
def isKeptFormat : Option Value → Bool
  | none => true
  | some (.str format) => format ∈ knownFormats
  | some _ => false

def isReadOnlyFacet : Value → Bool
  | .obj [("readOnly?", .str "boolean")] => true
  | _ => false

theorem isReadOnlyFacet_iff {v : Value} : isReadOnlyFacet v = true ↔ v = readOnlyFacet := by
  constructor
  · intro h
    unfold isReadOnlyFacet at h
    split at h
    · rfl
    · cases h
  · rintro rfl
    rfl

/-- Whether a format stays does not change by rewriting it. -/
theorem isKeptFormat_typed (v : Value) : isKeptFormat (some (typed v)) = isKeptFormat (some v) := by
  cases v with
  | obj members => rw [typed_obj]; rfl
  | null | bool | int | float | str | list => rfl

/-- All that can happen to the format of a text. -/
theorem adaptFormat_cases (members : Members) :
    (dateType? (Members.find members "format") = none
        ∧ adaptFormat members = Entries.erase members "format")
      ∨ (dateType? (Members.find members "format") = none
        ∧ isKeptFormat (some (Members.find members "format")) = true
        ∧ adaptFormat members = members)
      ∨ (dateType? (Members.find members "format") = some "date-only"
        ∧ adaptFormat members
          = Entries.erase (Entries.put members "type" (.str "date-only")) "format")
      ∨ (dateType? (Members.find members "format") = some "datetime"
        ∧ adaptFormat members
          = Entries.put (Entries.put members "type" (.str "datetime")) "format"
              (.str "rfc3339")) := by
  rw [adaptFormat]
  split
  · next format hformat =>
    rw [hformat, dateType?]
    -- The formats are tried in the order of the program: those of texts, dates, times, and then
    -- those that are known.
    by_cases htext : format ∈ textFormats
    · have hdate : format ≠ "date" ∧ format ≠ "date-time" := by
        constructor
        · rintro rfl
          exact absurd htext (by decide)
        · rintro rfl
          exact absurd htext (by decide)
      exact Or.inl ⟨by rw [if_neg hdate.1, if_neg hdate.2], if_pos htext⟩
    · rw [if_neg htext]
      by_cases hdate : format = "date"
      · rw [if_pos hdate, if_pos hdate]
        exact Or.inr (Or.inr (Or.inl ⟨rfl, rfl⟩))
      · rw [if_neg hdate, if_neg hdate]
        by_cases htime : format = "date-time"
        · rw [if_pos htime, if_pos htime]
          exact Or.inr (Or.inr (Or.inr ⟨rfl, rfl⟩))
        · rw [if_neg htime, if_neg htime]
          by_cases hknown : format ∈ knownFormats
          · exact Or.inr (Or.inl ⟨rfl, by simpa [isKeptFormat] using hknown, if_pos hknown⟩)
          · exact Or.inl ⟨rfl, if_neg hknown⟩
  · next hformat =>
    refine Or.inl ⟨?_, rfl⟩
    rw [dateType?]
    exact hformat

section

variable {members : Members} (hnames : (Entries.keys members).Nodup)

include hnames

/-- Adapting the format keeps the names distinct. -/
theorem nodup_adaptFormat : (Entries.keys (adaptFormat members)).Nodup := by
  rcases adaptFormat_cases members with ⟨_, h⟩ | ⟨_, _, h⟩ | ⟨_, h⟩ | ⟨_, h⟩ <;> rw [h]
  · exact Entries.nodup_keys_erase hnames _
  · exact hnames
  · exact Entries.nodup_keys_erase (Entries.nodup_keys_put hnames _ _) _
  · exact Entries.nodup_keys_put (Entries.nodup_keys_put hnames _ _) _ _

theorem nodup_typedText : (Entries.keys (typedText members)).Nodup := by
  rw [typedText]
  split
  · exact nodup_adaptFormat hnames
  · exact Entries.nodup_keys_put (nodup_adaptFormat hnames) _ _

/-- The format that is left is one that stays. -/
theorem isKeptFormat_adaptFormat :
    isKeptFormat (Entries.get? (adaptFormat members) "format") = true := by
  rcases adaptFormat_cases members with ⟨_, h⟩ | ⟨_, hkept, h⟩ | ⟨_, h⟩ | ⟨_, h⟩ <;> rw [h]
  · rw [Entries.get?_erase_self hnames]
    rfl
  · cases hget : Entries.get? members "format" with
    | none => rfl
    | some format => simpa [Members.find, hget] using hkept
  · rw [Entries.get?_erase_self (Entries.nodup_keys_put hnames _ _)]
    rfl
  · rw [Entries.get?_put_self]
    decide

end

/-- The type is that of a date, or what it was. -/
theorem get?_type_adaptFormat (members : Members) :
    Entries.get? (adaptFormat members) "type"
      = ((dateType? (Members.find members "format")).map Value.str).or
          (Entries.get? members "type") := by
  rcases adaptFormat_cases members with ⟨hd, h⟩ | ⟨hd, _, h⟩ | ⟨hd, h⟩ | ⟨hd, h⟩ <;> rw [h, hd]
  · exact Entries.get?_erase_of_ne _ (by decide)
  · rfl
  · rw [Entries.get?_erase_of_ne _ (by decide), Entries.get?_put_self]
    rfl
  · rw [Entries.get?_put_of_ne _ _ (by decide), Entries.get?_put_self]
    rfl

theorem get?_adaptFormat (members : Members) {key : String} (htype : key ≠ "type")
    (hformat : key ≠ "format") :
    Entries.get? (adaptFormat members) key = Entries.get? members key := by
  rcases adaptFormat_cases members with ⟨_, h⟩ | ⟨_, _, h⟩ | ⟨_, h⟩ | ⟨_, h⟩ <;> rw [h]
  · exact Entries.get?_erase_of_ne _ (Ne.symm hformat)
  · rw [Entries.get?_erase_of_ne _ (Ne.symm hformat), Entries.get?_put_of_ne _ _ (Ne.symm htype)]
  · rw [Entries.get?_put_of_ne _ _ (Ne.symm hformat), Entries.get?_put_of_ne _ _ (Ne.symm htype)]

/-- Whether a text is only read stays what it was. -/
theorem find_readOnly_adaptFormat (members : Members) :
    Members.find (adaptFormat members) "readOnly" = Members.find members "readOnly" := by
  rw [Members.find, get?_adaptFormat members (by decide) (by decide), Members.find]

/-- The facets of a text: there is a fixed one if it is only read. -/
theorem get?_facets_typedText (members : Members) :
    Entries.get? (typedText members) "facets"
      = if (Members.find members "readOnly").isVacant then Entries.get? members "facets"
        else some readOnlyFacet := by
  rw [typedText, find_readOnly_adaptFormat]
  split
  · exact get?_adaptFormat members (by decide) (by decide)
  · exact Entries.get?_put_self _ _ _

/-- Only the facets are put behind the format. -/
theorem get?_typedText_of_ne (members : Members) {key : String} (hfacets : key ≠ "facets") :
    Entries.get? (typedText members) key = Entries.get? (adaptFormat members) key := by
  rw [typedText]
  split
  · rfl
  · exact Entries.get?_put_of_ne _ _ (Ne.symm hfacets)

/-- The type of a text is kept, unless the text is a date. -/
theorem get?_type_typedText (members : Members) :
    Entries.get? (typedText members) "type"
      = ((dateType? (Members.find members "format")).map Value.str).or
          (Entries.get? members "type") := by
  rw [get?_typedText_of_ne members (by decide), get?_type_adaptFormat]

theorem get?_typedText (members : Members) {key : String}
    (h : key ∉ ["type", "format", "facets"]) :
    Entries.get? (typedText members) key = Entries.get? members key := by
  simp only [List.mem_cons, List.not_mem_nil, or_false, not_or] at h
  rw [get?_typedText_of_ne members h.2.2, get?_adaptFormat members h.1 h.2.1]

end Ramlify.Schema
