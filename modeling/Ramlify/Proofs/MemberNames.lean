import Ramlify.Proofs.Entries

/-!
# Ramlify — names at every depth

`Value.HasName` says that a name is that of a member somewhere in a value. `Value.AllNames` says of
all names of a value that they are of some kind; it is the form in which the question is put to
values that are built step by step, because each way of building keeps it.
-/

namespace Ramlify

/-- A name of a member at some depth of a value. -/
inductive Value.HasName (name : String) : Value → Prop where
  | here {members : Members} {v : Value} (h : (name, v) ∈ members) : HasName name (.obj members)
  | member {members : Members} {other : String} {v : Value} (h : (other, v) ∈ members)
      (hv : HasName name v) : HasName name (.obj members)
  | item {items : List Value} {v : Value} (h : v ∈ items) (hv : HasName name v) :
      HasName name (.list items)

/-- All names at all depths of a value are allowed. -/
def Value.AllNames (ok : String → Prop) (v : Value) : Prop := ∀ name, v.HasName name → ok name

/-- All names at all depths of some members are allowed. -/
def Members.AllNames (ok : String → Prop) (members : Members) : Prop :=
  ∀ name v, (name, v) ∈ members → ok name ∧ v.AllNames ok

namespace Value

variable {ok : String → Prop}

/-! ## Values

What holds of all names of a value holds of all names of its parts, and conversely. -/

/-- The names of an object are those of its members and the names in them. -/
theorem allNames_obj_iff {members : Members} :
    (obj members).AllNames ok ↔ Members.AllNames ok members := by
  constructor
  · intro h name v hmem
    exact ⟨h name (.here hmem), fun other hother => h other (.member hmem hother)⟩
  · intro h name hname
    cases hname with
    | here hmem => exact (h _ _ hmem).1
    | member hmem hv => exact (h _ _ hmem).2 name hv

/-- The names of a list are those of its items. -/
theorem allNames_list_iff {items : List Value} :
    (list items).AllNames ok ↔ ∀ v ∈ items, v.AllNames ok := by
  constructor
  · intro h v hmem name hname
    exact h name (.item hmem hname)
  · intro h name hname
    cases hname with
    | item hmem hv => exact h _ hmem name hv

@[simp] theorem allNames_null : null.AllNames ok := nofun

@[simp] theorem allNames_bool (b : Bool) : (bool b).AllNames ok := nofun

@[simp] theorem allNames_int (i : Int) : (int i).AllNames ok := nofun

@[simp] theorem allNames_float (x : Binary64) : (float x).AllNames ok := nofun

@[simp] theorem allNames_str (s : String) : (str s).AllNames ok := nofun

@[simp] theorem allNames_ofText? (text : Option String) : (ofText? text).AllNames ok := by
  cases text <;> simp [ofText?]

@[simp] theorem allNames_texts (names : List String) : (texts names).AllNames ok := by
  rw [texts, allNames_list_iff]
  intro v hv
  obtain ⟨s, _, rfl⟩ := List.mem_map.mp hv
  simp

/-- A condition that is weaker for every name is kept. -/
theorem AllNames.mono {ok' : String → Prop} (hok : ∀ name, ok name → ok' name) {v : Value}
    (h : v.AllNames ok) : v.AllNames ok' :=
  fun name hname => hok name (h name hname)

end Value

namespace Members

variable {ok : String → Prop}

/-! ## Members

The operations by which members are put together. None of them makes up a name: it keeps some of the
members, or puts one that is named. -/

/-- A condition that is weaker for every name is kept. -/
theorem AllNames.mono {ok' : String → Prop} (hok : ∀ name, ok name → ok' name)
    {members : Members} (h : members.AllNames ok) : members.AllNames ok' :=
  fun name v hmem => ⟨hok name (h name v hmem).1, (h name v hmem).2.mono hok⟩

theorem allNames_nil : AllNames ok [] := by
  intro name v h
  cases h

/-- Names of some members, one member at a time. -/
theorem allNames_cons_iff {name : String} {v : Value} {rest : Members} :
    AllNames ok ((name, v) :: rest) ↔ (ok name ∧ v.AllNames ok) ∧ AllNames ok rest := by
  constructor
  · intro h
    exact ⟨h name v List.mem_cons_self, fun n w hmem => h n w (List.mem_cons_of_mem _ hmem)⟩
  · rintro ⟨hfirst, hrest⟩ n w hmem
    rcases List.mem_cons.mp hmem with heq | hmem
    · cases heq
      exact hfirst
    · exact hrest n w hmem

theorem AllNames.of_subset {members more : Members} (h : members.AllNames ok)
    (hsub : ∀ entry ∈ more, entry ∈ members) : more.AllNames ok :=
  fun name v hmem => h name v (hsub _ hmem)

theorem AllNames.append {members more : Members} (h : members.AllNames ok)
    (hmore : more.AllNames ok) : AllNames ok (members ++ more) := by
  intro name v hmem
  rcases List.mem_append.mp hmem with hleft | hright
  · exact h name v hleft
  · exact hmore name v hright

/-- Putting a member adds its name and the names in its value, and no others. -/
theorem AllNames.put {members : Members} (h : members.AllNames ok) {name : String} {v : Value}
    (hname : ok name) (hv : v.AllNames ok) : AllNames ok (Entries.put members name v) := by
  intro other w hmem
  rcases Entries.mem_put hmem with heq | hbefore
  · cases heq
    exact ⟨hname, hv⟩
  · exact h other w hbefore

theorem AllNames.putGiven {members : Members} (h : members.AllNames ok) {name : String}
    {v : Value} (hname : ok name) (hv : v.AllNames ok) :
    AllNames ok (Members.putGiven members name v) := by
  unfold Members.putGiven
  split
  · exact h
  · exact h.put hname hv

theorem AllNames.erase {members : Members} (h : members.AllNames ok) (name : String) :
    AllNames ok (Entries.erase members name) :=
  h.of_subset fun _ hmem => (Entries.erase_sublist members name).subset hmem

theorem AllNames.filter {members : Members} (h : members.AllNames ok)
    (p : String × Value → Bool) : AllNames ok (members.filter p) :=
  h.of_subset fun _ hmem => List.mem_of_mem_filter hmem

/-- Putting members one after another adds only names of theirs. -/
theorem AllNames.putAll {members more : Members} (h : members.AllNames ok)
    (hmore : more.AllNames ok) : AllNames ok (Entries.putAll members more) := by
  intro name v hmem
  rcases Entries.mem_putAll hmem with hright | hleft
  · exact hmore name v hright
  · exact h name v hleft

/-- Members of a list of pairs have the names of the pairs. -/
theorem AllNames.ofList {pairs : Members} (h : pairs.AllNames ok) :
    AllNames ok (Entries.ofList pairs) :=
  h.of_subset fun _ hmem => Entries.mem_ofList hmem

/-- What stands under a name has no other names in it. -/
theorem AllNames.get? {members : Members} (h : members.AllNames ok) {name : String} {v : Value}
    (hget : Entries.get? members name = some v) : v.AllNames ok :=
  (h name v (Entries.mem_of_get? hget)).2

/-- The same for what is found, which is nothing where the name is missing. -/
theorem AllNames.find {members : Members} (h : members.AllNames ok) (name : String) :
    (Members.find members name).AllNames ok := by
  unfold Members.find
  cases hget : Entries.get? members name with
  | none => exact Value.allNames_null
  | some v => exact h.get? hget

end Members

end Ramlify
