import Mathlib.Algebra.Group.Nat.Defs
import Ramlify.Proofs.Outcome
import Ramlify.Proofs.RequestCells

/-!
# Ramlify — values that were read can be stored

A value comes from a text before it is written again. The reader puts the members of an object one
after another, so each name stands there once, and it refuses whole numbers of too many digits.
What was read is thus told by the text under which it is stored, floating-point numbers apart, which
are written in other words than they are read from.

* **`readsLegible`** — what the reader gives, along its recursion.
* **`parse_stored_of_parse`** — reading, storing and reading again.
-/

namespace Ramlify.Json

/-! ## Values without floating-point numbers

A floating-point number is written in the shortest digits that give it, which need not be the digits
it was read from, and reading back is not proved for it. -/

mutual

/-- A value without floating-point numbers at any depth. -/
def FloatFree : Value → Prop
  | .float _ => False
  | .list items => FloatFreeItems items
  | .obj members => FloatFreeMembers members
  | _ => True

@[inherit_doc FloatFree]
def FloatFreeItems : List Value → Prop
  | [] => True
  | item :: rest => FloatFree item ∧ FloatFreeItems rest

/-- Members whose values are without floating-point numbers. -/
def FloatFreeMembers : List (String × Value) → Prop
  | [] => True
  | (_, member) :: rest => FloatFree member ∧ FloatFreeMembers rest

end

/-! ## What a reader can give

Two things are kept along the reader: an object has each name once, and a whole number has few
enough digits. The first makes reading back give the same value, the second makes the stored text
readable at all. -/

/-- A value that is told by its stored text, if only it has no floating-point numbers. -/
structure Legible (v : Value) : Prop where
  namesOnce : NamesOnce v
  storable : FloatFree v → Storable v

/-- Values without parts have nothing to be told apart by. -/
theorem legible_of_kind {v : Value} (hkind : v.kind ∈ [.null, .bool, .float, .str]) :
    Legible v := by
  cases v with
  | null | bool | str => exact ⟨trivial, fun _ => trivial⟩
  | float => exact ⟨trivial, False.elim⟩
  | int | list | obj => exact absurd hkind (by simp [Value.kind])

/-- A whole number is legible if its digits are few enough to be read. -/
theorem legible_int {i : Int} (h : (Nat.toDigits 10 i.natAbs).length ≤ maxDigits) :
    Legible (.int i) :=
  ⟨trivial, fun _ => h⟩

/-- A list is legible if each of its items is. -/
theorem legible_list {items : List Value} (h : ∀ item ∈ items, Legible item) :
    Legible (.list items) := by
  induction items with
  | nil => exact ⟨trivial, fun _ => trivial⟩
  | cons item rest ih =>
    obtain ⟨hitem, hrest⟩ := List.forall_mem_cons.mp h
    have hmore := ih hrest
    exact ⟨⟨hitem.namesOnce, hmore.namesOnce⟩,
      fun hfree => ⟨hitem.storable hfree.1, hmore.storable hfree.2⟩⟩

/-- Members as the reader collects them. -/
structure LegibleMembers (members : Members) : Prop where
  nodup : (Entries.keys members).Nodup
  each : ∀ member ∈ members, Legible member.2

/-- An object is legible if its names are distinct and each of its members is legible. -/
theorem legible_obj {members : Members} (h : LegibleMembers members) : Legible (.obj members) := by
  refine ⟨⟨h.nodup, namesOnceMembers_iff.mpr fun member hmem => (h.each member hmem).namesOnce⟩, ?_⟩
  have heach := h.each
  clear h
  show FloatFreeMembers members → StorableMembers members
  induction members with
  | nil => exact fun _ => trivial
  | cons member rest ih =>
    obtain ⟨hmember, hrest⟩ := List.forall_mem_cons.mp heach
    exact fun hfree => ⟨hmember.storable hfree.1, ih hrest hfree.2⟩

theorem LegibleMembers.nil : LegibleMembers [] := ⟨List.nodup_nil, nofun⟩

/-- Putting a member keeps the names distinct, whether the name is new or stands there already. -/
theorem LegibleMembers.put {members : Members} (h : LegibleMembers members) (name : String)
    {v : Value} (hv : Legible v) : LegibleMembers (Entries.put members name v) := by
  refine ⟨Entries.nodup_keys_put h.nodup name v, fun member hmem => ?_⟩
  rcases Entries.mem_put hmem with rfl | hold
  · exact hv
  · exact h.each member hold

/-! ## Numbers

The reader counts the digits of the text. The number has at most as many digits of its own, since
leading zeros are not written again. -/

/-- A number of so many digits lies below that power of ten. -/
theorem natOfDigits_lt {digits : List Char} (h : ∀ c ∈ digits, isDigit c = true) :
    natOfDigits digits < 10 ^ digits.length := by
  -- The digits stand behind a number that was read before them.
  have hbehind : ∀ n : Nat, digits.foldl (fun n c => n * 10 + (c.toNat - 48)) n
      < (n + 1) * 10 ^ digits.length := by
    induction digits with
    | nil => simp
    | cons c digits ih =>
      intro n
      obtain ⟨hc, hdigits⟩ := List.forall_mem_cons.mp h
      have hnine : c.toNat ≤ 57 := by
        simp only [isDigit, Bool.and_eq_true, decide_eq_true_eq] at hc
        exact hc.2
      calc digits.foldl (fun n c => n * 10 + (c.toNat - 48)) (n * 10 + (c.toNat - 48))
          < (n * 10 + (c.toNat - 48) + 1) * 10 ^ digits.length := ih hdigits _
        _ ≤ ((n + 1) * 10) * 10 ^ digits.length := Nat.mul_le_mul_right _ (by omega)
        _ = (n + 1) * 10 ^ (digits.length + 1) := by rw [Nat.pow_succ, Nat.mul_assoc, Nat.mul_comm 10]
  have hfirst := hbehind 0
  rwa [Nat.zero_add, Nat.one_mul] at hfirst

/-- What is taken as the whole part of a number are digits. -/
theorem isDigit_of_mem_wholeDigits {cs : List Char} :
    ∀ c ∈ (wholeDigits cs).1, isDigit c = true := by
  cases cs with
  | nil => exact List.forall_mem_nil _
  | cons first cs =>
    rw [wholeDigits]
    split
    · next hzero => simp [hzero, isDigit]
    · split
      · next hdigit =>
        exact List.forall_mem_cons.mpr ⟨hdigit, fun c hc => by
          simpa using List.all_eq_true.mp List.all_takeWhile c hc⟩
      · exact List.forall_mem_nil _

/-- A number is legible: a whole one has been refused if its digits were too many. -/
theorem legible_of_unsigned {start cs rest : List Char} {negative : Bool} {v : Value}
    (h : unsigned start negative cs = .ok (v, rest)) : Legible v := by
  have hdigits : ∀ c ∈ (wholeDigits cs).1, isDigit c = true := isDigit_of_mem_wholeDigits
  unfold unsigned at h
  generalize wholeDigits cs = read at h hdigits
  obtain ⟨whole, behind⟩ := read
  cases whole with
  | nil => cases h
  | cons first digits =>
    -- The digits of the number are at most the digits that were read, and only these are compared
    -- with the limit.
    have hlength : (Nat.toDigits 10 (natOfDigits (first :: digits))).length
        ≤ (first :: digits).length :=
      (Nat.length_toDigits_le_iff (by decide) (Nat.succ_pos _)).mpr (natOfDigits_lt hdigits)
    simp only at h
    split_ifs at h with hpoint hmany hsign
    all_goals
      cases h
    · exact legible_of_kind (by simp [Value.kind])
    · exact legible_int (by rw [Int.natAbs_neg, Int.natAbs_natCast]; omega)
    · exact legible_int (by rw [Int.natAbs_natCast]; omega)

theorem legible_of_atom {cs rest : List Char} {v : Value} (h : atom cs = .ok (v, rest)) :
    Legible v := by
  unfold atom at h
  split at h
  · next found hfound =>
    cases h
    obtain ⟨word, hword, hafter⟩ := List.exists_of_findSome?_eq_some hfound
    obtain ⟨after, -, heq⟩ := Option.map_eq_some_iff.mp hafter
    have hkinds : ∀ word ∈ words, word.2.kind ∈ [.null, .bool, .float, .str] := by decide
    rw [← (Prod.mk.inj heq).1]
    exact legible_of_kind (hkinds word hword)
  · unfold number at h
    split at h
    · exact legible_of_unsigned h
    · exact legible_of_unsigned h

/-! ## Values

By induction over the fuel. The members of an object are collected from the left, so that what is
said of them supposes it of those before. -/

/-- What the reader gives is legible; of the members of an object, if those before are. -/
structure ReadsLegible (fuel : Nat) : Prop where
  value {cs rest : List Char} {v : Value} (h : value fuel cs = .ok (v, rest)) : Legible v
  items {cs rest : List Char} {found : List Value} (h : items fuel cs = .ok (found, rest)) :
    ∀ item ∈ found, Legible item
  members {before found : Members} {cs rest : List Char} (hbefore : LegibleMembers before)
    (h : members fuel before cs = .ok (found, rest)) : LegibleMembers found

theorem readsLegible_zero : ReadsLegible 0 := by
  refine ⟨fun h => ?_, fun h => ?_, fun _ h => ?_⟩
  · rw [value] at h
    cases h
  · rw [items] at h
    cases h
  · rw [members] at h
    cases h

section

variable {fuel : Nat} (ih : ReadsLegible fuel)

include ih

/-- One step of the reader before a value. A text and an empty object or list end at once; the rest
goes by the steps for items and members. -/
theorem legible_of_value {cs rest : List Char} {v : Value}
    (h : value (fuel + 1) cs = .ok (v, rest)) : Legible v := by
  cases cs with
  | nil =>
    rw [value] at h
    cases h
  | cons c cs =>
    rw [value] at h
    -- By the first character: a text, an object, a list, or a word or a number.
    split_ifs at h
    · obtain ⟨⟨text, after⟩, -, h⟩ := Outcome.bind_eq_ok.mp h
      cases h
      exact legible_of_kind (by simp [Value.kind])
    · split at h
      · cases h
        exact legible_obj .nil
      · obtain ⟨⟨found, after⟩, hfound, h⟩ := Outcome.bind_eq_ok.mp h
        cases h
        exact legible_obj (ih.members .nil hfound)
    · split at h
      · cases h
        exact legible_list (List.forall_mem_nil _)
      · obtain ⟨⟨found, after⟩, hfound, h⟩ := Outcome.bind_eq_ok.mp h
        cases h
        exact legible_list (ih.items hfound)
    · exact legible_of_atom h

/-- One step of the reader among the items of a list. -/
theorem legible_of_items {cs rest : List Char} {found : List Value}
    (h : items (fuel + 1) cs = .ok (found, rest)) : ∀ item ∈ found, Legible item := by
  rw [items] at h
  obtain ⟨⟨first, after⟩, hfirst, h⟩ := Outcome.bind_eq_ok.mp h
  have hlegible := ih.value hfirst
  simp only at h
  split at h
  · cases h
    exact List.forall_mem_singleton.mpr hlegible
  · obtain ⟨⟨more, behind⟩, hmore, h⟩ := Outcome.bind_eq_ok.mp h
    cases h
    exact List.forall_mem_cons.mpr ⟨hlegible, ih.items hmore⟩
  · cases h

/-- One step of the reader among the members of an object: the member that was read is put to those
before. -/
theorem legible_of_members {before found : Members} {cs rest : List Char}
    (hbefore : LegibleMembers before) (h : members (fuel + 1) before cs = .ok (found, rest)) :
    LegibleMembers found := by
  unfold members at h
  split at h
  · obtain ⟨⟨name, afterName⟩, -, h⟩ := Outcome.bind_eq_ok.mp h
    simp only at h
    split at h
    · obtain ⟨⟨v, after⟩, hv, h⟩ := Outcome.bind_eq_ok.mp h
      -- The member is put before it is looked whether there are more of them.
      have hput := hbefore.put name (ih.value hv)
      simp only at h
      split at h
      · cases h
        exact hput
      · exact ih.members hput h
      · cases h
    · cases h
  · cases h

end

/-- **Whatever the reader gives is legible.** -/
theorem readsLegible (fuel : Nat) : ReadsLegible fuel := by
  induction fuel with
  | zero => exact readsLegible_zero
  | succ fuel ih =>
    exact ⟨legible_of_value ih, legible_of_items ih, legible_of_members ih⟩

/-! ## Texts

A text is read with fuel for all its characters; how much that is does not matter here. -/

theorem legible_of_parse {text : String} {v : Value} (h : parse text = .ok v) : Legible v := by
  unfold parse at h
  split at h
  · next found hread =>
    cases h
    unfold read at hread
    split at hread
    · cases hread
    · obtain ⟨⟨found, rest⟩, hfound, hread⟩ := Outcome.bind_eq_ok.mp hread
      simp only at hread
      split at hread
      · cases hread
        exact (readsLegible _).value hfound
      · cases hread
  · cases h

/-- **Reading, storing and reading again.** -/
theorem parse_stored_of_parse {text : String} {v : Value} (h : parse text = .ok v)
    (hkind : v.kind ≠ .str) (hfree : FloatFree v) : parse (stored v) = .ok v :=
  have hlegible := legible_of_parse h
  parse_stored_of_faithful ⟨hlegible.storable hfree, hlegible.namesOnce, hkind⟩

end Ramlify.Json
