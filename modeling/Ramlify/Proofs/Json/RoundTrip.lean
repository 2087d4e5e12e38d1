import Ramlify.Proofs.Entries
import Ramlify.Proofs.Json.Tokens

/-!
# Ramlify — stored values are read back

A value is stored as a JSON text and read again when it is needed. Reading gives the value back,
with one exception: where an object has a name twice, the last member counts, at the place of the
first (`settled`). Floating-point numbers and whole numbers of too many digits are left aside
(`Storable`).

* **`value_writeChars`** — the reader before a written value gives the value and stops behind it, in
  any layout of blanks.
* **`parse_stored`** — the round trip.
-/

namespace Ramlify.Json

/-! ## Values that can be stored

What a stored text may not hold, and what is lost of a value that it holds: of members with one name
only the last is found again. -/

mutual

/-- Values whose text can be read: no floating-point numbers, no numbers with too many digits. -/
def Storable : Value → Prop
  | .float _ => False
  | .int i => (Nat.toDigits 10 i.natAbs).length ≤ maxDigits
  | .list items => StorableItems items
  | .obj members => StorableMembers members
  | _ => True

@[inherit_doc Storable]
def StorableItems : List Value → Prop
  | [] => True
  | item :: rest => Storable item ∧ StorableItems rest

@[inherit_doc Storable]
def StorableMembers : List (String × Value) → Prop
  | [] => True
  | (_, member) :: rest => Storable member ∧ StorableMembers rest

end

mutual

/-- A value in whose objects each name stands once. Of several members with a name the last one
counts, at the place of the first. -/
def settled : Value → Value
  | .list items => .list (settledItems items)
  | .obj members => .obj (Entries.ofList (settledMembers members))
  | v => v

@[inherit_doc settled]
def settledItems : List Value → List Value
  | [] => []
  | item :: rest => settled item :: settledItems rest

/-- Members whose values are settled. -/
def settledMembers : List (String × Value) → List (String × Value)
  | [] => []
  | (name, member) :: rest => (name, settled member) :: settledMembers rest

end

/-! ## Layouts

A text is stored on one line and shown on several. The reader passes over blanks, so that one
statement about layouts of blanks serves for both. -/

/-- A layout that puts nothing but blanks between the parts of a text. -/
structure Layout.Blanks (layout : Layout) : Prop where
  separator : ∃ blanks, layout.separator = ',' :: blanks ∧ Blank blanks
  colon : ∃ blanks, layout.colon = ':' :: blanks ∧ Blank blanks
  newline : ∀ level, Blank (layout.newline level)

/-- The layout of stored texts puts a blank behind commas and colons, and nothing else. -/
theorem Layout.stored_blanks : Layout.stored.Blanks where
  separator := ⟨[], rfl, nofun⟩
  colon := by
    refine ⟨[' '], rfl, fun c hc => ?_⟩
    rw [List.mem_singleton.mp hc]
    rfl
  newline := by
    intro level c hc
    rcases List.mem_cons.mp hc with rfl | hc
    · decide
    · obtain ⟨step, hstep, hmem⟩ := List.mem_flatten.mp hc
      rw [List.eq_of_mem_replicate hstep] at hmem
      have hspace : c = ' ' := List.eq_of_mem_replicate (n := 4) hmem
      rw [hspace]
      rfl

/-- The characters that a written value can begin with. -/
def begins (c : Char) : Bool := isDigit c || c ∈ ['n', 't', 'f', '-', '"', '[', '{']

/-- A character that begins a value is not one that begins none. -/
theorem ne_of_begins {c d : Char} (hc : begins c = true) (hd : begins d = false) : c ≠ d := by
  rintro rfl
  rw [hc] at hd
  cases hd

/-- No value begins with a blank, so skipping blanks stops before it. -/
theorem not_isSpace_of_begins {c : Char} (hc : begins c = true) : isSpace c = false := by
  rw [Bool.eq_false_iff]
  intro hspace
  simp only [isSpace, Bool.or_eq_true, beq_iff_eq] at hspace
  rcases hspace with ((rfl | rfl) | rfl) | rfl <;> exact absurd hc (by decide)

/-- A written value begins with a character by which the reader knows its kind. -/
theorem writeChars_head (layout : Layout) (level : Nat) {v : Value} (hv : Storable v) :
    ∃ c cs, writeChars layout level v = c :: cs ∧ begins c = true := by
  cases v with
  | null => exact ⟨'n', "ull".toList, by simp [writeChars], by decide⟩
  | bool b =>
    cases b with
    | false => exact ⟨'f', "alse".toList, by simp [writeChars], by decide⟩
    | true => exact ⟨'t', "rue".toList, by simp [writeChars], by decide⟩
  | int i =>
    -- A whole number begins with a sign or with a digit.
    obtain ⟨c, cs, hcs, hc⟩ := head_intText i
    refine ⟨c, cs, by rw [writeChars, hcs], ?_⟩
    rcases hc with rfl | hdigit
    · decide
    · rw [begins, hdigit, Bool.true_or]
  | float x => exact hv.elim
  | str s => exact ⟨'"', _, by rw [writeChars, quote]; rfl, by decide⟩
  | list items =>
    cases items with
    | nil => exact ⟨'[', _, by rw [writeChars], by decide⟩
    | cons item more => exact ⟨'[', _, by rw [writeChars]; rfl, by decide⟩
  | obj members =>
    cases members with
    | nil => exact ⟨'{', _, by rw [writeChars], by decide⟩
    | cons member more => exact ⟨'{', _, by rw [writeChars]; rfl, by decide⟩

/-- A written value stands where blanks are skipped to. -/
theorem skip_writeChars (layout : Layout) (level : Nat) {v : Value} (hv : Storable v)
    {blanks : List Char} (hblanks : Blank blanks) (rest : List Char) :
    skip (blanks ++ (writeChars layout level v ++ rest)) = writeChars layout level v ++ rest := by
  obtain ⟨c, cs, hcs, hc⟩ := writeChars_head layout level hv
  rw [skip_append hblanks, hcs, List.cons_append, skip_cons (not_isSpace_of_begins hc)]

/-- A quoted name stands where blanks are skipped to. -/
theorem skip_quote {blanks : List Char} (hblanks : Blank blanks) (s : String) (rest : List Char) :
    skip (blanks ++ (quote s ++ rest)) = quote s ++ rest := by
  rw [skip_append hblanks, quote, List.cons_append, List.cons_append, skip_cons (by decide)]

/-- Blanks before something that ends a value end it as well. -/
theorem ends_blanks {blanks rest : List Char} (h : Blank blanks) (hrest : Ends rest) :
    Ends (blanks ++ rest) := by
  cases blanks with
  | nil => exact hrest
  | cons c blanks => exact Or.inl (h c List.mem_cons_self)

/-! ## One step of the reader

The recursion of the reader, one equation for each way it can go on, with its fuel counted down by
one. -/

section

variable {fuel : Nat} {cs rest : List Char}

/-- What begins neither a text nor an object nor a list is a word or a number. -/
theorem value_atom {c : Char} {found : Value} (hc : c ∉ ['"', '{', '['])
    (h : atom (c :: cs) = .ok (found, rest)) : value (fuel + 1) (c :: cs) = .ok (found, rest) := by
  simp only [List.mem_cons, List.not_mem_nil, or_false, not_or] at hc
  rw [value, if_neg hc.1, if_neg hc.2.1, if_neg hc.2.2, h]

theorem value_list {c : Char} {body : List Char} {found : List Value} (hskip : skip body = c :: cs)
    (hc : c ≠ ']') (h : items fuel (c :: cs) = .ok (found, rest)) :
    value (fuel + 1) ('[' :: body) = .ok (.list found, rest) := by
  rw [value, if_neg (by decide), if_neg (by decide), if_pos rfl, hskip]
  split
  · next heq =>
    cases heq
    exact absurd rfl hc
  · rw [h]
    rfl

theorem value_obj {c : Char} {body : List Char} {found : Members} (hskip : skip body = c :: cs)
    (hc : c ≠ '}') (h : members fuel [] (c :: cs) = .ok (found, rest)) :
    value (fuel + 1) ('{' :: body) = .ok (.obj found, rest) := by
  rw [value, if_neg (by decide), if_pos rfl, hskip]
  split
  · next heq =>
    cases heq
    exact absurd rfl hc
  · rw [h]
    rfl

/-- The last item of a list, before the closing bracket. -/
theorem items_last {first : Value} {after : List Char} (h : value fuel cs = .ok (first, after))
    (hskip : skip after = ']' :: rest) : items (fuel + 1) cs = .ok ([first], rest) := by
  simp [items, h, hskip, bind, Except.bind]

/-- An item with more of them behind a comma. -/
theorem items_more {first : Value} {more : List Value} {after next : List Char}
    (h : value fuel cs = .ok (first, after)) (hskip : skip after = ',' :: next)
    (hmore : items fuel (skip next) = .ok (more, rest)) :
    items (fuel + 1) cs = .ok (first :: more, rest) := by
  simp [items, h, hskip, hmore, bind, Except.bind]

/-- The last member of an object. It is put to those before, so that it takes the place of an
earlier one with its name. -/
theorem members_last {before : Members} {name : String} {found : Value}
    {afterName afterColon after : List Char}
    (hname : quoted ('"' :: cs) cs = .ok (name, afterName))
    (hcolon : skip afterName = ':' :: afterColon)
    (h : value fuel (skip afterColon) = .ok (found, after)) (hskip : skip after = '}' :: rest) :
    members (fuel + 1) before ('"' :: cs) = .ok (Entries.put before name found, rest) := by
  simp [members, hname, hcolon, h, hskip, bind, Except.bind]

/-- A member with more of them behind a comma. -/
theorem members_more {before : Members} {name : String} {found : Value}
    {afterName afterColon after next : List Char} {result : Except Fault (Members × List Char)}
    (hname : quoted ('"' :: cs) cs = .ok (name, afterName))
    (hcolon : skip afterName = ':' :: afterColon)
    (h : value fuel (skip afterColon) = .ok (found, after)) (hskip : skip after = ',' :: next)
    (hmore : members fuel (Entries.put before name found) (skip next) = result) :
    members (fuel + 1) before ('"' :: cs) = result := by
  simp [members, hname, hcolon, h, hskip, hmore, bind, Except.bind]

end

/-! ## Values

The round trip by induction over the value. The fuel is counted in characters of the text, two for
each: one for the step to a value and one for the step to the next item. -/

/-- The reader before a written value gives it, settled, and stops behind it. Each character of the
text allows for two levels of the recursion. -/
def Reads (layout : Layout) (level : Nat) (v : Value) : Prop :=
  ∀ (fuel : Nat) (rest : List Char), 2 * (writeChars layout level v).length ≤ fuel → Ends rest →
    value fuel (writeChars layout level v ++ rest) = .ok (settled v, rest)

section

variable {layout : Layout}

theorem Reads.skip {level : Nat} {v : Value} (h : Reads layout level v) (hv : Storable v)
    {fuel : Nat} {blanks rest : List Char} (hblanks : Blank blanks)
    (hfuel : 2 * (writeChars layout level v).length ≤ fuel) (hrest : Ends rest) :
    value fuel (Json.skip (blanks ++ (writeChars layout level v ++ rest)))
      = .ok (settled v, rest) := by
  rw [skip_writeChars layout level hv hblanks, h fuel rest hfuel hrest]

/-- Items are read back, if each of them is. By induction over the items behind the first. -/
theorem items_writeItems (hlayout : layout.Blanks) (level : Nat) {close : List Char}
    (hclose : Blank close) (more : List Value) :
    ∀ (first : Value), Reads layout level first → (∀ v ∈ more, Storable v ∧ Reads layout level v) →
      ∀ (fuel : Nat) (rest : List Char),
        2 * ((writeChars layout level first).length + (writeItems layout level more).length) + 1
          ≤ fuel →
        items fuel (writeChars layout level first
            ++ (writeItems layout level more ++ (close ++ ']' :: rest)))
          = .ok (settled first :: settledItems more, rest) := by
  -- Induction over the items behind the first, which come with a separator in front of them.
  induction more with
  | nil =>
    intro first hfirst _ fuel rest hfuel
    obtain ⟨fuel, rfl⟩ : ∃ n, fuel = n + 1 := ⟨fuel - 1, by omega⟩
    rw [writeItems, List.nil_append]
    rw [writeItems, List.length_nil] at hfuel
    refine items_last (hfirst fuel _ (by omega) (ends_blanks hclose (by simp [Ends]))) ?_
    rw [skip_append hclose, skip_cons (by decide)]
  | cons second more ih =>
    intro first hfirst hmore fuel rest hfuel
    obtain ⟨fuel, rfl⟩ : ∃ n, fuel = n + 1 := ⟨fuel - 1, by omega⟩
    obtain ⟨hstorable, hsecond⟩ := hmore second List.mem_cons_self
    obtain ⟨blanks, hseparator, hblanks⟩ := hlayout.separator
    rw [writeItems, hseparator] at hfuel ⊢
    simp only [List.cons_append, List.append_assoc, List.length_cons, List.length_append] at hfuel ⊢
    refine items_more (hfirst fuel _ (by omega) (by simp [Ends])) (skip_cons (by decide) _) ?_
    rw [skip_append hblanks, skip_writeChars layout level hstorable (hlayout.newline level)]
    exact ih second hsecond (fun v hv => hmore v (List.mem_cons_of_mem _ hv)) fuel rest (by omega)

/-- The members of an object are read one after another and put to those before. -/
theorem members_writeMembers (hlayout : layout.Blanks) (level : Nat) {close : List Char}
    (hclose : Blank close) (more : List (String × Value)) :
    ∀ (name : String) (first : Value), Storable first → Reads layout level first →
      (∀ member ∈ more, Storable member.2 ∧ Reads layout level member.2) →
      ∀ (fuel : Nat) (before : Members) (rest : List Char),
        2 * ((writeChars layout level first).length + (writeMembers layout level more).length) + 1
          ≤ fuel →
        members fuel before (quote name ++ (layout.colon ++ (writeChars layout level first
            ++ (writeMembers layout level more ++ (close ++ '}' :: rest)))))
          = .ok (Entries.putAll before ((name, settled first) :: settledMembers more), rest) := by
  -- As for the items, with the members read so far as they are handed on.
  induction more with
  | nil =>
    intro name first hstorable hfirst _ fuel before rest hfuel
    obtain ⟨fuel, rfl⟩ : ∃ n, fuel = n + 1 := ⟨fuel - 1, by omega⟩
    obtain ⟨blanks, hcolon, hblanks⟩ := hlayout.colon
    rw [writeMembers, List.nil_append, hcolon, quote]
    rw [writeMembers, List.length_nil] at hfuel
    simp only [List.cons_append, List.append_assoc, List.nil_append]
    have hends : Ends (close ++ '}' :: rest) := ends_blanks hclose (by simp [Ends])
    refine members_last (quoted_quote _ _ _) (skip_cons (by decide) _)
      (hfirst.skip hstorable hblanks (by omega) hends) ?_
    rw [skip_append hclose, skip_cons (by decide)]
  | cons second more ih =>
    intro name first hstorable hfirst hmore fuel before rest hfuel
    obtain ⟨fuel, rfl⟩ : ∃ n, fuel = n + 1 := ⟨fuel - 1, by omega⟩
    obtain ⟨other, v⟩ := second
    obtain ⟨hsecondStorable, hsecond⟩ := hmore (other, v) List.mem_cons_self
    obtain ⟨blanks, hcolon, hblanks⟩ := hlayout.colon
    obtain ⟨gap, hseparator, hgap⟩ := hlayout.separator
    rw [writeMembers, hseparator] at hfuel ⊢
    simp only [List.cons_append, List.append_assoc, List.length_cons, List.length_append] at hfuel ⊢
    rw [quote]
    simp only [List.cons_append, List.append_assoc, List.nil_append]
    refine members_more (quoted_quote _ _ _)
      (by rw [hcolon, List.cons_append, skip_cons (by decide)])
      (hfirst.skip hstorable hblanks (by omega) (by simp [Ends])) (skip_cons (by decide) _) ?_
    rw [skip_append hgap, skip_quote (hlayout.newline level), ← hcolon]
    exact ih other v hsecondStorable hsecond
      (fun member hmember => hmore member (List.mem_cons_of_mem _ hmember)) fuel _ rest (by omega)

mutual

-- By induction over the value; the items of a list and the members of an object go by the two
-- lemmas above.

/-- **A written value is read back.** -/
theorem value_writeChars (hlayout : layout.Blanks) : ∀ (v : Value), Storable v →
    ∀ level : Nat, Reads layout level v
  | .null, _, level => by
    intro fuel rest hfuel _
    rw [writeChars] at hfuel ⊢
    obtain ⟨fuel, rfl⟩ : ∃ n, fuel = n + 1 := ⟨fuel - 1, by simp at hfuel; omega⟩
    exact value_atom (by decide) (atom_null rest)
  | .bool b, _, level => by
    intro fuel rest hfuel _
    have htext : writeChars layout level (.bool b)
        = if b then "true".toList else "false".toList := by
      cases b <;> rw [writeChars] <;> rfl
    rw [htext] at hfuel ⊢
    obtain ⟨fuel, rfl⟩ : ∃ n, fuel = n + 1 := ⟨fuel - 1, by cases b <;> simp at hfuel <;> omega⟩
    have hatom := atom_bool b rest
    cases b with
    | false => exact value_atom (by decide) hatom
    | true => exact value_atom (by decide) hatom
  | .int i, hv, level => by
    intro fuel rest hfuel hrest
    rw [writeChars] at hfuel ⊢
    obtain ⟨c, cs, hcs, hc⟩ := head_intText i
    have hatom := atom_intText hv hrest
    rw [hcs] at hfuel hatom ⊢
    obtain ⟨fuel, rfl⟩ : ∃ n, fuel = n + 1 := ⟨fuel - 1, by simp at hfuel; omega⟩
    -- Neither a sign nor a digit is one of the characters that begin something else.
    refine value_atom ?_ hatom
    simp only [List.mem_cons, List.not_mem_nil, or_false, not_or]
    refine ⟨?_, ?_, ?_⟩ <;> rintro rfl <;> exact absurd hc (by decide)
  | .float _, hv, _ => hv.elim
  | .str s, _, level => by
    intro fuel rest hfuel _
    rw [writeChars, quote] at hfuel ⊢
    obtain ⟨fuel, rfl⟩ : ∃ n, fuel = n + 1 := ⟨fuel - 1, by simp at hfuel; omega⟩
    simp only [List.cons_append, List.append_assoc, List.nil_append]
    rw [value, if_pos rfl, quoted_quote]
    rfl
  | .list [], _, level => by
    intro fuel rest hfuel _
    rw [writeChars] at hfuel ⊢
    obtain ⟨fuel, rfl⟩ : ∃ n, fuel = n + 1 := ⟨fuel - 1, by simp at hfuel; omega⟩
    rfl
  | .list (first :: more), hv, level => by
    intro fuel rest hfuel _
    have hfirst := value_writeChars hlayout first hv.1 (level + 1)
    have hmore := items_reads hlayout more hv.2 (level + 1)
    rw [writeChars] at hfuel ⊢
    simp only [List.cons_append, List.append_assoc, List.nil_append, List.length_cons,
      List.length_append] at hfuel ⊢
    obtain ⟨fuel, rfl⟩ : ∃ n, fuel = n + 1 := ⟨fuel - 1, by omega⟩
    obtain ⟨c, cs, hcs, hc⟩ := writeChars_head layout (level + 1) hv.1
    -- Behind the bracket stands a new line, which is passed over, and then the first item.
    have hskip := skip_writeChars layout (level + 1) hv.1 (hlayout.newline (level + 1))
      (writeItems layout (level + 1) more ++ (layout.newline level ++ ']' :: rest))
    have hitems := items_writeItems hlayout (level + 1) (hlayout.newline level) more first hfirst
      hmore fuel rest (by omega)
    rw [hcs, List.cons_append] at hskip hitems
    rw [hcs, List.cons_append]
    exact value_list hskip (ne_of_begins hc (by decide)) hitems
  | .obj [], _, level => by
    intro fuel rest hfuel _
    rw [writeChars] at hfuel ⊢
    obtain ⟨fuel, rfl⟩ : ∃ n, fuel = n + 1 := ⟨fuel - 1, by simp at hfuel; omega⟩
    rfl
  | .obj ((name, first) :: more), hv, level => by
    intro fuel rest hfuel _
    have hfirst := value_writeChars hlayout first hv.1 (level + 1)
    have hmore := members_reads hlayout more hv.2 (level + 1)
    rw [writeChars] at hfuel ⊢
    simp only [List.cons_append, List.append_assoc, List.nil_append, List.length_cons,
      List.length_append] at hfuel ⊢
    obtain ⟨fuel, rfl⟩ : ∃ n, fuel = n + 1 := ⟨fuel - 1, by omega⟩
    have hmembers := members_writeMembers hlayout (level + 1) (hlayout.newline level) more name
      first hv.1 hfirst hmore fuel [] rest (by omega)
    -- Behind the brace stands a new line, and then the quoted name of the first member.
    have hskip := skip_quote (hlayout.newline (level + 1)) name (layout.colon
      ++ (writeChars layout (level + 1) first ++ (writeMembers layout (level + 1) more
        ++ (layout.newline level ++ '}' :: rest))))
    exact value_obj hskip (by decide) hmembers

theorem items_reads (hlayout : layout.Blanks) : ∀ (items : List Value), StorableItems items →
    ∀ level : Nat, ∀ v ∈ items, Storable v ∧ Reads layout level v
  | [], _, _, _, hmem => nomatch hmem
  | item :: rest, h, level, v, hmem => by
    rcases List.mem_cons.mp hmem with heq | hmem
    · rw [heq]
      exact ⟨h.1, value_writeChars hlayout item h.1 level⟩
    · exact items_reads hlayout rest h.2 level v hmem

/-- Each member of an object can be read back. -/
theorem members_reads (hlayout : layout.Blanks) : ∀ (members : List (String × Value)),
    StorableMembers members → ∀ level : Nat, ∀ member ∈ members,
      Storable member.2 ∧ Reads layout level member.2
  | [], _, _, _, hmem => nomatch hmem
  | (name, v) :: rest, h, level, member, hmem => by
    rcases List.mem_cons.mp hmem with heq | hmem
    · rw [heq]
      exact ⟨h.1, value_writeChars hlayout v h.1 level⟩
    · exact members_reads hlayout rest h.2 level member hmem

end

end

/-! ## Texts

A text is stored as it is, without quotes, so only values that are no texts are told by the JSON
that is written for them. -/

/-- What is stored for a value other than a text are the characters written for it. -/
theorem toList_stored {v : Value} (hkind : v.kind ≠ .str) :
    (stored v).toList = writeChars .stored 0 v := by
  cases v with
  | str s => exact absurd rfl hkind
  | null | bool | int | float | list | obj => exact String.toList_ofList

/-- **The round trip.** What a value is stored as is read as the value, settled. -/
theorem parse_stored {v : Value} (hv : Storable v) (hkind : v.kind ≠ .str) :
    parse (stored v) = .ok (settled v) := by
  have hvalue := value_writeChars Layout.stored_blanks v hv 0
    (2 * (writeChars .stored 0 v).length + 2) [] (by omega) trivial
  obtain ⟨c, cs, hcs, hc⟩ := writeChars_head .stored 0 hv
  have hread : read (c :: cs) = .ok (settled v) := by
    rw [List.append_nil, hcs] at hvalue
    unfold read
    split
    · next heq =>
      cases heq
      exact absurd hc (by decide)
    · rw [skip_cons (not_isSpace_of_begins hc), hvalue]
      rfl
  rw [parse, toList_stored hkind, hcs, hread]

end Ramlify.Json
