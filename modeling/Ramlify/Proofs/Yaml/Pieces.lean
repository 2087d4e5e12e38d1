import Mathlib.Data.List.Basic
import Ramlify.Yaml.Writer

/-!
# Ramlify — the pieces of a YAML document

A document consists of scalars and of the layout between them. Scalars are the names and the texts
of what is written; everything else is layout, numbers included, and has no quotes in it.

* **`flatMap_written_pieces`** — the pieces make up the document.
* **`laid_pieces`** — there is no quote in the layout, and each scalar is followed by a colon or by
  the end of its line.
* **`hasScalar_pieces`** — the scalars are the names and the texts of the object.
-/

namespace Ramlify.Yaml

/-- A piece of a document. -/
inductive Piece where
  | layout (cs : List Char)
  | scalar (indent : Nat) (text : String)

def Piece.written : Piece → List Char
  | layout cs => cs
  | scalar indent text => scalarText indent text.toList

def namePieces (indent : Nat) (name : String) : List Piece :=
  if isSimpleName name.toList then [.scalar (indent + 2) name, .layout [':']]
  else [.layout ['?', ' '], .scalar (indent + 2) name, .layout (lineStart indent ++ [':'])]

/-- A value that takes no lines of its own. -/
def inlinePiece (indent : Nat) : Value → Piece
  | .str text => .scalar indent text
  | v => .layout (inlineText indent v)

mutual

/-- The pieces of a value after a mark at some indentation. -/
def valuePieces (tight : Bool) (indent : Nat) : Value → List Piece
  | .list (item :: rest) =>
    let inner := if tight then indent + 2 else indent
    .layout ((if tight then [' '] else lineStart inner) ++ ['-']) ::
      (valuePieces true inner item ++ itemsPieces inner rest)
  | .obj ((name, member) :: rest) =>
    let inner := indent + 2
    .layout (if tight then [' '] else lineStart inner) :: (namePieces inner name ++
      (valuePieces (!isSimpleName name.toList) inner member ++ membersPieces inner rest))
  | v => [.layout [' '], inlinePiece (indent + 2) v]

def itemsPieces (indent : Nat) : List Value → List Piece
  | [] => []
  | item :: rest =>
    .layout (lineStart indent ++ ['-']) :: (valuePieces true indent item ++ itemsPieces indent rest)

def membersPieces (indent : Nat) : List (String × Value) → List Piece
  | [] => []
  | (name, member) :: rest =>
    .layout (lineStart indent) :: (namePieces indent name ++
      (valuePieces (!isSimpleName name.toList) indent member ++ membersPieces indent rest))

end

/-- The pieces of an object as a document. -/
def pieces (members : Members) : List Piece :=
  match members with
  | [] => [.layout ['\x7b', '\x7d', '\n']]
  | _ => (membersPieces 0 members).drop 1 ++ [.layout ['\n']]

/-! ## The pieces make up the document

The pieces are built as the document is written, by the same recursion, so that writing them one
after another gives the document. -/

/-- The pieces of a name make up the name as it is written. -/
theorem flatMap_written_namePieces (indent : Nat) (name : String) :
    (namePieces indent name).flatMap Piece.written = nameText indent name := by
  unfold namePieces nameText
  dsimp only
  split <;> simp [Piece.written]

theorem written_inlinePiece (indent : Nat) (v : Value) :
    (inlinePiece indent v).written = inlineText indent v := by
  cases v <;> rfl

mutual

/-- The pieces of a value make up the value as it is written, by induction on the value. -/
theorem flatMap_written_valuePieces (tight : Bool) (indent : Nat) : ∀ v : Value,
    (valuePieces tight indent v).flatMap Piece.written = valueText tight indent v
  | .list (item :: rest) => by
    rw [valuePieces, valueText, List.flatMap_cons, List.flatMap_append,
      flatMap_written_valuePieces true _ item, flatMap_written_itemsPieces _ rest]
    simp [Piece.written]
  | .obj ((name, member) :: rest) => by
    rw [valuePieces, valueText, List.flatMap_cons, List.flatMap_append, List.flatMap_append,
      flatMap_written_namePieces, flatMap_written_valuePieces _ _ member,
      flatMap_written_membersPieces _ rest]
    simp [Piece.written]
  | .list [] | .obj [] | .null | .bool _ | .int _ | .float _ | .str _ => by
    simp only [valuePieces, valueText, List.flatMap_cons, List.flatMap_nil, written_inlinePiece,
      List.append_nil]
    rfl

theorem flatMap_written_itemsPieces (indent : Nat) : ∀ items : List Value,
    (itemsPieces indent items).flatMap Piece.written = itemsText indent items
  | [] => rfl
  | item :: rest => by
    rw [itemsPieces, itemsText, List.flatMap_cons, List.flatMap_append,
      flatMap_written_valuePieces true _ item, flatMap_written_itemsPieces _ rest]
    simp [Piece.written]

theorem flatMap_written_membersPieces (indent : Nat) : ∀ members : List (String × Value),
    (membersPieces indent members).flatMap Piece.written = membersText indent members
  | [] => rfl
  | (name, member) :: rest => by
    rw [membersPieces, membersText, List.flatMap_cons, List.flatMap_append, List.flatMap_append,
      flatMap_written_namePieces, flatMap_written_valuePieces _ _ member,
      flatMap_written_membersPieces _ rest]
    simp [Piece.written]

end

/-- **The pieces of an object make up its document.** -/
theorem flatMap_written_pieces (members : Members) :
    (pieces members).flatMap Piece.written = writeChars members := by
  unfold pieces writeChars
  cases members with
  | nil => rfl
  | cons entry rest =>
    -- The line end before the first member is a piece of its own.
    have hwritten := flatMap_written_membersPieces 0 (entry :: rest)
    dsimp only
    rw [← hwritten, List.flatMap_append]
    rfl

/-! ## There is no quote in the layout

The layout is made of marks, of blanks and of numbers. What is looked for is the quote at which a
scalar in single quotes begins and ends, and it is none of their characters. -/

theorem quote_not_mem_toDigits (n : Nat) : '\'' ∉ Nat.toDigits 10 n := by
  intro h
  have hdigit := Nat.isDigit_of_mem_toDigits (by decide) (by decide) h
  exact absurd hdigit (by decide)

theorem quote_not_mem_intText (i : Int) : '\'' ∉ Json.intText i := by
  unfold Json.intText
  split
  · exact List.not_mem_cons_of_ne_of_not_mem (by decide) (quote_not_mem_toDigits _)
  · exact quote_not_mem_toDigits _

theorem quote_not_mem_repr (n : Nat) : '\'' ∉ (toString n).toList :=
  Nat.toList_repr ▸ quote_not_mem_toDigits n

theorem quote_not_mem_twoDigits (n : Nat) : '\'' ∉ (FloatStyle.twoDigits n).toList := by
  unfold FloatStyle.twoDigits
  split
  · simpa using quote_not_mem_repr n
  · exact quote_not_mem_repr n

/-- A number with its point among the digits has no quote. -/
theorem quote_not_mem_positional {digits : List Char} (h : '\'' ∉ digits) (exponent : Int) :
    '\'' ∉ (FloatStyle.positional digits exponent).toList := by
  have htake : ∀ n, '\'' ∉ digits.take n := fun _ hmem => h (List.mem_of_mem_take hmem)
  have hdrop : ∀ n, '\'' ∉ digits.drop n := fun _ hmem => h (List.mem_of_mem_drop hmem)
  unfold FloatStyle.positional
  dsimp only
  split
  · simp [h]
  · split
    · simpa using ⟨htake _, hdrop _⟩
    · simp [h]

/-- A number with an exponent has no quote. -/
theorem quote_not_mem_scientific {digits : List Char} (h : '\'' ∉ digits) (exponent : Int) :
    '\'' ∉ (floatStyle.scientific digits exponent).toList := by
  unfold FloatStyle.scientific
  dsimp only
  simp only [String.toList_append, List.mem_append, not_or]
  refine ⟨⟨⟨?_, by decide⟩, ?_⟩, quote_not_mem_twoDigits _⟩
  · cases digits with
    | nil => decide
    | cons d ds =>
      cases ds with
      | nil => simpa [floatStyle] using h
      | cons e es => simpa using h
  · split <;> decide

/-- A float has no quote, and its names such as nan have none either. -/
theorem quote_not_mem_float (x : Binary64) : '\'' ∉ (floatStyle.write x).toList := by
  have hdecimal : ∀ d, '\'' ∉ (floatStyle.writeDecimal d).toList := by
    intro d
    unfold FloatStyle.writeDecimal
    dsimp only
    split
    · exact quote_not_mem_scientific (quote_not_mem_toDigits _) _
    · exact quote_not_mem_positional (quote_not_mem_toDigits _) _
  cases x with
  | nan => decide
  | infinite negative => cases negative <;> decide
  | finite negative mantissa exponent =>
    unfold FloatStyle.write
    dsimp only
    rw [String.toList_append, List.mem_append, not_or]
    constructor
    · cases negative <;> decide
    · split
      · decide
      · exact hdecimal _

theorem quote_not_mem_lineStart (indent : Nat) : '\'' ∉ lineStart indent := by
  simp [lineStart]

/-- What is written for a value that is no text has no quote in it. -/
theorem quote_not_mem_inlineText (indent : Nat) {v : Value} (h : ∀ s, v ≠ .str s) :
    '\'' ∉ inlineText indent v := by
  cases v with
  | str s => exact absurd rfl (h s)
  | int i => exact quote_not_mem_intText i
  | float x => exact quote_not_mem_float x
  | bool b => cases b <;> simp [inlineText]
  | null | list | obj => simp [inlineText]

/-! ## There is no quote in an escape

In double quotes a single quote stands for itself, and no escape adds another one. -/

/-- What a number is written with in base sixteen are digits of that base. -/
theorem exists_digit_of_mem_toDigits {n : Nat} {c : Char} (h : c ∈ Nat.toDigits 16 n) :
    ∃ digit < 16, c = Nat.digitChar digit := by
  induction n using Nat.strongRecOn with
  | ind n ih =>
    rw [Nat.toDigits_eq_if (by decide)] at h
    split at h
    · next hlt => exact ⟨n, hlt, List.mem_singleton.mp h⟩
    · rcases List.mem_append.mp h with hfirst | hlast
      · exact ih (n / 16) (by omega) hfirst
      · exact ⟨n % 16, Nat.mod_lt n (by decide), List.mem_singleton.mp hlast⟩

theorem quote_not_mem_hexDigits (width n : Nat) : '\'' ∉ hexDigits width n := by
  have hdigits : ∀ digit < 16, (Nat.digitChar digit).toUpper ≠ '\'' := by decide
  intro h
  obtain ⟨c, hc, hupper⟩ := List.mem_map.mp h
  rcases List.mem_append.mp hc with hzero | hdigit
  · rw [List.eq_of_mem_replicate hzero] at hupper
    exact absurd hupper (by decide)
  · obtain ⟨digit, hlt, rfl⟩ := exists_digit_of_mem_toDigits hdigit
    exact hdigits digit hlt hupper

/-- A character in double quotes stands for itself, or is an escape. -/
theorem doubleChar_cases (c : Char) :
    doubleChar c = [c] ∨ ∃ escape, doubleChar c = '\\' :: escape ∧ '\'' ∉ escape := by
  have hhex : ∀ {letter : Char} {width n : Nat}, letter ≠ '\'' →
      '\'' ∉ letter :: hexDigits width n := fun hletter =>
    List.not_mem_cons_of_ne_of_not_mem (Ne.symm hletter) (quote_not_mem_hexDigits _ _)
  unfold doubleChar
  dsimp only
  -- A letter of its own comes first, then the characters that need none, then the escapes of two,
  -- four and eight digits.
  split
  · next letter hletter =>
    refine Or.inr ⟨[letter], rfl, ?_⟩
    rw [List.mem_singleton]
    rintro rfl
    unfold escapeLetter? at hletter
    split at hletter <;> cases hletter
  · split
    · exact Or.inl rfl
    · split
      · exact Or.inr ⟨_, rfl, hhex (by decide)⟩
      · split
        · exact Or.inr ⟨_, rfl, hhex (by decide)⟩
        · exact Or.inr ⟨_, rfl, hhex (by decide)⟩

/-! ## Scalars end before a colon or a line end

Whether a plain scalar can be taken for something longer depends on what follows it. In a document
that is only a colon, after a name, or the end of a line. -/

/-- What can follow a scalar. -/
def Stops (cs : List Char) : Prop := ∃ c rest, cs = c :: rest ∧ (c = ':' ∨ c = '\n')

/-- Pieces with nothing that quotes in the layout, and with scalars that stop, if something else
follows them. -/
def Laid : List Piece → List Char → Prop
  | [], _ => True
  | .layout cs :: rest, after => '\'' ∉ cs ∧ Laid rest after
  | .scalar _ _ :: rest, after => Stops (rest.flatMap Piece.written ++ after) ∧ Laid rest after

/-- Pieces one after another are laid if both parts are, the first one before what the second one
writes. -/
theorem laid_append {ps qs : List Piece} {after : List Char} :
    Laid (ps ++ qs) after ↔ Laid ps (qs.flatMap Piece.written ++ after) ∧ Laid qs after := by
  induction ps with
  | nil => exact (and_iff_right trivial).symm
  | cons p ps ih =>
    cases p with
    | layout cs => rw [List.cons_append, Laid, Laid, ih, and_assoc]
    | scalar indent text =>
      rw [List.cons_append, Laid, Laid, ih, and_assoc, List.flatMap_append, List.append_assoc]

/-- A line starts with the end of the one before. -/
theorem stops_lineStart (indent : Nat) (rest : List Char) : Stops (lineStart indent ++ rest) :=
  ⟨'\n', List.replicate indent ' ' ++ rest, rfl, Or.inr rfl⟩

/-- Items begin on a line of their own, so what is before them stops. -/
theorem stops_itemsText {after : List Char} (h : Stops after) (indent : Nat) (items : List Value) :
    Stops (itemsText indent items ++ after) := by
  cases items with
  | nil => exact h
  | cons item rest =>
    rw [itemsText, List.append_assoc, List.append_assoc]
    exact stops_lineStart indent _

theorem stops_membersText {after : List Char} (h : Stops after) (indent : Nat)
    (members : List (String × Value)) : Stops (membersText indent members ++ after) := by
  cases members with
  | nil => exact h
  | cons entry rest =>
    rw [membersText, List.append_assoc, List.append_assoc, List.append_assoc]
    exact stops_lineStart indent _

/-- Layout without a quote can stand before pieces that are laid. -/
theorem laid_layout {cs : List Char} {rest : List Piece} {after : List Char} (hcs : '\'' ∉ cs)
    (hrest : Laid rest after) : Laid (.layout cs :: rest) after := ⟨hcs, hrest⟩

/-- A name is followed by its colon, or by the line that the colon is on. -/
theorem laid_namePieces (indent : Nat) (name : String) (after : List Char) :
    Laid (namePieces indent name) after := by
  have hcolon : ∀ cs, Stops (':' :: cs) := fun cs => ⟨':', cs, rfl, Or.inl rfl⟩
  unfold namePieces
  split
  · exact ⟨hcolon after, by decide, trivial⟩
  · refine ⟨by decide, ?_, ?_, trivial⟩
    · rw [List.flatMap_singleton, Piece.written, List.append_assoc]
      exact stops_lineStart indent _
    · rw [List.mem_append, not_or]
      exact ⟨quote_not_mem_lineStart indent, by decide⟩

/-- A value in the same line is followed by what stops it. -/
theorem laid_inlinePiece {indent : Nat} {after : List Char} (h : Stops after) (v : Value) :
    Laid [.layout [' '], inlinePiece indent v] after := by
  refine laid_layout (by decide) ?_
  cases v with
  | str s => exact ⟨h, trivial⟩
  | null | bool | int | float | list | obj =>
    exact laid_layout (quote_not_mem_inlineText indent nofun) trivial

/-- The start of an inner value has no quote. -/
theorem quote_not_mem_start (tight : Bool) (indent : Nat) :
    '\'' ∉ if tight then [' '] else lineStart indent := by
  cases tight with
  | true => exact (by decide : '\'' ∉ [' '])
  | false => exact quote_not_mem_lineStart indent

mutual

/-- The pieces of a value are laid before anything that stops them, by induction on the value. -/
theorem laid_valuePieces (tight : Bool) (indent : Nat) {after : List Char} (h : Stops after) :
    ∀ v : Value, Laid (valuePieces tight indent v) after
  | .list (item :: rest) => by
    rw [valuePieces]
    -- What follows the first item are the others, and after them what follows the list.
    refine laid_layout ?_ (laid_append.mpr ⟨?_, laid_itemsPieces _ h rest⟩)
    · rw [List.mem_append, not_or]
      exact ⟨quote_not_mem_start tight _, by decide⟩
    · rw [flatMap_written_itemsPieces]
      exact laid_valuePieces true _ (stops_itemsText h _ rest) item
  | .obj ((name, member) :: rest) => by
    rw [valuePieces]
    refine laid_layout (quote_not_mem_start tight _) (laid_append.mpr ⟨laid_namePieces _ _ _,
      laid_append.mpr ⟨?_, laid_membersPieces _ h rest⟩⟩)
    rw [flatMap_written_membersPieces]
    exact laid_valuePieces _ _ (stops_membersText h _ rest) member
  | .list [] => laid_inlinePiece h _
  | .obj [] => laid_inlinePiece h _
  | .null => laid_inlinePiece h _
  | .bool _ => laid_inlinePiece h _
  | .int _ => laid_inlinePiece h _
  | .float _ => laid_inlinePiece h _
  | .str _ => laid_inlinePiece h _

theorem laid_itemsPieces (indent : Nat) {after : List Char} (h : Stops after) :
    ∀ items : List Value, Laid (itemsPieces indent items) after
  | [] => trivial
  | item :: rest => by
    rw [itemsPieces]
    refine laid_layout ?_ (laid_append.mpr ⟨?_, laid_itemsPieces _ h rest⟩)
    · rw [List.mem_append, not_or]
      exact ⟨quote_not_mem_lineStart _, by decide⟩
    · rw [flatMap_written_itemsPieces]
      exact laid_valuePieces true _ (stops_itemsText h _ rest) item

theorem laid_membersPieces (indent : Nat) {after : List Char} (h : Stops after) :
    ∀ members : List (String × Value), Laid (membersPieces indent members) after
  | [] => trivial
  | (name, member) :: rest => by
    rw [membersPieces]
    refine laid_layout (quote_not_mem_lineStart _) (laid_append.mpr ⟨laid_namePieces _ _ _,
      laid_append.mpr ⟨?_, laid_membersPieces _ h rest⟩⟩)
    rw [flatMap_written_membersPieces]
    exact laid_valuePieces _ _ (stops_membersText h _ rest) member

end

/-- The layout of a document has no quote in it, and each scalar stops. -/
theorem laid_pieces (members : Members) : Laid (pieces members) [] := by
  have hend : Stops ['\n'] := ⟨'\n', [], rfl, Or.inr rfl⟩
  unfold pieces
  cases members with
  | nil => exact laid_layout (by decide) trivial
  | cons entry rest =>
    refine laid_append.mpr ⟨?_, laid_layout (by decide) trivial⟩
    exact (laid_membersPieces 0 hend (entry :: rest)).2

/-! ## The scalars are the names and the texts

The pieces hold each name and each text of an object at some indentation, and no others. -/

/-- A text that occurs in a value, as a name or as a value of its own. -/
inductive HasText : Value → String → Prop
  | text (s : String) : HasText (.str s) s
  | item {items : List Value} {v : Value} {s : String} (hv : v ∈ items) (h : HasText v s) :
      HasText (.list items) s
  | name {members : Members} {entry : String × Value} (hentry : entry ∈ members) :
      HasText (.obj members) entry.1
  | member {members : Members} {entry : String × Value} {s : String} (hentry : entry ∈ members)
      (h : HasText entry.2 s) : HasText (.obj members) s

/-- Whether a text is a scalar among pieces, at any indentation. -/
def HasScalar (ps : List Piece) (s : String) : Prop := ∃ indent, .scalar indent s ∈ ps

/-- A scalar of two lists of pieces is one of either. -/
theorem hasScalar_append {ps qs : List Piece} {s : String} :
    HasScalar (ps ++ qs) s ↔ HasScalar ps s ∨ HasScalar qs s := by
  simp only [HasScalar, List.mem_append, exists_or]

theorem hasScalar_layout {cs : List Char} {rest : List Piece} {s : String} :
    HasScalar (.layout cs :: rest) s ↔ HasScalar rest s := by
  simp [HasScalar]

theorem hasScalar_namePieces {indent : Nat} {name s : String} :
    HasScalar (namePieces indent name) s ↔ s = name := by
  unfold namePieces
  split <;> simp [HasScalar]

theorem hasText_str_iff {text s : String} : HasText (.str text) s ↔ s = text :=
  ⟨fun | .text _ => rfl, fun h => h ▸ .text s⟩

/-- The texts of a list are those of its items. -/
theorem hasText_list_iff {items : List Value} {s : String} :
    HasText (.list items) s ↔ ∃ v ∈ items, HasText v s :=
  ⟨fun | .item hv h => ⟨_, hv, h⟩, fun ⟨_, hv, h⟩ => .item hv h⟩

/-- The texts of an object are its names and those of its members. -/
theorem hasText_obj_iff {members : Members} {s : String} :
    HasText (.obj members) s ↔ ∃ entry ∈ members, s = entry.1 ∨ HasText entry.2 s := by
  constructor
  · rintro (_ | _ | hentry | ⟨hentry, h⟩)
    · exact ⟨_, hentry, Or.inl rfl⟩
    · exact ⟨_, hentry, Or.inr h⟩
  · rintro ⟨entry, hentry, rfl | h⟩
    · exact .name hentry
    · exact .member hentry h

/-- The only text in a value that is neither a list nor an object is the value itself. -/
theorem hasScalar_inlinePiece {indent : Nat} {v : Value} {s : String}
    (hlist : ∀ items, v ≠ .list items) (hobj : ∀ members, v ≠ .obj members) :
    HasScalar [.layout [' '], inlinePiece indent v] s ↔ HasText v s := by
  rw [hasScalar_layout]
  cases v with
  | str text =>
    rw [hasText_str_iff]
    simp [HasScalar, inlinePiece]
  | null | bool | int | float =>
    refine iff_of_false ?_ nofun
    rintro ⟨other, hmem⟩
    cases List.mem_singleton.mp hmem
  | list items => exact absurd rfl (hlist items)
  | obj members => exact absurd rfl (hobj members)

/-- A value that is written as layout has no scalar. -/
theorem not_hasScalar_empty {indent : Nat} {cs : List Char} {v : Value} {s : String}
    (h : inlinePiece indent v = .layout cs) :
    ¬HasScalar [.layout [' '], inlinePiece indent v] s := by
  rw [h, hasScalar_layout, hasScalar_layout]
  rintro ⟨_, ⟨⟩⟩

mutual

/-- The scalars of a value are its texts, by induction on the value. -/
theorem hasScalar_valuePieces (tight : Bool) (indent : Nat) {s : String} :
    ∀ v : Value, HasScalar (valuePieces tight indent v) s ↔ HasText v s
  | .list (item :: rest) => by
    rw [valuePieces, hasScalar_layout, hasScalar_append, hasScalar_valuePieces true _ item,
      hasScalar_itemsPieces _ rest, hasText_list_iff, List.exists_mem_cons_iff]
  | .obj ((name, member) :: rest) => by
    rw [valuePieces, hasScalar_layout, hasScalar_append, hasScalar_append, hasScalar_namePieces,
      hasScalar_valuePieces _ _ member, hasScalar_membersPieces _ rest, hasText_obj_iff,
      List.exists_mem_cons_iff, or_assoc]
  | .list [] => iff_of_false (not_hasScalar_empty rfl) (by simp [hasText_list_iff])
  | .obj [] => iff_of_false (not_hasScalar_empty rfl) (by simp [hasText_obj_iff])
  | .null => hasScalar_inlinePiece nofun nofun
  | .bool _ => hasScalar_inlinePiece nofun nofun
  | .int _ => hasScalar_inlinePiece nofun nofun
  | .float _ => hasScalar_inlinePiece nofun nofun
  | .str _ => hasScalar_inlinePiece nofun nofun

/-- The scalars of the items of a list are their texts. -/
theorem hasScalar_itemsPieces (indent : Nat) {s : String} : ∀ items : List Value,
    HasScalar (itemsPieces indent items) s ↔ ∃ v ∈ items, HasText v s
  | [] => by simp [itemsPieces, HasScalar]
  | item :: rest => by
    rw [itemsPieces, hasScalar_layout, hasScalar_append, hasScalar_valuePieces true _ item,
      hasScalar_itemsPieces _ rest, List.exists_mem_cons_iff]

/-- The scalars of the members of an object are their names and their texts. -/
theorem hasScalar_membersPieces (indent : Nat) {s : String} :
    ∀ members : List (String × Value), HasScalar (membersPieces indent members) s
      ↔ ∃ entry ∈ members, s = entry.1 ∨ HasText entry.2 s
  | [] => by simp [membersPieces, HasScalar]
  | (name, member) :: rest => by
    rw [membersPieces, hasScalar_layout, hasScalar_append, hasScalar_append, hasScalar_namePieces,
      hasScalar_valuePieces _ _ member, hasScalar_membersPieces _ rest,
      List.exists_mem_cons_iff, or_assoc]

end

/-- The scalars of a document are the names and the texts of the object. -/
theorem hasScalar_pieces {members : Members} {s : String} :
    HasScalar (pieces members) s ↔ HasText (.obj members) s := by
  unfold pieces
  cases members with
  | nil => simp [HasScalar, hasText_obj_iff]
  | cons entry rest =>
    have hmembers := hasScalar_membersPieces 0 (s := s) (entry :: rest)
    rw [membersPieces, hasScalar_layout] at hmembers
    rw [hasScalar_append, hasScalar_layout, hasText_obj_iff, ← hmembers]
    simp [membersPieces, HasScalar]

end Ramlify.Yaml
