import Ramlify.Proofs.Yaml.NodeFaults
import Ramlify.Proofs.Yaml.StandIns

/-!
# Ramlify — what documents cannot be read for

Contents are made from nodes. Where they are made, a fault is one of form, or one of a scalar that
claims a type which its text does not have, or there is no end to looking for a text. Making contents
rewrites the nodes, because mappings are merged into others, but it changes no scalar, lets no node
claim a type that it did not claim before, and lets no mapping stand for anything new. So what a
fault is blamed on is there before anything is merged.

* **`Merged`** — what merging leaves as it is, closed under what builds on it.
* **`Building.mergesPlain`** — all merging, by induction on its depth.
* **`Building.blames_makeAll`** — all contents.
* **`exceeds_or_unsound_of_outlineOf`** — the texts that are not read for another reason than their
  form.
-/

namespace Ramlify.Yaml

open Relation

/-! ## Documents without values

The two ways in which the nodes of a document can have no value although its form is right. -/

/-- The types that a text can fail to have for another reason than its form. -/
def valuedTypes : List NodeType := [.bool, .int, .float, .timestamp]

/-- Only the types for truth values, for numbers and for times have texts that are no value of
theirs. -/
theorem mem_valuedTypes {type : NodeType} {body : NodeBody} {text : List Char} {misuse : Misuse}
    (h : Building.scalarContent type body text = .error (.misuse misuse)) :
    type ∈ valuedTypes := by
  cases type with
  | bool | int | float | timestamp => decide
  | binary =>
    -- What is no text of bytes is a fault of form.
    unfold Building.scalarContent Building.requireBinary at h
    dsimp only at h
    split at h <;> cases h
  | null | orderedMap | pairs | set | text | sequence | mapping | merge | value | unknown => cases h

/-- A node claims a type that its text does not have, which is no fault of its form. -/
def Unfit (graph : Graph) (misuse : Misuse) : Prop :=
  ∃ id text, TextOf graph id text ∧ (graph.node id).type ∈ valuedTypes
    ∧ Building.scalarContent (graph.node id).type (graph.node id).body text
      = .error (.misuse misuse)

/-- What a misuse in making contents is blamed on: a node that claims a type which its text does not
have, or a mapping that stands for itself. -/
def Unsound (graph : Graph) (misuse : Misuse) : Prop :=
  Unfit graph misuse ∨ misuse = .endless ∧ ∃ id, StandsForItself graph id

/-! ## Merging as a relation

`Merged` says what making contents leaves of a graph. Its entries are the ones that were there, apart
from those that come from other mappings; of these only the keys are known, none of which is `=`
any more. -/

/-- Entries none of whose keys is `=`. -/
def Plain (graph : Graph) (entries : List (Nat × Nat)) : Prop :=
  ∀ entry ∈ entries, (graph.node entry.1).type ≠ .value

/-- A graph that came of another one by merging mappings. Types are only given up for that of texts,
and nothing changes but the entries of mappings, which do not get a key `=` that they did not
have. -/
structure Merged (graph graph' : Graph) : Prop where
  type : ∀ id, (graph'.node id).type = (graph.node id).type ∨ (graph'.node id).type = .text
  body : ∀ id, (graph'.node id).body = (graph.node id).body
    ∨ ∃ entries entries', (graph.node id).body = .mapping entries
      ∧ (graph'.node id).body = .mapping entries'
      ∧ ∀ entry ∈ entries', entry ∈ entries ∨ (graph'.node entry.1).type ≠ .value

namespace Merged

variable {graph graph' graph'' : Graph}

theorem refl (graph : Graph) : Merged graph graph := ⟨fun _ => .inl rfl, fun _ => .inl rfl⟩

/-- A key that is not `=` does not become it. -/
theorem type_ne_value (h : Merged graph graph') {id : Nat}
    (hne : (graph.node id).type ≠ .value) : (graph'.node id).type ≠ .value := by
  rcases h.type id with hsame | htext
  · rwa [hsame]
  · rw [htext]
    decide

theorem plain (h : Merged graph graph') {entries : List (Nat × Nat)} (hplain : Plain graph entries) :
    Plain graph' entries :=
  fun entry hentry => h.type_ne_value (hplain entry hentry)

/-- The mappings are the same nodes as before. -/
theorem mapping (h : Merged graph graph') {id : Nat} :
    (∃ entries, (graph'.node id).body = .mapping entries)
      ↔ ∃ entries, (graph.node id).body = .mapping entries := by
  rcases h.body id with hsame | ⟨entries, entries', hbefore, hafter, _⟩
  · rw [hsame]
  · exact ⟨fun _ => ⟨entries, hbefore⟩, fun _ => ⟨entries', hafter⟩⟩

/-- Merging goes on from where it was. An entry that is there in the end was there from the start, or
its key was not `=` when it came in. -/
theorem trans (h : Merged graph graph') (h' : Merged graph' graph'') : Merged graph graph'' where
  type := fun id => by
    -- A type that is given up is given up for good.
    rcases h'.type id with hsame | htext
    · rw [hsame]
      exact h.type id
    · exact .inr htext
  body := fun id => by
    rcases h'.body id with hsame | ⟨middle, last, hmiddle, hlast, hkept'⟩
    · rcases h.body id with hsame' | ⟨first, middle, hfirst, hmiddle, hkept⟩
      · exact .inl (hsame.trans hsame')
      · exact .inr ⟨first, middle, hfirst, hsame.trans hmiddle,
          fun entry hentry => (hkept entry hentry).imp_right h'.type_ne_value⟩
    · rcases h.body id with hsame | ⟨first, _, hfirst, hmiddle', hkept⟩
      · exact .inr ⟨middle, last, hsame ▸ hmiddle, hlast, hkept'⟩
      · cases hmiddle.symm.trans hmiddle'
        refine .inr ⟨first, last, hfirst, hlast, fun entry hentry => ?_⟩
        -- An entry of the last graph is new in it, or was in the one between; there it was new, or
        -- was in the first.
        rcases hkept' entry hentry with hold | hnew
        · exact (hkept entry hold).imp_right h'.type_ne_value
        · exact .inr hnew

theorem scalar (h : Merged graph graph') {id : Nat} {text : List Char}
    (hbody : (graph'.node id).body = .scalar text) : (graph.node id).body = .scalar text := by
  rcases h.body id with hsame | ⟨_, _, _, hafter, _⟩
  · rwa [← hsame]
  · rw [hafter] at hbody
    cases hbody

/-- What a mapping stands for after merging, it stood for before. -/
theorem standsFor (h : Merged graph graph') {id other : Nat} (hstands : StandsFor graph' id other) :
    StandsFor graph id other := by
  obtain ⟨entries', hafter, key, hentry, hvalue⟩ := hstands
  have hkey : (graph.node key).type = .value := by
    rcases h.type key with hsame | htext
    · rw [← hsame, hvalue]
    · rw [htext] at hvalue
      cases hvalue
  rcases h.body id with hsame | ⟨entries, _, hbefore, hafter', hkept⟩
  · exact ⟨entries', hsame ▸ hafter, key, hentry, hkey⟩
  · cases hafter.symm.trans hafter'
    rcases hkept _ hentry with hold | hne
    · exact ⟨entries, hbefore, key, hold, hkey⟩
    · exact absurd hvalue hne

/-- The texts that nodes stand for are the same as before. -/
theorem textOf (h : Merged graph graph') {id : Nat} {text : List Char}
    (htext : TextOf graph' id text) : TextOf graph id text := by
  obtain ⟨other, hstands, hbody⟩ := htext
  exact ⟨other, ReflTransGen.mono (fun _ _ => h.standsFor) _ _ hstands, h.scalar hbody⟩

/-- What does not fit after merging did not fit before. -/
theorem unfit (h : Merged graph graph') {misuse : Misuse} (hunfit : Unfit graph' misuse) :
    Unfit graph misuse := by
  obtain ⟨id, text, htext, hvalued, hcontent⟩ := hunfit
  refine ⟨id, text, h.textOf htext, ?_⟩
  rcases h.type id with htype | htype
  · rw [← htype]
    refine ⟨hvalued, ?_⟩
    rcases h.body id with hsame | ⟨_, _, hbefore, hafter, _⟩
    · rwa [← hsame]
    · -- Of a mapping it only counts that it is no scalar.
      rw [hafter] at hcontent
      rw [hbefore]
      exact hcontent
  · rw [htype] at hcontent
    cases hcontent

/-- **Merging brings in nothing to blame**: what a misuse is blamed on afterwards was there before. -/
theorem unsound (h : Merged graph graph') {misuse : Misuse} (hunsound : Unsound graph' misuse) :
    Unsound graph misuse := by
  rcases hunsound with hunfit | ⟨hendless, id, hitself⟩
  · exact .inl (h.unfit hunfit)
  · exact .inr ⟨hendless, id, TransGen.mono (fun _ _ => h.standsFor) _ _ hitself⟩

end Merged

namespace Building

/-! ## Making contents

Each operation keeps `Merged`, and a misuse of it is blamed on the graph it starts from (`Blames`).
The operations are taken in the order in which they are built on each other. -/

/-- Making contents merges mappings, and a misuse comes from a node that claims a type which its
text does not have, or from a mapping that stands for itself. -/
def blame : Blame Builder where
  keeps := fun s s' => Merged s.graph s'.graph
  on := fun s misuse => Unsound s.graph misuse
  refl := fun s => Merged.refl s.graph
  trans := Merged.trans
  back := fun h hunsound => Merged.unsound h hunsound

/-- A making of contents, from any state. -/
def Blames {α : Type} (p : Building α) : Prop := ∀ s, blame.Holds s p

theorem blames_malformed {α : Type} : Blames (malformed : Building α) := fun s => .malformed s

theorem node_eq (id : Nat) (s : Builder) : node id s = .ok (s.graph.node id, s) := rfl

theorem blames_node (id : Nat) : Blames (node id) := fun s => Blame.Holds.get s |>.bind
  fun _ s' _ => .pure s' _

theorem blames_modify {f : Builder → Builder} {s : Builder} (h : Merged s.graph (f s).graph) :
    blame.Holds s (modify f : Building Unit) :=
  .modify h

/-- Setting a content leaves the graph as it is. -/
theorem blames_setContent (id : Nat) (content : Content) : Blames (setContent id content) :=
  fun s => blames_modify (Merged.refl s.graph)

/-! ### Scalars

A scalar is the one place where a misuse can come up: in finding its text, or in making the value of
its type of it. -/

/-- **A scalar**: what its misuse is blamed on. The steps that are given to look for its text only
run out if there is no end to that. -/
theorem unsound_of_scalarOf {graph : Graph} {id : Nat} {misuse : Misuse}
    (h : scalarOf graph id = .error (.misuse misuse)) : Unsound graph misuse := by
  unfold scalarOf at h
  dsimp only at h
  split at h
  · -- The text is not there, is looked for without end, or is there.
    rcases scalarText_cases graph (graph.size + 1) id with hmalformed | hendless | ⟨text, hok, htext⟩
    · rw [hmalformed] at h
      cases h
    · obtain ⟨other, hitself⟩ := exists_standsForItself_of_scalarText hendless
      rw [hendless] at h
      cases h
      exact .inr ⟨rfl, other, hitself⟩
    · rw [hok] at h
      exact .inl ⟨id, text, htext, mem_valuedTypes h, h⟩
  · cases h

/-- Making a node is blamed on the node itself, if it is a scalar. Others are left to be filled. -/
theorem blames_make (id : Nat) : Blames (make id) := by
  intro s
  unfold make
  refine (Blame.Holds.get s).bind fun s₁ s₂ hget => ?_
  cases hget
  split
  · exact .pure s _
  · refine (blames_node id s).bind fun node s₁ hnode => ?_
    rw [node_eq] at hnode
    cases hnode
    -- The content is set after it was made, whichever way that was.
    have hset : ∀ content s', blame.Holds s'
        (setContent id content >>= fun _ => pure content) :=
      fun content s' => (blames_setContent id content s').bind fun _ s'' _ => .pure s'' _
    split
    · exact (blames_modify (Merged.refl s.graph)).bind fun _ s' _ => hset _ s'
    · exact (Blame.Holds.lift fun misuse => unsound_of_scalarOf).bind fun content s' _ =>
        hset content s'

/-! ### Changing nodes

There are two changes. The entries of a mapping are replaced by some that were in it or are plain,
and a key `=` becomes a text. -/

theorem entriesOf_eq_ok {id : Nat} {s s' : Builder} {entries : List (Nat × Nat)}
    (h : entriesOf id s = .ok (entries, s')) :
    s' = s ∧ (s.graph.node id).body = .mapping entries := by
  unfold entriesOf at h
  simp only [bind, StateT.bind, node_eq, Except.bind] at h
  cases hbody : (s.graph.node id).body with
  | mapping found =>
    rw [hbody] at h
    cases h
    exact ⟨rfl, rfl⟩
  | scalar | sequence =>
    rw [hbody] at h
    cases h

theorem blames_entriesOf (id : Nat) : Blames (entriesOf id) := by
  refine fun s => (blames_node id s).bind fun node s' _ => ?_
  split
  · exact .pure s' _
  · exact blames_malformed s'

/-- A change of a node is seen at that node only, and only if there is such a node. -/
theorem node_modify (graph : Graph) (id other : Nat) (f : Node → Node) :
    Graph.node (graph.modify id f) other
      = if other = id ∧ other < graph.size then f (graph.node other) else graph.node other := by
  unfold Graph.node
  -- Beyond its size a graph has no nodes, and a change makes none.
  by_cases hsize : other < graph.size
  · have hsize' : other < (graph.modify id f).size := by rwa [Array.size_modify]
    rw [Array.getD_eq_getD_getElem?, Array.getD_eq_getD_getElem?,
      Array.getElem?_eq_getElem hsize', Array.getElem?_eq_getElem hsize, Array.getElem_modify]
    by_cases hid : id = other
    · rw [if_pos hid, if_pos ⟨hid.symm, hsize⟩]
      rfl
    · rw [if_neg hid, if_neg fun h => hid h.1.symm]
  · have hsize' : ¬ other < (graph.modify id f).size := by rwa [Array.size_modify]
    rw [if_neg fun h => hsize h.2, Array.getD_eq_getD_getElem?, Array.getD_eq_getD_getElem?,
      Array.getElem?_eq_none (Nat.le_of_not_lt hsize'),
      Array.getElem?_eq_none (Nat.le_of_not_lt hsize)]

/-- Setting entries leaves all types as they are. -/
theorem type_withEntries (graph : Graph) (id other : Nat) (entries : List (Nat × Nat)) :
    (Graph.node (graph.modify id fun node => { node with body := .mapping entries }) other).type
      = (graph.node other).type := by
  rw [node_modify]
  split <;> rfl

/-- Entries are set of nodes that are mappings. They were there before, or their keys are not `=`. -/
theorem blames_setEntries {id : Nat} {s : Builder} {entries : List (Nat × Nat)}
    (h : ∃ before, (s.graph.node id).body = .mapping before
      ∧ ∀ entry ∈ entries, entry ∈ before ∨ (s.graph.node entry.1).type ≠ .value) :
    blame.Holds s (setEntries id entries) := by
  obtain ⟨before, hbefore, hkept⟩ := h
  refine blames_modify ⟨fun other => .inl ?_, fun other => ?_⟩
  · exact type_withEntries s.graph id other entries
  · dsimp only
    rw [node_modify]
    split
    · next hid =>
      obtain ⟨rfl, _⟩ := hid
      refine .inr ⟨before, entries, hbefore, rfl, fun entry hentry => ?_⟩
      exact (hkept entry hentry).imp_right fun hne =>
        (type_withEntries s.graph other entry.1 entries).trans_ne hne
    · exact .inl rfl

/-- Making a text of a key blames nothing, since a type may be given up for that. -/
theorem blames_keyAsText (id : Nat) : Blames (keyAsText id) := by
  refine fun s => blames_modify ⟨fun other => ?_, fun other => .inl ?_⟩
  · dsimp only
    rw [node_modify]
    split
    · split
      · exact .inr rfl
      · exact .inl rfl
    · exact .inl rfl
  · dsimp only
    rw [node_modify]
    split
    · split <;> rfl
    · rfl

/-! ### Merging

Merging takes the entries of other mappings, which could have the key `=`. It does not, because they
are merged into themselves first, and that makes texts of such keys. So besides `Merged` each part of
merging is shown to end with entries that are plain (`Ends`). -/

/-- A node that has, if it is a mapping, no entry with the key `=`. -/
def Flat (graph : Graph) (id : Nat) : Prop :=
  ∀ entries, (graph.node id).body = .mapping entries → Plain graph entries

/-- A making of contents that can be blamed as all of them, and what is so at its end. -/
structure Ends {α : Type} (s : Builder) (p : Building α) (goal : α → Builder → Prop) : Prop where
  holds : blame.Holds s p
  goal : ∀ a s', p s = .ok (a, s') → goal a s'

namespace Ends

variable {α β : Type} {s : Builder}

theorem pure {a : α} {goal : α → Builder → Prop} (h : goal a s) : Ends s (Pure.pure a) goal where
  holds := .pure s a
  goal := fun _ _ heq => by
    cases heq
    exact h

theorem malformed {goal : α → Builder → Prop} : Ends s (Building.malformed : Building α) goal where
  holds := .malformed s
  goal := fun _ _ heq => nomatch heq

/-- What is so at the end of the second part is so in the end. -/
theorem bind {p : Building α} {f : α → Building β} {goal : β → Builder → Prop}
    (h : blame.Holds s p) (hf : ∀ a s', p s = .ok (a, s') → Ends s' (f a) goal) :
    Ends s (p >>= f) goal where
  holds := h.bind fun a s' hp => (hf a s' hp).holds
  goal := fun b s'' heq => by
    obtain ⟨a, s', hp, hrest⟩ := Blame.bind_eq_ok heq
    exact (hf a s' hp).goal b s'' hrest

end Ends

/-- Asking for the entries of a mapping without the key `=`. -/
theorem ends_entriesOf {id : Nat} {s : Builder} (h : Flat s.graph id) :
    Ends s (entriesOf id) fun found s' => Plain s'.graph found where
  holds := blames_entriesOf id s
  goal := fun found s' heq => by
    obtain ⟨rfl, hbody⟩ := entriesOf_eq_ok heq
    exact h found hbody

/-- After a key was taken as a text, it is not `=`. -/
theorem ends_keyAsText (id : Nat) (s : Builder) :
    Ends s (keyAsText id) fun _ s' => (s'.graph.node id).type ≠ .value where
  holds := blames_keyAsText id s
  goal := fun _ s' heq => by
    cases heq
    dsimp only
    rw [node_modify]
    split
    · split
      · show NodeType.text ≠ NodeType.value
        decide
      · assumption
    · next hnone =>
      -- What is not a node of the graph is read as nothing, which is no key `=`.
      have hsize : ¬ id < s.graph.size := fun hlt => hnone ⟨rfl, hlt⟩
      rw [node_eq_nothing hsize]
      decide

/-- After all keys of some entries were taken as texts, none of them is `=`. -/
theorem ends_keysAsTexts (entries : List (Nat × Nat)) (s : Builder) :
    Ends s (ForIn.forIn entries PUnit.unit fun entry (_ : PUnit) => do
      keyAsText entry.1
      pure (ForInStep.yield PUnit.unit)) fun _ s' => Plain s'.graph entries := by
  induction entries generalizing s with
  | nil => exact .pure (List.forall_mem_nil _)
  | cons entry rest ih =>
    have hkey := ends_keyAsText entry.1 s
    rw [List.forIn_cons, bind_assoc]
    refine .bind hkey.holds fun _ s₁ hrun => ?_
    rw [pure_bind]
    refine ⟨(ih s₁).holds, fun a s₂ hrest => List.forall_mem_cons.mpr ⟨?_, ?_⟩⟩
    · exact ((ih s₁).holds.keeps a s₂ hrest).type_ne_value (hkey.goal _ s₁ hrun)
    · exact (ih s₁).goal a s₂ hrest

/-- Setting plain entries leaves a mapping without the key `=`. -/
theorem ends_setEntries {id : Nat} {s : Builder} {entries : List (Nat × Nat)}
    (h : ∃ before, (s.graph.node id).body = .mapping before) (hplain : Plain s.graph entries) :
    Ends s (setEntries id entries) fun _ s' => Flat s'.graph id := by
  obtain ⟨before, hbefore⟩ := h
  have hholds := blames_setEntries
    ⟨before, hbefore, fun entry hentry => .inr (hplain entry hentry)⟩
  refine ⟨hholds, fun a s' heq found hfound => ?_⟩
  have hkeeps := hholds.keeps a s' heq
  cases heq
  dsimp only at hfound
  rw [node_modify] at hfound
  split at hfound
  · cases hfound
    exact hkeeps.plain hplain
  · next hnone =>
    -- A node that can be asked for entries is one of the graph.
    have hsize : ¬ id < s.graph.size := fun hlt => hnone ⟨rfl, hlt⟩
    rw [node_eq_nothing hsize] at hbefore
    cases hbefore

/-- The entries around one that is merged are entries of the same mapping. -/
theorem mem_of_splitMerge {graph : Graph} {entries before after : List (Nat × Nat)} {source : Nat}
    (h : splitMerge? graph entries = some (before, source, after)) :
    ∀ entry ∈ before ++ after, entry ∈ entries := by
  induction entries generalizing before with
  | nil => cases h
  | cons first rest ih =>
    unfold splitMerge? at h
    split at h
    · cases h
      exact fun entry hentry => List.mem_cons_of_mem first hentry
    · obtain ⟨⟨_, _, _⟩, hfound, heq⟩ := Option.map_eq_some_iff.mp h
      cases heq
      intro entry hentry
      rcases List.mem_cons.mp hentry with rfl | hentry
      · exact List.mem_cons_self
      · exact List.mem_cons_of_mem first (ih hfound entry hentry)

/-- All merging, to some depth. What is merged into a mapping so far has to be plain. -/
structure MergesPlain (fuel : Nat) : Prop where
  flatten : ∀ id s, Ends s (flatten fuel id) fun _ s' => Flat s'.graph id
  mergeFrom : ∀ id merged s, Plain s.graph merged →
    Ends s (mergeFrom fuel id merged) fun _ s' => Flat s'.graph id
  sourceEntries : ∀ source s,
    Ends s (sourceEntries fuel source) fun found s' => Plain s'.graph found
  partEntries : ∀ part s, Ends s (partEntries fuel part) fun found s' => Plain s'.graph found

section

variable {fuel : Nat} (ih : MergesPlain fuel)

include ih

/-- The entries of a mapping after it was merged into itself. -/
theorem ends_flattened (id : Nat) (s : Builder) :
    Ends s (flatten fuel id >>= fun _ => entriesOf id) fun found s' => Plain s'.graph found :=
  .bind (ih.flatten id s).holds fun _ s' hrun => ends_entriesOf ((ih.flatten id s).goal _ s' hrun)

/-- What is merged so far is plain, and each mapping that is named makes it longer by plain entries.
The mapping's own entries come last, with their keys as texts. -/
theorem ends_mergeFrom (id : Nat) (merged : List (Nat × Nat)) (s₀ : Builder)
    (hmerged : Plain s₀.graph merged) :
    Ends s₀ (mergeFrom (fuel + 1) id merged) fun _ s' => Flat s'.graph id := by
  unfold mergeFrom
  refine .bind (blames_entriesOf id s₀) fun entries s hentries => ?_
  obtain ⟨rfl, hbody⟩ := entriesOf_eq_ok hentries
  refine .bind (.get s) fun s₁ s₂ hget => ?_
  cases hget
  split
  · -- Nothing is left to be merged, and both lists of entries are plain once the keys are texts.
    have hkeys := ends_keysAsTexts entries s
    refine .bind hkeys.holds fun _ s₂ hrun => ?_
    have hkeeps := hkeys.holds.keeps _ s₂ hrun
    refine ends_setEntries (hkeeps.mapping.mpr ⟨entries, hbody⟩) fun entry hentry => ?_
    rcases List.mem_append.mp hentry with hentry | hentry
    · exact hkeeps.plain hmerged entry hentry
    · exact hkeys.goal _ s₂ hrun entry hentry
  · next before source after hsplit =>
    -- The entries before and after are kept, and those of the source are plain when they come in.
    have hset := blames_setEntries (s := s)
      ⟨entries, hbody, fun entry hentry => .inl (mem_of_splitMerge hsplit entry hentry)⟩
    refine .bind hset fun _ s₂ hrun => ?_
    have hsource := ih.sourceEntries source s₂
    refine .bind hsource.holds fun found s₃ hrun' => ih.mergeFrom id _ s₃ fun entry hentry => ?_
    have hkeeps := (hset.keeps _ s₂ hrun).trans (hsource.holds.keeps found s₃ hrun')
    rcases List.mem_append.mp hentry with hentry | hentry
    · exact hkeeps.plain hmerged entry hentry
    · exact hsource.goal found s₃ hrun' entry hentry

/-- The entries of mappings in a sequence. Those of one stay plain while the next are merged. -/
theorem ends_parts (items : List Nat) (s : Builder) :
    Ends s (items.mapM fun part => partEntries fuel part)
      fun parts s' => ∀ found ∈ parts, Plain s'.graph found := by
  induction items generalizing s with
  | nil => exact .pure (List.forall_mem_nil _)
  | cons item items ihItems =>
    have hfirst := ih.partEntries item s
    rw [List.mapM_cons]
    refine .bind hfirst.holds fun found s₁ hrun => ?_
    refine .bind (ihItems s₁).holds fun parts s₂ hrest => .pure (List.forall_mem_cons.mpr ⟨?_, ?_⟩)
    · exact ((ihItems s₁).holds.keeps parts s₂ hrest).plain (hfirst.goal found s₁ hrun)
    · exact (ihItems s₁).goal parts s₂ hrest

/-- What is merged from a mapping, or from each of a list, is plain. -/
theorem ends_sourceEntries (source : Nat) (s : Builder) :
    Ends s (sourceEntries (fuel + 1) source) fun found s' => Plain s'.graph found := by
  unfold sourceEntries
  refine .bind (blames_node source s) fun node s₁ _ => ?_
  split
  · exact ends_flattened ih source s₁
  · next items _ =>
    have hparts := ends_parts ih items s₁
    refine .bind hparts.holds fun parts s₂ hrun => .pure fun entry hentry => ?_
    obtain ⟨found, hfound, hentry⟩ := List.mem_flatten.mp hentry
    exact hparts.goal parts s₂ hrun found (List.mem_reverse.mp hfound) entry hentry
  · exact .malformed

/-- What is merged from one of a list is plain. -/
theorem ends_partEntries (part : Nat) (s : Builder) :
    Ends s (partEntries (fuel + 1) part) fun found s' => Plain s'.graph found := by
  unfold partEntries
  exact .bind (blames_entriesOf part s) fun _ s₁ _ => ends_flattened ih part s₁

end

/-- **All merging**, to any depth. -/
theorem mergesPlain (fuel : Nat) : MergesPlain fuel := by
  induction fuel with
  | zero =>
    exact {
      flatten := fun _ _ => .malformed
      mergeFrom := fun _ _ _ _ => .malformed
      sourceEntries := fun _ _ => .malformed
      partEntries := fun _ _ => .malformed }
  | succ fuel ih =>
    exact {
      flatten := fun id s => ih.mergeFrom id [] s (List.forall_mem_nil _)
      mergeFrom := ends_mergeFrom ih
      sourceEntries := ends_sourceEntries ih
      partEntries := ends_partEntries ih }

/-! ### Filling

What is left does not change nodes any more, but for the merging before a mapping is filled. -/

/-- The entries of a mapping are made after it was merged. -/
theorem blames_makeEntries (id : Nat) : Blames (makeEntries id) := by
  intro s
  unfold makeEntries
  refine (blames_entriesOf id s).bind fun _ s₁ _ => ?_
  refine (Blame.Holds.get s₁).bind fun s' s₂ _ => ?_
  refine ((mergesPlain _).flatten id s₂).holds.bind fun _ s₃ _ => ?_
  refine (blames_entriesOf id s₃).bind fun entries s₄ _ => ?_
  have hvalue : ∀ (entry : Nat × Nat) s', blame.Holds s' (do
      let _ ← make entry.2
      pure (ForInStep.yield PUnit.unit)) :=
    fun entry s' => (blames_make entry.2 s').bind fun _ s'' _ => .pure s'' _
  refine (Blame.Holds.forIn (fun entry s' => ?_) entries s₄).bind fun _ s₅ _ => .pure s₅ entries
  refine (blames_make entry.1 s').bind fun key s'' _ => ?_
  -- A key that cannot be one is a fault of form, and else only its value is made.
  split
  · exact (blames_malformed s'').bind fun _ t _ => hvalue entry t
  · exact hvalue entry s''

/-- A pair is an entry of a mapping that has no other. -/
theorem blames_makePair (id : Nat) : Blames (makePair id) := by
  refine fun s => (blames_node id s).bind fun node s₁ _ => ?_
  split
  · exact (blames_make _ s₁).bind fun _ s₂ _ => (blames_make _ s₂).bind fun _ s₃ _ => .pure s₃ ()
  · exact blames_malformed s₁

theorem blames_itemsOf (id : Nat) : Blames (itemsOf id) := by
  refine fun s => (blames_node id s).bind fun node s₁ _ => ?_
  split
  · exact .pure s₁ _
  · exact blames_malformed s₁

/-- Filling a node in is blamed on the graph, whatever its type. -/
theorem blames_fill (id : Nat) : Blames (fill id) := by
  refine fun s => (blames_node id s).bind fun node s₁ _ => ?_
  split
  · refine (blames_itemsOf id s₁).bind fun items s₂ _ => ?_
    refine (Blame.Holds.forIn ?_ items s₂).bind fun _ s₃ _ => blames_setContent id _ s₃
    exact fun item s' => (blames_make item s').bind fun _ s'' _ => .pure s'' _
  · exact (blames_makeEntries id s₁).bind fun _ s₂ _ => blames_setContent id _ s₂
  · exact (blames_makeEntries id s₁).bind fun _ s₂ _ => blames_setContent id _ s₂
  · refine (blames_itemsOf id s₁).bind fun items s₂ _ => ?_
    refine (Blame.Holds.forIn ?_ items s₂).bind fun _ s₃ _ => .pure s₃ ()
    exact fun item s' => (blames_makePair item s').bind fun _ s'' _ => .pure s'' _

theorem blames_fillAll (fuel : Nat) : Blames (fillAll fuel) := by
  induction fuel with
  | zero => exact blames_malformed
  | succ fuel ih =>
    intro s
    unfold fillAll
    refine (Blame.Holds.get s).bind fun s' s₁ _ => ?_
    split
    · exact .pure s₁ ()
    · next id waiting _ =>
      refine (blames_modify (Merged.refl s₁.graph)).bind fun _ s₂ _ => ?_
      exact (blames_fill id s₂).bind fun _ s₃ _ => ih s₃

/-- **All contents** are blamed on the graph they are made from. -/
theorem blames_makeAll (document : Document) : Blames (makeAll document) :=
  fun s => (blames_make document.root s).bind fun _ s₁ _ => blames_fillAll _ s₁

end Building

/-! ## Documents

A text fails over its tokens, over its nodes or over its contents. The tokens and the nodes fail
over what is excessive, the contents over what has no value. -/

/-- **The contents of a document**: their faults are of form, or of nodes that claim a type which
their texts do not have, or of mappings that stand for themselves. -/
theorem unsound_of_contents {document : Document} {misuse : Misuse}
    (h : document.contents = .error (.misuse misuse)) : Unsound document.graph misuse := by
  unfold Document.contents at h
  cases hrun : (Building.makeAll document).run { graph := document.graph } with
  | error fault =>
    rw [hrun] at h
    cases h
    exact (Building.blames_makeAll document _).blamed misuse hrun
  | ok found =>
    rw [hrun] at h
    cases h

/-- **The texts that fail otherwise than over their form**: something in the text is excessive, or
the text is a document in which a node claims a type that its text does not have, or in which a
mapping stands for itself. -/
theorem exceeds_or_unsound_of_outlineOf {depth : Nat} {text : String} {misuse : Misuse}
    (h : outlineOf depth text = .error (.misuse misuse)) :
    Exceeds text.toList misuse
      ∨ ∃ document, Document.ofChars text.toList = .ok document
        ∧ Unsound document.graph misuse := by
  unfold outlineOf at h
  -- Either there is no document, or there is one and its contents fail; what is seen of contents
  -- does not.
  rcases Outcome.bind_eq_error.mp h with hdocument | ⟨document, hdocument, hrun⟩
  · exact .inl (exceeds_of_fault (fault_of_ofChars hdocument))
  · rcases Outcome.bind_eq_error.mp hrun with hcontents | ⟨contents, _, hrun⟩
    · exact .inr ⟨document, hdocument, unsound_of_contents hcontents⟩
    · cases hrun

end Ramlify.Yaml
