import Mathlib.Data.Finset.Card
import Mathlib.Data.List.Perm.Subperm
import Mathlib.Data.Nat.SuccPred
import Mathlib.Logic.Relation
import Mathlib.Order.SuccPred.Relation
import Ramlify.Yaml.Content

/-!
# Ramlify — mappings that stand for values

Where the text of a scalar is asked for, a mapping stands for the value under its key `=`. That
value may be a mapping as well, and by an alias it may be the mapping that it stands in. Then there
is no text, and the question for it has no end.

`Building.scalarText` asks with a number of steps. As many steps as there are nodes, and one more,
are enough: a question that takes so many meets a mapping twice.

* **`scalarText_step`** — one step: a text, a fault of form, or the question for another node.
* **`scalarText_eq_endless_iff`** — out of steps means without end, however many there are.
* **`exists_standsForItself_of_scalarText`** — a question without end is one for a mapping that
  stands for itself.
-/

namespace Ramlify.Yaml

open Relation

/-! ## Standing for a value

`StandsFor` is one step of the question. It is said of every entry whose key is `=`, not only of the
first one, because merging can take that key from an entry and so bring up a later one. -/

/-- A mapping stands for the value of an entry whose key is `=`. -/
def StandsFor (graph : Graph) (id other : Nat) : Prop :=
  ∃ entries, (graph.node id).body = .mapping entries
    ∧ ∃ key, (key, other) ∈ entries ∧ (graph.node key).type = .value

/-- A mapping that stands for itself, be it by way of others. -/
def StandsForItself (graph : Graph) (id : Nat) : Prop := TransGen (StandsFor graph) id id

/-- A text that is found for a node: its own, or that of a scalar which it stands for in the end. -/
def TextOf (graph : Graph) (id : Nat) (text : List Char) : Prop :=
  ∃ other, ReflTransGen (StandsFor graph) id other ∧ (graph.node other).body = .scalar text

/-- What is not one of the nodes of a graph is read as nothing. -/
theorem node_eq_nothing {graph : Graph} {id : Nat} (h : ¬ id < graph.size) :
    graph.node id = Node.nothing := by
  rw [Graph.node, Array.getD_eq_getD_getElem?, Array.getElem?_eq_none (Nat.le_of_not_lt h)]
  rfl

/-- Nothing is no mapping, so that all that stands for something is one of the nodes. -/
theorem StandsFor.lt_size {graph : Graph} {id other : Nat} (h : StandsFor graph id other) :
    id < graph.size := by
  obtain ⟨entries, hbody, _⟩ := h
  by_contra hsize
  rw [node_eq_nothing hsize] at hbody
  cases hbody

namespace Building

/-! ## One step

All that is shown of `scalarText` from here on is by this step, and not by its definition. -/

/-- **One step** of the question for a text. A mapping with a key `=` passes it on to what it stands
for; anything else answers at once, and never that there is no end. -/
theorem scalarText_step (graph : Graph) (id : Nat) :
    (∃ other, StandsFor graph id other
      ∧ ∀ fuel, scalarText graph (fuel + 1) id = scalarText graph fuel other)
    ∨ (∃ text, (graph.node id).body = .scalar text
      ∧ ∀ fuel, scalarText graph (fuel + 1) id = .ok text)
    ∨ ∀ fuel, scalarText graph (fuel + 1) id = .error .malformed := by
  cases hbody : (graph.node id).body with
  | scalar text =>
    refine .inr (.inl ⟨text, rfl, fun fuel => ?_⟩)
    simp only [scalarText, hbody]
  | sequence items =>
    refine .inr (.inr fun fuel => ?_)
    simp only [scalarText, hbody]
  | mapping entries =>
    -- A mapping stands for what is under its first key `=`.
    cases hfind : entries.find? fun entry => (graph.node entry.1).type = .value with
    | none =>
      refine .inr (.inr fun fuel => ?_)
      simp only [scalarText, hbody, hfind]
    | some entry =>
      have htype := List.find?_some hfind
      have hstands : StandsFor graph id entry.2 :=
        ⟨entries, hbody, entry.1, List.mem_of_find?_eq_some hfind, of_decide_eq_true htype⟩
      refine .inl ⟨entry.2, hstands, fun fuel => ?_⟩
      simp only [scalarText, hbody, hfind]

/-- What becomes of the question: a fault of form, no end so far, or the text of a scalar that the
node stands for in the end. -/
theorem scalarText_cases (graph : Graph) (fuel id : Nat) :
    scalarText graph fuel id = .error .malformed
      ∨ scalarText graph fuel id = .error (.misuse .endless)
      ∨ ∃ text, scalarText graph fuel id = .ok text ∧ TextOf graph id text := by
  induction fuel generalizing id with
  | zero => exact .inr (.inl rfl)
  | succ fuel ih =>
    rcases scalarText_step graph id with ⟨other, hstands, hstep⟩ | ⟨text, hbody, hstep⟩ | hstep
    · rw [hstep]
      refine (ih other).imp_right (Or.imp_right ?_)
      rintro ⟨text, htext, last, hlast, hbody⟩
      exact ⟨text, htext, last, hlast.head hstands, hbody⟩
    · exact .inr (.inr ⟨text, hstep fuel, id, .refl, hbody⟩)
    · exact .inl (hstep fuel)

/-! ## Enough steps

A question that has an end takes a number of steps that is its own (`EndsAfter`). The nodes it
passes are all different, because what is left to do differs from one to the next, and so there are
no more of them than there are nodes. -/

/-- The question for a text ends at the step after so many. -/
def EndsAfter (graph : Graph) (steps id : Nat) : Prop :=
  scalarText graph steps id = .error (.misuse .endless)
    ∧ scalarText graph (steps + 1) id ≠ .error (.misuse .endless)

variable {graph : Graph} {fuel id : Nat}

/-- An answer is not changed by more steps. -/
theorem scalarText_of_le {fuel' : Nat} (h : scalarText graph fuel id ≠ .error (.misuse .endless))
    (hle : fuel ≤ fuel') : scalarText graph fuel' id = scalarText graph fuel id := by
  induction fuel generalizing fuel' id with
  | zero => exact absurd rfl h
  | succ fuel ih =>
    obtain ⟨fuel', rfl⟩ := Nat.exists_eq_add_of_le' (Nat.le_trans (Nat.le_add_left 1 fuel) hle)
    rcases scalarText_step graph id with ⟨other, _, hstep⟩ | ⟨text, _, hstep⟩ | hstep
    · rw [hstep] at h ⊢
      rw [hstep]
      exact ih h (Nat.le_of_succ_le_succ hle)
    · rw [hstep, hstep]
    · rw [hstep, hstep]

/-- The number of steps after which a question ends is its own. -/
theorem EndsAfter.unique {steps steps' : Nat} (h : EndsAfter graph steps id)
    (h' : EndsAfter graph steps' id) : steps = steps' := by
  rcases Nat.lt_trichotomy steps steps' with hlt | heq | hlt
  · exact absurd ((scalarText_of_le h.2 hlt).symm.trans h'.1) h.2
  · exact heq
  · exact absurd ((scalarText_of_le h'.2 hlt).symm.trans h.1) h'.2

/-- The nodes that a question passes before it ends: as many as it takes steps, all different, and
each with a question that takes fewer steps than the one before. -/
theorem EndsAfter.exists_passed {steps : Nat} (h : EndsAfter graph steps id) :
    ∃ passed : List Nat, passed.Nodup ∧ passed.length = steps
      ∧ ∀ node ∈ passed, node < graph.size ∧ ∃ left, left ≤ steps ∧ EndsAfter graph left node := by
  induction steps generalizing id with
  | zero => exact ⟨[], List.nodup_nil, rfl, List.forall_mem_nil _⟩
  | succ steps ih =>
    rcases scalarText_step graph id with ⟨other, hstands, hstep⟩ | ⟨text, _, hstep⟩ | hstep
    · have hother : EndsAfter graph steps other := ⟨hstep steps ▸ h.1, hstep (steps + 1) ▸ h.2⟩
      obtain ⟨passed, hnodup, hlength, hpassed⟩ := ih hother
      refine ⟨id :: passed, List.nodup_cons.mpr ⟨fun hmem => ?_, hnodup⟩, by simp [hlength], ?_⟩
      · -- A node that comes up again would have two numbers of steps.
        obtain ⟨_, left, hleft, hends⟩ := hpassed id hmem
        exact absurd (h.unique hends) (Nat.ne_of_gt (Nat.lt_succ_of_le hleft))
      · intro node hnode
        rcases List.mem_cons.mp hnode with rfl | hnode
        · exact ⟨hstands.lt_size, steps + 1, Nat.le_refl _, h⟩
        · obtain ⟨hsize, left, hleft, hends⟩ := hpassed node hnode
          exact ⟨hsize, left, Nat.le_succ_of_le hleft, hends⟩
    · exact absurd ((hstep steps).symm.trans h.1) nofun
    · exact absurd ((hstep steps).symm.trans h.1) nofun

/-- A question that ends does so within as many steps as there are nodes, and one more. -/
theorem EndsAfter.le_size {steps : Nat} (h : EndsAfter graph steps id) : steps ≤ graph.size := by
  obtain ⟨passed, hnodup, hlength, hpassed⟩ := h.exists_passed
  have hsubset : passed ⊆ List.range graph.size :=
    fun node hnode => List.mem_range.mpr (hpassed node hnode).1
  have hle := (hnodup.subperm hsubset).length_le
  rwa [hlength, List.length_range] at hle

/-- An answer comes after some number of steps. -/
theorem exists_endsAfter (h : scalarText graph fuel id ≠ .error (.misuse .endless)) :
    ∃ steps, EndsAfter graph steps id := by
  induction fuel with
  | zero => exact absurd rfl h
  | succ fuel ih =>
    by_cases hfuel : scalarText graph fuel id = .error (.misuse .endless)
    · exact ⟨fuel, hfuel, h⟩
    · exact ih hfuel

/-- **Out of steps means without end**: if the steps that are given do not lead to an answer, then
no number of steps does. -/
theorem scalarText_eq_endless_iff :
    scalarText graph (graph.size + 1) id = .error (.misuse .endless)
      ↔ ∀ fuel, scalarText graph fuel id = .error (.misuse .endless) := by
  constructor
  · intro h fuel
    by_contra hfuel
    obtain ⟨steps, hends⟩ := exists_endsAfter hfuel
    have hle := Nat.succ_le_succ hends.le_size
    exact hends.2 ((scalarText_of_le hends.2 hle).symm.trans h)
  · exact fun h => h _

/-! ## No end

A question that takes more steps than there are nodes passes one of them twice, and what comes
between the two times leads from that node to itself. -/

/-- What a question without an answer passes: one node after the other, each of which stands for the
next. -/
theorem exists_chain_of_scalarText
    (h : scalarText graph fuel id = .error (.misuse .endless)) :
    ∃ chain : Nat → Nat, ∀ step < fuel, StandsFor graph (chain step) (chain (step + 1)) := by
  suffices hchain : ∃ chain : Nat → Nat, chain 0 = id
      ∧ ∀ step < fuel, StandsFor graph (chain step) (chain (step + 1)) from
    hchain.imp fun _ => And.right
  induction fuel generalizing id with
  | zero => exact ⟨fun _ => id, rfl, fun step hstep => absurd hstep (Nat.not_lt_zero step)⟩
  | succ fuel ih =>
    rcases scalarText_step graph id with ⟨other, hstands, hstep⟩ | ⟨text, _, hstep⟩ | hstep
    · -- The chain of the node stood for, with this node in front.
      obtain ⟨chain, rfl, hchain⟩ := ih ((hstep fuel).symm.trans h)
      refine ⟨fun step => Nat.casesOn step id chain, rfl, fun step hlt => ?_⟩
      cases step with
      | zero => exact hstands
      | succ step => exact hchain step (Nat.lt_of_succ_lt_succ hlt)
    · exact absurd ((hstep fuel).symm.trans h) nofun
    · exact absurd ((hstep fuel).symm.trans h) nofun

/-- What is passed later is led to from what was passed before. -/
theorem transGen_of_chain {chain : Nat → Nat} {steps first last : Nat}
    (h : ∀ step < steps, StandsFor graph (chain step) (chain (step + 1))) (hlast : last < steps)
    (hlt : first < last) : TransGen (StandsFor graph) (chain first) (chain last) := by
  have hsteps : TransGen (fun a b => StandsFor graph (chain a) (chain b)) first last :=
    transGen_of_succ_of_lt _
      (fun step hstep => h step ((Set.mem_Ico.mp hstep).2.trans hlast)) hlt
  exact TransGen.lift chain (fun _ _ hstands => hstands) _ _ hsteps

/-- **Without end** there is only the question for a text of mappings one of which stands for
itself. -/
theorem exists_standsForItself_of_scalarText
    (h : scalarText graph (graph.size + 1) id = .error (.misuse .endless)) :
    ∃ other, StandsForItself graph other := by
  obtain ⟨chain, hchain⟩ := exists_chain_of_scalarText h
  have hmaps : Set.MapsTo chain (Finset.range (graph.size + 1)) (Finset.range graph.size) :=
    fun step hstep => Finset.mem_coe.mpr (Finset.mem_range.mpr
      (hchain step (Finset.mem_range.mp (Finset.mem_coe.mp hstep))).lt_size)
  -- One step more than there are nodes, so that two of the steps are at the same node.
  have hcard : (Finset.range graph.size).card < (Finset.range (graph.size + 1)).card := by
    rw [Finset.card_range, Finset.card_range]
    exact Nat.lt_succ_self _
  obtain ⟨step, hstep, step', hstep', hne, hsame⟩ :=
    Finset.exists_ne_map_eq_of_card_lt_of_maps_to hcard hmaps
  rcases Nat.lt_or_gt_of_ne hne with hlt | hlt
  · have hcycle := transGen_of_chain hchain (Finset.mem_range.mp hstep') hlt
    rw [← hsame] at hcycle
    exact ⟨chain step, hcycle⟩
  · have hcycle := transGen_of_chain hchain (Finset.mem_range.mp hstep) hlt
    rw [hsame] at hcycle
    exact ⟨chain step', hcycle⟩

end Building

end Ramlify.Yaml
