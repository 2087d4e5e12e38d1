import Mathlib.Data.List.FinRange
import Ramlify.Proofs.Grouping
import Ramlify.Value

/-!
# Ramlify — grouping is stable

Grouping is told by its recursion: the first item takes with it all items of its key, and the others
are grouped behind it (**`groupBy_cons`**). So what holds of all lists of groups that are made in
this way holds of the groups (**`groups_induction`**).

Keys are compared, and two keys may be equal without being the same, as the number one and `true`
are. The comparison only has to be an equivalence.

* **`StableGroups`** — the items of a list in groups of equal keys, nothing lost, nothing doubled,
  everything in order.
* **`groupBy_stable`** — the groups as positions of the list that is grouped.
-/

namespace Ramlify

variable {κ α β : Type} [BEq κ]

/-! ## The recursion

The program goes through the items from the left and adds each to the group of its key. The
recursion goes through the groups instead. -/

/-- Pairs added to some groups: those with the key of the first group go to it, and the others are
added to the groups behind it. -/
theorem foldl_addToGroup_cons (key : κ) (pairs : List (κ × α)) :
    ∀ (held : List α) (groups : List (κ × List α)),
      pairs.foldl (fun groups pair => addToGroup pair.1 pair.2 groups) ((key, held) :: groups)
        = (key, held ++ (pairs.filter (key == ·.1)).map (·.2))
          :: (pairs.filter (!key == ·.1)).foldl (fun groups pair => addToGroup pair.1 pair.2 groups)
              groups := by
  induction pairs with
  | nil =>
    intro held groups
    rw [List.filter_nil, List.map_nil, List.append_nil]
    rfl
  | cons pair pairs ih =>
    intro held groups
    rw [List.foldl_cons, addToGroup]
    -- The pair goes to the first group, or past it.
    cases hkey : key == pair.1 with
    | true =>
      rw [if_pos rfl, ih, List.filter_cons, List.filter_cons, hkey, if_pos rfl,
        if_neg (by decide), List.append_assoc]
      rfl
    | false =>
      rw [if_neg Bool.false_ne_true, ih, List.filter_cons, List.filter_cons, hkey,
        if_neg Bool.false_ne_true, if_pos (by decide), List.foldl_cons]

/-- **The recursion of grouping**: the group of the first item, and the groups of those with other
keys. -/
theorem groupBy_cons (key : α → κ) (a : α) (rest : List α) :
    groupBy key (a :: rest)
      = (a :: rest.filter (key a == key ·)) :: groupBy key (rest.filter (!key a == key ·)) := by
  have hpairs : groupPairs ((a :: rest).map fun item => (key item, item))
      = (rest.map fun item => (key item, item)).foldl
          (fun groups pair => addToGroup pair.1 pair.2 groups) [(key a, [a])] := rfl
  rw [groupBy, hpairs, foldl_addToGroup_cons, List.filter_map, List.filter_map, List.map_cons,
    List.map_map]
  have hitems : (rest.filter ((key a == ·.1) ∘ fun item => (key item, item))).map
      ((·.2) ∘ fun item => (key item, item)) = rest.filter (key a == key ·) := List.map_id _
  rw [hitems]
  rfl

/-- What the groups of no items have, and those of some items if those of the items behind the first
with other keys have it, all groups have. -/
theorem groups_induction {key : α → κ} {motive : List α → List (List α) → Prop} (nil : motive [] [])
    (cons : ∀ a rest groups, motive (rest.filter (!key a == key ·)) groups →
      motive (a :: rest) ((a :: rest.filter (key a == key ·)) :: groups)) (items : List α) :
    motive items (groupBy key items) := by
  -- By the number of items, as those that are grouped behind the first are fewer.
  induction hlength : items.length using Nat.strong_induction_on generalizing items with
  | _ n ih =>
    cases items with
    | nil => exact nil
    | cons a rest =>
      rw [groupBy_cons]
      have hfewer : (rest.filter (!key a == key ·)).length < n := by
        rw [← hlength, List.length_cons]
        exact Nat.lt_succ_of_le (List.length_filter_le _ rest)
      exact cons a rest _ (ih _ hfewer _ rfl)

/-! ## Stable groups

What holds of the groups is shown along the recursion, for any order in which the items stand. -/

/-- The items of a list in groups of equal keys, in the order of the list. -/
structure StableGroups (before : α → α → Prop) (key : α → κ) (items : List α)
    (groups : List (List α)) : Prop where
  nonempty : ∀ group ∈ groups, group ≠ []
  equal : ∀ group ∈ groups, ∀ a ∈ group, ∀ b ∈ group, key a == key b
  different : groups.Pairwise fun group other =>
    ∀ a ∈ group, ∀ b ∈ other, (key a == key b) = false
  /-- Each item is in a group as often as in the list. -/
  covering : groups.flatten.Perm items
  inOrder : ∀ group ∈ groups, group.Pairwise before
  byFirst : groups.Pairwise fun group other =>
    ∀ a ∈ group.head?, ∀ b ∈ other.head?, before a b

variable [EquivBEq κ]

theorem groupBy_stableGroups {before : α → α → Prop} (key : α → κ) {items : List α}
    (h : items.Pairwise before) : StableGroups before key items (groupBy key items) := by
  revert h
  refine groups_induction (motive := fun items groups => items.Pairwise before →
    StableGroups before key items groups) ?_ ?_ items
  · intro _
    exact ⟨nofun, nofun, .nil, .refl [], nofun, .nil⟩
  · intro a rest groups ih h
    rw [List.pairwise_cons] at h
    obtain ⟨hfirst, hrest⟩ := h
    have hothers := ih (hrest.sublist List.filter_sublist)
    -- What is in a group behind the first is one of the items with other keys.
    have hother : ∀ group ∈ groups, ∀ b ∈ group, b ∈ rest ∧ (key a == key b) = false := by
      intro group hgroup b hb
      have hmem := hothers.covering.subset (List.mem_flatten.mpr ⟨group, hgroup, hb⟩)
      obtain ⟨hb, hkey⟩ := List.mem_filter.mp hmem
      exact ⟨hb, by simpa using hkey⟩
    have hsame : ∀ b ∈ a :: rest.filter (key a == key ·), key a == key b :=
      List.forall_mem_cons.mpr ⟨BEq.rfl, fun b hb => (List.mem_filter.mp hb).2⟩
    constructor
    case nonempty => exact List.forall_mem_cons.mpr ⟨List.cons_ne_nil _ _, hothers.nonempty⟩
    case equal =>
      refine List.forall_mem_cons.mpr ⟨fun b hb c hc => ?_, hothers.equal⟩
      exact BEq.trans (BEq.symm (hsame b hb)) (hsame c hc)
    case different =>
      refine List.pairwise_cons.mpr ⟨fun group hgroup b hb c hc => ?_, hothers.different⟩
      rw [← BEq.congr_left (hsame b hb)]
      exact (hother group hgroup c hc).2
    case covering =>
      rw [List.flatten_cons, List.cons_append]
      refine .cons a ((hothers.covering.append_left _).trans ?_)
      exact List.filter_append_perm _ rest
    case inOrder =>
      refine List.forall_mem_cons.mpr ⟨List.pairwise_cons.mpr ⟨fun b hb => ?_, ?_⟩, hothers.inOrder⟩
      · exact hfirst b (List.mem_filter.mp hb).1
      · exact hrest.sublist List.filter_sublist
    case byFirst =>
      refine List.pairwise_cons.mpr ⟨fun group hgroup b hb c hc => ?_, hothers.byFirst⟩
      cases hb
      exact hfirst c (hother group hgroup c (List.mem_of_mem_head? hc)).1

/-- **A group is the list without the items of other keys.** -/
theorem eq_filter_of_mem_groupBy (key : α → κ) (items : List α) :
    ∀ group ∈ groupBy key items, ∀ a ∈ group, group = items.filter (key a == key ·) := by
  refine groups_induction (motive := fun items groups =>
    ∀ group ∈ groups, ∀ a ∈ group, group = items.filter (key a == key ·)) nofun ?_ items
  intro first rest groups ih
  refine List.forall_mem_cons.mpr ⟨fun a ha => ?_, fun group hgroup a ha => ?_⟩
  · have hsame : key first == key a :=
      List.forall_mem_cons (p := fun b => key first == key b).mpr
        ⟨BEq.rfl, fun b hb => (List.mem_filter.mp hb).2⟩ a ha
    have hkey : ∀ b, (key a == key b) = (key first == key b) := fun b => (BEq.congr_left hsame).symm
    simp only [hkey]
    exact (List.filter_cons_of_pos (by exact BEq.rfl)).symm
  · have hgroup := ih group hgroup a ha
    -- Items with the key of the group do not have the key of the first one.
    have hother : (key first == key a) = false := by
      rw [hgroup] at ha
      simpa using (List.mem_filter.mp (List.mem_filter.mp ha).1).2
    have hne : ∀ b, key a == key b → (!key first == key b) = true := by
      intro b hb
      rw [← BEq.congr_right hb, hother]
      rfl
    rw [hgroup, List.filter_filter, List.filter_cons_of_neg (by rw [BEq.comm, hother]; decide)]
    refine List.filter_congr fun b _ => ?_
    cases hb : key a == key b with
    | false => rfl
    | true => exact hne b hb

/-! ## Groups of positions

The items of a list may be equal to one another, positions are not. So the order of the items is
told by their positions. -/

/-- **Grouping is stable.** The groups of a list are groups of its positions: none is empty, each
position is in one of them and once, positions of equal keys are in one group and those of different
keys in different ones, each group keeps the order of the list, and the groups stand in the order of
their first positions. So each group is the list without the items of other keys. -/
theorem groupBy_stable (key : α → κ) (items : List α) :
    (∃ places : List (List (Fin items.length)),
        groupBy key items = places.map (List.map items.get)
        ∧ StableGroups (· < ·) (fun place => key (items.get place)) (List.finRange items.length)
            places)
      ∧ ∀ group ∈ groupBy key items, ∀ item ∈ group, group = items.filter (key item == key ·) := by
  refine ⟨⟨groupBy (fun place => key (items.get place)) (List.finRange items.length), ?_, ?_⟩,
    eq_filter_of_mem_groupBy key items⟩
  · rw [← groupBy_map, ← List.ofFn_eq_map, List.ofFn_get]
  · exact groupBy_stableGroups _ (List.pairwise_lt_finRange _)

/-- Keys are equal if they have one representative. -/
instance : EquivBEq Scalar where
  rfl := by
    intro a
    exact decide_eq_true rfl
  symm := by
    intro a b h
    exact decide_eq_true (of_decide_eq_true h).symm
  trans := by
    intro a b c h h'
    exact decide_eq_true ((of_decide_eq_true h).trans (of_decide_eq_true h'))

/-- Keys of which some are equal without being the same. -/
def mixedKeys : List Scalar := [.int 1, .str "a", .bool true, .null, .int 1, .str "a"]

/-- The number one and `true` are in one group, which stands where the first of them does. -/
theorem groupBy_stable_mixed :
    groupBy id mixedKeys
        = [[.int 1, .bool true, .int 1], [.str "a", .str "a"], [.null]]
      ∧ (∃ places : List (List (Fin mixedKeys.length)),
          groupBy id mixedKeys = places.map (List.map mixedKeys.get)
            ∧ StableGroups (· < ·) (fun place => id (mixedKeys.get place))
                (List.finRange mixedKeys.length) places)
      ∧ ∀ group ∈ groupBy id mixedKeys, ∀ item ∈ group,
          group = mixedKeys.filter (id item == id ·) :=
  ⟨by decide, groupBy_stable id mixedKeys⟩

end Ramlify
