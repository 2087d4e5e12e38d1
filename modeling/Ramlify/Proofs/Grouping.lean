import Ramlify.Grouping
import Ramlify.Proofs.Entries

/-!
# Ramlify — what the groups are

Grouping adds one item after another to the group of its key. The result can be told at once: each
key once, in the order of first appearance, with the items that have it (**`groupBy_eq`**).
-/

namespace Ramlify

variable {κ α β : Type} [BEq κ] [LawfulBEq κ] [DecidableEq κ]

/-- The keys of some pairs, each where it first appears. -/
def firstKeys (pairs : List (κ × α)) : List κ := (pairs.map (·.1)).eraseDups

/-- What the pairs of a key hold. -/
def heldBy (pairs : List (κ × α)) (key : κ) : List α :=
  (pairs.filter (·.1 == key)).map (·.2)

omit [DecidableEq κ] in
/-- An item whose key has no group starts one at the end. -/
theorem addToGroup_of_not_mem {key : κ} (item : α) (held : κ → List α) {keys : List κ}
    (h : key ∉ keys) : addToGroup key item (keys.map fun k => (k, held k))
      = (keys.map fun k => (k, held k)) ++ [(key, [item])] := by
  induction keys with
  | nil => rfl
  | cons k keys ih =>
    rw [List.mem_cons, not_or] at h
    rw [List.map_cons, addToGroup, if_neg (by simpa using Ne.symm h.1), ih h.2, List.cons_append]

omit [DecidableEq κ] in
/-- An item whose key has a group is added to it, and the other groups stay. -/
theorem addToGroup_of_mem {key : κ} (item : α) (held : κ → List α) {keys : List κ}
    (hnodup : keys.Nodup) (h : key ∈ keys) : addToGroup key item (keys.map fun k => (k, held k))
      = keys.map fun k => (k, if k == key then held k ++ [item] else held k) := by
  induction keys with
  | nil => cases h
  | cons k keys ih =>
    rw [List.nodup_cons] at hnodup
    rw [List.map_cons, List.map_cons, addToGroup]
    by_cases hk : k = key
    · -- The group is the first one, and no later one has its key.
      subst hk
      rw [if_pos (by simp), if_pos (by simp)]
      have hrest : keys.map (fun other => (other, held other))
          = keys.map fun other => (other, if other == k then held other ++ [item]
            else held other) := by
        refine List.map_congr_left fun other hother => ?_
        rw [if_neg]
        rw [beq_iff_eq]
        rintro rfl
        exact hnodup.1 hother
      rw [← hrest]
    · rw [if_neg (by simpa using hk), if_neg (by simpa using hk),
        ih hnodup.2 ((List.mem_cons.mp h).resolve_left (Ne.symm hk))]

omit [DecidableEq κ] in
/-- Of one more key nothing is kept if it was there before. -/
theorem eraseDups_concat (keys : List κ) (key : κ) :
    (keys ++ [key]).eraseDups
      = if key ∈ keys.eraseDups then keys.eraseDups else keys.eraseDups ++ [key] := by
  rw [List.eraseDups_append]
  simp only [List.mem_eraseDups]
  split
  · next h => simp [List.removeAll, h]
  · next h => simp [List.removeAll, h, List.eraseDups_cons]

omit [DecidableEq κ] in
/-- A new pair adds its key at the end, unless the key was there before. -/
theorem firstKeys_concat (pairs : List (κ × α)) (pair : κ × α) :
    firstKeys (pairs ++ [pair])
      = if pair.1 ∈ firstKeys pairs then firstKeys pairs else firstKeys pairs ++ [pair.1] := by
  rw [firstKeys, List.map_append, List.map_singleton]
  exact eraseDups_concat _ _

theorem nodup_firstKeys (pairs : List (κ × α)) : (firstKeys pairs).Nodup := by
  rw [firstKeys, ← Entries.keys_ofList]
  exact Entries.nodup_keys_ofList pairs

/-- What is left of a list without its repetitions has none. -/
theorem nodup_eraseDups (keys : List κ) : keys.eraseDups.Nodup := by
  have hkeys : firstKeys (keys.map fun key => (key, ())) = keys.eraseDups := by
    rw [firstKeys, List.map_map]
    exact congrArg List.eraseDups (List.map_id _)
  rw [← hkeys]
  exact nodup_firstKeys _

omit [DecidableEq κ] in
/-- A new pair adds an item to what its key holds, at the end. -/
theorem heldBy_concat (pairs : List (κ × α)) (pair : κ × α) (k : κ) :
    heldBy (pairs ++ [pair]) k
      = if k == pair.1 then heldBy pairs k ++ [pair.2] else heldBy pairs k := by
  unfold heldBy
  rw [List.filter_append, List.map_append]
  by_cases hk : k = pair.1
  · simp [hk]
  · simp [hk, Ne.symm hk]

/-- **The groups.** Each key where it first appears, with all that its pairs hold, in their
order. -/
theorem groupPairs_eq (pairs : List (κ × α)) :
    groupPairs pairs = (firstKeys pairs).map fun key => (key, heldBy pairs key) := by
  -- Over the pairs from the end: the last one is added to the groups of those before.
  induction pairs using List.reverseRecOn with
  | nil => rfl
  | append_singleton pairs pair ih =>
    have hstep : groupPairs (pairs ++ [pair]) = addToGroup pair.1 pair.2 (groupPairs pairs) := by
      unfold groupPairs
      rw [List.foldl_append]
      rfl
    have hheld : (firstKeys pairs).map (fun key => (key, heldBy (pairs ++ [pair]) key))
        = (firstKeys pairs).map fun key => (key, if key == pair.1 then
            heldBy pairs key ++ [pair.2] else heldBy pairs key) :=
      List.map_congr_left fun k _ => by rw [heldBy_concat]
    rw [hstep, ih, firstKeys_concat]
    split
    · next hmem => rw [addToGroup_of_mem pair.2 _ (nodup_firstKeys pairs) hmem, hheld]
    · next hmem =>
      -- A new key: nothing is held by it yet, and the other keys hold what they held.
      have hnone : heldBy pairs pair.1 = [] := by
        rw [heldBy, List.map_eq_nil_iff, List.filter_eq_nil_iff]
        intro other hother heq
        rw [beq_iff_eq] at heq
        exact hmem (List.mem_eraseDups.mpr (heq ▸ List.mem_map_of_mem hother))
      have hsame : (firstKeys pairs).map (fun key => (key, heldBy (pairs ++ [pair]) key))
          = (firstKeys pairs).map fun key => (key, heldBy pairs key) := by
        refine List.map_congr_left fun k hk => ?_
        rw [heldBy_concat, if_neg]
        rw [beq_iff_eq]
        rintro rfl
        exact hmem hk
      rw [addToGroup_of_not_mem pair.2 _ hmem, List.map_append, hsame, List.map_singleton,
        heldBy_concat, if_pos (by simp), hnone, List.nil_append]

/-- **Grouping by a key.** Each key where it first appears, with its items in their order. -/
theorem groupBy_eq (key : α → κ) (items : List α) :
    groupBy key items = (items.map key).eraseDups.map fun k => items.filter (key · == k) := by
  have hheld : ∀ k, heldBy (items.map fun item => (key item, item)) k
      = items.filter (key · == k) := by
    intro k
    rw [heldBy, List.filter_map, List.map_map]
    exact List.map_id _
  have hkeys : firstKeys (items.map fun item => (key item, item)) = (items.map key).eraseDups := by
    rw [firstKeys, List.map_map]
    rfl
  rw [groupBy, groupPairs_eq, List.map_map, hkeys]
  exact List.map_congr_left fun k _ => hheld k

omit [DecidableEq κ] in
/-- Where the keys are distinct, an item is alone with its key. -/
theorem filter_of_nodup {key : α → κ} {items : List α} (h : (items.map key).Nodup) {item : α}
    (hitem : item ∈ items) : items.filter (key · == key item) = [item] := by
  induction items with
  | nil => cases hitem
  | cons first items ih =>
    rw [List.map_cons, List.nodup_cons] at h
    rcases List.mem_cons.mp hitem with rfl | hrest
    · have hnone : items.filter (key · == key item) = [] := by
        rw [List.filter_eq_nil_iff]
        intro other hother hsame
        exact h.1 (List.mem_map.mpr ⟨other, hother, beq_iff_eq.mp hsame⟩)
      rw [List.filter_cons, if_pos (beq_self_eq_true _), hnone]
    · have hne : ¬ (key first == key item) = true := fun hsame =>
        h.1 (List.mem_map.mpr ⟨item, hrest, (beq_iff_eq.mp hsame).symm⟩)
      rw [List.filter_cons, if_neg hne, ih h.2 hrest]

/-- Items with distinct keys are not grouped. -/
theorem groupBy_of_nodup {key : α → κ} {items : List α} (h : (items.map key).Nodup) :
    groupBy key items = items.map fun item => [item] := by
  have hkeys : (items.map key).eraseDups = items.map key := by
    have hpairs : Entries.keys (items.map fun item => (key item, ())) = items.map key :=
      List.map_map ..
    rw [← hpairs] at h ⊢
    exact (Entries.keys_ofList _).symm.trans (congrArg Entries.keys (Entries.ofList_of_nodup h))
  rw [groupBy_eq, hkeys, List.map_map]
  exact List.map_congr_left fun item hitem => filter_of_nodup h hitem

omit [LawfulBEq κ] [DecidableEq κ] in
/-- Replacing the items of groups before another one is added or after it is the same. -/
theorem addToGroup_map (f : β → α) (key : κ) (item : β) (groups : List (κ × List β)) :
    addToGroup key (f item) (groups.map fun group => (group.1, group.2.map f))
      = (addToGroup key item groups).map fun group => (group.1, group.2.map f) := by
  induction groups with
  | nil => rfl
  | cons group groups ih =>
    rw [List.map_cons, addToGroup, addToGroup]
    split
    · rw [List.map_cons, List.map_append, List.map_singleton]
    · rw [List.map_cons, ih]

omit [LawfulBEq κ] [DecidableEq κ] in
/-- The same for a list of items that are added, from any groups on. -/
theorem foldl_addToGroup_map (f : β → α) (pairs : List (κ × β)) : ∀ groups : List (κ × List β),
    (pairs.map fun pair => (pair.1, f pair.2)).foldl
        (fun groups pair => addToGroup pair.1 pair.2 groups)
        (groups.map fun group => (group.1, group.2.map f))
      = (pairs.foldl (fun groups pair => addToGroup pair.1 pair.2 groups) groups).map
          fun group => (group.1, group.2.map f) := by
  induction pairs with
  | nil => exact fun _ => rfl
  | cons pair pairs ih =>
    intro groups
    rw [List.map_cons, List.foldl_cons, List.foldl_cons, addToGroup_map f pair.1, ih]

omit [LawfulBEq κ] [DecidableEq κ] in
theorem groupBy_map (f : β → α) (key : α → κ) (items : List β) :
    groupBy key (items.map f) = (groupBy (fun item => key (f item)) items).map (List.map f) := by
  have hgroups := foldl_addToGroup_map f (items.map fun item => (key (f item), item)) []
  rw [List.map_map] at hgroups
  rw [groupBy, groupBy, groupPairs, groupPairs, List.map_map, List.map_map]
  exact (congrArg (List.map (·.2)) hgroups).trans (List.map_map ..)

/-- A group has a first item, and all its items have the key of that. -/
theorem exists_of_mem_groupBy {key : α → κ} {items group : List α} (h : group ∈ groupBy key items) :
    ∃ first more, group = first :: more ∧ group = items.filter (key · == key first) := by
  rw [groupBy_eq] at h
  obtain ⟨k, hk, rfl⟩ := List.mem_map.mp h
  obtain ⟨item, hitem, rfl⟩ := List.mem_map.mp (List.mem_eraseDups.mp hk)
  -- A group has at least the item its key is from.
  cases hgroup : items.filter (key · == key item) with
  | nil =>
    have hmem : item ∈ items.filter (key · == key item) := List.mem_filter.mpr ⟨hitem, by simp⟩
    rw [hgroup] at hmem
    cases hmem
  | cons first more =>
    have hfirst : first ∈ items.filter (key · == key item) := by
      rw [hgroup]
      exact List.mem_cons_self
    have hsame : key first = key item := beq_iff_eq.mp (List.mem_filter.mp hfirst).2
    exact ⟨first, more, rfl, by rw [hsame, hgroup]⟩

end Ramlify
