import Mathlib.Data.List.Induction
import Mathlib.Data.List.Nodup
import Ramlify.Value

/-!
# Ramlify — keyed lists as stores

`Entries.get?` is the view through which keyed lists are reasoned about. The lemmas here say what
`put`, `erase` and `putAll` do to that view and to the list of keys, and when the keys stay
distinct.

* **`get?_put`** — the store law: the key that was put reads as the new value, all others as before.
* **`keys_put`** — a key that is present keeps its place, another one is added at the end.
* **`ofList_eq_latest`** — a list in which keys occur several times: each key once, where it first
  stands, with what the last pair of that key holds.
-/

namespace Ramlify.Entries

variable {κ α : Type} [BEq κ]

/-! ## Structure

What holds of keyed lists whose keys are only compared, not yet decided to be equal. -/

@[simp] theorem get?_nil (key : κ) : get? ([] : Entries κ α) key = none := rfl

/-- Taking a key away leaves the other entries in their order. -/
theorem erase_sublist (entries : Entries κ α) (key : κ) : (erase entries key).Sublist entries := by
  induction entries with
  | nil => exact .slnil
  | cons entry rest ih =>
    obtain ⟨k, w⟩ := entry
    rw [erase]
    split
    · exact List.sublist_cons_self _ _
    · exact ih.cons_cons _

/-- Distinct keys stay distinct when one is taken away. -/
theorem nodup_keys_erase {entries : Entries κ α} (h : (keys entries).Nodup) (key : κ) :
    (keys (erase entries key)).Nodup :=
  h.sublist ((erase_sublist entries key).map _)

/-- What stands in the list afterwards is the value that was put, or stood there before. -/
theorem snd_of_mem_put {entries : Entries κ α} {key : κ} {v : α} {entry : κ × α}
    (h : entry ∈ put entries key v) : entry.2 = v ∨ entry ∈ entries := by
  induction entries with
  | nil =>
    rw [put, List.mem_singleton] at h
    exact Or.inl (by rw [h])
  | cons first rest ih =>
    rw [put] at h
    split at h
    · rcases List.mem_cons.mp h with rfl | hrest
      · exact Or.inl rfl
      · exact Or.inr (List.mem_cons_of_mem _ hrest)
    · rcases List.mem_cons.mp h with rfl | hrest
      · exact Or.inr List.mem_cons_self
      · exact (ih hrest).imp id (List.mem_cons_of_mem _)

/-- What the entries of some pairs hold stands in one of the pairs, whatever keys are equal. -/
theorem exists_of_mem_ofList {pairs : List (κ × α)} {entry : κ × α} (h : entry ∈ ofList pairs) :
    ∃ pair ∈ pairs, entry.2 = pair.2 := by
  induction pairs using List.reverseRecOn generalizing entry with
  | nil => cases h
  | append_singleton pairs pair ih =>
    have hput : entry ∈ put (ofList pairs) pair.1 pair.2 := by
      rw [ofList, putAll, List.foldl_append] at h
      exact h
    rcases snd_of_mem_put hput with heq | hmem
    · exact ⟨pair, List.mem_concat_self, heq⟩
    · obtain ⟨found, hfound, heq⟩ := ih hmem
      exact ⟨found, List.mem_append_left _ hfound, heq⟩

variable [LawfulBEq κ]

/-- A key that is not present is added at the end. -/
theorem put_of_not_mem {entries : Entries κ α} {key : κ} (v : α) (h : key ∉ keys entries) :
    put entries key v = entries ++ [(key, v)] := by
  induction entries with
  | nil => rfl
  | cons entry rest ih =>
    obtain ⟨k, w⟩ := entry
    rw [keys, List.map_cons, List.mem_cons, not_or] at h
    rw [put, if_neg (by simpa using Ne.symm h.1), ih h.2, List.cons_append]

variable [DecidableEq κ]

/-! ## Reading

`get?` finds the first entry of a key. Whether there is one is told by the list of keys alone. -/

theorem get?_cons (k : κ) (v : α) (rest : Entries κ α) (key : κ) :
    get? ((k, v) :: rest) key = if k = key then some v else get? rest key := by
  rw [get?]
  by_cases h : k = key
  · rw [if_pos (by simpa using h), if_pos h]
  · rw [if_neg (by simpa using h), if_neg h]

/-- A value that is read stands in the list under its key. -/
theorem mem_of_get? {entries : Entries κ α} {key : κ} {v : α} (h : get? entries key = some v) :
    (key, v) ∈ entries := by
  induction entries with
  | nil => simp at h
  | cons entry rest ih =>
    obtain ⟨k, w⟩ := entry
    rw [get?_cons] at h
    by_cases hk : k = key
    · rw [if_pos hk] at h
      cases h
      rw [hk]
      exact List.mem_cons_self
    · rw [if_neg hk] at h
      exact List.mem_cons_of_mem _ (ih h)

/-- A key reads as something exactly when it is one of the keys. -/
theorem isSome_get?_iff {entries : Entries κ α} {key : κ} :
    (get? entries key).isSome ↔ key ∈ keys entries := by
  induction entries with
  | nil => simp [keys]
  | cons entry rest ih =>
    obtain ⟨k, w⟩ := entry
    rw [get?_cons]
    by_cases hk : k = key
    · rw [if_pos hk]
      simp [keys, hk]
    · rw [if_neg hk, ih]
      simp [keys, Ne.symm hk]

/-- A key that reads as nothing is none of the keys. -/
theorem get?_eq_none_iff {entries : Entries κ α} {key : κ} :
    get? entries key = none ↔ key ∉ keys entries := by
  rw [← isSome_get?_iff]
  cases get? entries key <;> simp

/-- The test for a key, as a statement about the list of keys. -/
theorem has_iff {entries : Entries κ α} {key : κ} : has entries key = true ↔ key ∈ keys entries :=
  isSome_get?_iff

theorem get?_append (entries more : Entries κ α) (key : κ) :
    get? (entries ++ more) key = (get? entries key).or (get? more key) := by
  induction entries with
  | nil => rfl
  | cons entry rest ih =>
    obtain ⟨k, w⟩ := entry
    rw [List.cons_append, get?_cons, get?_cons, ih]
    split <;> rfl

/-- Where the keys are distinct, each entry is what its key reads as. -/
theorem get?_of_mem {entries : Entries κ α} (hkeys : (keys entries).Nodup) {key : κ} {v : α}
    (h : (key, v) ∈ entries) : get? entries key = some v := by
  induction entries with
  | nil => simp at h
  | cons entry rest ih =>
    obtain ⟨k, w⟩ := entry
    rw [keys, List.map_cons, List.nodup_cons] at hkeys
    rw [get?_cons]
    rcases List.mem_cons.mp h with heq | hrest
    · -- The entry is the first one of its key.
      cases heq
      rw [if_pos rfl]
    · -- A key that comes again would not be distinct.
      have hne : k ≠ key := by
        intro hk
        have hmem : key ∈ rest.map Prod.fst := List.mem_map_of_mem hrest
        exact hkeys.1 (hk ▸ hmem)
      rw [if_neg hne]
      exact ih hkeys.2 hrest

/-- Where the keys are distinct, what holds of all entries holds of all that is read. -/
theorem forall_mem_iff {entries : Entries κ α} (hkeys : (keys entries).Nodup)
    {P : κ → α → Prop} :
    (∀ entry ∈ entries, P entry.1 entry.2) ↔ ∀ key v, get? entries key = some v → P key v := by
  constructor
  · intro h key v hget
    exact h (key, v) (mem_of_get? hget)
  · intro h entry hentry
    exact h entry.1 entry.2 (get?_of_mem hkeys hentry)

/-- Where the keys are distinct, a key reads as before unless its entry was filtered out. -/
theorem get?_filter {entries : Entries κ α} (hkeys : (keys entries).Nodup) (kept : κ × α → Bool)
    (key : κ) :
    get? (entries.filter kept) key = (get? entries key).filter fun v => kept (key, v) := by
  have hnodup : (keys (entries.filter kept)).Nodup := hkeys.sublist (List.filter_sublist.map _)
  ext v
  rw [Option.filter_eq_some_iff]
  constructor
  · intro h
    have hmem := List.mem_filter.mp (mem_of_get? h)
    exact ⟨get?_of_mem hkeys hmem.1, hmem.2⟩
  · rintro ⟨h, hkept⟩
    exact get?_of_mem hnodup (List.mem_filter.mpr ⟨mem_of_get? h, hkept⟩)

/-! ## Putting

An entry that is put overwrites the one of its key or is added at the end. So there is a law for
each of the two views: what keys read as, and the list of keys. -/

/-- **The store law.** A key reads as what was put under it, and all others as before. -/
theorem get?_put (entries : Entries κ α) (key : κ) (v : α) (other : κ) :
    get? (put entries key v) other = if key = other then some v else get? entries other := by
  induction entries with
  | nil => rw [put, get?_cons]
  | cons entry rest ih =>
    obtain ⟨k, w⟩ := entry
    rw [put]
    by_cases hk : k = key
    · rw [if_pos (by simpa using hk), get?_cons, get?_cons, hk]
      split <;> rfl
    · rw [if_neg (by simpa using hk), get?_cons, get?_cons, ih]
      by_cases hother : key = other
      · rw [if_neg (hother ▸ hk), if_pos hother, if_pos hother]
      · rw [if_neg hother, if_neg hother]

/-- The key that was put reads as the new value. -/
@[simp] theorem get?_put_self (entries : Entries κ α) (key : κ) (v : α) :
    get? (put entries key v) key = some v := by
  rw [get?_put, if_pos rfl]

theorem get?_put_of_ne (entries : Entries κ α) {key other : κ} (v : α) (h : key ≠ other) :
    get? (put entries key v) other = get? entries other := by
  rw [get?_put, if_neg h]

theorem keys_put_of_mem {entries : Entries κ α} {key : κ} (v : α) (h : key ∈ keys entries) :
    keys (put entries key v) = keys entries := by
  induction entries with
  | nil => simp [keys] at h
  | cons entry rest ih =>
    obtain ⟨k, w⟩ := entry
    rw [put]
    -- The value is put where the key stands first.
    by_cases hk : k = key
    · rw [if_pos (by simpa using hk)]
      rfl
    · rw [if_neg (by simpa using hk)]
      have hrest : key ∈ keys rest := by
        rcases List.mem_cons.mp h with heq | hrest
        · exact absurd heq.symm hk
        · exact hrest
      show k :: keys (put rest key v) = k :: keys rest
      rw [ih hrest]

/-- The list of keys only grows by a key that is new, and at its end. -/
theorem keys_put (entries : Entries κ α) (key : κ) (v : α) :
    keys (put entries key v)
      = if has entries key then keys entries else keys entries ++ [key] := by
  by_cases h : key ∈ keys entries
  · rw [if_pos (has_iff.mpr h), keys_put_of_mem v h]
  · rw [if_neg (fun hhas => h (has_iff.mp hhas)), put_of_not_mem v h]
    simp [keys]

/-- The keys afterwards are those before and the one that was put. -/
theorem mem_keys_put {entries : Entries κ α} {key other : κ} {v : α} :
    other ∈ keys (put entries key v) ↔ other = key ∨ other ∈ keys entries := by
  rw [← isSome_get?_iff, get?_put, ← isSome_get?_iff]
  by_cases h : key = other
  · simp [h]
  · simp [h, Ne.symm h]

/-- Distinct keys stay distinct, because a key that is present is overwritten. -/
theorem nodup_keys_put {entries : Entries κ α} (h : (keys entries).Nodup) (key : κ) (v : α) :
    (keys (put entries key v)).Nodup := by
  by_cases hmem : key ∈ keys entries
  · rwa [keys_put_of_mem v hmem]
  · rw [put_of_not_mem v hmem, keys, List.map_append]
    exact List.nodup_append.mpr ⟨h, by simp, by
      intro a ha b hb heq
      simp only [List.map_cons, List.map_nil, List.mem_singleton] at hb
      exact hmem (hb ▸ heq ▸ ha)⟩

/-- An entry of the list afterwards is the one that was put, or was there before. -/
theorem mem_put {entries : Entries κ α} {key : κ} {v : α} {entry : κ × α}
    (h : entry ∈ put entries key v) : entry = (key, v) ∨ entry ∈ entries := by
  induction entries with
  | nil => exact Or.inl (by simpa [put] using h)
  | cons first rest ih =>
    obtain ⟨k, w⟩ := first
    rw [put] at h
    by_cases hk : k = key
    · rw [if_pos (by simpa using hk), hk] at h
      rcases List.mem_cons.mp h with heq | hrest
      · exact Or.inl heq
      · exact Or.inr (List.mem_cons_of_mem _ hrest)
    · rw [if_neg (by simpa using hk)] at h
      rcases List.mem_cons.mp h with heq | hrest
      · exact Or.inr (heq ▸ List.mem_cons_self)
      · exact (ih hrest).imp id (List.mem_cons_of_mem _)

/-- A value that stands under its key already is put without effect. -/
theorem put_eq_self {entries : Entries κ α} {key : κ} {v : α} (h : get? entries key = some v) :
    put entries key v = entries := by
  induction entries with
  | nil => simp at h
  | cons entry rest ih =>
    obtain ⟨k, w⟩ := entry
    rw [get?_cons] at h
    rw [put]
    by_cases hk : k = key
    · rw [if_pos hk] at h
      cases h
      rw [if_pos (by simpa using hk)]
    · rw [if_neg hk] at h
      rw [if_neg (by simpa using hk), ih h]

/-! ## Taking away

Only the first entry of a key is taken away. That is all of them where the keys are distinct. -/

/-- A key that is not there is not taken away. -/
theorem erase_eq_self {entries : Entries κ α} {key : κ} (h : get? entries key = none) :
    erase entries key = entries := by
  induction entries with
  | nil => rfl
  | cons entry rest ih =>
    obtain ⟨k, w⟩ := entry
    rw [get?_cons] at h
    by_cases hk : k = key
    · simp [hk] at h
    · rw [if_neg hk] at h
      rw [erase, if_neg (by simpa using hk), ih h]

theorem get?_erase_of_ne (entries : Entries κ α) {key other : κ} (h : key ≠ other) :
    get? (erase entries key) other = get? entries other := by
  induction entries with
  | nil => rfl
  | cons entry rest ih =>
    obtain ⟨k, w⟩ := entry
    rw [erase]
    by_cases hk : k = key
    · rw [if_pos (by simpa using hk), get?_cons, if_neg (hk ▸ h)]
    · rw [if_neg (by simpa using hk), get?_cons, get?_cons, ih]

/-- Where the keys are distinct, a key that was taken away reads as nothing. -/
theorem get?_erase_self {entries : Entries κ α} (h : (keys entries).Nodup) (key : κ) :
    get? (erase entries key) key = none := by
  induction entries with
  | nil => rfl
  | cons entry rest ih =>
    obtain ⟨k, w⟩ := entry
    rw [keys, List.map_cons, List.nodup_cons] at h
    rw [erase]
    by_cases hk : k = key
    · rw [if_pos (by simpa using hk)]
      exact get?_eq_none_iff.mpr (hk ▸ h.1)
    · rw [if_neg (by simpa using hk), get?_cons, if_neg hk]
      exact ih h.2

/-! ## Putting many

`putAll` goes through the pairs from the left, so a pair that comes later overwrites: reading the
result is reading the pairs from the right, then the entries before. -/

omit [LawfulBEq κ] [DecidableEq κ] in
theorem putAll_cons (entries : Entries κ α) (pair : κ × α) (more : List (κ × α)) :
    putAll entries (pair :: more) = putAll (put entries pair.1 pair.2) more := rfl

omit [LawfulBEq κ] [DecidableEq κ] in
/-- Putting two lists is putting one after the other. -/
theorem putAll_append (entries : Entries κ α) (first second : List (κ × α)) :
    putAll entries (first ++ second) = putAll (putAll entries first) second :=
  List.foldl_append

omit [LawfulBEq κ] [DecidableEq κ] in
/-- The last pair is put last, and so wins over those of the same key. -/
theorem ofList_concat (pairs : List (κ × α)) (pair : κ × α) :
    ofList (pairs ++ [pair]) = put (ofList pairs) pair.1 pair.2 :=
  putAll_append [] pairs [pair]

/-- The last pair of a key answers for it; without one the entries before do. -/
theorem get?_putAll (entries : Entries κ α) (more : List (κ × α)) (key : κ) :
    get? (putAll entries more) key = (get? more.reverse key).or (get? entries key) := by
  induction more generalizing entries with
  | nil => rfl
  | cons pair more ih =>
    rw [putAll_cons, ih, get?_put, List.reverse_cons, get?_append, Option.or_assoc]
    congr 1
    rw [get?_cons]
    split <;> rfl

theorem get?_ofList (pairs : List (κ × α)) (key : κ) :
    get? (ofList pairs) key = get? pairs.reverse key := by
  rw [ofList, get?_putAll, get?_nil, Option.or_none]

/-- Distinct keys stay distinct, whatever is put. -/
theorem nodup_keys_putAll {entries : Entries κ α} (h : (keys entries).Nodup)
    (more : List (κ × α)) : (keys (putAll entries more)).Nodup := by
  induction more generalizing entries with
  | nil => exact h
  | cons pair more ih => exact ih (nodup_keys_put h pair.1 pair.2)

/-- A keyed list that was made of pairs has each key once. -/
theorem nodup_keys_ofList (pairs : List (κ × α)) : (keys (ofList pairs)).Nodup :=
  nodup_keys_putAll (show (keys ([] : Entries κ α)).Nodup from List.nodup_nil) pairs

/-- Each entry comes from somewhere: from the pairs, or from the entries before. -/
theorem mem_putAll {entries : Entries κ α} {more : List (κ × α)} {entry : κ × α}
    (h : entry ∈ putAll entries more) : entry ∈ more ∨ entry ∈ entries := by
  induction more generalizing entries with
  | nil => exact Or.inr h
  | cons pair more ih =>
    rcases ih h with hmore | hput
    · exact Or.inl (List.mem_cons_of_mem _ hmore)
    · rcases mem_put hput with heq | hentry
      · exact Or.inl (heq ▸ List.mem_cons_self)
      · exact Or.inr hentry

/-- Each entry is one of the pairs it was made of. -/
theorem mem_ofList {pairs : List (κ × α)} {entry : κ × α} (h : entry ∈ ofList pairs) :
    entry ∈ pairs :=
  (mem_putAll h).resolve_right List.not_mem_nil

omit [DecidableEq κ] in
/-- Pairs whose keys are distinct and new are added at the end as they are. -/
theorem putAll_of_disjoint {entries : Entries κ α} {more : List (κ × α)}
    (hmore : (keys more).Nodup) (hnew : ∀ key ∈ keys more, key ∉ keys entries) :
    putAll entries more = entries ++ more := by
  induction more generalizing entries with
  | nil => rw [List.append_nil]; rfl
  | cons pair more ih =>
    obtain ⟨key, v⟩ := pair
    have hkey : key ∉ keys entries := hnew key List.mem_cons_self
    rw [keys, List.map_cons, List.nodup_cons] at hmore
    rw [putAll_cons, put_of_not_mem v hkey, ih hmore.2, List.append_assoc, List.singleton_append]
    intro other hother hmem
    rw [keys, List.map_append, List.mem_append] at hmem
    rcases hmem with hbefore | hself
    · exact hnew other (List.mem_cons_of_mem _ hother) hbefore
    · rw [List.map_singleton, List.mem_singleton] at hself
      exact hmore.1 (hself ▸ hother)

omit [DecidableEq κ] in
/-- Pairs with distinct keys are entries already. -/
theorem ofList_of_nodup {pairs : List (κ × α)} (h : (keys pairs).Nodup) : ofList pairs = pairs :=
  putAll_of_disjoint h (fun _ _ => List.not_mem_nil)

/-- Where the pairs have distinct keys, the pair of a key answers for it. -/
theorem get?_putAll_of_nodup (entries : Entries κ α) {more : List (κ × α)}
    (h : (keys more).Nodup) (key : κ) :
    get? (putAll entries more) key = (get? more key).or (get? entries key) := by
  rw [get?_putAll, ← get?_ofList, ofList_of_nodup h]

omit [LawfulBEq κ] [DecidableEq κ] in
/-- Entries put one after another are the entries of all pairs together. -/
theorem putAll_ofList (first second : List (κ × α)) :
    putAll (ofList first) second = ofList (first ++ second) :=
  (putAll_append [] first second).symm

/-! ## The entries of some keys

Leaving out all entries of some keys agrees with putting, as an entry is kept for its key alone. -/

omit [DecidableEq κ] in
/-- Of some keys, an entry that is put either is one of theirs or changes none of theirs. -/
theorem filter_put (entries : Entries κ α) (kept : κ → Bool) (key : κ) (v : α) :
    (put entries key v).filter (fun entry => kept entry.1)
      = if kept key then put (entries.filter fun entry => kept entry.1) key v
        else entries.filter fun entry => kept entry.1 := by
  induction entries with
  | nil => cases hkey : kept key <;> simp [put, hkey]
  | cons entry rest ih =>
    obtain ⟨k, w⟩ := entry
    rw [put]
    by_cases hk : k = key
    · subst hk
      cases hkept : kept k <;> simp [put, hkept]
    · have hne : (k == key) = false := by simpa using hk
      cases hkept : kept k <;> cases hkey : kept key <;>
        simp [hne, hkept, ih, hkey, put]

omit [DecidableEq κ] in
/-- Of many pairs, those that would be left out need not be put. -/
theorem filter_putAll (entries : Entries κ α) (more : List (κ × α)) (kept : κ → Bool) :
    (putAll entries more).filter (fun entry => kept entry.1)
      = putAll (entries.filter fun entry => kept entry.1)
          (more.filter fun entry => kept entry.1) := by
  induction more generalizing entries with
  | nil => rfl
  | cons pair more ih =>
    rw [putAll_cons, ih, filter_put, List.filter_cons]
    split
    · rw [putAll_cons]
    · rfl

/-- A key reads as before among the entries of some keys, if it is one of them. -/
theorem get?_filter_keys (entries : Entries κ α) (kept : κ → Bool) (key : κ) :
    get? (entries.filter fun entry => kept entry.1) key
      = if kept key then get? entries key else none := by
  induction entries with
  | nil => simp
  | cons entry rest ih =>
    obtain ⟨k, w⟩ := entry
    rw [List.filter_cons, get?_cons]
    by_cases hk : k = key
    · subst hk
      cases hkept : kept k <;> simp [hkept, ih, get?_cons]
    · cases hkept : kept k <;> simp [hk, ih, get?_cons]

/-! ## The last pair of each key

A list of pairs is put from the left, but what remains of it can be told without putting: the keys
in the order of their first pairs, with what the last pairs hold. -/

/-- Each key once, where it first stands, with what its last pair holds. -/
def latest (pairs : List (κ × α)) : List (κ × α) :=
  (pairs.map (·.1)).eraseDups.filterMap fun key => pairs.reverse.find? (·.1 == key)

theorem keys_ofList (pairs : List (κ × α)) :
    keys (ofList pairs) = (pairs.map (·.1)).eraseDups := by
  induction pairs using List.reverseRecOn with
  | nil => rfl
  | append_singleton pairs pair ih =>
    rw [ofList_concat, keys_put, ih, List.map_append, List.eraseDups_append, ← ih]
    by_cases hmem : pair.1 ∈ pairs.map (·.1)
    · have hhas : pair.1 ∈ keys (ofList pairs) := by rw [ih]; exact List.mem_eraseDups.mpr hmem
      rw [if_pos (has_iff.mpr hhas)]
      simp [List.removeAll, hmem]
    · have hhas : pair.1 ∉ keys (ofList pairs) := by
        rw [ih]; exact fun h => hmem (List.mem_eraseDups.mp h)
      rw [if_neg (fun h => hhas (has_iff.mp h))]
      simp [List.removeAll, hmem, List.eraseDups_cons]

/-- Entries with distinct keys are what their keys read as, in order. -/
theorem eq_filterMap_keys {entries : Entries κ α} (h : (keys entries).Nodup) :
    entries = (keys entries).filterMap fun key => (get? entries key).map fun v => (key, v) := by
  induction entries with
  | nil => rfl
  | cons entry rest ih =>
    obtain ⟨key, v⟩ := entry
    have hrest := h
    rw [keys, List.map_cons, List.nodup_cons] at hrest
    rw [keys, List.map_cons, List.filterMap_cons_some (b := (key, v)) (by simp [get?_cons])]
    congr 1
    conv_lhs => rw [ih hrest.2]
    apply List.filterMap_congr
    intro other hother
    have hne : key ≠ other := fun heq => hrest.1 (heq ▸ hother)
    rw [get?_cons, if_neg hne]

/-- A key reads as the first entry that is found for it. -/
theorem get?_eq_find? (entries : Entries κ α) (key : κ) :
    (get? entries key).map (fun v => (key, v)) = entries.find? (·.1 == key) := by
  induction entries with
  | nil => rfl
  | cons entry rest ih =>
    obtain ⟨k, v⟩ := entry
    rw [get?_cons, List.find?_cons]
    by_cases h : k = key
    · simp [h]
    · have hne : (k == key) = false := by simpa using h
      rw [if_neg h, ih, hne]

/-- **Each key once.** Of several pairs of one key the last one counts, at the place of the
first. -/
theorem ofList_eq_latest (pairs : List (κ × α)) : ofList pairs = latest pairs := by
  rw [eq_filterMap_keys (nodup_keys_ofList pairs), keys_ofList, latest]
  apply List.filterMap_congr
  intro key _
  rw [get?_ofList, get?_eq_find?]

/-! ## Other keys and values

Keys can be renamed, if that keeps distinct keys distinct, and values replaced. -/

section

variable {κ' β : Type} [BEq κ'] {f : κ → κ'} (hf : ∀ a b, (f a == f b) = (a == b)) (g : α → β)

include hf

omit [LawfulBEq κ] [DecidableEq κ] in
/-- Renaming and replacing before an entry is put or after it is the same. -/
theorem put_map (entries : Entries κ α) (key : κ) (v : α) :
    put (entries.map (Prod.map f g)) (f key) (g v) = (put entries key v).map (Prod.map f g) := by
  induction entries with
  | nil => rfl
  | cons entry rest ih =>
    obtain ⟨k, w⟩ := entry
    rw [List.map_cons, Prod.map_apply, put, put, hf, ih]
    split <;> rfl

omit [LawfulBEq κ] [DecidableEq κ] in
/-- Keys may be renamed and values replaced before or after the pairs are put, as long as the same
keys are equal. -/
theorem ofList_map (pairs : List (κ × α)) :
    ofList (pairs.map (Prod.map f g)) = (ofList pairs).map (Prod.map f g) := by
  induction pairs using List.reverseRecOn with
  | nil => rfl
  | append_singleton pairs pair ih =>
    rw [List.map_append, List.map_singleton, ofList_concat, ofList_concat, ih]
    exact put_map hf g (ofList pairs) pair.1 pair.2

end

/-! ## Values that are replaced key by key

The value that replaces another one may depend on its key. Nothing that asks for keys sees the
difference. -/

section

variable {β : Type} (f : κ → α → β)

/-- Replaces each value in view of its key. -/
def mapValues (entries : Entries κ α) : Entries κ β :=
  entries.map fun entry => (entry.1, f entry.1 entry.2)

/-- A key reads as what its value is replaced by. -/
theorem get?_mapValues (entries : Entries κ α) (key : κ) :
    get? (mapValues f entries) key = (get? entries key).map (f key) := by
  induction entries with
  | nil => rfl
  | cons entry rest ih =>
    obtain ⟨k, v⟩ := entry
    rw [mapValues, List.map_cons, get?_cons, get?_cons]
    split
    · next heq => rw [heq, Option.map_some]
    · exact ih

omit [BEq κ] [LawfulBEq κ] [DecidableEq κ] in
/-- The keys are the same, in the same order. -/
theorem keys_mapValues (entries : Entries κ α) : keys (mapValues f entries) = keys entries := by
  rw [keys, mapValues, List.map_map]
  rfl

omit [DecidableEq κ] in
/-- Replacing before an entry is put or after it is the same. -/
theorem put_mapValues (entries : Entries κ α) (key : κ) (v : α) :
    put (mapValues f entries) key (f key v) = mapValues f (put entries key v) := by
  induction entries with
  | nil => rfl
  | cons entry rest ih =>
    obtain ⟨k, w⟩ := entry
    rw [mapValues, List.map_cons, put, put]
    split
    · next heq =>
      obtain rfl : k = key := beq_iff_eq.mp heq
      rfl
    · exact congrArg _ ih

omit [LawfulBEq κ] [DecidableEq κ] in
/-- Replacing before a key is taken away or after it is the same. -/
theorem erase_mapValues (entries : Entries κ α) (key : κ) :
    erase (mapValues f entries) key = mapValues f (erase entries key) := by
  induction entries with
  | nil => rfl
  | cons entry rest ih =>
    obtain ⟨k, w⟩ := entry
    rw [mapValues, List.map_cons, erase, erase]
    split
    · rfl
    · exact congrArg _ ih

omit [DecidableEq κ] in
/-- Replacing before pairs are put or after it is the same. -/
theorem ofList_mapValues (pairs : List (κ × α)) :
    ofList (mapValues f pairs) = mapValues f (ofList pairs) := by
  induction pairs using List.reverseRecOn with
  | nil => rfl
  | append_singleton pairs pair ih =>
    rw [mapValues, List.map_append, List.map_singleton, ofList_concat, ofList_concat, ← mapValues,
      ih]
    exact put_mapValues f (ofList pairs) pair.1 pair.2

omit [BEq κ] [LawfulBEq κ] [DecidableEq κ] in
/-- Replacing before entries are left out or after it is the same. -/
theorem filter_mapValues (entries : Entries κ α) (kept : κ → Bool) :
    (mapValues f entries).filter (fun entry => kept entry.1)
      = mapValues f (entries.filter fun entry => kept entry.1) :=
  List.filter_map

omit [BEq κ] [LawfulBEq κ] [DecidableEq κ] in
theorem isEmpty_mapValues (entries : Entries κ α) :
    (mapValues f entries).isEmpty = entries.isEmpty :=
  List.isEmpty_map

end

end Ramlify.Entries

/-! ## Members that are put unless there is nothing in them

Most members of a definition are only written if there is something to write. They are put by
`putGiven`, and `Value.given?` tells whether that does anything. -/

/-- A value as it is kept: not at all if there is nothing in it. -/
def Ramlify.Value.given? (v : Value) : Option Value := if v.isVacant then none else some v

/-- A value is kept if there is something in it, and as it is. -/
theorem Ramlify.Value.given?_eq_some_iff {v w : Value} :
    v.given? = some w ↔ v = w ∧ w.isVacant = false := by
  unfold given?
  split
  · next hvacant =>
    refine ⟨nofun, ?_⟩
    rintro ⟨rfl, hgiven⟩
    exact absurd (hvacant.symm.trans hgiven) nofun
  · next hgiven =>
    rw [Option.some_inj]
    refine ⟨?_, And.left⟩
    rintro rfl
    exact ⟨rfl, Bool.eq_false_iff.mpr hgiven⟩

namespace Ramlify.Members

/-- A value that is found is that of a member, unless it is null. -/
theorem get?_of_find {members : Members} {name : String} {v : Value}
    (h : Members.find members name = v) (hv : v ≠ .null) : Entries.get? members name = some v := by
  rw [Members.find] at h
  cases hget : Entries.get? members name with
  | none =>
    rw [hget] at h
    exact absurd h.symm hv
  | some w =>
    rw [hget] at h
    exact congrArg some h

/-- A member reads as what was given, and as before if there was nothing in that. -/
theorem get?_putGiven (m : Members) (name : String) (v : Value) (other : String) :
    Entries.get? (m.putGiven name v) other
      = if name = other then v.given?.or (Entries.get? m name) else Entries.get? m other := by
  unfold putGiven Value.given?
  split
  · split
    · next hname => rw [hname, Option.none_or]
    · rfl
  · exact Entries.get?_put m name v other

theorem get?_putGiven_of_ne (m : Members) {name other : String} (v : Value) (h : name ≠ other) :
    Entries.get? (m.putGiven name v) other = Entries.get? m other := by
  unfold putGiven
  split
  · rfl
  · exact Entries.get?_put_of_ne m v h

/-- A member that may be missing reads as it was given, if it was not there before. -/
theorem get?_putGiven_self {m : Members} {name : String} {v : Option Value}
    (hnew : Entries.get? m name = none) (hv : ∀ w ∈ v, w.isVacant = false) :
    Entries.get? (m.putGiven name (v.getD .null)) name = v := by
  cases v with
  | none => exact hnew
  | some w =>
    rw [Option.getD_some, putGiven, if_neg (by rw [hv w rfl]; exact Bool.false_ne_true)]
    exact Entries.get?_put_self m name w

/-- A member that was not there before reads as it was given, if it was kept. -/
theorem get?_putGiven_of_new {m : Members} {name : String} (hnew : Entries.get? m name = none)
    (v : Value) : Entries.get? (m.putGiven name v) name = v.given? := by
  unfold putGiven Value.given?
  split
  · exact hnew
  · exact Entries.get?_put_self m name v

/-- Of some names, a member that may be missing either is one of theirs or changes none of
theirs. -/
theorem filter_putGiven (m : Members) (kept : String → Bool) (name : String) (v : Value) :
    (m.putGiven name v).filter (fun member => kept member.1)
      = if kept name then Members.putGiven (m.filter fun member => kept member.1) name v
        else m.filter fun member => kept member.1 := by
  unfold putGiven
  split
  · split <;> rfl
  · exact Entries.filter_put m kept name v

/-- At most the name that was given comes in. -/
theorem mem_keys_putGiven {m : Members} {name other : String} {v : Value}
    (h : other ∈ Entries.keys (m.putGiven name v)) : other = name ∨ other ∈ Entries.keys m := by
  unfold putGiven at h
  split at h
  · exact Or.inr h
  · exact Entries.mem_keys_put.mp h

theorem nodup_keys_putGiven {m : Members} (h : (Entries.keys m).Nodup) (name : String)
    (v : Value) : (Entries.keys (m.putGiven name v)).Nodup := by
  unfold putGiven
  split
  · exact h
  · exact Entries.nodup_keys_put h name v

end Ramlify.Members
