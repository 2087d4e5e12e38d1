import Ramlify.Proofs.Entries
import Ramlify.Proofs.Text.Split
import Ramlify.World.Files

/-!
# Ramlify — what a file name leads to

A name is followed part by part, from folder to folder. What it leads to depends on the places that
it passes: each of them has to be a folder, and only the last part may lead to something else.

* **`follow_folder_iff`** — the names that lead to a folder, by induction on the parts.
* **`exists_of_follow`** — a file or a free place is looked up in the last folder.
* **`follow_missing`** — a folder on the way that is not there makes a name missing.
-/

namespace Ramlify

namespace Location

/-- Where one more part of a name leads if its folder exists. -/
def next (place : Location) (part : String) : Location :=
  if part = ".." then place.parent else place.child part

/-- The places to which the parts of a name give a name, one after another. Going up names none. -/
def passed (place : Location) : List String → List Location
  | [] => []
  | part :: rest =>
    if part = ".." then passed place.parent rest
    else place.child part :: passed (place.child part) rest

/-- The place of a name is found part by part. -/
theorem ofPath_eq (path : Path) : ofPath path = path.parts.foldl next (start path) := rfl

/-- The last part of a name names a child of the place before it. -/
theorem ofPath_concat {path : Path} {init : List String} {name : String}
    (hparts : path.parts = init ++ [name]) (hup : name ≠ "..") :
    ofPath path = (init.foldl next (start path)).child name := by
  rw [ofPath_eq, hparts, List.foldl_append]
  exact if_neg hup

/-- One more part passes one more place, unless it goes up. -/
theorem passed_concat (parts : List String) (name : String) (place : Location) :
    passed place (parts ++ [name])
      = passed place parts
        ++ if name = ".." then [] else [(parts.foldl next place).child name] := by
  induction parts generalizing place with
  | nil => rfl
  | cons part parts ih =>
    rw [List.cons_append, passed, passed, List.foldl_cons, next]
    split
    · exact ih place.parent
    · rw [ih (place.child part)]
      rfl

end Location

namespace Path

/-- A character of a name is a slash or one of a part. -/
theorem mem_intercalate {c : Char} {parts : List String}
    (h : c ∈ ("/".intercalate parts).toList) : c = '/' ∨ ∃ part ∈ parts, c ∈ part.toList := by
  induction parts with
  | nil => cases h
  | cons part parts ih =>
    -- The last part has no slash after it.
    by_cases hparts : parts = []
    · subst hparts
      rw [String.intercalate_singleton] at h
      exact .inr ⟨part, List.mem_singleton_self part, h⟩
    · rw [String.intercalate_cons_of_ne_nil hparts, String.toList_append, String.toList_append,
        List.mem_append, List.mem_append] at h
      rcases h with (hpart | hslash) | hrest
      · exact .inr ⟨part, List.mem_cons_self, hpart⟩
      · exact .inl (List.mem_singleton.mp hslash)
      · obtain hslash | ⟨other, hmem, hother⟩ := ih hrest
        · exact .inl hslash
        · exact .inr ⟨other, List.mem_cons_of_mem part hmem, hother⟩

/-- A name that the system takes: it has no zero, and is not too long as a whole. -/
structure Fits (path : Path) : Prop where
  noZero : '\x00' ∉ path.text.toList
  short : path.text.utf8ByteSize < Files.nameLimit

/-- A name that is taken apart has no characters of its own, but for slashes and points. -/
theorem noZero_parse {s : String} (h : '\x00' ∉ s.toList) :
    '\x00' ∉ (Path.parse s).text.toList := by
  -- The parts are fields of the text.
  have hparts : ∀ part ∈ (Path.parse s).parts, '\x00' ∉ part.toList := by
    intro part hmem hzero
    rw [parse, List.mem_filter, List.mem_map] at hmem
    obtain ⟨⟨field, hfield, rfl⟩, _⟩ := hmem
    rw [String.toList_ofList] at hzero
    exact h (Text.mem_of_mem_split hfield hzero)
  have hroot : '\x00' ∉ (Path.parse s).root.toList := by
    show '\x00' ∉ (rootOf _).toList
    unfold rootOf
    split <;> decide
  unfold text
  split
  · decide
  · rw [String.toList_append, List.mem_append, not_or]
    refine ⟨hroot, fun hzero => ?_⟩
    rcases mem_intercalate hzero with hslash | ⟨part, hmem, hpart⟩
    · cases hslash
    · exact hparts part hmem hpart

/-- A name is written as the name of its folder, with more after it. -/
theorem exists_text_concat {root : String} {parts : List String} (name : String)
    (h : ¬ (root.isEmpty && parts.isEmpty) = true) :
    ∃ more, text { root, parts := parts ++ [name] } = text { root, parts } ++ more := by
  have hmore : (parts ++ [name]).isEmpty = false := by simp
  simp only [text, hmore, Bool.and_false, Bool.false_eq_true, if_false, if_neg h]
  cases parts with
  | nil => exact ⟨name, by simp⟩
  | cons part parts =>
    refine ⟨"/" ++ name, ?_⟩
    rw [String.intercalate_append_of_ne_nil (List.cons_ne_nil part parts)
      (List.cons_ne_nil name []), String.intercalate_singleton, String.append_assoc,
      String.append_assoc]

/-- A name without its last part has no other characters. -/
theorem noZero_concat {root name : String} {parts : List String}
    (h : '\x00' ∉ (text { root, parts := parts ++ [name] }).toList) :
    '\x00' ∉ (text { root, parts }).toList := by
  by_cases hempty : root.isEmpty && parts.isEmpty
  · -- The current folder is written with a point, its files without it.
    rw [show text { root, parts } = "." from if_pos hempty]
    decide
  · obtain ⟨more, htext⟩ := exists_text_concat name hempty
    rw [htext, String.toList_append, List.mem_append, not_or] at h
    exact h.1

/-- A name without its last part is taken as well. -/
theorem Fits.concat {root name : String} {parts : List String}
    (h : Fits { root, parts := parts ++ [name] }) : Fits { root, parts } := by
  refine ⟨noZero_concat h.noZero, ?_⟩
  by_cases hempty : root.isEmpty && parts.isEmpty
  · rw [show text { root, parts } = "." from if_pos hempty]
    decide
  · obtain ⟨more, htext⟩ := exists_text_concat name hempty
    have hshort := h.short
    rw [htext, String.utf8ByteSize_append] at hshort
    omega

end Path

namespace Files

open Location (next passed)

variable {files : Files}

/-! ## Following a name

A part of a name leads from a folder to what stands there: a file, a folder or nothing. From a file or
a free place no part leads on. -/

theorem lookUp_cases (files : Files) (place : Location) :
    (∃ content, Entries.get? files.contents place = some content
      ∧ files.lookUp place = .file place content)
    ∨ (Entries.get? files.contents place = none ∧ files.isFolder place = true
      ∧ files.lookUp place = .folder place)
    ∨ (Entries.get? files.contents place = none ∧ files.isFolder place = false
      ∧ files.lookUp place = .free place) := by
  unfold lookUp
  cases hget : Entries.get? files.contents place with
  | some content => exact .inl ⟨content, rfl, rfl⟩
  | none =>
    cases hfolder : files.isFolder place with
    | true => exact .inr (.inl ⟨rfl, rfl, rfl⟩)
    | false => exact .inr (.inr ⟨rfl, rfl, rfl⟩)

theorem place_of_file {place p : Location} {content : String}
    (h : files.lookUp p = .file place content) : place = p := by
  rcases files.lookUp_cases p with ⟨_, _, hlook⟩ | ⟨_, _, hlook⟩ | ⟨_, _, hlook⟩
  all_goals
    rw [hlook] at h
    cases h
  rfl

theorem place_of_free {place p : Location} (h : files.lookUp p = .free place) : place = p := by
  rcases files.lookUp_cases p with ⟨_, _, hlook⟩ | ⟨_, _, hlook⟩ | ⟨_, _, hlook⟩
  all_goals
    rw [hlook] at h
    cases h
  rfl

/-- A folder is found at its own place, if no file stands there. -/
theorem lookUp_folder_iff {p folder : Location} :
    files.lookUp p = .folder folder
      ↔ folder = p ∧ Entries.get? files.contents p = none ∧ files.isFolder p = true := by
  rcases files.lookUp_cases p with
    ⟨content, hget, hlook⟩ | ⟨hget, hfolder, hlook⟩ | ⟨hget, hfolder, hlook⟩
  · simp [hlook, hget]
  · simp [hlook, hget, hfolder, eq_comm]
  · simp [hlook, hget, hfolder]

/-- A part of a name that is not too long. -/
def IsShort (part : String) : Prop := part = ".." ∨ part.utf8ByteSize ≤ partLimit

theorem follow_up (place : Location) :
    files.follow (.folder place) ".." = .ok (.folder place.parent) := rfl

/-- Any other part leads to what stands under it. -/
theorem follow_name {part : String} (hup : part ≠ "..") (hshort : IsShort part)
    (place : Location) :
    files.follow (.folder place) part = .ok (files.lookUp (place.child part)) := by
  have hlimit : ¬ partLimit < part.utf8ByteSize := Nat.not_lt.mpr (hshort.resolve_left hup)
  simp only [follow, if_neg hup, if_neg hlimit]

/-- A part that leads somewhere is not too long. -/
theorem isShort_of_follow {place : Location} {part : String} {target : Target}
    (h : files.follow (.folder place) part = .ok target) : IsShort part := by
  by_cases hup : part = ".."
  · exact .inl hup
  · by_cases hlimit : partLimit < part.utf8ByteSize
    · simp only [follow, if_neg hup, if_pos hlimit] at h
      cases h
    · exact .inr (Nat.not_lt.mp hlimit)

theorem follow_file {place : Location} {content : String} {parts : List String} {target : Target}
    (h : parts.foldlM files.follow (.file place content) = .ok target) :
    target = .file place content := by
  cases parts with
  | nil =>
    cases h
    rfl
  | cons part parts =>
    rw [List.foldlM_cons] at h
    cases h

/-- From a free place nothing leads anywhere else. -/
theorem follow_free {place : Location} {parts : List String} {target : Target}
    (h : parts.foldlM files.follow (.free place) = .ok target) : target = .free place := by
  cases parts with
  | nil =>
    cases h
    rfl
  | cons part parts =>
    rw [List.foldlM_cons] at h
    cases h

/-- **Names that lead to a folder** are those that only pass folders. -/
theorem follow_folder_iff {parts : List String} {place folder : Location} :
    parts.foldlM files.follow (.folder place) = .ok (.folder folder)
      ↔ folder = parts.foldl next place ∧ (∀ part ∈ parts, IsShort part)
        ∧ ∀ p ∈ passed place parts,
          Entries.get? files.contents p = none ∧ files.isFolder p = true := by
  induction parts generalizing place with
  | nil =>
    constructor
    · intro h
      cases h
      exact ⟨rfl, nofun, nofun⟩
    · rintro ⟨rfl, _, _⟩
      rfl
  | cons part parts ih =>
    rw [List.foldlM_cons, List.foldl_cons, List.forall_mem_cons, passed]
    by_cases hup : part = ".."
    · subst hup
      have hshort : IsShort ".." := .inl rfl
      rw [follow_up, if_pos rfl]
      show parts.foldlM files.follow (.folder place.parent) = _ ↔ _
      rw [ih]
      simp [hshort, next]
    · rw [if_neg hup, List.forall_mem_cons]
      by_cases hshort : IsShort part
      · rw [follow_name hup hshort]
        show parts.foldlM files.follow (files.lookUp (place.child part)) = _ ↔ _
        have hnext : next place part = place.child part := if_neg hup
        rw [hnext]
        -- The part leads to a file, to a folder or to nothing, and only from a folder the others
        -- lead on.
        rcases files.lookUp_cases (place.child part) with
          ⟨content, hget, hlook⟩ | ⟨hget, hfolder, hlook⟩ | ⟨hget, hfolder, hlook⟩
        · rw [hlook]
          refine iff_of_false (fun h => ?_) (fun h => ?_)
          · cases follow_file h
          · rw [hget] at h
            exact absurd h.2.2.1.1 nofun
        · rw [hlook, ih]
          simp [hshort, hget, hfolder]
        · rw [hlook]
          refine iff_of_false (fun h => ?_) (fun h => ?_)
          · cases follow_free h
          · rw [hfolder] at h
            exact absurd h.2.2.1.2 nofun
      · refine iff_of_false (fun h => ?_) (fun h => hshort h.2.1.1)
        cases hfollow : files.follow (.folder place) part with
        | ok target => exact hshort (isShort_of_follow hfollow)
        | error fault =>
          rw [hfollow] at h
          cases h

/-- What is no folder is looked up in the folder that the parts before the last one lead to. -/
theorem exists_of_follow {parts : List String} {place : Location} {target : Target}
    (h : parts.foldlM files.follow (.folder place) = .ok target)
    (hfolder : ∀ folder, target ≠ .folder folder) :
    ∃ init name, parts = init ++ [name] ∧ name ≠ ".." ∧ IsShort name
      ∧ init.foldlM files.follow (.folder place) = .ok (.folder (init.foldl next place))
      ∧ target = files.lookUp ((init.foldl next place).child name) := by
  rcases List.eq_nil_or_concat parts with rfl | ⟨init, name, rfl⟩
  · cases h
    exact absurd rfl (hfolder place)
  · rw [List.concat_eq_append, List.foldlM_append] at h
    cases hinit : init.foldlM files.follow (.folder place) with
    | error fault =>
      rw [hinit] at h
      cases h
    | ok reached =>
      rw [hinit] at h
      replace h : [name].foldlM files.follow reached = .ok target := h
      cases reached with
      | file found content => cases h
      | free found => cases h
      | folder folder =>
        have hreached := (follow_folder_iff.mp hinit).1
        rw [List.foldlM_cons] at h
        cases hfollow : files.follow (.folder folder) name with
        | error fault =>
          rw [hfollow] at h
          cases h
        | ok last =>
          rw [hfollow] at h
          cases h
          have hshort := isShort_of_follow hfollow
          -- Going up leads to a folder, and this is none.
          have hup : name ≠ ".." := by
            rintro rfl
            cases hfollow
            exact hfolder _ rfl
          rw [follow_name hup hshort] at hfollow
          cases hfollow
          subst hreached
          exact ⟨init, name, List.concat_eq_append, hup, hshort, hinit, rfl⟩

/-- A name is missing if one of the folders before its last part is. -/
theorem follow_missing {parts : List String} {place : Location} (name : String)
    (hshort : ∀ part ∈ parts, IsShort part)
    (hnone : ∀ p ∈ passed place parts, Entries.get? files.contents p = none)
    (hmissing : ¬ ∀ p ∈ passed place parts, files.isFolder p = true) :
    (parts ++ [name]).foldlM files.follow (.folder place) = .error .missing := by
  induction parts generalizing place with
  | nil => exact absurd nofun hmissing
  | cons part parts ih =>
    rw [List.cons_append, List.foldlM_cons]
    rw [List.forall_mem_cons] at hshort
    rw [passed] at hnone hmissing
    by_cases hup : part = ".."
    · rw [if_pos hup] at hnone hmissing
      subst hup
      exact ih hshort.2 hnone hmissing
    · rw [if_neg hup, List.forall_mem_cons] at hnone hmissing
      rw [follow_name hup hshort.1]
      rcases files.lookUp_cases (place.child part) with
        ⟨content, hget, hlook⟩ | ⟨hget, hfolder, hlook⟩ | ⟨hget, hfolder, hlook⟩
      · rw [hnone.1] at hget
        cases hget
      · rw [hlook]
        exact ih hshort.2 hnone.2 fun hall => hmissing ⟨hfolder, hall⟩
      · -- Nothing is there, and at least the last part is left to follow.
        rw [hlook]
        show (parts ++ [name]).foldlM files.follow (.free (place.child part)) = .error .missing
        cases parts <;> rfl

/-! ## Finding

A name is followed if the system takes it. What goes wrong on the way is told with the name. -/

/-- A name that fits is followed from its start. -/
theorem find_of_fits {path : Path} (h : path.Fits) :
    files.find path
      = failed path (path.parts.foldlM files.follow (.folder (Location.start path))) := by
  rw [find, if_neg (fun hmem => h.noZero (List.contains_iff_mem.mp hmem)), locate,
    if_neg (Nat.not_le.mpr h.short)]

/-- A name leads somewhere if it fits and its parts do. -/
theorem find_eq_ok_iff {path : Path} {target : Target} :
    files.find path = .ok target
      ↔ path.Fits
        ∧ path.parts.foldlM files.follow (.folder (Location.start path)) = .ok target := by
  -- The two things that are asked of a name are asked before it is followed.
  by_cases hzero : '\x00' ∈ path.text.toList
  · refine iff_of_false (fun h => ?_) (fun h => h.1.noZero hzero)
    rw [find, if_pos (List.contains_iff_mem.mpr hzero)] at h
    cases h
  · by_cases hshort : path.text.utf8ByteSize < nameLimit
    · have hfits : path.Fits := ⟨hzero, hshort⟩
      rw [find_of_fits hfits]
      cases path.parts.foldlM files.follow (.folder (Location.start path)) with
      | error fault => exact iff_of_false nofun fun h => nomatch h.2
      | ok found =>
        constructor
        · rintro ⟨⟩
          exact ⟨hfits, rfl⟩
        · rintro ⟨_, ⟨⟩⟩
          rfl
    · refine iff_of_false (fun h => ?_) (fun h => hshort h.1.short)
      rw [find, if_neg (fun hmem => hzero (List.contains_iff_mem.mp hmem)), locate,
        if_pos (Nat.not_lt.mp hshort)] at h
      cases h

/-- What is found and no folder lies at the place of the name, in folders that are there. -/
theorem exists_of_find {path : Path} {target : Target} (h : files.find path = .ok target)
    (hfolder : ∀ folder, target ≠ .folder folder) :
    path.Fits ∧ target = files.lookUp (Location.ofPath path)
      ∧ ∃ init name, path.parts = init ++ [name] ∧ name ≠ ".." ∧ IsShort name
        ∧ Location.ofPath path = (init.foldl next (Location.start path)).child name
        ∧ init.foldlM files.follow (.folder (Location.start path))
          = .ok (.folder (init.foldl next (Location.start path))) := by
  obtain ⟨hfits, hfollow⟩ := find_eq_ok_iff.mp h
  obtain ⟨init, name, hparts, hup, hshort, hinit, rfl⟩ := exists_of_follow hfollow hfolder
  have hplace := Location.ofPath_concat hparts hup
  exact ⟨hfits, by rw [hplace], init, name, hparts, hup, hshort, hplace, hinit⟩

/-- A name in folders that are there leads to what lies at its place. -/
theorem find_eq_lookUp {path : Path} {init : List String} {name : String} (hfits : path.Fits)
    (hparts : path.parts = init ++ [name]) (hup : name ≠ "..") (hshort : IsShort name)
    (hinit : init.foldlM files.follow (.folder (Location.start path))
      = .ok (.folder (init.foldl next (Location.start path)))) :
    files.find path = .ok (files.lookUp (Location.ofPath path)) := by
  rw [find_eq_ok_iff]
  refine ⟨hfits, ?_⟩
  rw [hparts, List.foldlM_append, hinit, Location.ofPath_concat hparts hup]
  show (files.follow _ name >>= fun target => [].foldlM files.follow target) = _
  rw [follow_name hup hshort]
  rfl

/-- A name without a zero is not found for a fault of the name. -/
theorem find_fault {path : Path} (hzero : '\x00' ∉ path.text.toList) {failure : Failure}
    (h : files.find path = .error failure) : ∃ fault, failure = .file fault path.shown := by
  rw [find, if_neg (fun hmem => hzero (List.contains_iff_mem.mp hmem))] at h
  cases hlocate : files.locate path with
  | ok target =>
    rw [hlocate] at h
    cases h
  | error fault =>
    rw [hlocate] at h
    cases h
    exact ⟨fault, rfl⟩

/-- The test whether a name leads to a folder. -/
theorem leadsToFolder_iff {path : Path} :
    files.leadsToFolder path = true ↔ ∃ folder, files.find path = .ok (.folder folder) := by
  unfold leadsToFolder
  split
  · next folder hfind => exact iff_of_true rfl ⟨folder, hfind⟩
  · next hfind => exact iff_of_false nofun fun ⟨folder, h⟩ => hfind folder h

end Files

end Ramlify
