import Ramlify.Proofs.World.Names

/-!
# Ramlify — where a file can be written

The folders that are missing on the way to a file are made first. So a name is of use if none of its
folders is a file and if no folder is at its end, not even one that was made on the way.

* **`ensureParts_ok`**, **`ensureFolder_iff`** — when folders can be made, by induction on the
  depth.
* **`find_of_write`** — a file that was written is found under its name.
* **`write_iff`** — when a file can be written after its folders were made.
-/

namespace Ramlify.Files

open Location (next passed)

variable {files : Files}

/-! ## Making folders

A folder is made with all folders it is in. First the outermost one that is missing is made, then
the next, so that the proofs go by induction on the number of parts. Files are never touched. -/

/-- A name all of whose parts are or can be folders, as none of them is a file. -/
structure IsPassable (files : Files) (path : Path) : Prop where
  fits : path.Fits
  short : ∀ part ∈ path.parts, IsShort part
  noFile : ∀ p ∈ passed (Location.start path) path.parts, Entries.get? files.contents p = none

/-- Only the files decide whether a name is passable, the folders do not. -/
theorem IsPassable.congr {others : Files} {path : Path} (h : IsPassable files path)
    (hcontents : files.contents = others.contents) : IsPassable others path :=
  ⟨h.fits, h.short, hcontents ▸ h.noFile⟩

/-- With a name the folder that it is in is passable as well. -/
theorem IsPassable.concat {root name : String} {parts : List String}
    (h : IsPassable files { root, parts := parts ++ [name] }) :
    IsPassable files { root, parts } where
  fits := h.fits.concat
  short := fun part hmem => h.short part (List.mem_append_left _ hmem)
  noFile := fun p hmem => h.noFile p (by
    rw [Location.passed_concat]
    exact List.mem_append_left _ hmem)

/-- If all folders on the way are there, a passable name leads to the last of them. -/
theorem IsPassable.find_folder {path : Path} (h : IsPassable files path)
    (hall : ∀ p ∈ passed (Location.start path) path.parts, files.isFolder p = true) :
    files.find path = .ok (.folder (Location.ofPath path)) := by
  refine find_eq_ok_iff.mpr ⟨h.fits, ?_⟩
  exact follow_folder_iff.mpr ⟨rfl, h.short, fun p hp => ⟨h.noFile p hp, hall p hp⟩⟩

/-- A name that leads anywhere but to a file is passable. -/
theorem isPassable_of_find {path : Path} {target : Target} (h : files.find path = .ok target)
    (hfile : ∀ place content, target ≠ .file place content) : IsPassable files path := by
  obtain ⟨hfits, hfollow⟩ := find_eq_ok_iff.mp h
  cases htarget : target with
  | file place content => exact absurd htarget (hfile place content)
  -- To a folder all parts lead through folders, and a folder is no file.
  | folder folder =>
    rw [htarget] at hfollow
    obtain ⟨_, hshort, hpassed⟩ := follow_folder_iff.mp hfollow
    exact ⟨hfits, hshort, fun p hp => (hpassed p hp).1⟩
  | free place =>
    -- All parts but the last lead to a folder, and at the last one nothing stands.
    obtain ⟨init, name, hparts, hup, hname, hinit, hlook⟩ :=
      exists_of_follow hfollow (by rw [htarget]; exact nofun)
    obtain ⟨_, hshort, hpassed⟩ := follow_folder_iff.mp hinit
    have hnone : Entries.get? files.contents
        ((init.foldl next (Location.start path)).child name) = none := by
      rcases files.lookUp_cases ((init.foldl next (Location.start path)).child name) with
        ⟨content, _, hfound⟩ | ⟨hget, _⟩ | ⟨hget, _⟩
      · rw [htarget, hfound] at hlook
        cases hlook
      · exact hget
      · exact hget
    refine ⟨hfits, ?_, ?_⟩
    · rw [hparts]
      intro part hmem
      rcases List.mem_append.mp hmem with hmem | hmem
      · exact hshort part hmem
      · rw [List.mem_singleton.mp hmem]
        exact hname
    · rw [hparts, Location.passed_concat, if_neg hup]
      intro p hmem
      rcases List.mem_append.mp hmem with hmem | hmem
      · exact (hpassed p hmem).1
      · rw [List.mem_singleton.mp hmem]
        exact hnone

/-- Making a folder leaves the files as they are. -/
theorem makeFolder_contents (files : Files) (path : Path) :
    (files.makeFolder path).1.contents = files.contents := by
  unfold makeFolder
  split <;> rfl

/-- Whether a folder was there is only looked up. -/
theorem orPresent_fst (path : Path) (made : Files × Outcome Unit) :
    (orPresent path made).1 = made.1 := by
  obtain ⟨files, _ | _⟩ := made <;> rfl

/-- Making folders leaves the files as they are, also where it fails on the way. -/
theorem ensureParts_contents (files : Files) (root : String) (depth : Nat) (parts : List String) :
    (files.ensureParts root depth parts).1.contents = files.contents := by
  induction depth generalizing files parts with
  | zero =>
    rw [ensureParts, orPresent_fst]
    exact makeFolder_contents files _
  | succ depth ih =>
    have hmade := makeFolder_contents files { root, parts }
    rw [ensureParts]
    split
    · next others name hmissing =>
      rw [hmissing] at hmade
      -- The folder it is in was missing: it is made first, and then this one is tried again.
      have hinit := ih others parts.dropLast
      split
      · next made hok =>
        rw [hok] at hinit
        rw [orPresent_fst, makeFolder_contents, hinit, hmade]
      · next made failure hfails =>
        rw [hfails] at hinit
        rw [hinit, hmade]
    · rw [orPresent_fst]
      exact hmade

/-- Making a folder with those it is in leaves the files as they are. -/
theorem ensureFolder_contents (files : Files) (path : Path) :
    (files.ensureFolder path).1.contents = files.contents :=
  ensureParts_contents files path.root path.parts.length path.parts

/-- What is there after folders were made: the files as before, and these folders as well. -/
structure Makes (files after : Files) (path : Path) : Prop where
  contents : after.contents = files.contents
  isFolder : ∀ p, after.isFolder p = true
    ↔ files.isFolder p = true ∨ p ∈ passed (Location.start path) path.parts

/-- A new folder is there, and the others still are. -/
theorem isFolder_made (files : Files) (place p : Location) :
    Files.isFolder { files with folders := files.folders ++ [place] } p = true
      ↔ files.isFolder p = true ∨ p = place := by
  simp only [isFolder, Bool.or_eq_true, List.contains_iff_mem, List.mem_append,
    List.mem_singleton]
  tauto

/-- Where all folders are there already, none is made. -/
theorem Makes.refl {path : Path}
    (h : ∀ p ∈ passed (Location.start path) path.parts, files.isFolder p = true) :
    Makes files files path :=
  ⟨rfl, fun p => ⟨.inl, fun hp => hp.elim id (h p)⟩⟩

/-- A name in folders that are there leads to a folder, or to a place where one can be made. -/
theorem find_passable {root name : String} {init : List String}
    (h : IsPassable files { root, parts := init ++ [name] })
    (hinit : ∀ p ∈ passed (Location.start { root }) init, files.isFolder p = true) :
    (∃ folder, files.find { root, parts := init ++ [name] } = .ok (.folder folder)
      ∧ ∀ p ∈ passed (Location.start { root }) (init ++ [name]), files.isFolder p = true)
    ∨ ∃ place, files.find { root, parts := init ++ [name] } = .ok (.free place)
      ∧ ∀ p, p ∈ passed (Location.start { root }) (init ++ [name])
        ↔ p ∈ passed (Location.start { root }) init ∨ p = place := by
  -- Either the last folder is there too, or the place for it is free: a file cannot be there.
  by_cases hall : ∀ p ∈ passed (Location.start { root }) (init ++ [name]), files.isFolder p = true
  · exact .inl ⟨_, h.find_folder hall, hall⟩
  · have hpassed := Location.passed_concat init name (Location.start { root })
    have hup : name ≠ ".." := by
      rintro rfl
      rw [hpassed, if_pos rfl, List.append_nil] at hall
      exact hall hinit
    rw [if_neg hup] at hpassed
    have hfolder : init.foldlM files.follow (.folder (Location.start { root }))
        = .ok (.folder (init.foldl next (Location.start { root }))) :=
      follow_folder_iff.mpr
        ⟨rfl, h.concat.short, fun p hp => ⟨h.concat.noFile p hp, hinit p hp⟩⟩
    have hfind := find_eq_lookUp h.fits rfl hup (h.short name (by simp)) hfolder
    rw [Location.ofPath_concat rfl hup] at hfind
    have hmem : ∀ p, p ∈ passed (Location.start { root }) (init ++ [name])
        ↔ p ∈ passed (Location.start { root }) init
          ∨ p = (init.foldl next (Location.start { root })).child name := by
      intro p
      rw [hpassed, List.mem_append, List.mem_singleton]
    -- At the last place stands no file, since the name is passable, and no folder, since not all
    -- are there.
    rcases files.lookUp_cases ((init.foldl next (Location.start { root })).child name) with
      ⟨content, hget, _⟩ | ⟨_, hthere, _⟩ | ⟨_, _, hlook⟩
    · have hnone := h.noFile _ ((hmem _).mpr (.inr rfl))
      rw [hnone] at hget
      cases hget
    · refine absurd (fun p hp => ?_) hall
      rcases (hmem p).mp hp with hp | rfl
      · exact hinit p hp
      · exact hthere
    · exact .inr ⟨_, hfind.trans (congrArg _ hlook), hmem⟩

/-- A name in folders that are not all there is missing. -/
theorem makeFolder_missing {root name : String} {init : List String}
    (h : IsPassable files { root, parts := init ++ [name] })
    (hinit : ¬ ∀ p ∈ passed (Location.start { root }) init, files.isFolder p = true) :
    files.makeFolder { root, parts := init ++ [name] }
      = (files, .error (.file .missing (Path.shown { root, parts := init ++ [name] }))) := by
  have hfollow : (init ++ [name]).foldlM files.follow (.folder (Location.start { root }))
      = .error .missing := follow_missing name h.concat.short h.concat.noFile hinit
  have hfind : files.find { root, parts := init ++ [name] }
      = .error (.file .missing (Path.shown { root, parts := init ++ [name] })) := by
    rw [find_of_fits h.fits]
    show failed _ ((init ++ [name]).foldlM files.follow (.folder (Location.start { root }))) = _
    rw [hfollow]
    rfl
  simp only [makeFolder, hfind]

/-- A folder that is there need not be made. -/
theorem orPresent_of_folder {path : Path} {folder : Location}
    (h : files.find path = .ok (.folder folder)) :
    files.makeFolder path = (files, .error (.file .exists path.shown))
      ∧ ∀ failure, orPresent path (files, .error failure) = (files, .ok ()) := by
  constructor
  · simp only [makeFolder, h]
  · intro failure
    rw [orPresent, if_pos (leadsToFolder_iff.mpr ⟨folder, h⟩)]

/-- A folder is made in folders that are there. -/
theorem orPresent_ok {root name : String} {init : List String}
    (h : IsPassable files { root, parts := init ++ [name] })
    (hinit : ∀ p ∈ passed (Location.start { root }) init, files.isFolder p = true) :
    ∃ after, orPresent { root, parts := init ++ [name] }
        (files.makeFolder { root, parts := init ++ [name] }) = (after, .ok ())
      ∧ Makes files after { root, parts := init ++ [name] } := by
  -- The folder is there already, or its place is free.
  rcases find_passable h hinit with ⟨folder, hfind, hfolder⟩ | ⟨place, hfind, hplace⟩
  · obtain ⟨hmade, hpresent⟩ := orPresent_of_folder hfind
    rw [hmade, hpresent]
    exact ⟨files, rfl, .refl hfolder⟩
  · refine ⟨{ files with folders := files.folders ++ [place] }, ?_, rfl, fun p => ?_⟩
    · simp only [makeFolder, hfind, orPresent]
    · rw [isFolder_made]
      show _ ↔ _ ∨ p ∈ passed (Location.start { root }) (init ++ [name])
      rw [hplace p]
      constructor
      · rintro (hp | rfl)
        · exact .inl hp
        · exact .inr (.inr rfl)
      · rintro (hp | hp | rfl)
        · exact .inl hp
        · exact .inl (hinit p hp)
        · exact .inr rfl

/-- **Folders are made as far as they are missing** if no file is in their way. By induction on the
depth: a folder that cannot be made yet can be made once the one it is in is there. -/
theorem ensureParts_ok {root : String} {depth : Nat} {parts : List String}
    (hdepth : parts.length = depth) (h : IsPassable files { root, parts }) :
    ∃ after, files.ensureParts root depth parts = (after, .ok ())
      ∧ Makes files after { root, parts } := by
  induction depth generalizing parts with
  | zero =>
    rw [List.length_eq_zero_iff] at hdepth
    subst hdepth
    obtain ⟨hmade, hpresent⟩ := orPresent_of_folder (h.find_folder nofun)
    rw [ensureParts, hmade, hpresent]
    exact ⟨files, rfl, .refl nofun⟩
  | succ depth ih =>
    rcases List.eq_nil_or_concat parts with rfl | ⟨init, name, rfl⟩
    · cases hdepth
    · rw [List.concat_eq_append] at h hdepth ⊢
      -- If the folders around are there, only the last one is made. Otherwise making it fails at
      -- first, and the induction hypothesis gives those around it.
      by_cases hinit : ∀ p ∈ passed (Location.start { root }) init, files.isFolder p = true
      · obtain ⟨after, hpresent, hmakes⟩ := orPresent_ok h hinit
        refine ⟨after, ?_, hmakes⟩
        rw [← hpresent]
        rcases find_passable h hinit with ⟨folder, hfind, _⟩ | ⟨place, hfind, _⟩
        · rw [ensureParts, (orPresent_of_folder hfind).1]
        · have hmade : files.makeFolder { root, parts := init ++ [name] }
              = ({ files with folders := files.folders ++ [place] }, .ok ()) := by
            simp only [makeFolder, hfind]
          rw [ensureParts, hmade]
      · have hmissing := makeFolder_missing h hinit
        have hlength : init.length = depth := by simpa using hdepth
        obtain ⟨made, hmade, hmakes⟩ := ih hlength h.concat
        have hpassable := h.congr hmakes.contents.symm
        have hthere : ∀ p ∈ passed (Location.start { root }) init, made.isFolder p = true :=
          fun p hp => (hmakes.isFolder p).mpr (.inr hp)
        obtain ⟨after, hpresent, hmakes'⟩ := orPresent_ok hpassable hthere
        refine ⟨after, ?_, hmakes'.contents.trans hmakes.contents, fun p => ?_⟩
        · rw [ensureParts, hmissing, List.dropLast_concat]
          simp only [hmade, hpresent]
        · rw [hmakes'.isFolder, hmakes.isFolder]
          show _ ↔ _ ∨ p ∈ passed (Location.start { root }) (init ++ [name])
          have hmore : p ∈ passed (Location.start { root }) init →
              p ∈ passed (Location.start { root }) (init ++ [name]) := by
            intro hp
            rw [Location.passed_concat]
            exact List.mem_append_left _ hp
          exact ⟨fun hp => hp.elim (fun hp => hp.imp id hmore) .inr,
            fun hp => hp.imp .inl id⟩

/-- Along a passable name all folders can be made. -/
theorem ensureFolder_ok {path : Path} (h : IsPassable files path) :
    ∃ after, files.ensureFolder path = (after, .ok ()) ∧ Makes files after path :=
  ensureParts_ok rfl h

/-- If a folder could not be made and this is no error, it was there before. -/
theorem exists_of_orPresent {path : Path} {failure : Failure}
    (h : (orPresent path (files, .error failure)).2 = .ok ()) :
    ∃ folder, files.find path = .ok (.folder folder) := by
  rw [← leadsToFolder_iff]
  by_contra hno
  rw [orPresent, if_neg hno] at h
  cases h

/-- If making a folder is no error, its name is passable. -/
theorem isPassable_of_orPresent {path : Path}
    (h : (orPresent path (files.makeFolder path)).2 = .ok ()) : IsPassable files path := by
  unfold makeFolder at h
  split at h
  · next place hfree => exact isPassable_of_find hfree nofun
  · obtain ⟨folder, hfolder⟩ := exists_of_orPresent h
    exact isPassable_of_find hfolder nofun
  · obtain ⟨folder, hfolder⟩ := exists_of_orPresent h
    exact isPassable_of_find hfolder nofun

/-- **When folders can be made**, whatever is there already. -/
theorem ensureFolder_iff {path : Path} :
    (files.ensureFolder path).2 = .ok () ↔ IsPassable files path := by
  constructor
  · intro h
    -- Each way in which all folders are made ends in one step that makes the last of them.
    obtain ⟨root, parts⟩ := path
    rw [ensureFolder] at h
    replace h : (files.ensureParts root parts.length parts).2 = .ok () := h
    cases hdepth : parts.length with
    | zero =>
      rw [hdepth, ensureParts] at h
      exact isPassable_of_orPresent h
    | succ depth =>
      rw [hdepth, ensureParts] at h
      have hsame := makeFolder_contents files { root, parts }
      split at h
      · next others name hmissing =>
        have hcontents := ensureParts_contents others root depth parts.dropLast
        rw [hmissing] at hsame
        split at h
        · next made hok =>
          rw [hok] at hcontents
          exact (isPassable_of_orPresent h).congr (hcontents.trans hsame)
        · cases h
      · exact isPassable_of_orPresent h
  · intro h
    obtain ⟨after, hmade, _⟩ := ensureFolder_ok h
    rw [hmade]

/-! ## Faults

All that can go wrong with a name without a zero character is a fault of a file (`FileFault`), told
with the name. -/

/-- A name of a file that cannot be found or used. -/
def IsFault (failure : Failure) : Prop := ∃ fault name, failure = .file fault name

/-- If a folder is not made, its name is at fault. -/
theorem isFault_of_makeFolder {path : Path} (hzero : '\x00' ∉ path.text.toList)
    {failure : Failure} (h : (files.makeFolder path).2 = .error failure) : IsFault failure := by
  unfold makeFolder at h
  split at h
  · cases h
  · cases h
    exact ⟨_, _, rfl⟩
  · next found hfind =>
    obtain ⟨fault, hfault⟩ := find_fault hzero hfind
    cases h
    exact ⟨fault, _, hfault⟩

/-- To look whether a folder is there hides faults, but it brings no others. -/
theorem isFault_of_orPresent {path : Path} {made : Files × Outcome Unit}
    (hmade : ∀ failure, made.2 = .error failure → IsFault failure) {failure : Failure}
    (h : (orPresent path made).2 = .error failure) : IsFault failure := by
  obtain ⟨files, _ | _⟩ := made
  · next found =>
    rw [orPresent] at h
    by_cases hfolder : files.leadsToFolder path = true
    · rw [if_pos hfolder] at h
      cases h
    · rw [if_neg hfolder] at h
      cases h
      exact hmade _ rfl
  · cases h

/-- If a folder is not made, that is a fault of its name or of the name of a folder it is in. -/
theorem isFault_of_ensureParts {root : String} {depth : Nat} {parts : List String}
    (hzero : '\x00' ∉ (Path.text { root, parts }).toList) {failure : Failure}
    (h : (files.ensureParts root depth parts).2 = .error failure) : IsFault failure := by
  induction depth generalizing files parts with
  | zero => exact isFault_of_orPresent (fun _ => isFault_of_makeFolder hzero) h
  | succ depth ih =>
    rw [ensureParts] at h
    split at h
    · next others name hmissing =>
      split at h
      · exact isFault_of_orPresent (fun _ => isFault_of_makeFolder hzero) h
      · next made found hfails =>
        -- The folder around is reported under its own name, which has no zero character either.
        have hinit : '\x00' ∉ (Path.text { root, parts := parts.dropLast }).toList := by
          rcases List.eq_nil_or_concat parts with rfl | ⟨init, name, rfl⟩
          · exact hzero
          · rw [List.concat_eq_append, List.dropLast_concat]
            exact Path.noZero_concat (List.concat_eq_append ▸ hzero)
        cases h
        exact ih hinit (congrArg Prod.snd hfails)
    · exact isFault_of_orPresent (fun _ => isFault_of_makeFolder hzero) h

/-- If a file is not written, its name is at fault. -/
theorem isFault_of_write {path : Path} (hzero : '\x00' ∉ path.text.toList) {content : String}
    {failure : Failure} (h : (files.write path content).2 = .error failure) :
    IsFault failure := by
  unfold write at h
  split at h
  · cases h
  · cases h
  · cases h
    exact ⟨_, _, rfl⟩
  · next found hfind =>
    obtain ⟨fault, hfault⟩ := find_fault hzero hfind
    cases h
    exact ⟨fault, _, hfault⟩

/-! ## Writing files

A file is written to its place, whatever name led there. The place is the one the name spells,
because a name that leads to no folder only goes through folders that are there. -/

/-- Writing a file leaves the folders as they are. -/
theorem isFolder_put {place p : Location} {content : String} (h : files.isFolder p = true) :
    (files.put place content).isFolder p = true := by
  simp only [isFolder, Bool.or_eq_true, List.any_eq_true] at h ⊢
  refine h.imp id fun ⟨file, hmem, hwithin⟩ => ?_
  -- Files that lay in the folder still do, perhaps with another content.
  have hkey : file.1 ∈ Entries.keys (put files place content).contents :=
    Entries.mem_keys_put.mpr (.inr (List.mem_map_of_mem hmem))
  obtain ⟨other, hother, hsame⟩ := List.mem_map.mp hkey
  exact ⟨other, hother, by rw [hsame, hwithin]⟩

/-- Either a name leads to a file or to a free place, and the file is put there, or nothing changes
and writing fails. -/
theorem write_cases (files : Files) (path : Path) (content : String) :
    (∃ target, files.find path = .ok target ∧ (∀ folder, target ≠ .folder folder)
      ∧ files.write path content = (files.put (Location.ofPath path) content, .ok ()))
    ∨ (∀ target, files.find path = .ok target → ∃ folder, target = .folder folder)
      ∧ ∃ failure, files.write path content = (files, .error failure) := by
  unfold write
  split
  · -- A file is replaced.
    next place old hfind =>
    obtain ⟨_, hlook, _⟩ := exists_of_find hfind nofun
    rw [← place_of_file hlook.symm]
    exact .inl ⟨_, hfind, nofun, rfl⟩
  · -- A file is added.
    next place hfind =>
    obtain ⟨_, hlook, _⟩ := exists_of_find hfind nofun
    rw [← place_of_free hlook.symm]
    exact .inl ⟨_, hfind, nofun, rfl⟩
  · -- Folders are not written to.
    next folder hfind =>
    refine .inr ⟨fun target htarget => ?_, _, rfl⟩
    rw [hfind] at htarget
    cases htarget
    exact ⟨folder, rfl⟩
  · next failure hfind =>
    refine .inr ⟨fun target htarget => ?_, _, rfl⟩
    rw [hfind] at htarget
    cases htarget

/-- What fails to be written leaves all files as they are. -/
theorem write_of_error {path : Path} {content : String} {failure : Failure}
    (h : (files.write path content).2 = .error failure) :
    files.write path content = (files, .error failure) := by
  rcases write_cases files path content with ⟨_, _, _, hwrite⟩ | ⟨_, found, hfails⟩
  · rw [hwrite] at h
    cases h
  · rw [hfails] at h ⊢
    cases h
    rfl

/-- **A file that was written** is found under its name. -/
theorem find_of_write {path : Path} {content : String} {after : Files}
    (h : files.write path content = (after, .ok ())) :
    after = files.put (Location.ofPath path) content
      ∧ after.find path = .ok (.file (Location.ofPath path) content) := by
  rcases write_cases files path content with
    ⟨target, hfind, htarget, hwrite⟩ | ⟨_, failure, hfails⟩
  · rw [hwrite] at h
    cases h
    refine ⟨rfl, ?_⟩
    obtain ⟨hfits, hlook, init, name, hparts, hup, hshort, _, hinit⟩ :=
      exists_of_find hfind htarget
    obtain ⟨_, hinitShort, hpassed⟩ := follow_folder_iff.mp hinit
    have hinit' : init.foldlM (put files (Location.ofPath path) content).follow
        (.folder (Location.start path))
          = .ok (.folder (init.foldl next (Location.start path))) := by
      refine follow_folder_iff.mpr ⟨rfl, hinitShort, fun p hp => ?_⟩
      obtain ⟨hnone, hfolder⟩ := hpassed p hp
      -- A folder that was passed is not the file that is written.
      have hne : Location.ofPath path ≠ p := by
        intro heq
        apply htarget p
        rw [hlook, heq, lookUp, hnone]
        exact if_pos hfolder
      exact ⟨(Entries.get?_put_of_ne _ _ hne).trans hnone, isFolder_put hfolder⟩
    rw [find_eq_lookUp hfits hparts hup hshort hinit', lookUp]
    simp only [put, Entries.get?_put_self]
  · rw [hfails] at h
    cases h

/-- A name under which a file can be written, once folders are made: none of its folders is a file,
it ends in the name of a file, and no folder is there. -/
structure IsWritable (files : Files) (path : Path) : Prop where
  fits : path.Fits
  short : ∀ part ∈ path.parts, IsShort part
  noFile : ∀ p ∈ passed (Location.start path) path.parts.dropLast,
    Entries.get? files.contents p = none
  named : ∃ name, path.parts.getLast? = some name ∧ name ≠ ".."
  noFolder : Entries.get? files.contents (Location.ofPath path) = none →
    files.isFolder (Location.ofPath path) = false
      ∧ Location.ofPath path ∉ passed (Location.start path) path.parts.dropLast

/-- The folder of a writable name can be made. -/
theorem IsWritable.isPassable {path : Path} (h : IsWritable files path) :
    IsPassable files path.parent where
  fits := by
    obtain ⟨name, hlast, _⟩ := h.named
    have hparts := List.dropLast_append_getLast? name hlast
    apply Path.Fits.concat
    show Path.Fits { root := path.root, parts := path.parts.dropLast ++ [name] }
    rw [hparts]
    exact h.fits
  short := fun part hmem => h.short part (List.dropLast_subset _ hmem)
  noFile := h.noFile

/-- **When a file can be written** after its folders were made. -/
theorem write_iff {path : Path} {made : Files} (h : IsPassable files path.parent)
    (hmakes : Makes files made path.parent) (content : String) :
    (made.write path content).2 = .ok () ↔ IsWritable files path := by
  have hinit : path.parts.dropLast.foldlM made.follow (.folder (Location.start path))
      = .ok (.folder (path.parts.dropLast.foldl next (Location.start path))) := by
    refine follow_folder_iff.mpr ⟨rfl, h.short, fun p hp => ⟨?_, ?_⟩⟩
    · rw [hmakes.contents]
      exact h.noFile p hp
    · exact (hmakes.isFolder p).mpr (.inr hp)
  -- At the end of the name there is a folder if there was one, or if it was made on the way.
  have hfolder : (∀ folder, made.lookUp (Location.ofPath path) ≠ .folder folder)
      ↔ (Entries.get? files.contents (Location.ofPath path) = none →
        files.isFolder (Location.ofPath path) = false
          ∧ Location.ofPath path ∉ passed (Location.start path) path.parts.dropLast) := by
    have hthere := hmakes.isFolder (Location.ofPath path)
    simp only [ne_eq, lookUp_folder_iff, hmakes.contents, hthere, ← Bool.not_eq_true, ← not_or]
    exact ⟨fun hno hnone hyes => hno _ ⟨rfl, hnone, hyes⟩,
      fun hno folder hyes => hno hyes.2.1 hyes.2.2⟩
  constructor
  · intro hok
    rcases write_cases made path content with ⟨target, hfind, htarget, _⟩ | ⟨_, failure, hfails⟩
    · obtain ⟨hfits, hlook, init, name, hparts, hup, hshort, _⟩ := exists_of_find hfind htarget
      rw [hlook] at htarget
      refine ⟨hfits, fun part hmem => ?_, h.noFile, ⟨name, ?_, hup⟩, hfolder.mp htarget⟩
      · rw [hparts] at hmem
        rcases List.mem_append.mp hmem with hmem | hmem
        · apply h.short part
          show part ∈ path.parts.dropLast
          rw [hparts, List.dropLast_concat]
          exact hmem
        · rw [List.mem_singleton.mp hmem]
          exact hshort
      · rw [hparts, List.getLast?_concat]
    · rw [hfails] at hok
      cases hok
  · intro hwritable
    obtain ⟨name, hlast, hup⟩ := hwritable.named
    have hparts := (List.dropLast_append_getLast? name hlast).symm
    have hname : IsShort name := hwritable.short name (List.mem_of_getLast? hlast)
    have hfind := find_eq_lookUp hwritable.fits hparts hup hname hinit
    rcases write_cases made path content with ⟨_, _, _, hwrite⟩ | ⟨hfolders, _⟩
    · rw [hwrite]
    · obtain ⟨folder, hfound⟩ := hfolders _ hfind
      exact absurd hfound (hfolder.mpr hwritable.noFolder folder)

end Ramlify.Files
