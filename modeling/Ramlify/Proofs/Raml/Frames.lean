import Ramlify.Proofs.Outcome
import Ramlify.Proofs.Raml.AnnotationNames
import Ramlify.Raml.Method

/-!
# Ramlify — what a step leaves as it is

Declarations and definitions are made step by step. A step writes a few members of fixed names, and
it may write annotations; `Frames` says that all other members stay, in their order. So what one
step wrote is found at the end, if no step after it writes the same name (**`Frames.get?`**).
-/

namespace Ramlify.Raml

/-- Neither one of some names nor the name of an annotation. -/
def Spared (names : List String) (name : String) : Prop := name ∉ names ∧ Unmarked name

/-- Members that came of others by writing nothing but some names and annotations. -/
structure Frames (names : List String) (m m' : Members) : Prop where
  kept : ∀ kept : String → Bool, (∀ name, kept name = true → Spared names name) →
    m'.filter (fun member => kept member.1) = m.filter fun member => kept member.1
  nodup : (Entries.keys m).Nodup → (Entries.keys m').Nodup

namespace Frames

variable {names : List String} {m m' m'' : Members}

/-- A member that was not written reads as before. -/
theorem get? (h : Frames names m m') (name : String) (hname : name ∉ names)
    (hplain : Unmarked name) : Entries.get? m' name = Entries.get? m name := by
  have hsame := h.kept (· == name) fun other hother => by
    rw [beq_iff_eq.mp hother]
    exact ⟨hname, hplain⟩
  have hread : ∀ members : Members, Entries.get? members name
      = Entries.get? (members.filter fun member => member.1 == name) name := by
    intro members
    rw [Entries.get?_filter_keys members (· == name), if_pos (beq_self_eq_true name)]
  rw [hread m', hsame, ← hread m]

theorem refl (names : List String) (m : Members) : Frames names m m := ⟨fun _ _ => rfl, id⟩

/-- One step after another writes what either of them does. -/
theorem trans (h : Frames names m m') (h' : Frames names m' m'') : Frames names m m'' where
  kept := fun kept hkept => (h'.kept kept hkept).trans (h.kept kept hkept)
  nodup := fun hnodup => h'.nodup (h.nodup hnodup)

/-- A step that spares more names also spares fewer. -/
theorem mono (h : Frames names m m') {more : List String} (hsub : names ⊆ more) :
    Frames more m m' where
  kept := fun kept hkept => h.kept kept fun name hname =>
    ⟨fun hmem => (hkept name hname).1 (hsub hmem), (hkept name hname).2⟩
  nodup := h.nodup

/-- Putting a member spares those of other names. -/
theorem put_of_not_spared {name : String} (hname : ¬ Spared names name) (m : Members) (v : Value) :
    Frames names m (Entries.put m name v) where
  kept := fun kept hkept => by
    rw [Entries.filter_put, if_neg fun hmem => hname (hkept name hmem)]
  nodup := fun hnodup => Entries.nodup_keys_put hnodup name v

theorem put {name : String} (hname : name ∈ names) (m : Members) (v : Value) :
    Frames names m (Entries.put m name v) :=
  put_of_not_spared (fun hspared => hspared.1 hname) m v

theorem putGiven {name : String} (hname : name ∈ names) (m : Members) (v : Value) :
    Frames names m (Members.putGiven m name v) := by
  unfold Members.putGiven
  split
  · exact refl names m
  · exact put hname m v

/-! ## Annotations

Annotations are never among the members that are looked for, so writing them counts as writing
nothing. -/

theorem annotated (a : Annotations) (m : Members) (kind : String) (v : Value) :
    Frames names m (a.annotate m kind v).1 := by
  unfold Annotations.annotate
  split
  · exact put_of_not_spared (fun hspared => hspared.2 kind rfl) m v
  · exact refl names m

variable {a a' : Annotations}

/-- Writing one annotation as a part of a pass. -/
theorem annotate {kind : String} {v : Value} (h : Raml.annotate m kind v a = .ok (m', a')) :
    Frames names m m' := by
  have hrun : a.annotate m kind v = (m', a') := Except.ok.inj h
  have hframes : Frames names m (a.annotate m kind v).1 := annotated a m kind v
  rwa [hrun] at hframes

/-- Writing an annotation where there is something to write. -/
theorem annotateGiven {kind : String} {v : Value}
    (h : Raml.annotateGiven m kind v a = .ok (m', a')) : Frames names m m' := by
  unfold Raml.annotateGiven at h
  split at h
  · cases h
    exact refl names m
  · exact annotate h

/-- Writing several annotations, by induction over them. -/
theorem annotateAll {extensions : Members}
    (h : Raml.annotateAll m extensions a = .ok (m', a')) : Frames names m m' := by
  have hrun : a.annotateAll m extensions = (m', a') := Except.ok.inj h
  have hframes : Frames names m (a.annotateAll m extensions).1 := by
    unfold Annotations.annotateAll
    -- One extension after another, each from what the one before it left.
    clear hrun h
    induction extensions generalizing a m with
    | nil => exact refl names m
    | cons extension extensions ih =>
      rw [List.foldl_cons]
      exact (annotated a m extension.1 extension.2).trans ih
  rwa [hrun] at hframes

end Frames

end Ramlify.Raml
