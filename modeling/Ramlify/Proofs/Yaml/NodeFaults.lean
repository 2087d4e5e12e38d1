import Ramlify.Proofs.Yaml.TokenFaults
import Ramlify.Yaml.Node

/-!
# Ramlify — what nodes cannot be made for

Nodes are made from tokens. The tokens of a text come with the fault that ended them, and it comes up
where a token is asked for that is not there. Any other fault is one of form, so that a misuse is
always that of the tokens.

* **`Blame`** — what steps keep of their state, and what a misuse of theirs is blamed on. It is
  closed under the operations of the monad once, for making nodes and for making contents.
* **`Composing.nodesPass`** — all kinds of nodes at once, by induction on the depth.
* **`fault_of_ofChars`** — all nodes of a text.
-/

namespace Ramlify.Yaml

/-! ## Blame

Making nodes and making contents are both readings with a state. What is kept from state to state
differs, the way from parts of a reading to the whole does not: it is said once here, for anything
that is kept and blamed. -/

/-- What the steps of a reading keep of its state, and what a misuse is blamed on. Blame is passed
back to the states before. -/
structure Blame (σ : Type) where
  keeps : σ → σ → Prop
  on : σ → Misuse → Prop
  refl : ∀ s, keeps s s
  trans : ∀ {s s' s''}, keeps s s' → keeps s' s'' → keeps s s''
  back : ∀ {s s' misuse}, keeps s s' → on s' misuse → on s misuse

namespace Blame

variable {σ α β : Type} {b : Blame σ}

/-- A sequence runs its second part from where the first one ended. -/
theorem run_bind (p : StateT σ Reading α) (f : α → StateT σ Reading β) (s : σ) :
    (p >>= f) s = (p s >>= fun found => f found.1 found.2) := rfl

/-- A sequence that has a result has one of each part. -/
theorem bind_eq_ok {p : StateT σ Reading α} {f : α → StateT σ Reading β} {s s'' : σ} {c : β}
    (h : (p >>= f) s = .ok (c, s'')) : ∃ a s', p s = .ok (a, s') ∧ f a s' = .ok (c, s'') := by
  rw [run_bind] at h
  obtain ⟨⟨a, s'⟩, hp, hf⟩ := Outcome.bind_eq_ok.mp h
  exact ⟨a, s', hp, hf⟩

/-- A sequence that fails does so in its first part, or in its second one after a result of the
first. -/
theorem bind_eq_error {p : StateT σ Reading α} {f : α → StateT σ Reading β} {s : σ} {fault : Fault}
    (h : (p >>= f) s = .error fault) :
    p s = .error fault ∨ ∃ a s', p s = .ok (a, s') ∧ f a s' = .error fault := by
  rw [run_bind] at h
  obtain hp | ⟨⟨a, s'⟩, hp, hf⟩ := Outcome.bind_eq_error.mp h
  · exact .inl hp
  · exact .inr ⟨a, s', hp, hf⟩

/-- A reading that keeps what has to be kept from a state on, and whose misuse can be blamed on that
state. -/
structure Holds (b : Blame σ) (s : σ) (p : StateT σ Reading α) : Prop where
  keeps : ∀ a s', p s = .ok (a, s') → b.keeps s s'
  blamed : ∀ misuse, p s = .error (.misuse misuse) → b.on s misuse

namespace Holds

theorem pure (s : σ) (a : α) : b.Holds s (Pure.pure a) where
  keeps := fun _ _ h => by
    cases h
    exact b.refl s
  blamed := fun _ h => nomatch h

theorem malformed (s : σ) : b.Holds s (throw .malformed : StateT σ Reading α) where
  keeps := fun _ _ h => nomatch h
  blamed := fun _ h => nomatch h

/-- A sequence: the second part starts where the first one ended. A misuse of the second part is
passed back to the state before the first. -/
theorem bind {s : σ} {p : StateT σ Reading α} {f : α → StateT σ Reading β} (h : b.Holds s p)
    (hf : ∀ a s', p s = .ok (a, s') → b.Holds s' (f a)) : b.Holds s (p >>= f) where
  keeps := fun c s'' hrun => by
    obtain ⟨a, s', hp, hrest⟩ := bind_eq_ok hrun
    exact b.trans (h.keeps a s' hp) ((hf a s' hp).keeps c s'' hrest)
  blamed := fun misuse hrun => by
    rcases bind_eq_error hrun with hp | ⟨a, s', hp, hrest⟩
    · exact h.blamed misuse hp
    · exact b.back (h.keeps a s' hp) ((hf a s' hp).blamed misuse hrest)

theorem get (s : σ) : b.Holds s (MonadState.get : StateT σ Reading σ) where
  keeps := fun _ _ h => by
    cases h
    exact b.refl s
  blamed := fun _ h => nomatch h

/-- A change of the state has to keep what is kept. -/
theorem modify {s : σ} {f : σ → σ} (h : b.keeps s (f s)) :
    b.Holds s (modify f : StateT σ Reading Unit) where
  keeps := fun _ _ heq => by
    cases heq
    exact h
  blamed := fun _ heq => nomatch heq

theorem lift {s : σ} {r : Reading α} (h : ∀ misuse, r = .error (.misuse misuse) → b.on s misuse) :
    b.Holds s (liftM r : StateT σ Reading α) := by
  cases r with
  | error fault =>
    refine ⟨fun _ _ heq => ?_, fun misuse heq => h misuse ?_⟩
    · cases heq
    · cases heq
      rfl
  | ok a =>
    refine ⟨fun _ _ heq => ?_, fun misuse heq => ?_⟩
    · cases heq
      exact b.refl s
    · cases heq

/-- A reading without a state leaves the state as it is. -/
theorem lift_eq_ok {r : Reading α} {s s' : σ} {a : α}
    (h : (liftM r : StateT σ Reading α) s = .ok (a, s')) : r = .ok a ∧ s' = s := by
  cases r with
  | error fault => cases h
  | ok found =>
    cases h
    exact ⟨rfl, rfl⟩

/-- One item after another, by induction on the list. -/
theorem mapM {f : α → StateT σ Reading β} (hf : ∀ a s, b.Holds s (f a)) (items : List α) (s : σ) :
    b.Holds s (items.mapM f) := by
  induction items generalizing s with
  | nil => exact pure s []
  | cons item items ih =>
    rw [List.mapM_cons]
    exact (hf item s).bind fun _ s₁ _ => (ih s₁).bind fun _ s₂ _ => pure s₂ _

theorem forIn {f : α → PUnit → StateT σ Reading (ForInStep PUnit)}
    (hf : ∀ a s, b.Holds s (f a PUnit.unit)) (items : List α) (s : σ) :
    b.Holds s (ForIn.forIn items PUnit.unit f) := by
  induction items generalizing s with
  | nil => exact pure s PUnit.unit
  | cons item items ih =>
    rw [List.forIn_cons]
    refine (hf item s).bind fun step s₁ _ => ?_
    cases step with
    | done _ => exact pure s₁ _
    | yield _ => exact ih s₁

end Holds

end Blame

/-! ## Nodes

The tokens end with a fault that the composer has from its start, and no step changes it. So what is
kept is this fault, and a misuse is blamed on it. There is one lemma for each reading of nodes, and
they come together by induction on the depth, as the readings call each other. -/

namespace Composing

/-- Making nodes keeps the fault after the last token, and a misuse is that fault. -/
def blame : Blame Composer where
  keeps := fun s s' => s'.fault = s.fault
  on := fun s misuse => s.fault = .misuse misuse
  refl := fun _ => rfl
  trans := fun h h' => h'.trans h
  back := fun h hon => h.symm.trans hon

/-- A reading of tokens whose misuse is that of the tokens. -/
def Passes {α : Type} (p : Composing α) : Prop := ∀ s, blame.Holds s p

namespace Passes

variable {α β : Type}

theorem pure (a : α) : Passes (Pure.pure a : Composing α) := fun s => .pure s a

theorem malformed : Passes (Composing.malformed : Composing α) := fun s => .malformed s

theorem bind {p : Composing α} {f : α → Composing β} (h : Passes p) (hf : ∀ a, Passes (f a)) :
    Passes (p >>= f) :=
  fun s => (h s).bind fun a s' _ => hf a s'

theorem ite {p q : Composing α} {c : Prop} [Decidable c] (hp : Passes p) (hq : Passes q) :
    Passes (if c then p else q) := by
  split
  · exact hp
  · exact hq

theorem get : Passes (MonadState.get : Composing Composer) := fun s => .get s

theorem modify {f : Composer → Composer} (h : ∀ s, (f s).fault = s.fault) :
    Passes (modify f : Composing Unit) :=
  fun s => .modify (h s)

/-- Looking at the next token passes: where there is none, the fault of the tokens comes up. -/
theorem peek : Passes Composing.peek := by
  intro s
  obtain ⟨_ | ⟨token, rest⟩, fault, graph, anchors, handles⟩ := s
  · -- The fault that ended the tokens comes up where the next one is looked at.
    refine ⟨fun _ _ heq => ?_, fun misuse heq => ?_⟩
    · cases heq
    · exact Except.error.inj heq
  · refine ⟨fun _ _ heq => ?_, fun misuse heq => ?_⟩
    · cases heq
      rfl
    · cases heq

theorem advance : Passes Composing.advance := modify fun _ => rfl

theorem accept (token : Token) : Passes (Composing.accept token) :=
  peek.bind fun _ => ite (advance.bind fun _ => pure true) (pure false)

theorem add (node : Node) : Passes (Composing.add node) := by
  refine get.bind fun s => bind (modify ?_) fun _ => pure _
  exact fun _ => rfl

theorem addNothing : Passes Composing.addNothing := add Node.nothing

theorem setBody (id : Nat) (body : NodeBody) : Passes (Composing.setBody id body) :=
  modify fun _ => rfl

theorem readAnchor : Passes Composing.readAnchor := by
  refine peek.bind fun token => ?_
  split
  · exact advance.bind fun _ => pure _
  · exact pure none

theorem readTag : Passes Composing.readTag := by
  refine peek.bind fun token => ?_
  split
  · exact advance.bind fun _ => pure _
  · exact pure none

theorem readProperties : Passes Composing.readProperties := by
  refine readAnchor.bind fun anchor => ?_
  split
  · exact readTag.bind fun _ => pure _
  · refine readTag.bind fun tag => ?_
    split
    · exact readAnchor.bind fun _ => pure _
    · exact pure _

/-- Replacing a handle passes: an unknown one is malformed. -/
theorem expand (tag : TagText) : Passes (Composing.expand tag) := by
  unfold Composing.expand
  split
  · exact pure _
  · refine get.bind fun s => ?_
    split
    · exact pure _
    · exact malformed

theorem fullTag (properties : Properties) : Passes (Composing.fullTag properties) := by
  unfold Composing.fullTag
  split
  · exact pure none
  · exact (expand _).bind fun _ => pure _

theorem name (anchor : Option String) (id : Nat) : Passes (Composing.name anchor id) := by
  unfold Composing.name
  split
  · exact pure ()
  · refine get.bind fun s => ite (malformed.bind fun _ => ?_) ?_
    · exact modify fun _ => rfl
    · exact modify fun _ => rfl

theorem addNamed (anchor : Option String) (node : Node) :
    Passes (Composing.addNamed anchor node) :=
  (add node).bind fun id => (name anchor id).bind fun _ => pure id

/-- Looking a name up passes: an unknown one is malformed. -/
theorem resolve (name : String) : Passes (Composing.resolve name) := by
  refine get.bind fun s => ?_
  split
  · exact pure _
  · exact malformed

end Passes

/-- All readings of nodes, to some depth. -/
structure NodesPass (fuel : Nat) : Prop where
  node : ∀ place, Passes (node fuel place)
  content : ∀ place anchor tag, Passes (content fuel place anchor tag)
  blockItems : Passes (blockItems fuel)
  looseItems : Passes (looseItems fuel)
  blockEntries : Passes (blockEntries fuel)
  blockPart : Passes (blockPart fuel)
  flowItems : ∀ first, Passes (flowItems fuel first)
  flowEntries : ∀ first, Passes (flowEntries fuel first)
  flowEntry : ∀ closing, Passes (flowEntry fuel closing)

theorem passes_emptyContent (anchor tag : Option String) :
    Passes (content.emptyContent anchor tag) :=
  Passes.ite (Passes.addNamed anchor _) Passes.malformed

/-- A collection is added before what is in it is read. -/
theorem passes_collection {α : Type} (anchor : Option String) (node : Node)
    {items : Composing α} (hitems : Passes items) (body : α → NodeBody) :
    Passes (do
      let id ← addNamed anchor node
      setBody id (body (← items))
      return id) :=
  (Passes.addNamed anchor node).bind fun id =>
    hitems.bind fun found => (Passes.setBody id (body found)).bind fun _ => Passes.pure id

section

variable {fuel : Nat} (ih : NodesPass fuel)

include ih

theorem passes_node (place : Place) : Passes (node (fuel + 1) place) := by
  unfold node
  refine Passes.peek.bind fun token => ?_
  split
  · exact Passes.advance.bind fun _ => Passes.resolve _
  · exact Passes.readProperties.bind fun properties =>
      (Passes.fullTag properties).bind fun tag => ih.content place _ tag

/-- The content of a node passes, one case for each token it can begin with. -/
theorem passes_content (place : Place) (anchor tag : Option String) :
    Passes (content (fuel + 1) place anchor tag) := by
  unfold content
  refine Passes.peek.bind fun token => Passes.ite ?_ ?_
  · exact passes_collection anchor _ ih.looseItems _
  · split
    · exact Passes.advance.bind fun _ => Passes.addNamed anchor _
    · exact Passes.advance.bind fun _ => passes_collection anchor _ (ih.flowItems true) _
    · exact Passes.advance.bind fun _ => passes_collection anchor _ (ih.flowEntries true) _
    · exact Passes.ite (passes_emptyContent anchor tag)
        (Passes.advance.bind fun _ => passes_collection anchor _ ih.blockItems _)
    · exact Passes.ite (passes_emptyContent anchor tag)
        (Passes.advance.bind fun _ => passes_collection anchor _ ih.blockEntries _)
    · exact passes_emptyContent anchor tag

theorem passes_blockItems : Passes (blockItems (fuel + 1)) := by
  have hrest : ∀ item, Passes (blockItems fuel >>= fun rest => pure (item :: rest)) :=
    fun item => ih.blockItems.bind fun rest => Passes.pure _
  unfold blockItems
  refine (Passes.accept _).bind fun ends => Passes.ite (Passes.pure []) ?_
  refine (Passes.accept _).bind fun begins => Passes.ite ?_ Passes.malformed
  exact Passes.peek.bind fun token =>
    Passes.ite (Passes.addNothing.bind hrest) ((ih.node _).bind hrest)

theorem passes_looseItems : Passes (looseItems (fuel + 1)) := by
  have hrest : ∀ item, Passes (looseItems fuel >>= fun rest => pure (item :: rest)) :=
    fun item => ih.looseItems.bind fun rest => Passes.pure _
  unfold looseItems
  refine (Passes.accept _).bind fun begins => Passes.ite ?_ (Passes.pure [])
  exact Passes.peek.bind fun token =>
    Passes.ite (Passes.addNothing.bind hrest) ((ih.node _).bind hrest)

theorem passes_blockEntries : Passes (blockEntries (fuel + 1)) := by
  have hrest : ∀ key value,
      Passes (blockEntries fuel >>= fun rest => pure ((key, value) :: rest)) :=
    fun key value => ih.blockEntries.bind fun rest => Passes.pure _
  unfold blockEntries
  refine (Passes.accept _).bind fun ends => Passes.ite (Passes.pure []) ?_
  refine (Passes.accept _).bind fun begins => Passes.ite ?_ Passes.malformed
  refine ih.blockPart.bind fun key => (Passes.accept _).bind fun hasValue => ?_
  exact Passes.ite (ih.blockPart.bind (hrest key)) (Passes.addNothing.bind (hrest key))

theorem passes_blockPart : Passes (blockPart (fuel + 1)) := by
  unfold blockPart
  exact Passes.peek.bind fun token => Passes.ite Passes.addNothing (ih.node _)

theorem passes_flowItems (first : Bool) : Passes (flowItems (fuel + 1) first) := by
  -- An item is an entry with its key marked, or a node. After either one the rest is the same, and
  -- it comes after a comma unless the item is the first.
  have hrest : ∀ item, Passes (flowItems fuel false >>= fun rest => pure (item :: rest)) :=
    fun item => (ih.flowItems false).bind fun rest => Passes.pure _
  have hitem : Passes (do
      if ← accept .key then
        let id ← add { type := .mapping, body := .mapping [] }
        setBody id (.mapping [← flowEntry fuel .flowSequenceEnd])
        let item ← pure id
        return item :: (← flowItems fuel false)
      else
        let item ← node fuel .flow
        return item :: (← flowItems fuel false)) := by
    refine (Passes.accept _).bind fun isEntry => Passes.ite ?_ ((ih.node _).bind hrest)
    exact (Passes.add _).bind fun id => (ih.flowEntry _).bind fun entry =>
      (Passes.setBody id _).bind fun _ => (Passes.pure id).bind hrest
  unfold flowItems
  refine (Passes.accept _).bind fun ends => Passes.ite (Passes.pure []) (Passes.ite ?_ hitem)
  have hmore : Passes (accept .flowSequenceEnd >>= fun ends => if ends then pure [] else _) :=
    (Passes.accept _).bind fun ends => Passes.ite (Passes.pure []) hitem
  exact (Passes.accept _).bind fun comma =>
    Passes.ite (Passes.malformed.bind fun _ => hmore) hmore

theorem passes_flowEntries (first : Bool) : Passes (flowEntries (fuel + 1) first) := by
  -- As for items: an entry with its key marked, or a key alone.
  have hrest : ∀ entry, Passes (flowEntries fuel false >>= fun rest => pure (entry :: rest)) :=
    fun entry => (ih.flowEntries false).bind fun rest => Passes.pure _
  have hentry : Passes (do
      if ← accept .key then
        let entry ← flowEntry fuel .flowMappingEnd
        return entry :: (← flowEntries fuel false)
      else
        let key ← node fuel .flow
        let value ← addNothing
        let entry ← pure (key, value)
        return entry :: (← flowEntries fuel false)) := by
    refine (Passes.accept _).bind fun isEntry => Passes.ite ((ih.flowEntry _).bind hrest) ?_
    exact (ih.node _).bind fun key => Passes.addNothing.bind fun value =>
      (Passes.pure (key, value)).bind hrest
  unfold flowEntries
  refine (Passes.accept _).bind fun ends => Passes.ite (Passes.pure []) (Passes.ite ?_ hentry)
  have hmore : Passes (accept .flowMappingEnd >>= fun ends => if ends then pure [] else _) :=
    (Passes.accept _).bind fun ends => Passes.ite (Passes.pure []) hentry
  exact (Passes.accept _).bind fun comma =>
    Passes.ite (Passes.malformed.bind fun _ => hmore) hmore

theorem passes_flowEntry (closing : Token) : Passes (flowEntry (fuel + 1) closing) := by
  -- The key and the value may both be missing.
  have hvalue : ∀ key : Nat, Passes (do
      if ← accept .value then
        let token ← peek
        if token = .flowEntry || token = closing then
          let value ← addNothing
          return (key, value)
        else
          let value ← node fuel .flow
          return (key, value)
      else
        let value ← addNothing
        return (key, value)) := by
    intro key
    have hpair : ∀ value : Nat, Passes (pure (key, value)) := fun value => Passes.pure _
    refine (Passes.accept _).bind fun hasValue =>
      Passes.ite ?_ (Passes.addNothing.bind hpair)
    exact Passes.peek.bind fun token =>
      Passes.ite (Passes.addNothing.bind hpair) ((ih.node _).bind hpair)
  unfold flowEntry
  exact Passes.peek.bind fun token =>
    Passes.ite (Passes.addNothing.bind hvalue) ((ih.node _).bind hvalue)

end

/-- **All kinds of nodes**, to any depth. -/
theorem nodesPass (fuel : Nat) : NodesPass fuel := by
  induction fuel with
  -- Deeper than the depth no node is made.
  | zero =>
    exact {
      node := fun _ => Passes.malformed
      content := fun _ _ _ => Passes.malformed
      blockItems := Passes.malformed
      looseItems := Passes.malformed
      blockEntries := Passes.malformed
      blockPart := Passes.malformed
      flowItems := fun _ => Passes.malformed
      flowEntries := fun _ => Passes.malformed
      flowEntry := fun _ => Passes.malformed }
  | succ fuel ih =>
    exact {
      node := passes_node ih
      content := passes_content ih
      blockItems := passes_blockItems ih
      looseItems := passes_looseItems ih
      blockEntries := passes_blockEntries ih
      blockPart := passes_blockPart ih
      flowItems := passes_flowItems ih
      flowEntries := passes_flowEntries ih
      flowEntry := passes_flowEntry ih }

theorem passes_directives (fuel : Nat) (hasVersion : Bool) (handles : Entries String String) :
    Passes (directives fuel hasVersion handles) := by
  induction fuel generalizing hasVersion handles with
  | zero => exact Passes.malformed
  | succ fuel ih =>
    unfold directives
    refine Passes.peek.bind fun token => ?_
    split
    · refine Passes.advance.bind fun _ => ?_
      split
      · exact Passes.ite Passes.malformed (ih _ _)
      · exact Passes.ite Passes.malformed (ih _ _)
      · exact ih _ _
    · exact Passes.pure _

theorem passes_documentEnds (fuel : Nat) : Passes (documentEnds fuel) := by
  induction fuel with
  | zero => exact Passes.malformed
  | succ fuel ih =>
    unfold documentEnds
    exact (Passes.accept _).bind fun _ => Passes.ite ih (Passes.pure ())

theorem passes_markedDocument (fuel : Nat) : Passes (markedDocument fuel) := by
  have hroot : ∀ s : Composer → Composer, (∀ c, (s c).fault = c.fault) → Passes (do
      modify s
      let token ← peek
      if endsDocument token then addNothing else node fuel .block) :=
    fun s hs => (Passes.modify hs).bind fun _ => Passes.peek.bind fun token =>
      Passes.ite Passes.addNothing ((nodesPass fuel).node _)
  unfold markedDocument
  refine (passes_directives fuel false []).bind fun handles =>
    (Passes.accept _).bind fun starts => Passes.ite (Passes.malformed.bind fun _ => ?_) ?_
  · exact hroot _ fun _ => rfl
  · exact hroot _ fun _ => rfl

theorem passes_afterDocument (fuel : Nat) : Passes (afterDocument fuel) := by
  have hrest : Passes (directives fuel false [] >>= fun _ => (malformed : Composing Unit)) :=
    (passes_directives fuel false []).bind fun _ => Passes.malformed
  exact (passes_documentEnds fuel).bind fun _ => Passes.peek.bind fun token =>
    Passes.ite (Passes.pure ()) hrest

theorem passes_document (fuel : Nat) : Passes (document fuel) := by
  have hend : ∀ root : Nat, Passes (do
      afterDocument fuel
      return some root) :=
    fun root => (passes_afterDocument fuel).bind fun _ => Passes.pure _
  unfold document
  refine Passes.peek.bind fun first => Passes.ite (Passes.pure none) (Passes.ite ?_ ?_)
  · refine (Passes.modify ?_).bind fun _ => ((nodesPass fuel).node _).bind hend
    exact fun _ => rfl
  · exact (passes_markedDocument fuel).bind hend

end Composing

/-- **The nodes of a text**: their faults are those of the tokens. -/
theorem fault_of_ofChars {cs : List Char} {misuse : Misuse}
    (h : Document.ofChars cs = .error (.misuse misuse)) :
    (Tokens.ofChars cs).fault = .misuse misuse := by
  unfold Document.ofChars at h
  dsimp only at h
  cases hrun : (Composing.document (4 * (Tokens.ofChars cs).tokens.length + 8)).run
      { tokens := (Tokens.ofChars cs).tokens, fault := (Tokens.ofChars cs).fault } with
  | error fault =>
    rw [hrun] at h
    cases h
    -- What composing fails over is the fault that it was given.
    exact (Composing.passes_document _ _).blamed misuse hrun
  | ok found =>
    rw [hrun] at h
    obtain ⟨_ | root, s⟩ := found
    · cases h
    · cases h

end Ramlify.Yaml
