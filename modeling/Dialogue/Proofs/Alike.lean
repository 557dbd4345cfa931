import Dialogue.Proofs.Parallel
/-!
Documents that compile alike.

Of a node the compiler uses only its layout, and of the edges that enter a node only how many there
are.  So two documents have the same program if their dialogues begin at the same place and every id
stands for nodes with the same layout, or for none, in both of them; payloads, titles, mute flags
and the order of the document count only as far as they show in the layouts.
-/

namespace Dialogue

/-- A layout whose outlets lead elsewhere. -/
def Layout.redirect (f : String → String) (l : Layout) : Layout :=
  { l with slots := l.slots.map fun s => { s with target := s.target.map f } }

namespace Document

/-- If two nodes are for the same and the edges of one of them lead elsewhere, then so do the outlets
of its layout. -/
lemma layout_redirect_of_eq {d d' : Document} (options : Options) {n n' : Node}
    (hmuted : n'.muted = n.muted) (hkind : n'.kind = n.kind) {f : String → String}
    (hfirst : d'.firstTarget? n'.id = (d.firstTarget? n.id).map f)
    (hat : ∀ handle, d'.targetAt? n'.id handle = (d.targetAt? n.id handle).map f)
    (indent : UInt32) :
    d'.layout options n' indent = (d.layout options n indent).redirect f := by
  have hslots : ∀ i choices, d'.choiceSlots n'.id indent i choices =
      (d.choiceSlots n.id indent i choices).map fun s => { s with target := s.target.map f } := by
    intro i choices
    induction choices generalizing i with
    | nil => rfl
    | cons c cs ih =>
      rw [choiceSlots, choiceSlots, hat, ih]
      rfl
  have hor : ∀ handle, (d'.targetAt? n'.id handle).or (d'.firstTarget? n'.id) =
      ((d.targetAt? n.id handle).or (d.firstTarget? n.id)).map f := by
    intro handle
    rw [hat, hfirst, Option.map_or]
  have hbypass : d'.bypass? n' = (d.bypass? n).map f := by
    rw [bypass?, bypass?, hkind]
    cases n.kind with
    | condition c => exact hor trueHandle
    | menu m => exact hor (choiceHandle 0)
    | action actions => exact hfirst
    | finish => exact hfirst
    | start | group | comment => rfl
  have hstart : n'.isStart = n.isStart := by rw [Node.isStart, Node.isStart, hkind]
  rw [layout, layout, hmuted, hstart, hkind]
  split
  · rw [hbypass]
    rfl
  · cases n.kind with
    | start => rw [hfirst]; rfl
    | action actions => rw [hfirst]; rfl
    | condition c => simp only [conditionLayout, hat]; rfl
    | menu m =>
      dsimp only
      split
      · simp [dynamicMenuLayout, Layout.redirect, hat, selectionSlot, Slot.block]
      · simp only [staticMenuLayout, Layout.redirect, hslots, cancelSlots, hat, List.map_append]
        cases m.cancel <;> rfl
    | finish | group | comment => rfl

/-- If the edges of a node lead elsewhere, then so do the outlets of its layout. -/
lemma layout_redirect {d d' : Document} (options : Options) {n : Node} {f : String → String}
    (hfirst : d'.firstTarget? n.id = (d.firstTarget? n.id).map f)
    (hat : ∀ handle, d'.targetAt? n.id handle = (d.targetAt? n.id handle).map f)
    (indent : UInt32) :
    d'.layout options n indent = (d.layout options n indent).redirect f :=
  layout_redirect_of_eq options rfl rfl hfirst hat indent

/-- The layout of a node depends on where its edges lead. -/
lemma layout_eq_of_targets {d d' : Document} (options : Options) {n : Node}
    (hfirst : d.firstTarget? n.id = d'.firstTarget? n.id)
    (hat : ∀ handle, d.targetAt? n.id handle = d'.targetAt? n.id handle) :
    d.layout options n = d'.layout options n := by
  funext indent
  rw [@layout_redirect d' d options n id (by simp [hfirst]) (by simp [hat])]
  simp [Layout.redirect]

lemma isSome_eq_of_rel {α β : Type} {R : α → β → Prop} {a : Option α} {b : Option β}
    (h : Option.Rel R a b) : a.isSome = b.isSome := by
  cases h <;> rfl

/-- The compiler sees no difference between two documents. -/
structure Alike (options : Options) (d d' : Document) : Prop where
  /-- The dialogue begins somewhere in both or in none. -/
  start : d.start?.isSome = d'.start?.isSome
  /-- It begins at the same place. -/
  entrance : d.entrance? = d'.entrance?
  /-- An id stands for nodes with the same layout, or for none, in both. -/
  node : ∀ id, Option.Rel (fun n n' => d.layout options n = d'.layout options n')
    (d.node? id) (d'.node? id)
  /-- The same number of edges enters each node. -/
  incoming : ∀ id, (d.incoming id).length = (d'.incoming id).length

namespace Alike

variable {options : Options} {d d' : Document}

lemma isSome_node? (h : Alike options d d') (id : String) :
    (d.node? id).isSome = (d'.node? id).isSome :=
  isSome_eq_of_rel (h.node id)

/-- The plans of documents between which the compiler sees no difference are the same. -/
lemma parallel (h : Alike options d d') : Parallel some options options d d' where
  nodes := h.isSome_node?
  entrance := h.entrance
  reached x hx := by
    obtain ⟨n, hn⟩ := Option.isSome_iff_exists.1 hx.isSome
    have hnode := h.node x
    rw [hn] at hnode
    generalize hn' : d'.node? x = found at hnode
    obtain ⟨hlayout⟩ := hnode
    refine ⟨n, _, hn, rfl, fun indent => ?_⟩
    rw [jobs, jobs, hlayout, id_of_node? hn, id_of_node? hn', seen_congr h.isSome_node?]

/-- Documents between which the compiler sees no difference have the same program. -/
theorem compile_eq (h : Alike options d d') : d.compile options = d'.compile options :=
  h.parallel.compile_eq h.start fun x _ => h.incoming x

end Alike

end Document

end Dialogue
