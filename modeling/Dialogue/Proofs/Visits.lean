import Mathlib.Algebra.GroupWithZero.Nat
import Mathlib.Algebra.Order.BigOperators.Group.List
import Mathlib.Algebra.Order.Group.Nat
import Mathlib.Data.List.Nodup
import Std.Data.String.ToNat
import Dialogue.Proofs.Forest
/-!
Which nodes a compilation enters, and how often it jumps.

A node is entered at most once, and every outlet of a node that is entered is followed: it leads to
no node, or to a node that is entered at some time.  An outlet that leads to a node is either the
one through which the node is entered, or a jump; so there is one jump less to a node than there
are outlets that lead to it.
-/

namespace Dialogue

namespace Forest

/-- The nodes that are entered, in order. -/
def entered : Forest → List Node
  | .nil => []
  | .dead f => f.entered
  | .jump _ f => f.entered
  | .enter n g f => n :: (g.entered ++ f.entered)

/-- The ids of the nodes that are entered, in order. -/
def enteredIds (f : Forest) : List String :=
  f.entered.map Node.id

/-- The ids of the nodes to which there is a jump, in order. -/
def jumps : Forest → List String
  | .nil => []
  | .dead f => f.jumps
  | .jump id f => id :: f.jumps
  | .enter _ g f => g.jumps ++ f.jumps

@[simp] lemma enteredIds_nil : enteredIds .nil = [] := rfl

@[simp] lemma enteredIds_dead (f : Forest) : enteredIds (.dead f) = f.enteredIds := rfl

@[simp] lemma enteredIds_jump (id : String) (f : Forest) :
    enteredIds (.jump id f) = f.enteredIds := rfl

@[simp] lemma enteredIds_enter (n : Node) (g f : Forest) :
    enteredIds (.enter n g f) = n.id :: (g.enteredIds ++ f.enteredIds) := by
  simp [enteredIds, entered]

end Forest

namespace Document

variable {d : Document}

/-! ## Each node is entered once -/

/-- The nodes that are left are those that were there and were not entered. -/
lemma mem_left (targets : List (Option String)) (u : IdSet) (x : String) :
    x ∈ d.left targets u ↔ x ∈ u ∧ x ∉ (d.forest targets u).enteredIds := by
  induction targets, u using grow_induction (d := d) with
  | nil u => simp
  | dead h ih => rw [left_dead h, forest_dead h, ih]; simp
  | enter h hu ih₁ ih₂ =>
    rw [left_enter h hu, forest_enter h hu, ih₂, ih₁]
    simp only [Std.HashSet.mem_erase, Forest.enteredIds_enter, List.mem_cons,
      List.mem_append]
    grind
  | jump h hu ih => rw [left_jump h hu, forest_jump h hu, ih]; simp

lemma mem_of_mem_enteredIds (targets : List (Option String)) (u : IdSet) {x : String}
    (hx : x ∈ (d.forest targets u).enteredIds) : x ∈ u := by
  induction targets, u using grow_induction (d := d) with
  | nil u => simp at hx
  | dead h ih =>
    rw [forest_dead h] at hx
    exact ih hx
  | @enter target rest u n h hu ih₁ ih₂ =>
    rw [forest_enter h hu, Forest.enteredIds_enter, List.mem_cons, List.mem_append] at hx
    rcases hx with rfl | hx | hx
    · exact hu
    · exact Std.HashSet.mem_of_mem_erase (ih₁ hx)
    · have hleft := (mem_left _ _ x).1 (ih₂ hx)
      exact Std.HashSet.mem_of_mem_erase hleft.1
  | jump h hu ih =>
    rw [forest_jump h hu] at hx
    exact ih hx

/-- No node is entered twice. -/
theorem nodup_enteredIds (targets : List (Option String)) (u : IdSet) :
    (d.forest targets u).enteredIds.Nodup := by
  induction targets, u using grow_induction (d := d) with
  | nil u => simp
  | dead h ih => rw [forest_dead h]; exact ih
  | @enter target rest u n h hu ih₁ ih₂ =>
    rw [forest_enter h hu, Forest.enteredIds_enter, List.nodup_cons, List.nodup_append]
    -- what the later outlets enter was left over by the node and its outlets
    have hbehind : ∀ x ∈ (d.forest rest (d.left (d.outlets n) (u.erase n.id))).enteredIds,
        x ≠ n.id ∧ x ∉ (d.forest (d.outlets n) (u.erase n.id)).enteredIds := by
      intro x hx
      have hleft := (mem_left _ _ x).1 (mem_of_mem_enteredIds _ _ hx)
      refine ⟨?_, hleft.2⟩
      rintro rfl
      simpa using hleft.1
    refine ⟨?_, ih₁, ih₂, ?_⟩
    · intro hmem
      rcases List.mem_append.1 hmem with hmem | hmem
      · simpa using mem_of_mem_enteredIds _ _ hmem
      · exact (hbehind _ hmem).1 rfl
    · intro a ha b hb
      rintro rfl
      exact (hbehind a hb).2 ha
  | jump h hu ih => rw [forest_jump h hu]; exact ih

/-! ## Every outlet is followed -/

lemma left_subset (targets : List (Option String)) (u : IdSet) {x : String}
    (h : x ∈ d.left targets u) : x ∈ u :=
  ((mem_left targets u x).1 h).1

/-- A node to which one of the outlets leads is not left over. -/
lemma not_mem_left_of_target (targets : List (Option String)) (u : IdSet) {target : Option String}
    {n : Node} (htarget : target ∈ targets) (hn : d.nodeAt? target = some n) :
    n.id ∉ d.left targets u := by
  induction targets, u using grow_induction (d := d) with
  | nil u => simp at htarget
  | dead h ih =>
    rw [left_dead h]
    rcases List.mem_cons.1 htarget with rfl | htarget
    · rw [hn] at h
      simp at h
    · exact ih htarget
  | @enter target' rest u m h hu ih₁ ih₂ =>
    rw [left_enter h hu]
    rcases List.mem_cons.1 htarget with rfl | htarget
    · obtain rfl : m = n := by simpa [hn] using h.symm
      intro hleft
      simpa using left_subset _ _ (left_subset _ _ hleft)
    · exact ih₂ htarget
  | @jump target' rest u m h hu ih =>
    rw [left_jump h hu]
    rcases List.mem_cons.1 htarget with rfl | htarget
    · obtain rfl : m = n := by simpa [hn] using h.symm
      exact fun hleft => hu (left_subset _ _ hleft)
    · exact ih htarget

/-- A node to which an outlet of an entered node leads is not left over. -/
lemma not_mem_left_of_entered (targets : List (Option String)) (u : IdSet) {m : Node}
    (hm : m ∈ (d.forest targets u).entered) {target : Option String} {n : Node}
    (htarget : target ∈ d.outlets m) (hn : d.nodeAt? target = some n) :
    n.id ∉ d.left targets u := by
  induction targets, u using grow_induction (d := d) with
  | nil u => simp [Forest.entered] at hm
  | dead h ih =>
    rw [forest_dead h] at hm
    rw [left_dead h]
    exact ih hm
  | @enter target' rest u k h hu ih₁ ih₂ =>
    rw [forest_enter h hu, Forest.entered, List.mem_cons, List.mem_append] at hm
    rw [left_enter h hu]
    -- `m` is the node itself, or inside it, or behind it
    rcases hm with rfl | hm | hm
    · exact fun hleft =>
        not_mem_left_of_target _ _ htarget hn (left_subset _ _ hleft)
    · exact fun hleft => ih₁ hm (left_subset _ _ hleft)
    · exact ih₂ hm
  | jump h hu ih =>
    rw [forest_jump h hu] at hm
    rw [left_jump h hu]
    exact ih hm

end Document

/-! ## How often there is a jump -/

namespace Forest.Follows

variable {d : Document} {targets : List (Option String)} {f : Forest}

lemma node?_entered (h : Follows d targets f) {n : Node} (hn : n ∈ f.entered) :
    d.node? n.id = some n := by
  induction h with
  | nil => simp [entered] at hn
  | dead _ _ ih => exact ih hn
  | jump _ _ ih => exact ih hn
  | enter hm _ _ ih₁ ih₂ =>
    rw [entered, List.mem_cons, List.mem_append] at hn
    rcases hn with rfl | hn | hn
    · exact (Document.nodeAt?_eq_some hm).2
    · exact ih₁ hn
    · exact ih₂ hn

lemma node?_jumps (h : Follows d targets f) {x : String} (hx : x ∈ f.jumps) :
    (d.node? x).isSome := by
  induction h with
  | nil => simp [jumps] at hx
  | dead _ _ ih => exact ih hx
  | jump hm _ ih =>
    rcases List.mem_cons.1 hx with rfl | hx
    · rw [(Document.nodeAt?_eq_some hm).2]
      rfl
    · exact ih hx
  | enter _ _ _ ih₁ ih₂ =>
    rcases List.mem_append.1 hx with hx | hx
    · exact ih₁ hx
    · exact ih₂ hx

/-- Each outlet that leads to a node is a jump to it or the one through which it is entered. -/
theorem count_jumps_add (h : Follows d targets f) {x : String} (hx : (d.node? x).isSome) :
    f.jumps.count x + f.enteredIds.count x =
      targets.count (some x) + (f.entered.map fun n => (d.outlets n).count (some x)).sum := by
  induction h with
  | nil => simp [jumps, entered]
  | @dead target targets f hm _ ih =>
    have hne : target ≠ some x := by
      rintro rfl
      simp [Document.nodeAt?] at hm
      simp [hm] at hx
    rw [List.count_cons_of_ne hne]
    exact ih
  | @jump target targets n f hm _ ih =>
    obtain ⟨rfl, -⟩ := Document.nodeAt?_eq_some hm
    simp only [jumps, enteredIds_jump, entered, List.count_cons, beq_iff_eq, Option.some.injEq]
      at ih ⊢
    omega
  | @enter target targets n g f hm _ _ ih₁ ih₂ =>
    obtain ⟨rfl, -⟩ := Document.nodeAt?_eq_some hm
    simp only [jumps, enteredIds_enter, entered, List.count_cons, List.count_append, beq_iff_eq,
      Option.some.injEq, List.map_cons, List.map_append, List.sum_cons,
      List.sum_append] at ih₁ ih₂ ⊢
    omega

end Forest.Follows

namespace Document

variable {d : Document}

lemma mem_allIds {x : String} : x ∈ d.allIds ↔ (d.node? x).isSome := by
  have hmem : x ∈ d.allIds ↔ x ∈ (Index.ofDocument d).nodes := by
    simp [allIds, IdSet.ofList, Std.HashSet.mem_ofList]
  rw [hmem, ← Index.node?_ofDocument, Index.node?, Std.HashMap.isSome_getElem?_iff_mem]

lemma follows_trunk : Forest.Follows d [d.entrance?] d.trunk :=
  Forest.follows_forest _ _

lemma nodup_trunk : d.trunk.enteredIds.Nodup :=
  nodup_enteredIds _ _

lemma mem_trunk_of_not_mem_left {x : String} (hx : (d.node? x).isSome)
    (hleft : x ∉ d.left [d.entrance?] d.allIds) : x ∈ d.trunk.enteredIds := by
  rw [mem_left] at hleft
  by_contra hnot
  exact hleft ⟨mem_allIds.2 hx, hnot⟩

/-- The node where the dialogue begins is entered. -/
lemma entrance_mem_trunk {n : Node} (h : d.nodeAt? d.entrance? = some n) :
    n.id ∈ d.trunk.enteredIds := by
  refine mem_trunk_of_not_mem_left ?_ (not_mem_left_of_target _ _ (List.mem_singleton_self _) h)
  rw [(nodeAt?_eq_some h).2]
  rfl

/-- A node to which an outlet of an entered node leads is entered. -/
lemma outlet_mem_trunk {m n : Node} (hm : m ∈ d.trunk.entered) {target : Option String}
    (htarget : target ∈ d.outlets m) (hn : d.nodeAt? target = some n) :
    n.id ∈ d.trunk.enteredIds := by
  refine mem_trunk_of_not_mem_left ?_ (not_mem_left_of_entered _ _ hm htarget hn)
  rw [(nodeAt?_eq_some hn).2]
  rfl

/-- The outlets that lead to a node: those of all entered nodes, and the one where the dialogue
begins. -/
def arrivals (d : Document) (x : String) : Nat :=
  [d.entrance?].count (some x) + (d.trunk.entered.map fun n => (d.outlets n).count (some x)).sum

lemma count_jumps_trunk {x : String} (hx : (d.node? x).isSome) :
    d.trunk.jumps.count x + d.trunk.enteredIds.count x = d.arrivals x :=
  follows_trunk.count_jumps_add hx

/-- The target of a jump is entered. -/
theorem mem_trunk_of_mem_jumps {x : String} (hx : x ∈ d.trunk.jumps) :
    x ∈ d.trunk.enteredIds := by
  have hnode := follows_trunk.node?_jumps hx
  obtain ⟨n, hn⟩ := Option.isSome_iff_exists.1 hnode
  have hnode' : d.nodeAt? (some x) = some n := hn
  obtain rfl := id_of_node? hn
  have hcount := count_jumps_trunk hnode
  have hpos : 0 < d.trunk.jumps.count n.id := List.count_pos_iff.2 hx
  by_cases hentrance : d.entrance? = some n.id
  · exact entrance_mem_trunk (hentrance ▸ hnode')
  · -- otherwise some entered node has an outlet that leads there
    have hsum : (d.trunk.entered.map fun m => (d.outlets m).count (some n.id)).sum ≠ 0 := by
      rw [arrivals, List.count_singleton, if_neg (by simpa using hentrance)] at hcount
      omega
    obtain ⟨m, hm, hm'⟩ : ∃ m ∈ d.trunk.entered, (d.outlets m).count (some n.id) ≠ 0 := by
      simpa [List.sum_eq_zero_iff] using hsum
    exact outlet_mem_trunk hm (List.count_pos_iff.1 (Nat.pos_of_ne_zero hm')) hnode'

/-- There is one jump less to an entered node than there are outlets that lead to it. -/
theorem count_jumps_add_one {x : String} (hx : x ∈ d.trunk.enteredIds) :
    d.trunk.jumps.count x + 1 = d.arrivals x := by
  obtain ⟨n, hn, rfl⟩ := List.mem_map.1 hx
  have hnode : (d.node? n.id).isSome := by
    rw [follows_trunk.node?_entered hn]
    rfl
  rw [← count_jumps_trunk hnode, nodup_trunk.count, if_pos hx]

/-! ## Outlets and edges

Different outlets of a node are fixed to different edges, and different nodes have different edges.
So at most as many outlets lead to a node as edges enter it. -/

lemma choiceHandle_injective : Function.Injective choiceHandle := by
  intro i j h
  have hij : toString i = toString j := by simpa [choiceHandle] using h
  exact Nat.repr_inj.1 hij

lemma choiceHandle_ne_cancelHandle (i : Nat) : choiceHandle i ≠ cancelHandle := by
  intro h
  have hfirst := congrArg (fun s => s.toList[1]?) h
  simp [choiceHandle, cancelHandle] at hfirst

/-- The outlets of a menu have different handles. -/
lemma nodup_handles (m : Menu) : (m.routes.map Prod.snd).Nodup := by
  have hchoices : ((List.range m.choices.length).map choiceHandle).Nodup :=
    List.nodup_range.map choiceHandle_injective
  rw [Menu.routes]
  cases m.cancel with
  | disallow => simpa [Function.comp_def] using hchoices
  | lastChoice => simpa [Function.comp_def] using hchoices
  | branch =>
    simp only [List.map_append, List.map_map, Function.comp_def, List.map_cons, List.map_nil]
    refine List.nodup_append.2 ⟨hchoices, by simp, ?_⟩
    intro a ha b hb
    obtain ⟨i, -, rfl⟩ := List.mem_map.1 ha
    rw [List.mem_singleton.1 hb]
    exact choiceHandle_ne_cancelHandle i

/-- Whether the first edge of a list at the outlet `handle` leads to `x`. -/
def leadsTo (edges : List Edge) (x handle : String) : Bool :=
  (edges.find? (·.handle == some handle)).map Edge.target == some x

/-- Looking at one more edge changes the answer for the handle of that edge only. -/
lemma countP_leadsTo_cons (e : Edge) (edges : List Edge) (x : String) (handles : List String) :
    handles.countP (leadsTo (e :: edges) x) ≤
      handles.countP (leadsTo edges x) +
        handles.countP fun h => e.target == x && e.handle == some h := by
  induction handles with
  | nil => simp
  | cons h hs ih =>
    have hone : leadsTo (e :: edges) x h = true →
        leadsTo edges x h = true ∨ (e.target == x && e.handle == some h) = true := by
      rw [leadsTo]
      rw [List.find?_cons]
      cases e.handle == some h with
      | false => exact Or.inl
      | true => exact fun htarget => Or.inr (by simpa using htarget)
    simp only [List.countP_cons]
    grind

/-- Different handles find different edges. -/
lemma countP_leadsTo_le (edges : List Edge) (x : String) {handles : List String}
    (hnodup : handles.Nodup) :
    handles.countP (leadsTo edges x) ≤ edges.countP (·.target == x) := by
  induction edges with
  | nil => simp [leadsTo]
  | cons e edges ih =>
    -- the first edge is found by one handle at most
    have hone : (handles.countP fun h => e.target == x && e.handle == some h) ≤
        if e.target == x then 1 else 0 := by
      cases e.target == x with
      | false => simp
      | true =>
        cases e.handle with
        | none => simp
        | some handle =>
          have hcount : (handles.countP fun h => true && some handle == some h) =
              handles.count handle := by
            refine List.countP_congr fun h _ => ?_
            rw [Bool.true_and, beq_iff_eq, beq_iff_eq, Option.some.injEq]
            exact eq_comm
          rw [hcount]
          exact List.nodup_iff_count_le_one.1 hnodup handle
    have hcons := countP_leadsTo_cons e edges x handles
    rw [List.countP_cons]
    omega

/-- At most as many outlets of a node lead to `x` as edges lead from the node to `x`. -/
lemma count_outlets_le (n : Node) (x : String) :
    (d.outlets n).count (some x) ≤ (d.outgoing n.id).countP (·.target == x) := by
  have hfirst : [d.firstTarget? n.id].count (some x) ≤
      (d.outgoing n.id).countP (·.target == x) := by
    rw [firstTarget?]
    cases d.outgoing n.id with
    | nil => simp
    | cons e es => simp [List.count_singleton, List.countP_cons]
  have hhandles : ∀ handles : List String, handles.Nodup →
      (handles.map (d.targetAt? n.id)).count (some x) ≤
        (d.outgoing n.id).countP (·.target == x) :=
    fun handles hnodup => by
      rw [List.count, List.countP_map]
      exact countP_leadsTo_le (d.outgoing n.id) x hnodup
  have hor : ∀ handle : String,
      [(d.targetAt? n.id handle).or (d.firstTarget? n.id)].count (some x) ≤
        (d.outgoing n.id).countP (·.target == x) := by
    intro handle
    cases htarget : d.targetAt? n.id handle with
    | none => exact hfirst
    | some y =>
      have hone := hhandles [handle] (by simp)
      rwa [List.map_singleton, htarget] at hone
  rw [outlets]
  split
  · -- a muted node has one outlet
    rw [bypass?]
    cases n.kind with
    | condition _ => exact hor trueHandle
    | menu _ => exact hor (choiceHandle 0)
    | action _ => exact hfirst
    | finish => exact hfirst
    | start => simp
    | group => simp
    | comment => simp
  · cases n.kind with
    | start => exact hfirst
    | action _ => exact hfirst
    | condition _ => exact hhandles [trueHandle, falseHandle] (by decide)
    | menu m =>
      have hmenu := hhandles _ (nodup_handles m)
      rwa [List.map_map] at hmenu
    | finish => simp
    | group => simp
    | comment => simp

/-- Edges that leave different nodes are different. -/
lemma sum_outgoing_le (ids : List String) (hnodup : ids.Nodup) (edges : List Edge) (x : String) :
    (ids.map fun id => (edges.filter (·.source == id)).countP (·.target == x)).sum ≤
      (edges.filter (·.target == x)).length := by
  induction edges with
  | nil => simp
  | cons e edges ih =>
    have hcons : ∀ id, ((e :: edges).filter (·.source == id)).countP (·.target == x) =
        (edges.filter (·.source == id)).countP (·.target == x) +
          if e.source == id && e.target == x then 1 else 0 := by
      intro id
      by_cases hsource : e.source = id <;> by_cases htarget : e.target = x <;>
        simp [hsource, htarget]
    -- the first edge leaves one of the nodes at most
    have hsum : (ids.map fun id => if e.source == id && e.target == x then 1 else 0).sum =
        if e.target == x then ids.count e.source else 0 := by
      clear hnodup ih
      induction ids with
      | nil => simp
      | cons id ids ih =>
        simp only [List.map_cons, List.sum_cons, ih, List.count_cons]
        grind
    have hone := List.nodup_iff_count_le_one.1 hnodup e.source
    simp only [hcons, List.sum_map_add, hsum]
    rw [List.filter_cons]
    split
    · rw [List.length_cons]
      omega
    · omega

/-- At most as many outlets of entered nodes lead to `x` as edges enter `x`. -/
theorem sum_outlets_le (x : String) :
    (d.trunk.entered.map fun n => (d.outlets n).count (some x)).sum ≤ (d.incoming x).length := by
  calc (d.trunk.entered.map fun n => (d.outlets n).count (some x)).sum
      ≤ (d.trunk.entered.map fun n => (d.outgoing n.id).countP (·.target == x)).sum :=
        List.sum_le_sum fun n _ => count_outlets_le n x
    _ = (d.trunk.enteredIds.map fun id =>
          (d.edges.filter (·.source == id)).countP (·.target == x)).sum := by
        rw [Forest.enteredIds, List.map_map]
        rfl
    _ ≤ (d.incoming x).length := sum_outgoing_le _ nodup_trunk _ _

/-- A node with at most one edge that enters it is the target of a jump only if the dialogue begins
there. -/
theorem eq_entrance_of_mem_jumps {x : String} (hx : x ∈ d.trunk.jumps)
    (hedges : (d.incoming x).length ≤ 1) : d.entrance? = some x := by
  have hjumps := count_jumps_add_one (mem_trunk_of_mem_jumps hx)
  have hpos : 0 < d.trunk.jumps.count x := List.count_pos_iff.2 hx
  have hle := sum_outlets_le (d := d) x
  by_contra hentrance
  rw [arrivals, List.count_singleton, if_neg (by simpa using hentrance)] at hjumps
  omega

end Document

end Dialogue
