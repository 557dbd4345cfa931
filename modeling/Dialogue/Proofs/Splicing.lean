import Dialogue.Proofs.Muting
/-!
Splicing out a muted node.

A muted node that one edge enters and one edge leaves lies in the middle of a connection.  It can be
taken out: the edge that enters it leads to the next node from then on, and its own edge goes.  The
program stays the same (`compile_splice`), whatever lies around the node.

The compiler then comes to the next node one step earlier, and nothing else changes
(`Between.workOff_splice`).  For this the node must not be the target of a jump, since such a jump
would then lead nowhere.  A node that one edge enters is the target of a jump only if the dialogue
begins there and comes back to the start, so we ask that no edge enters the start
(`one_lt_incoming_of_mem_jumps`).
-/

namespace Dialogue

namespace Document

variable {d : Document} {options : Options}

/-! ## Edges into the nodes that are reached -/

lemma exists_edge_of_outlet {n : Node} {x : String} (h : some x ∈ d.outlets n) :
    ∃ e ∈ d.outgoing n.id, e.target = x := by
  have hpos : 0 < (d.outgoing n.id).countP (·.target == x) :=
    (List.count_pos_iff.2 h).trans_le (count_outlets_le n x)
  simpa using List.countP_pos_iff.1 hpos

lemma exists_edge_of_entrance {x : String} (h : d.entrance? = some x) :
    ∃ start e, d.start? = some start ∧ e ∈ d.outgoing start.id ∧ e.target = x := by
  obtain ⟨start, hstart, hfirst⟩ := Option.bind_eq_some_iff.1 h
  obtain ⟨e, he, htarget⟩ := Option.map_eq_some_iff.1 hfirst
  exact ⟨start, e, hstart, List.mem_of_mem_head? he, htarget⟩

/-- An edge leads to each node that is reached. -/
lemma Reached.incoming_ne_nil {x : String} (h : d.Reached x) : d.incoming x ≠ [] := by
  have hedge : ∃ e ∈ d.edges, e.target = x := by
    cases h with
    | entrance hentrance _ =>
      obtain ⟨start, e, -, he, htarget⟩ := exists_edge_of_entrance hentrance
      exact ⟨e, (List.mem_filter.1 he).1, htarget⟩
    | @outlet y _ hy hfollowed _ =>
      obtain ⟨n, hn⟩ := Option.isSome_iff_exists.1 hy.isSome
      obtain rfl := id_of_node? hn
      obtain ⟨e, he, htarget⟩ := exists_edge_of_outlet ((mem_followed hn).1 hfollowed)
      exact ⟨e, (List.mem_filter.1 he).1, htarget⟩
  obtain ⟨e, he, htarget⟩ := hedge
  exact List.ne_nil_of_mem (List.mem_filter.2 ⟨he, by simpa using htarget⟩)

/-- If no edge enters the start, then there are jumps to nodes only that several edges enter. -/
theorem one_lt_incoming_of_mem_jumps
    (hstart : ∀ start, d.start? = some start → d.incoming start.id = []) {x : String}
    (hx : x ∈ d.trunk.jumps) : 1 < (d.incoming x).length := by
  by_contra hle
  -- the dialogue begins at `x`, and the only edge to `x` comes from the start
  have hentrance := eq_entrance_of_mem_jumps hx (by omega)
  obtain ⟨start, e, hd, he, htarget⟩ := exists_edge_of_entrance hentrance
  have hincoming : d.incoming x = [e] := by
    have hmem : e ∈ d.incoming x :=
      List.mem_filter.2 ⟨(List.mem_filter.1 he).1, by simpa using htarget⟩
    have hpos := List.length_pos_of_mem hmem
    obtain ⟨e₀, h₀⟩ := List.length_eq_one_iff.1 (show (d.incoming x).length = 1 by omega)
    rw [h₀] at hmem ⊢
    rw [List.mem_singleton.1 hmem]
  -- so some node other than the start would have to lead to `x` as well
  have hcount := count_jumps_add_one (mem_trunk_of_mem_jumps hx)
  have hpos : 0 < d.trunk.jumps.count x := List.count_pos_iff.2 hx
  have hsum : (d.trunk.entered.map fun n => (d.outlets n).count (some x)).sum ≠ 0 := by
    rw [arrivals, List.count_singleton, if_pos (by simpa using hentrance)] at hcount
    omega
  obtain ⟨n, hn, hn'⟩ : ∃ n ∈ d.trunk.entered, (d.outlets n).count (some x) ≠ 0 := by
    simpa [List.sum_eq_zero_iff] using hsum
  obtain ⟨e', he', htarget'⟩ :=
    exists_edge_of_outlet (List.count_pos_iff.1 (Nat.pos_of_ne_zero hn'))
  obtain ⟨hmem, hsource⟩ := List.mem_filter.1 he'
  have hmem' : e' ∈ d.incoming x := List.mem_filter.2 ⟨hmem, by simpa using htarget'⟩
  obtain rfl : e' = e := by simpa [hincoming] using hmem'
  have hid : n.id = start.id := by
    have hsource' := (List.mem_filter.1 he).2
    simp only [beq_iff_eq] at hsource hsource'
    rw [← hsource, hsource']
  have hreached : d.Reached n.id := mem_enteredIds_iff.1 (List.mem_map_of_mem hn)
  exact (hid ▸ hreached).incoming_ne_nil (hstart start hd)

end Document

/-! ## Leading elsewhere -/

/-- The task, with visits led elsewhere. -/
def Task.redirect (f : String → String) : Task → Task
  | .visit x indent => .visit (f x) indent
  | .emit c => .emit c

/-- The job, with visits led elsewhere. -/
def Job.redirect (f : String → String) (j : Job) : Job :=
  (j.1, j.2.redirect f)

lemma map_redirect_emit (f : String → String) (owner : String) (c : Command) (js : List Job) :
    ((owner, .emit c) :: js).map (Job.redirect f) = (owner, .emit c) :: js.map (Job.redirect f) :=
  rfl

lemma map_redirect_visit (f : String → String) (owner x : String) (indent : UInt32)
    (js : List Job) :
    ((owner, .visit x indent) :: js).map (Job.redirect f) =
      (owner, .visit (f x) indent) :: js.map (Job.redirect f) :=
  rfl

lemma map_redirect_visitAny (f : String → String) (target : Option String) (indent : UInt32) :
    (visitAny target indent).map (Task.redirect f) = visitAny (target.map f) indent := by
  cases target <;> rfl

lemma Layout.tasks_redirect (f : String → String) (l : Layout) :
    (l.redirect f).tasks = l.tasks.map (Task.redirect f) := by
  have hemits : ∀ cs : List Command, (cs.map Task.emit).map (Task.redirect f) = cs.map .emit := by
    intro cs
    rw [List.map_map]
    rfl
  have hslots : (l.slots.flatMap (Slot.tasks l.depth)).map (Task.redirect f) =
      (l.slots.map fun s => { s with target := s.target.map f }).flatMap (Slot.tasks l.depth) := by
    rw [List.map_flatMap, List.flatMap_map]
    refine List.flatMap_congr fun s _ => ?_
    simp only [Slot.tasks, List.map_append, hemits, map_redirect_visitAny]
  rw [tasks, tasks, List.map_append, List.map_append, hemits, hemits, hslots]
  rfl

/-- Where an edge leads if those to `id` are led to `target`. -/
def reroute (id target x : String) : String :=
  if x = id then target else x

lemma reroute_self (id target : String) : reroute id target id = target :=
  if_pos rfl

lemma reroute_of_ne {id target x : String} (h : x ≠ id) : reroute id target x = x :=
  if_neg h

namespace Document

variable {d : Document} {options : Options} {id target : String}

/-- The document without node `id` and the edges that leave it.  Edges that enter it lead to
`target` instead. -/
def splice (d : Document) (id target : String) : Document where
  nodes := d.nodes.filter (·.id != id)
  edges := (d.edges.filter (·.source != id)).map fun e =>
    { e with target := reroute id target e.target }

lemma node?_splice {x : String} (hx : x ≠ id) : (d.splice id target).node? x = d.node? x := by
  rw [node?, node?, splice, ← List.head?_filter, ← List.head?_filter, List.filter_filter]
  refine congrArg List.head? (List.filter_congr fun n _ => ?_)
  by_cases hn : n.id = x
  · simp [hn, hx]
  · simp [hn]

lemma outgoing_splice {x : String} (hx : x ≠ id) :
    (d.splice id target).outgoing x =
      (d.outgoing x).map fun e => { e with target := reroute id target e.target } := by
  rw [outgoing, outgoing, splice, List.filter_map, List.filter_filter]
  refine congrArg (List.map _) (List.filter_congr fun e _ => ?_)
  by_cases he : e.source = x
  · simp [he, hx]
  · simp [he]

lemma firstTarget?_splice {x : String} (hx : x ≠ id) :
    (d.splice id target).firstTarget? x = (d.firstTarget? x).map (reroute id target) := by
  rw [firstTarget?, firstTarget?, outgoing_splice hx, List.head?_map, Option.map_map,
    Option.map_map]
  rfl

lemma targetAt?_splice {x : String} (hx : x ≠ id) (handle : String) :
    (d.splice id target).targetAt? x handle =
      (d.targetAt? x handle).map (reroute id target) := by
  rw [targetAt?, targetAt?, outgoing_splice hx, List.find?_map, Option.map_map, Option.map_map]
  rfl

/-- The other nodes do the same as before, and lead past the node. -/
lemma jobs_splice {n : Node} (hn : n.id ≠ id) (indent : UInt32) :
    (d.splice id target).jobs options n indent =
      (d.jobs options n indent).map (Job.redirect (reroute id target)) := by
  rw [jobs, jobs, layout_redirect options (firstTarget?_splice hn) (targetAt?_splice hn),
    Layout.tasks_redirect, List.map_map, List.map_map]
  rfl

/-- Whom a visit belongs to does not matter. -/
lemma workOff_owner (owner owner' x : String) (indent : UInt32) (js : List Job) (u : IdSet) :
    d.workOff options ((owner, .visit x indent) :: js) u =
      d.workOff options ((owner', .visit x indent) :: js) u := by
  rw [workOff, workOff]

/-! ## A node in the middle of a connection -/

/-- The muted node `m` lies in the middle of a connection: `e` is the only edge that enters it, and
`f` is the only one that leaves it. -/
structure Between (d : Document) (m : Node) (e f : Edge) : Prop where
  node : d.nodes.filter (·.id == m.id) = [m]
  muted : m.muted
  kind : m.kind.isPassable
  enters : d.incoming m.id = [e]
  leaves : d.outgoing m.id = [f]
  ne : e ≠ f

namespace Between

variable {m : Node} {e f : Edge} (h : d.Between m e f)

include h

lemma mem_edges : (e ∈ d.edges ∧ e.target = m.id) ∧ f ∈ d.edges ∧ f.source = m.id := by
  have he : e ∈ d.incoming m.id := by simp [h.enters]
  have hf : f ∈ d.outgoing m.id := by simp [h.leaves]
  simpa [incoming, outgoing] using And.intro he hf

lemma source_ne : e.source ≠ m.id := by
  intro hsource
  have he : e ∈ d.outgoing m.id := List.mem_filter.2 ⟨h.mem_edges.1.1, by simpa using hsource⟩
  rw [h.leaves, List.mem_singleton] at he
  exact h.ne he

lemma target_ne : f.target ≠ m.id := by
  intro htarget
  have hf : f ∈ d.incoming m.id := List.mem_filter.2 ⟨h.mem_edges.2.1, by simpa using htarget⟩
  rw [h.enters, List.mem_singleton] at hf
  exact h.ne hf.symm

lemma node?_eq : d.node? m.id = some m := by
  rw [node?, ← List.head?_filter, h.node]
  rfl

lemma eq_of_id_eq {n : Node} (hn : n ∈ d.nodes) (hid : n.id = m.id) : n = m := by
  have hmem : n ∈ d.nodes.filter (·.id == m.id) := List.mem_filter.2 ⟨hn, by simpa using hid⟩
  rwa [h.node, List.mem_singleton] at hmem

lemma start?_splice : (d.splice m.id f.target).start? = d.start? := by
  rw [start?, start?, splice, ← List.head?_filter, ← List.head?_filter, List.filter_filter]
  refine congrArg List.head? (List.filter_congr fun n hn => ?_)
  by_cases hid : n.id = m.id
  · rw [h.eq_of_id_eq hn hid, Node.isStart_of_isPassable h.kind]
    rfl
  · simp [hid]

lemma entrance?_splice :
    (d.splice m.id f.target).entrance? = d.entrance?.map (reroute m.id f.target) := by
  rw [entrance?, entrance?, h.start?_splice]
  cases hd : d.start? with
  | none => rfl
  | some start =>
    refine firstTarget?_splice fun hid => ?_
    have hisStart : start.isStart = true := List.find?_some hd
    rw [h.eq_of_id_eq (List.mem_of_find?_eq_some hd) hid,
      Node.isStart_of_isPassable h.kind] at hisStart
    cases hisStart

/-- The node does nothing but lead to the next one. -/
lemma jobs_eq (indent : UInt32) : d.jobs options m indent = [(m.id, .visit f.target indent)] := by
  have hbypass : d.bypass? m = some f.target := by
    rw [bypass?_eq h.kind, head?_moveFront, h.leaves]
    cases hp : m.kind.isBypass f <;> simp [hp]
  rw [jobs, layout, h.muted, Node.isStart_of_isPassable h.kind, hbypass]
  rfl

/-- No other edges enter or leave the node. -/
lemma exists_perm_edges :
    ∃ rest, d.edges.Perm (e :: f :: rest) ∧ ∀ r ∈ rest, r.source ≠ m.id ∧ r.target ≠ m.id := by
  obtain ⟨⟨he, htarget⟩, hf, hsource⟩ := h.mem_edges
  have hf' : f ∈ d.edges.erase e := (List.mem_erase_of_ne h.ne.symm).2 hf
  have hperm : d.edges.Perm (e :: f :: (d.edges.erase e).erase f) :=
    (List.perm_cons_erase he).trans ((List.perm_cons_erase hf').cons e)
  generalize (d.edges.erase e).erase f = rest at hperm
  refine ⟨rest, hperm, fun r hr => ⟨fun hr' => ?_, fun hr' => ?_⟩⟩
  · have hleaves : [f].Perm (f :: rest.filter (·.source == m.id)) := by
      have hfilter := hperm.filter (·.source == m.id)
      rwa [← outgoing, h.leaves, List.filter_cons_of_neg (by simpa using h.source_ne),
        List.filter_cons_of_pos (by simpa using hsource)] at hfilter
    have hnil := ((List.perm_cons f).1 hleaves).symm.eq_nil
    exact List.ne_nil_of_mem (List.mem_filter.2 ⟨hr, by simpa using hr'⟩) hnil
  · have henters : [e].Perm (e :: rest.filter (·.target == m.id)) := by
      have hfilter := hperm.filter (·.target == m.id)
      rwa [← incoming, h.enters, List.filter_cons_of_pos (by simpa using htarget),
        List.filter_cons_of_neg (by simpa using h.target_ne)] at hfilter
    have hnil := ((List.perm_cons e).1 henters).symm.eq_nil
    exact List.ne_nil_of_mem (List.mem_filter.2 ⟨hr, by simpa using hr'⟩) hnil

/-- As many edges as before enter each of the other nodes. -/
lemma length_incoming_splice {x : String} (hx : x ≠ m.id) :
    ((d.splice m.id f.target).incoming x).length = (d.incoming x).length := by
  obtain ⟨⟨-, htarget⟩, -, hsource⟩ := h.mem_edges
  obtain ⟨rest, hperm, hrest⟩ := h.exists_perm_edges
  have hstay : (rest.filter (·.source != m.id)).map
      (fun r => { r with target := reroute m.id f.target r.target }) = rest := by
    rw [List.filter_eq_self.2 fun r hr => by simpa using (hrest r hr).1]
    calc rest.map (fun r => { r with target := reroute m.id f.target r.target })
      _ = rest.map id := List.map_congr_left fun r hr => by
          rw [reroute_of_ne (hrest r hr).2]
          rfl
      _ = rest := List.map_id rest
  have hsplice : (d.splice m.id f.target).edges.Perm ({ e with target := f.target } :: rest) := by
    have hmap := (hperm.filter (·.source != m.id)).map
      fun r => { r with target := reroute m.id f.target r.target }
    rwa [List.filter_cons_of_pos (by simpa using h.source_ne),
      List.filter_cons_of_neg (by simpa using hsource), List.map_cons, hstay, htarget,
      reroute_self] at hmap
  have hlength := (hsplice.filter (·.target == x)).length_eq
  have hlength' := (hperm.filter (·.target == x)).length_eq
  rw [incoming, incoming, hlength, hlength', List.filter_cons_of_neg (l := f :: rest)
    (by simpa [htarget] using hx.symm)]
  by_cases hf : f.target = x <;> simp [hf]

/-! ## The two compilations -/

/-- By the recursion of `workOff`: if the node is never visited again, then the compiler does the
same as before, except that it does not enter the node. -/
theorem workOff_splice (js : List Job) (u : IdSet) :
    ∀ u' : IdSet, (∀ x, x ≠ m.id → (x ∈ u' ↔ x ∈ u)) →
      (∀ k, .revisit m.id k ∉ d.workOff options js u) →
      (d.splice m.id f.target).workOff options (js.map (Job.redirect (reroute m.id f.target))) u' =
        (d.workOff options js u).filter (·.entered? != some m.id) := by
  fun_induction d.workOff options js u with
  | case1 u =>
    intro u' _ _
    rw [List.map_nil, workOff]
    rfl
  | case2 owner c js u ih =>
    intro u' hu hno
    have ih := ih u' hu fun k hk => hno k (List.mem_cons_of_mem _ hk)
    rw [map_redirect_emit, workOff, List.filter_cons_of_pos rfl, ih]
  | case3 owner x indent js u hnone ih =>
    intro u' hu hno
    have hx : x ≠ m.id := by
      rintro rfl
      rw [h.node?_eq] at hnone
      cases hnone
    rw [map_redirect_visit, reroute_of_ne hx, workOff_dead ((node?_splice hx).trans hnone)]
    exact ih u' hu hno
  | case4 owner x indent js u n hn hmem ih =>
    intro u' hu hno
    have hno : ∀ k, .revisit m.id k ∉
        d.workOff options (d.jobs options n indent ++ js) (u.erase x) :=
      fun k hk => hno k (List.mem_cons_of_mem _ hk)
    rw [map_redirect_visit]
    by_cases hx : x = m.id
    · -- the node itself: the next one is visited at once
      subst hx
      obtain rfl : m = n := Option.some.inj (h.node?_eq.symm.trans hn)
      have hu' : ∀ y, y ≠ m.id → (y ∈ u' ↔ y ∈ u.erase m.id) := by
        intro y hy
        rw [hu y hy, Std.HashSet.mem_erase]
        simp [hy.symm]
      have ih := ih u' hu' hno
      rw [h.jobs_eq, List.singleton_append, map_redirect_visit, reroute_of_ne h.target_ne] at ih
      rw [reroute_self, workOff_owner owner m.id, ih, h.jobs_eq,
        List.filter_cons_of_neg (by simp [Item.entered?])]
      rfl
    · have hu' : ∀ y, y ≠ m.id → (y ∈ u'.erase x ↔ y ∈ u.erase x) := by
        intro y hy
        rw [Std.HashSet.mem_erase, Std.HashSet.mem_erase, hu y hy]
      have hid : n.id ≠ m.id := by rwa [id_of_node? hn]
      have ih := ih _ hu' hno
      rw [List.map_append, ← jobs_splice hid] at ih
      rw [reroute_of_ne hx, workOff_enter ((node?_splice hx).trans hn) ((hu x hx).2 hmem), ih,
        List.filter_cons_of_pos (by simpa [Item.entered?] using hx)]
  | case5 owner x indent js u n hn hmem ih =>
    intro u' hu hno
    have hx : x ≠ m.id := by
      rintro rfl
      exact hno indent List.mem_cons_self
    have ih := ih u' hu fun k hk => hno k (List.mem_cons_of_mem _ hk)
    rw [map_redirect_visit, reroute_of_ne hx,
      workOff_jump ((node?_splice hx).trans hn) (mt (hu x hx).1 hmem), ih,
      List.filter_cons_of_pos rfl]

variable (hstart : ∀ start, d.start? = some start → d.incoming start.id = [])

include hstart

lemma not_mem_jumps : m.id ∉ d.trunk.jumps := by
  intro hmem
  have hlength := one_lt_incoming_of_mem_jumps hstart hmem
  rw [h.enters] at hlength
  exact absurd hlength (by simp)

lemma needsLabel_eq_false : d.needsLabel m.id = false := by
  rw [needsLabel, Index.isConvergence_ofDocument, h.enters]
  simpa using h.not_mem_jumps hstart

/-- All that is missing if the node is taken out is that it is entered. -/
lemma items_splice :
    (d.splice m.id f.target).items options =
      (d.items options).filter (·.entered? != some m.id) := by
  have hfirst : (d.splice m.id f.target).firstJobs =
      d.firstJobs.map (Job.redirect (reroute m.id f.target)) := by
    rw [firstJobs, firstJobs, h.entrance?_splice]
    cases d.entrance? <;> rfl
  have hids : ∀ x, x ≠ m.id → (x ∈ (d.splice m.id f.target).allIds ↔ x ∈ d.allIds) := by
    intro x hx
    rw [mem_allIds, mem_allIds, node?_splice hx]
  have hno : ∀ k, .revisit m.id k ∉ d.workOff options d.firstJobs d.allIds := by
    intro k hk
    rw [← items_eq_workOff] at hk
    refine h.not_mem_jumps hstart ?_
    rw [← filterMap_revisited?_items options]
    exact List.mem_filterMap.2 ⟨_, hk, rfl⟩
  rw [items_eq_workOff, items_eq_workOff, hfirst, h.workOff_splice _ _ _ hids hno]

/-- The other nodes need a label if they did before. -/
lemma needsLabel_splice {x : String} (hx : x ≠ m.id) :
    (d.splice m.id f.target).needsLabel x = d.needsLabel x := by
  have hjumps : (d.splice m.id f.target).trunk.jumps = d.trunk.jumps := by
    rw [← filterMap_revisited?_items {}, ← filterMap_revisited?_items {}, h.items_splice hstart,
      List.filterMap_filter]
    refine List.filterMap_congr fun i _ => ?_
    cases i with
    | enter y k => exact ite_self _
    | revisit y k => rfl
    | emit owner c => rfl
  rw [needsLabel, needsLabel, Index.isConvergence_ofDocument, Index.isConvergence_ofDocument,
    h.length_incoming_splice hx, hjumps]

end Between

/-- Splicing out a muted node in the middle of a connection leaves the program as it is, if no edge
enters the start. -/
theorem compile_splice (d : Document) (m : Node) (e f : Edge) (h : d.Between m e f)
    (hstart : ∀ start, d.start? = some start → d.incoming start.id = []) (options : Options) :
    (d.splice m.id f.target).compile options = d.compile options := by
  have hcommands : ∀ items : List Item,
      (items.filter (·.entered? != some m.id)).flatMap
          (Item.commands (d.splice m.id f.target).needsLabel) =
        items.flatMap (Item.commands d.needsLabel) := by
    intro items
    induction items with
    | nil => rfl
    | cons i items ih =>
      cases i with
      | enter x k =>
        by_cases hx : x = m.id
        · -- the node has no label, so nothing is lost
          rw [List.filter_cons_of_neg (by simp [Item.entered?, hx]), List.flatMap_cons,
            Item.commands, hx, h.needsLabel_eq_false hstart, ih]
          rfl
        · rw [List.filter_cons_of_pos (by simpa [Item.entered?] using hx), List.flatMap_cons,
            List.flatMap_cons, ih, Item.commands, Item.commands, h.needsLabel_splice hstart hx]
      | revisit | emit =>
        rw [List.filter_cons_of_pos rfl, List.flatMap_cons, List.flatMap_cons, ih]
        rfl
  rw [compile_eq_ite, compile_eq_ite, h.start?_splice, h.items_splice hstart, hcommands]

/-- A menu one of whose choices leads through a muted condition to a node that the other one leads
to as well, and from there back to the menu. -/
def relay : Document where
  nodes := [{ id := "start", kind := .start },
    { id := "ask", kind := .menu
        { choices := [{ id := "a", text := "Haggle" }, { id := "b", text := "Buy" }] } },
    { id := "rich", muted := true, kind := .condition (.switch 1 true) },
    { id := "pay", kind := .action [.commonEvent 3] }]
  edges := [{ id := "e0", source := "start", target := "ask" },
    { id := "e1", source := "rich", target := "pay", handle := some "false" },
    { id := "e2", source := "ask", target := "rich", handle := some "choice-0" },
    { id := "e3", source := "ask", target := "pay", handle := some "choice-1" },
    { id := "e4", source := "pay", target := "ask" }]

/-- The same dialogue without the muted condition. -/
def relaySpliced : Document where
  nodes := [{ id := "start", kind := .start },
    { id := "ask", kind := .menu
        { choices := [{ id := "a", text := "Haggle" }, { id := "b", text := "Buy" }] } },
    { id := "pay", kind := .action [.commonEvent 3] }]
  edges := [{ id := "e0", source := "start", target := "ask" },
    { id := "e2", source := "ask", target := "pay", handle := some "choice-0" },
    { id := "e3", source := "ask", target := "pay", handle := some "choice-1" },
    { id := "e4", source := "pay", target := "ask" }]

theorem compile_relaySpliced :
    relay.Between relay.nodes[2] relay.edges[2] relay.edges[1] ∧
      (∀ start, relay.start? = some start → relay.incoming start.id = []) ∧
      relaySpliced.compile {} = relay.compile {} := by
  have h : relay.Between relay.nodes[2] relay.edges[2] relay.edges[1] :=
    ⟨by decide, rfl, rfl, by decide, by decide, by decide⟩
  have hstart : ∀ start, relay.start? = some start → relay.incoming start.id = [] := by
    intro start hd
    obtain rfl : relay.nodes[0] = start := Option.some.inj hd
    decide
  have hsplice : relay.splice "rich" "pay" = relaySpliced := by decide
  refine ⟨h, hstart, ?_⟩
  rw [← hsplice]
  exact compile_splice relay _ _ _ h hstart {}

end Document

end Dialogue
