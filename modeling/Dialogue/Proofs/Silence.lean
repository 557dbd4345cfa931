import Dialogue.Proofs.Muting
/-!
Muting nodes that do nothing.

Some nodes emit no commands: the one where a dialogue begins, the one where it ends, frames and
remarks.  Muting one of them changes nothing (`compile_eq_of_isSilent`), with one exception.  A
muted node is passed over, so behind a muted end the dialogue goes on along the first edge that
leaves it.  Usually there is none; but if there is one and it leads to a node, then the program may
go on with that node (`compile_signpost_ne`).
-/

namespace Dialogue

/-- Whether a node of that kind emits no commands. -/
def NodeKind.isSilent : NodeKind → Bool
  | start | finish | group | comment => true
  | menu _ | action _ | condition _ => false

namespace Document

variable {options : Options}

/-! ## One node in the place of another -/

section Replace

variable (before after : List Node) (edges : List Edge) {n n' : Node}

/-- A search that cannot tell two nodes apart finds the same if one is put for the other, unless
that is what it finds. -/
lemma find?_replace {p : Node → Bool} (hp : p n = p n') :
    (before ++ n :: after).find? p = (before ++ n' :: after).find? p ∨
      (before ++ n :: after).find? p = some n ∧ (before ++ n' :: after).find? p = some n' ∧
        before.find? p = none := by
  rw [List.find?_append, List.find?_append, List.find?_cons, List.find?_cons, hp]
  cases before.find? p with
  | some m => exact .inl rfl
  | none =>
    cases p n' with
    | false => exact .inl rfl
    | true => exact .inr ⟨rfl, rfl, rfl⟩

lemma isSome_start?_replace (hstart : n.isStart = n'.isStart) :
    (start? ⟨before ++ n :: after, edges⟩).isSome =
      (start? ⟨before ++ n' :: after, edges⟩).isSome := by
  rw [start?, start?]
  rcases find?_replace before after hstart with h | ⟨h, h', -⟩
  · rw [h]
  · rw [h, h']
    rfl

lemma entrance?_replace (hid : n.id = n'.id) (hstart : n.isStart = n'.isStart) :
    entrance? ⟨before ++ n :: after, edges⟩ = entrance? ⟨before ++ n' :: after, edges⟩ := by
  rw [entrance?, entrance?, start?, start?]
  rcases find?_replace before after hstart with h | ⟨h, h', -⟩
  · rw [h]
    rfl
  · rw [h, h', Option.bind_some, Option.bind_some, hid]
    rfl

lemma node?_replace (hid : n.id = n'.id) (x : String) :
    node? ⟨before ++ n :: after, edges⟩ x = node? ⟨before ++ n' :: after, edges⟩ x ∨
      x = n.id ∧ n.id ∉ before.map Node.id ∧ node? ⟨before ++ n :: after, edges⟩ x = some n ∧
        node? ⟨before ++ n' :: after, edges⟩ x = some n' := by
  have hp : (n.id == x) = (n'.id == x) := by rw [hid]
  rcases find?_replace before after (p := (·.id == x)) hp with h | ⟨h, h', hbefore⟩
  · exact .inl h
  · have hx : n.id = x := by simpa using List.find?_some h
    refine .inr ⟨hx.symm, ?_, h, h'⟩
    rw [List.find?_eq_none] at hbefore
    simpa [hx] using hbefore

lemma isSome_node?_replace (hid : n.id = n'.id) (x : String) :
    (node? ⟨before ++ n :: after, edges⟩ x).isSome =
      (node? ⟨before ++ n' :: after, edges⟩ x).isSome := by
  rcases node?_replace before after edges hid x with h | ⟨-, -, h, h'⟩
  · rw [h]
  · rw [h, h']
    rfl

lemma nodeAt?_replace_eq_none (hid : n.id = n'.id) {target : Option String}
    (h : nodeAt? ⟨before ++ n :: after, edges⟩ target = none) :
    nodeAt? ⟨before ++ n' :: after, edges⟩ target = none := by
  cases target with
  | none => rfl
  | some x =>
    change node? _ x = none at h ⊢
    have hsome := isSome_node?_replace before after edges hid x
    rw [h] at hsome
    simpa using hsome.symm

/-- If one node is put for another, and of their plans the same is seen in case that the compiler
comes there, then the program stays the same. -/
theorem compile_replace (hid : n.id = n'.id) (hstart : n.isStart = n'.isStart)
    (hseen : n.id ∉ before.map Node.id → Reached ⟨before ++ n :: after, edges⟩ n.id →
      ∀ indent, (jobs ⟨before ++ n :: after, edges⟩ options n indent).filterMap
          (Job.seen ⟨before ++ n :: after, edges⟩ some) =
        (jobs ⟨before ++ n' :: after, edges⟩ options n' indent).filterMap
          (Job.seen ⟨before ++ n' :: after, edges⟩ some)) :
    compile ⟨before ++ n :: after, edges⟩ options =
      compile ⟨before ++ n' :: after, edges⟩ options := by
  have hsome := isSome_node?_replace before after edges hid
  have hparallel : Parallel some options options ⟨before ++ n :: after, edges⟩
      ⟨before ++ n' :: after, edges⟩ := by
    refine ⟨hsome, entrance?_replace before after edges hid hstart, fun x hx => ?_⟩
    rcases node?_replace before after edges hid x with h | ⟨rfl, hfirst, h, h'⟩
    · obtain ⟨m, hm⟩ := Option.isSome_iff_exists.1 hx.isSome
      refine ⟨m, m, hm, h.symm.trans hm, fun indent => ?_⟩
      have hlayout : layout ⟨before ++ n :: after, edges⟩ options m =
          layout ⟨before ++ n' :: after, edges⟩ options m := layout_congr options rfl
      rw [seen_congr hsome, jobs, jobs, hlayout]
    · exact ⟨n, n', h, h', hseen hfirst hx⟩
  exact hparallel.compile_eq (isSome_start?_replace before after edges hstart) fun x _ => rfl

end Replace

/-! ## Nodes that emit no commands -/

variable {d : Document} {α : Type} {view : Item → Option α}

/-- The node where a dialogue begins is never passed over. -/
lemma layout_of_start {n : Node} (h : n.kind = .start) (indent : UInt32) :
    d.layout options n indent = passingLayout [] (d.firstTarget? n.id) indent := by
  have hstart : n.isStart = true := by rw [Node.isStart, h]
  rw [layout, hstart, h]
  simp

/-- Nothing is seen of the plan of another silent node, muted or not, if an end leads nowhere. -/
lemma jobs_seen_of_isSilent {n : Node} (hsilent : n.kind.isSilent) (hstart : n.kind ≠ .start)
    (hends : n.kind = .finish → d.nodeAt? (d.firstTarget? n.id) = none) (indent : UInt32) :
    (d.jobs options n indent).filterMap (Job.seen d view) = [] := by
  rw [jobs, layout]
  split
  · rw [tasks_passingLayout]
    cases hkind : n.kind with
    | finish =>
      have hdead := hends hkind
      rw [bypass?, hkind]
      cases htarget : d.firstTarget? n.id with
      | none => rfl
      | some x =>
        rw [htarget] at hdead
        simp [visitAny, seen_dead hdead]
    | group => rw [bypass?, hkind]; rfl
    | comment => rw [bypass?, hkind]; rfl
    | start => exact absurd hkind hstart
    | menu _ | action _ | condition _ => rw [hkind] at hsilent; cases hsilent
  · cases hkind : n.kind with
    | finish => rfl
    | group => rfl
    | comment => rfl
    | start => exact absurd hkind hstart
    | menu _ | action _ | condition _ => rw [hkind] at hsilent; cases hsilent

/-- Muting a node that emits no commands changes nothing, and neither does unmuting it, unless it is
an end that the compiler comes to and whose first edge leads to a node.  The compiler comes to a
node if it is reached and is the first one with its id. -/
theorem compile_eq_of_isSilent (d : Document) {before after : List Node} {n : Node}
    (hd : d.nodes = before ++ n :: after) (hsilent : n.kind.isSilent)
    (hends : n.kind = .finish → n.id ∉ before.map Node.id → d.Reached n.id →
      d.nodeAt? (d.firstTarget? n.id) = none) (muted : Bool) (options : Options) :
    compile { d with nodes := before ++ { n with muted } :: after } options =
      d.compile options := by
  obtain ⟨nodes, edges⟩ := d
  obtain rfl : nodes = before ++ n :: after := hd
  have hsome := @isSome_node?_replace before after edges n { n with muted } rfl
  symm
  refine compile_replace before after edges rfl rfl fun hfirst hreached indent => ?_
  by_cases hstart : n.kind = .start
  · rw [jobs, jobs, layout_of_start hstart, @layout_of_start _ _ { n with muted } hstart,
      seen_congr hsome]
    rfl
  · have hdead := fun hkind => hends hkind hfirst hreached
    have hdead' := fun hkind => @nodeAt?_replace_eq_none before after edges n { n with muted } rfl
      _ (hdead hkind)
    rw [jobs_seen_of_isSilent hsilent hstart hdead,
      @jobs_seen_of_isSilent _ _ _ _ { n with muted } hsilent hstart hdead']

/-- A dialogue that ends in two ways at the same place, from where an edge leads to a node that does
not exist. -/
def farewell (muted : Bool) : Document where
  nodes := [{ id := "start", kind := .start },
    { id := "ask", kind := .menu
        { choices := [{ id := "a", text := "Stay" }, { id := "b", text := "Leave" }] } },
    { id := "end", muted, kind := .finish },
    { id := "note", kind := .comment }]
  edges := [{ id := "e0", source := "start", target := "ask" },
    { id := "e1", source := "ask", target := "end", handle := some "choice-0" },
    { id := "e2", source := "ask", target := "end", handle := some "choice-1" },
    { id := "e3", source := "end", target := "gone" },
    { id := "e4", source := "end", target := "note" }]

theorem compile_farewell_eq :
    ((farewell false).nodes[2]).kind.isSilent ∧ (farewell false).Reached "end" ∧
      (farewell false).nodeAt? ((farewell false).firstTarget? "end") = none ∧
      (farewell true).compile {} = (farewell false).compile {} := by
  have hask : (farewell false).Reached "ask" := .entrance rfl rfl
  have hend : (farewell false).Reached "end" := hask.outlet (by decide) rfl
  exact ⟨rfl, hend, rfl, @compile_eq_of_isSilent (farewell false) ((farewell false).nodes.take 2)
    ((farewell false).nodes.drop 3) _ rfl rfl (fun _ _ _ => rfl) true {}⟩

/-- A dialogue with an edge that leads on from its end. -/
def signpost (muted : Bool) : Document where
  nodes := [{ id := "start", kind := .start },
    { id := "sign", muted, kind := .finish },
    { id := "inn", kind := .action [.commonEvent 7] }]
  edges := [{ id := "e0", source := "start", target := "sign" },
    { id := "e1", source := "sign", target := "inn" }]

lemma items_signpost_false : (signpost false).items {} = [.enter "sign" 0] := by
  have hsign : (signpost false).node? "sign" = some (signpost false).nodes[1] := rfl
  have hjobs : (signpost false).jobs {} (signpost false).nodes[1] 0 = [] := rfl
  have hfirst : (signpost false).firstJobs = [("", .visit "sign" 0)] := rfl
  rw [items_eq_workOff, hfirst, workOff_enter hsign (mem_allIds.2 rfl), hjobs, List.append_nil,
    workOff]

lemma items_signpost_true : (signpost true).items {} =
    [.enter "sign" 0, .enter "inn" 0, .emit "inn" (.commonEvent 0 7)] := by
  have hsign : (signpost true).node? "sign" = some (signpost true).nodes[1] := rfl
  have hinn : (signpost true).node? "inn" = some (signpost true).nodes[2] := rfl
  have hjobs : (signpost true).jobs {} (signpost true).nodes[1] 0 = [("sign", .visit "inn" 0)] :=
    rfl
  have hjobs' : (signpost true).jobs {} (signpost true).nodes[2] 0 =
    [("inn", .emit (.commonEvent 0 7))] := rfl
  have hfirst : (signpost true).firstJobs = [("", .visit "sign" 0)] := rfl
  rw [items_eq_workOff, hfirst, workOff_enter hsign (mem_allIds.2 rfl), hjobs, List.append_nil,
    workOff_enter hinn, hjobs', List.append_nil, workOff, workOff]
  rw [Std.HashSet.mem_erase]
  exact ⟨by decide, mem_allIds.2 rfl⟩

/-- Behind the muted end the dialogue goes on: muting this node, which emits no commands, changes
the program. -/
theorem compile_signpost_ne : ((signpost false).nodes[1]).kind.isSilent ∧
    (signpost true).compile {} ≠ (signpost false).compile {} := by
  refine ⟨rfl, fun heq => ?_⟩
  have hmem : Command.commonEvent 0 7 ∈ (signpost true).compile {} := by
    rw [compile_eq rfl, items_signpost_true]
    simp [Item.commands]
  rw [heq, compile_eq rfl, items_signpost_false] at hmem
  simp [Item.commands, Command.commonEvent, Command.label, Command.stop] at hmem

end Document

end Dialogue
