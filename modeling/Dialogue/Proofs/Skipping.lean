import Dialogue.Proofs.Readers
/-!
Skipping values.

A value that is skipped is accepted whatever it is, and exactly its spelling is taken.  The loop
that skips keeps the containers which are open on a stack; a turn of it takes a scalar or an opening
bracket, with all that follows up to the next value.  The induction is on the tree, at the same time
with the rest of a list and the rest of an object.
-/

namespace Dialogue.Json

mutual

/-- How often the loop that skips a tree goes on: once for each item or member in it. -/
def Tree.turns : Tree → Nat
  | .list ts => itemTurns ts
  | .object ms => memberTurns ms
  | _ => 0

/-- The turns for the items of a list. -/
def itemTurns : List Tree → Nat
  | [] => 0
  | t :: ts => t.turns + 1 + itemTurns ts

/-- The turns for the members of an object. -/
def memberTurns : List (RawText × Tree) → Nat
  | [] => 0
  | (_, t) :: ms => t.turns + 1 + memberTurns ms

end

mutual

lemma turns_lt : (t : Tree) → {cs : List Char} → Spells t cs → t.turns < cs.length
  | .list ts, _, .list h => by
    have := itemTurns_lt ts h
    simp only [Tree.turns, List.length_cons]
    omega
  | .object ms, _, .object h => by
    have := memberTurns_lt ms h
    simp only [Tree.turns, List.length_cons]
    omega
  | .null, _, h | .bool _, _, h | .number _ _, _, h | .text _, _, h => by
    obtain ⟨c, cs, rfl, -⟩ := h.exists_cons
    exact Nat.zero_lt_succ _

lemma itemTurns_lt : (ts : List Tree) → {first : Bool} → {cs : List Char} →
    SpellsItems first ts cs → itemTurns ts < cs.length
  | [], _, _, .close _ => by simp [itemTurns]
  | t :: ts, _, _, .item _ h hmore => by
    have := turns_lt t h
    have := itemTurns_lt ts hmore
    simp only [itemTurns, List.length_append]
    omega

lemma memberTurns_lt : (ms : List (RawText × Tree)) → {first : Bool} → {cs : List Char} →
    SpellsMembers first ms cs → memberTurns ms < cs.length
  | [], _, _, .close _ => by simp [memberTurns]
  | (_, t) :: ms, _, _, .member _ _ _ h hmore => by
    have := turns_lt t h
    have := memberTurns_lt ms hmore
    simp only [memberTurns, List.length_append, List.length_cons]
    omega

end

/-- What the loop does after a turn: it stops, or goes on if there is time left. -/
def resume {σ α : Type} (step : σ → Reader (σ ⊕ α)) (clock : List Char) : σ ⊕ α → Reader α
  | .inr a => pure a
  | .inl s =>
    match clock with
    | [] => throw .endInValue
    | _ :: clock => iterate step clock s

lemma iterate_eq {σ α : Type} (step : σ → Reader (σ ⊕ α)) (clock : List Char) (s : σ) :
    iterate step clock s = step s >>= resume step clock := by
  cases clock <;>
  · rw [iterate]
    congr 1
    funext x
    cases x <;> rfl

lemma resume_inl {σ α : Type} {step : σ → Reader (σ ⊕ α)} {clock : List Char} {s : σ}
    (h : clock ≠ []) : resume step clock (.inl s) = iterate step (clock.drop 1) s := by
  cases clock with
  | nil => exact absurd rfl h
  | cons c clock => rfl

section Skipping

variable {containers : List Container} {ws cs more rest : List Char}

lemma skipTextRest_append (raw : RawText) (rest : List Char) :
    skipTextRest (raw.chars ++ '"' :: rest) = .ok ((), rest) := by
  obtain ⟨s, hs⟩ := exists_decode raw.isRaw
  rw [skipTextRest, textBody_append false raw.isRaw, hs]
  rfl

lemma skipNumberRest_append {n : Numeral} (hn : IsNumeral n) (hcs : SpellsNumeral n cs)
    (hrest : Ends rest) : skipNumberRest (cs ++ rest) = .ok ((), rest) := by
  rw [skipNumberRest, numeral_append hn hcs hrest]
  rfl

lemma skipKey_append (hws : Spaces ws) (raw : RawText) (hws' : Spaces cs) :
    skipKey (ws ++ '"' :: (raw.chars ++ '"' :: (cs ++ ':' :: rest))) = .ok ((), rest) := by
  rw [skipKey, bind_of_ok (peek_spaces hws rfl)]
  change (skipTextRest >>= fun _ => colon) (raw.chars ++ '"' :: (cs ++ ':' :: rest)) = _
  rw [bind_of_ok (skipTextRest_append raw _), colon_spaces hws']

lemma skipStep_digit {c : Char} (hws : Spaces ws) (hc : c.isDigit = true) :
    skipStep containers (ws ++ c :: cs) =
      (skipNumberRest >>= fun _ => skipAfter containers) (c :: cs) := by
  have hopens : opensValue c = true := by simp [opensValue, hc]
  rw [skipStep, bind_of_ok (peek_spaces hws (not_space_of_opensValue hopens).1)]
  refine congrFun ?_ (c :: cs)
  split
  case h_9 =>
    next heq =>
    obtain rfl := Option.some.inj heq
    rw [if_pos hc]
  all_goals
    next heq =>
    cases heq
    try cases hc

/-- A scalar is skipped in one turn. -/
lemma skipStep_scalar {t : Tree} (ht : t.isScalar) (hws : Spaces ws) (hcs : Spells t cs)
    (hrest : Ends rest) : skipStep containers (ws ++ (cs ++ rest)) = skipAfter containers rest := by
  cases hcs with
  | null => rw [skipStep, List.cons_append, bind_of_ok (peek_spaces hws rfl)]; rfl
  | bool b => cases b <;> (rw [skipStep]; erw [bind_of_ok (peek_spaces hws rfl)]; rfl)
  | @positive n _ h =>
    have hread := skipNumberRest_append n.2 h hrest
    obtain ⟨c, cs', rfl, hc⟩ := h.exists_cons n.2
    rw [List.cons_append] at hread ⊢
    rw [skipStep_digit hws hc, bind_of_ok hread]
  | @negative n cs h =>
    rw [skipStep, List.cons_append, bind_of_ok (peek_spaces hws rfl)]
    change (skipNumberRest >>= fun _ => skipAfter containers) (cs ++ rest) = _
    rw [bind_of_ok (skipNumberRest_append n.2 h hrest)]
  | text raw =>
    rw [skipStep, List.cons_append, bind_of_ok (peek_spaces hws rfl), List.append_assoc]
    change (skipTextRest >>= fun _ => skipAfter containers) (raw.chars ++ '"' :: rest) = _
    rw [bind_of_ok (skipTextRest_append raw rest)]
  | list h | object h => cases ht

lemma skipStep_list (hws : Spaces ws) :
    skipStep containers (ws ++ '[' :: cs) = (do
      match ← peek with
      | none => throw .endInList
      | some ']' => do advance; skipAfter containers
      | some _ => return .inl (.list :: containers) : Reader (List Container ⊕ Unit)) cs := by
  rw [skipStep, bind_of_ok (peek_spaces hws rfl)]
  rfl

lemma skipStep_object (hws : Spaces ws) :
    skipStep containers (ws ++ '{' :: cs) = (do
      match ← peek with
      | none => throw .endInObject
      | some '}' => do advance; skipAfter containers
      | some _ => do
        skipKey
        return .inl (.object :: containers) : Reader (List Container ⊕ Unit)) cs := by
  rw [skipStep, bind_of_ok (peek_spaces hws rfl)]
  rfl

lemma skipAfter_closeList (hws : Spaces ws) :
    skipAfter (.list :: containers) (ws ++ ']' :: rest) = skipAfter containers rest := by
  rw [skipAfter, bind_of_ok (peek_spaces hws rfl)]
  rfl

lemma skipAfter_closeObject (hws : Spaces ws) :
    skipAfter (.object :: containers) (ws ++ '}' :: rest) = skipAfter containers rest := by
  rw [skipAfter, bind_of_ok (peek_spaces hws rfl)]
  rfl

lemma skipAfter_item (hws : Spaces ws) :
    skipAfter (.list :: containers) (ws ++ ',' :: rest) =
      .ok (.inl (.list :: containers), rest) := by
  rw [skipAfter, bind_of_ok (peek_spaces hws rfl)]
  rfl

lemma skipAfter_member (hws : Spaces ws) (hread : skipKey cs = .ok ((), rest)) :
    skipAfter (.object :: containers) (ws ++ ',' :: cs) =
      .ok (.inl (.object :: containers), rest) := by
  rw [skipAfter, bind_of_ok (peek_spaces hws rfl)]
  change (skipKey >>= fun _ => pure (Sum.inl (Container.object :: containers))) cs = _
  rw [bind_of_ok hread]
  rfl

lemma skipStep_item {t : Tree} {ws' : List Char} (hws : Spaces ws) (hws' : Spaces ws')
    (h : Spells t cs) :
    skipStep containers (ws ++ '[' :: (ws' ++ (cs ++ rest))) =
      .ok (.inl (.list :: containers), cs ++ rest) := by
  obtain ⟨c, cs, rfl, hc⟩ := h.exists_cons
  obtain ⟨hspace, hclose, -⟩ := not_space_of_opensValue hc
  rw [skipStep_list hws, List.cons_append, bind_of_ok (peek_spaces hws' hspace)]
  simp only
  rfl

lemma skipStep_member {ws' ws'' : List Char} (hws : Spaces ws) (hws' : Spaces ws')
    (raw : RawText) (hws'' : Spaces ws'') :
    skipStep containers
        (ws ++ '{' :: (ws' ++ '"' :: (raw.chars ++ '"' :: (ws'' ++ ':' :: rest)))) =
      .ok (.inl (.object :: containers), rest) := by
  rw [skipStep_object hws, bind_of_ok (peek_spaces hws' rfl)]
  change (skipKey >>= fun _ => pure (Sum.inl (Container.object :: containers)))
    ([] ++ '"' :: (raw.chars ++ '"' :: (ws'' ++ ':' :: rest))) = _
  rw [bind_of_ok (skipKey_append spaces_nil raw hws'')]
  rfl

/-- A turn that leads to the next value. -/
lemma resume_of_inl {r : Reader (List Container ⊕ Unit)} {clock : List Char}
    (h : r cs = .ok (.inl containers, rest)) (hclock : 0 < clock.length) :
    (r >>= resume skipStep clock) cs = iterate skipStep (clock.drop 1) containers rest := by
  rw [bind_of_ok h, resume_inl (List.ne_nil_of_length_pos hclock)]

/-- The time that is left after one turn, a value and what follows it. -/
lemma clock_spent {clock : List Char} {m n : Nat} (h : m + 1 + n ≤ clock.length) :
    0 < clock.length ∧ m ≤ (clock.drop 1).length ∧ n ≤ ((clock.drop 1).drop m).length ∧
      ((clock.drop 1).drop m).drop n = clock.drop (m + 1 + n) := by
  simp only [List.length_drop, List.drop_drop]
  refine ⟨by omega, by omega, by omega, ?_⟩
  congr 1
  omega

mutual

/-- The loop takes a whole value and then what follows it in its container. -/
lemma iterate_skipStep :
    (t : Tree) → {containers : List Container} → {ws cs rest clock : List Char} →
    Spaces ws → Spells t cs → Ends rest → t.turns ≤ clock.length →
    iterate skipStep clock containers (ws ++ (cs ++ rest)) =
      (skipAfter containers >>= resume skipStep (clock.drop t.turns)) rest
  | .list [], containers, ws, _, rest, clock, hws, .list (.close hws'), _, _ => by
    rw [iterate_eq]
    refine bind_congr_of_eq ?_
    rw [List.cons_append, List.append_assoc, List.singleton_append, skipStep_list hws,
      bind_of_ok (peek_spaces hws' rfl)]
    rfl
  | .list (t :: ts), containers, ws, _, rest, clock, hws, .list (.item (.spaces hws') h hmore), _,
      hclock => by
    rw [Tree.turns, itemTurns] at hclock ⊢
    obtain ⟨hpos, ht, hts, hspent⟩ := clock_spent hclock
    simp only [List.append_assoc, List.cons_append]
    rw [iterate_eq, resume_of_inl (skipStep_item hws hws' h) hpos, ← hspent,
      ← resume_items ts hmore hts]
    exact iterate_skipStep t spaces_nil h (hmore.ends rest) ht
  | .object [], containers, ws, _, rest, clock, hws, .object (.close hws'), _, _ => by
    rw [iterate_eq]
    refine bind_congr_of_eq ?_
    rw [List.cons_append, List.append_assoc, List.singleton_append, skipStep_object hws,
      bind_of_ok (peek_spaces hws' rfl)]
    rfl
  | .object ((key, t) :: ms), containers, ws, _, rest, clock, hws,
      .object (.member (.spaces hbefore) hws' hws'' h hmore), _, hclock => by
    rw [Tree.turns, memberTurns] at hclock ⊢
    obtain ⟨hpos, ht, hms, hspent⟩ := clock_spent hclock
    simp only [List.append_assoc, List.cons_append]
    rw [iterate_eq, resume_of_inl (skipStep_member hws hbefore key hws') hpos, ← hspent,
      ← resume_members ms hmore hms]
    exact iterate_skipStep t hws'' h (hmore.ends rest) ht
  | .null, _, _, _, _, _, hws, h, hrest, _
  | .bool _, _, _, _, _, _, hws, h, hrest, _
  | .number _ _, _, _, _, _, _, hws, h, hrest, _
  | .text _, _, _, _, _, _, hws, h, hrest, _ => by
    rw [iterate_eq]
    exact bind_congr_of_eq (skipStep_scalar rfl hws h hrest)

/-- The loop takes the rest of a list. -/
lemma resume_items : (ts : List Tree) → {containers : List Container} →
    {more rest clock : List Char} → SpellsItems false ts more → itemTurns ts ≤ clock.length →
    (skipAfter (.list :: containers) >>= resume skipStep clock) (more ++ rest) =
      (skipAfter containers >>= resume skipStep (clock.drop (itemTurns ts))) rest
  | [], containers, _, rest, clock, .close hws, _ => by
    rw [List.append_assoc]
    exact bind_congr_of_eq (skipAfter_closeList hws)
  | t :: ts, containers, _, rest, clock, .item (.comma hws hws') h hmore, hclock => by
    rw [itemTurns] at hclock ⊢
    obtain ⟨hpos, ht, hts, hspent⟩ := clock_spent hclock
    simp only [List.append_assoc, List.cons_append]
    rw [resume_of_inl (skipAfter_item hws) hpos, ← hspent, ← resume_items ts hmore hts]
    exact iterate_skipStep t hws' h (hmore.ends rest) ht

/-- The loop takes the rest of an object. -/
lemma resume_members : (ms : List (RawText × Tree)) → {containers : List Container} →
    {more rest clock : List Char} → SpellsMembers false ms more → memberTurns ms ≤ clock.length →
    (skipAfter (.object :: containers) >>= resume skipStep clock) (more ++ rest) =
      (skipAfter containers >>= resume skipStep (clock.drop (memberTurns ms))) rest
  | [], containers, _, rest, clock, .close hws, _ => by
    rw [List.append_assoc]
    exact bind_congr_of_eq (skipAfter_closeObject hws)
  | (key, t) :: ms, containers, _, rest, clock,
      .member (.comma hws hws') hk hk' h hmore, hclock => by
    rw [memberTurns] at hclock ⊢
    obtain ⟨hpos, ht, hms, hspent⟩ := clock_spent hclock
    simp only [List.append_assoc, List.cons_append]
    rw [resume_of_inl (skipAfter_member hws (skipKey_append hws' key hk)) hpos, ← hspent,
      ← resume_members ms hmore hms]
    exact iterate_skipStep t hk' h (hmore.ends rest) ht

end

/-- A value that is skipped is accepted whatever it is. -/
theorem gives_skip (t : Tree) : Gives skip t (.ok ()) := by
  intro ws cs rest hws hcs hrest
  have hclock : t.turns ≤ (ws ++ (cs ++ rest)).length := by
    have := turns_lt t hcs
    simp only [List.length_append]
    omega
  refine (iterate_skipStep t hws hcs hrest hclock).trans ?_
  rw [skipAfter]
  rfl

end Skipping

end Dialogue.Json
