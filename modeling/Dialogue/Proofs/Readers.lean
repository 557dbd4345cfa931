import Mathlib.Data.List.TakeWhile
import Dialogue.Json.Record
import Dialogue.Proofs.Dictionaries
import Dialogue.Proofs.Results
import Dialogue.Proofs.Trees
/-!
Readers on trees.

A reader works on characters, but on the spelling of a tree it has to depend on the tree alone.  A
reader is regular if, whatever the spelling and whatever follows it, it gives the same result or the
same fault and takes exactly the spelling.  What a regular reader makes of a tree is `onTree`; it is
computed from the spelling without spaces.

The readers of scalars, lists, objects and whole values are regular, and `onTree` satisfies for them
the equations that one expects.
-/

namespace Dialogue.Json

/-! ## Regular readers -/

section Readers

variable {α β : Type} {r : Reader α} {f : α → Reader β} {cs rest : List Char} {a : α}
  {res : Except Fault α}

lemma bind_of_ok (h : r cs = .ok (a, rest)) : (r >>= f) cs = f a rest := by
  change (r cs >>= fun x => f x.1 x.2) = f a rest
  rw [h]
  rfl

/-- One reader after the other, where the first one leaves `rest` if it does not fail. -/
lemma bind_of_eq (h : r cs = (fun a => (a, rest)) <$> res) :
    (r >>= f) cs = res >>= fun a => f a rest := by
  change (r cs >>= fun x => f x.1 x.2) = _
  rw [h]
  cases res <;> rfl

/-- A result that is computed without taking characters. -/
lemma bind_lift (res : Except Fault α) (f : α → Reader β) (cs : List Char) :
    ((liftM res : Reader α) >>= f) cs = res >>= fun a => f a cs := by
  cases res <;> rfl

lemma bind_congr_of_eq {r' : Reader α} {cs' : List Char} (h : r cs = r' cs') :
    (r >>= f) cs = (r' >>= f) cs' := by
  change (r cs >>= _) = (r' cs' >>= _)
  rw [h]

lemma map_of_eq {g : α → β} (h : r cs = (fun a => (a, rest)) <$> res) :
    (g <$> r) cs = (fun b => (b, rest)) <$> g <$> res := by
  rw [map_eq_pure_bind, bind_of_eq h]
  cases res <;> rfl

/-- On every spelling of the tree, the reader takes the spelling and gives that result. -/
def Gives (r : Reader α) (t : Tree) (res : Except Fault α) : Prop :=
  ∀ ws cs rest, Spaces ws → Spells t cs → Ends rest →
    r (ws ++ (cs ++ rest)) = (fun a => (a, rest)) <$> res

/-- What a reader makes of a tree. -/
def onTree (r : Reader α) (t : Tree) : Except Fault α :=
  Prod.fst <$> r t.chars

lemma Gives.onTree_eq {t : Tree} (h : Gives r t res) : onTree r t = res := by
  have hchars := h [] t.chars [] spaces_nil (spells_chars t) ends_nil
  rw [List.nil_append, List.append_nil] at hchars
  rw [onTree, hchars]
  cases res <;> rfl

/-- What the reader makes of a text that is the spelling of a tree depends on the tree alone. -/
def Regular (r : Reader α) : Prop :=
  ∀ t, Gives r t (onTree r t)

lemma regular_of_gives (h : ∀ t, ∃ res, Gives r t res) : Regular r := by
  intro t
  obtain ⟨res, hres⟩ := h t
  rw [hres.onTree_eq]
  exact hres

lemma Gives.map {t : Tree} (h : Gives r t res) (g : α → β) : Gives (g <$> r) t (g <$> res) :=
  fun ws cs rest hws hcs hrest => map_of_eq (h ws cs rest hws hcs hrest)

lemma Regular.map (h : Regular r) (g : α → β) : Regular (g <$> r) :=
  regular_of_gives fun t => ⟨_, (h t).map g⟩

lemma onTree_map (r : Reader α) (g : α → β) (t : Tree) : onTree (g <$> r) t = g <$> onTree r t := by
  change Prod.fst <$> (r t.chars >>= fun x => pure (g x.1, x.2)) = g <$> Prod.fst <$> r t.chars
  cases r t.chars <;> rfl

end Readers

/-! ## Spaces and scalars -/

section Scalars

variable {ws cs rest : List Char} {c : Char}

lemma peek_spaces (hws : Spaces ws) (hc : isSpace c = false) :
    peek (ws ++ c :: cs) = .ok (some c, c :: cs) := by
  rw [peek, List.dropWhile_append_of_pos hws, List.dropWhile_cons_of_neg (by simp [hc])]
  rfl

lemma peek_end (hws : Spaces ws) : peek ws = .ok (none, []) := by
  rw [peek, List.dropWhile_eq_nil_iff.2 hws]
  rfl

/-- What a reader of scalars sees: the scalar, or the bracket of a container. -/
def Tree.seen : Tree → Except Fault Json
  | .null => .ok .null
  | .bool b => .ok (.bool b)
  | .number negative n => .num <$> n.1.value negative
  | .text raw => .str <$> raw.text
  | .list _ => .ok (.arr [])
  | .object _ => .ok (.obj [])

/-- Whether the tree has no bracket. -/
def Tree.isScalar : Tree → Bool
  | .null | .bool _ | .number _ _ | .text _ => true
  | .list _ | .object _ => false

lemma textRest_append (raw : RawText) (rest : List Char) :
    textRest (raw.chars ++ '"' :: rest) = (fun s => (s, rest)) <$> raw.text := by
  rw [textRest, textBody_append true raw.isRaw, RawText.text]
  cases decode true raw.chars <;> rfl

lemma numberRest_append {n : {n : Numeral // IsNumeral n}} (hcs : SpellsNumeral n.1 cs)
    (hrest : Ends rest) (negative : Bool) :
    numberRest negative (cs ++ rest) = (fun x => (x, rest)) <$> n.1.value negative := by
  simp only [numberRest, numeral_append n.2 hcs hrest, bind, Except.bind]
  cases n.1.value negative <;> rfl

lemma head_digit (hws : Spaces ws) (hc : c.isDigit = true) :
    head (ws ++ c :: cs) = ((fun x => Head.scalar (.num x)) <$> numberRest false) (c :: cs) := by
  have hopens : opensValue c = true := by simp [opensValue, hc]
  rw [head, bind_of_ok (peek_spaces hws (not_space_of_opensValue hopens).1)]
  refine congrFun ?_ (c :: cs)
  split
  case h_9 =>
    next heq =>
    obtain rfl := Option.some.inj heq
    rw [if_pos hc, map_eq_pure_bind]
  all_goals
    next heq =>
    cases heq
    try cases hc

/-- A scalar is read as a whole. -/
lemma head_scalar {t : Tree} (ht : t.isScalar) (hws : Spaces ws) (hcs : Spells t cs)
    (hrest : Ends rest) :
    head (ws ++ (cs ++ rest)) = (fun h => (h, rest)) <$> Head.scalar <$> t.seen := by
  cases hcs with
  | null => rw [head, List.cons_append, bind_of_ok (peek_spaces hws rfl)]; rfl
  | bool b => cases b <;> (rw [head]; erw [bind_of_ok (peek_spaces hws rfl)]; rfl)
  | @positive n _ h =>
    have hread := numberRest_append h hrest false
    obtain ⟨c, cs', rfl, hc⟩ := h.exists_cons n.2
    rw [List.cons_append] at hread ⊢
    rw [head_digit hws hc, map_of_eq hread, Tree.seen]
    cases n.1.value false <;> rfl
  | @negative n cs h =>
    rw [head, List.cons_append, bind_of_ok (peek_spaces hws rfl)]
    change (numberRest true >>= fun x => pure (Head.scalar (.num x))) (cs ++ rest) = _
    rw [bind_of_eq (numberRest_append h hrest true), Tree.seen]
    cases n.1.value true <;> rfl
  | text raw =>
    rw [head, List.cons_append, bind_of_ok (peek_spaces hws rfl), List.append_assoc]
    change (textRest >>= fun s => pure (Head.scalar (.str s))) (raw.chars ++ '"' :: rest) = _
    rw [bind_of_eq (textRest_append raw rest), Tree.seen]
    cases raw.text <;> rfl
  | list h | object h => cases ht

lemma head_list (hws : Spaces ws) : head (ws ++ '[' :: cs) = .ok (.list, '[' :: cs) := by
  rw [head, bind_of_ok (peek_spaces hws rfl)]
  rfl

lemma head_object (hws : Spaces ws) : head (ws ++ '{' :: cs) = .ok (.object, '{' :: cs) := by
  rw [head, bind_of_ok (peek_spaces hws rfl)]
  rfl

variable {α : Type} {as : Json → Except Fault α}

/-- A scalar of a type to which no container belongs. -/
lemma gives_scalar (hlist : ∃ fault, as (.arr []) = .error fault)
    (hobject : ∃ fault, as (.obj []) = .error fault) (t : Tree) :
    Gives (scalar as) t (t.seen >>= as) := by
  intro ws cs rest hws hcs hrest
  rw [scalar]
  by_cases ht : t.isScalar
  · rw [bind_of_eq (head_scalar ht hws hcs hrest)]
    cases t.seen with
    | error fault => rfl
    | ok j =>
      change (as j >>= fun a => .ok (a, rest)) = (fun a => (a, rest)) <$> as j
      cases as j <;> rfl
  · cases hcs with
    | list h =>
      obtain ⟨fault, hfault⟩ := hlist
      rw [List.cons_append, bind_of_ok (head_list hws)]
      change (as (.arr []) >>= _) = _ <$> as (.arr [])
      rw [hfault]
      rfl
    | object h =>
      obtain ⟨fault, hfault⟩ := hobject
      rw [List.cons_append, bind_of_ok (head_object hws)]
      change (as (.obj []) >>= _) = _ <$> as (.obj [])
      rw [hfault]
      rfl
    | _ => exact absurd rfl ht

end Scalars

/-! ## Loops -/

section Loops

variable {σ α β : Type} {step : σ → Reader (σ ⊕ α)} {clock cs rest : List Char} {s : σ}

/-- A step after which the loop goes on. -/
lemma iterate_of_inl {res : Except Fault β} {next : β → σ}
    (h : step s cs = (fun b => (.inl (next b), rest)) <$> res) (hclock : clock ≠ []) :
    iterate step clock s cs = res >>= fun b => iterate step clock.tail (next b) rest := by
  cases clock with
  | nil => exact absurd rfl hclock
  | cons c clock =>
    change (step s cs >>= _) = _
    rw [h]
    cases res <;> rfl

/-- A step after which the loop ends. -/
lemma iterate_of_inr {res : Except Fault α} (h : step s cs = (fun a => (.inr a, rest)) <$> res) :
    iterate step clock s cs = (fun a => (a, rest)) <$> res := by
  cases clock <;>
  · change (step s cs >>= _) = _
    rw [h]
    cases res <;> rfl

end Loops

/-! ## Lists -/

section Lists

variable {α : Type} {item : Reader α} {first : Bool} {ts : List Tree}
  {ws before cs rest clock : List Char} {c : Char}

lemma hasItem_close (hws : Spaces ws) :
    hasItem first (ws ++ ']' :: cs) = .ok (false, ']' :: cs) := by
  rw [hasItem, bind_of_ok (peek_spaces hws rfl)]
  rfl

lemma hasItem_comma (hws : Spaces ws) :
    hasItem false (ws ++ ',' :: cs) = (do
      match ← peek with
      | none => throw .endInValue
      | some ']' => throw .trailingComma
      | some _ => return true : Reader Bool) cs := by
  rw [hasItem, bind_of_ok (peek_spaces hws rfl)]
  rfl

lemma hasItem_item (hbefore : Separates first before) (hc : opensValue c = true) :
    hasItem first (before ++ c :: cs) = .ok (true, c :: cs) := by
  obtain ⟨hspace, hclose, -⟩ := not_space_of_opensValue hc
  cases hbefore with
  | spaces hws =>
    rw [hasItem, bind_of_ok (peek_spaces hws hspace)]
    simp only
    rfl
  | comma hws hws' =>
    rw [List.append_assoc, List.cons_append, hasItem_comma hws,
      bind_of_ok (peek_spaces hws' hspace)]
    simp only
    rfl

lemma SpellsItems.length_le (h : SpellsItems first ts cs) : ts.length ≤ cs.length := by
  induction ts generalizing first cs with
  | nil => exact Nat.zero_le _
  | cons t ts ih =>
    cases h with
    | item _ h hmore =>
      obtain ⟨c, cs', rfl, -⟩ := h.exists_cons
      have := ih hmore
      simp only [List.length_append, List.length_cons]
      omega

/-- One turn of the loop that reads a list. -/
def itemStep (item : Reader α) (found : List α) : Reader (List α ⊕ List α) := do
  if ← hasItem found.isEmpty then
    return .inl ((← item) :: found)
  else
    advance
    return .inr found.reverse

lemma iterate_itemStep (hitem : Regular item) {found : List α} (h : SpellsItems found.isEmpty ts cs)
    (hclock : ts.length ≤ clock.length) :
    iterate (itemStep item) clock found (cs ++ rest) =
      (fun as => (found.reverse ++ as, rest)) <$> ts.mapM (onTree item) := by
  induction ts generalizing found cs clock with
  | nil =>
    cases h with
    | @close _ ws hws =>
      have hstep : itemStep item found (ws ++ [']'] ++ rest) =
          (fun as => (.inr as, rest)) <$> .ok found.reverse := by
        rw [itemStep, List.append_assoc, List.singleton_append, bind_of_ok (hasItem_close hws)]
        rfl
      rw [iterate_of_inr hstep, List.mapM_nil]
      change Except.ok (found.reverse, rest) = Except.ok (found.reverse ++ [], rest)
      rw [List.append_nil]
  | cons t ts ih =>
    cases h with
    | @item _ _ _ before cs more hbefore h hmore =>
      have hstep : itemStep item found (before ++ (cs ++ more) ++ rest) =
          (fun a => (.inl (a :: found), more ++ rest)) <$> onTree item t := by
        have hread := hitem t [] cs (more ++ rest) spaces_nil h (hmore.ends rest)
        obtain ⟨c, cs', rfl, hc⟩ := h.exists_cons
        rw [List.append_assoc, List.append_assoc, List.cons_append, itemStep,
          bind_of_ok (hasItem_item hbefore hc)]
        change (item >>= fun a => pure (Sum.inl (a :: found)))
          ([] ++ (c :: cs' ++ (more ++ rest))) = _
        rw [bind_of_eq hread]
        cases onTree item t <;> rfl
      have hne : clock ≠ [] := by
        rintro rfl
        cases hclock
      rw [iterate_of_inl hstep hne, List.mapM_cons]
      cases onTree item t with
      | error fault => rfl
      | ok a =>
        have hlength : ts.length ≤ clock.tail.length := by
          simp only [List.length_tail, List.length_cons] at hclock ⊢
          omega
        have hrun : iterate (itemStep item) clock.tail (a :: found) (more ++ rest) = _ :=
          ih hmore hlength
        change iterate (itemStep item) clock.tail (a :: found) (more ++ rest) = _
        rw [hrun]
        cases List.mapM (onTree item) ts with
        | error fault => rfl
        | ok as =>
          change Except.ok ((a :: found).reverse ++ as, rest) = .ok (found.reverse ++ a :: as, rest)
          rw [List.reverse_cons, List.append_assoc, List.singleton_append]

/-- The items of a list are read one after the other. -/
lemma items_append (hitem : Regular item) (h : SpellsItems true ts cs) :
    items item (cs ++ rest) = (fun as => (as, rest)) <$> ts.mapM (onTree item) := by
  have hlength : ts.length ≤ (cs ++ rest).length := by
    have := h.length_le
    rw [List.length_append]
    omega
  exact iterate_itemStep hitem h hlength

/-- A further container, if it is allowed. -/
def within (depth : Nat) (body : Nat → Except Fault α) : Except Fault α :=
  match depth with
  | 0 => .error .tooDeep
  | depth + 1 => body depth

/-- What is made of a tree that has to be a list. -/
def listOn (item : (depth : Nat) → Tree → Except Fault α) (depth : Nat) :
    Tree → Except Fault (List α)
  | .list ts => within depth fun depth => ts.mapM (item depth)
  | t => do throw (.wrongType (← t.seen).found .list)

lemma gives_listOf {reader : (depth : Nat) → Reader α} (h : ∀ depth, Regular (reader depth))
    (depth : Nat) (t : Tree) :
    Gives (listOf reader depth) t (listOn (fun depth => onTree (reader depth)) depth t) := by
  intro ws cs rest hws hcs hrest
  rw [listOf]
  by_cases ht : t.isScalar
  · rw [bind_of_eq (head_scalar ht hws hcs hrest), listOn]
    · cases t.seen <;> rfl
    · rintro ts rfl
      exact absurd ht Bool.false_ne_true
  · cases hcs with
    | list hts =>
      rw [List.cons_append, bind_of_ok (head_list hws)]
      cases depth with
      | zero => rfl
      | succ depth => exact items_append (h depth) hts
    | object h =>
      rw [List.cons_append, bind_of_ok (head_object hws)]
      rfl
    | _ => exact absurd rfl ht

end Lists

/-! ## What may be left out -/

section Optional

variable {α : Type} {reader : (depth : Nat) → Reader α}

lemma Spells.head_ne_n {t : Tree} {c : Char} {cs : List Char} (h : Spells t (c :: cs))
    (ht : t ≠ .null) : c ≠ 'n' := by
  rintro rfl
  generalize hspelled : 'n' :: cs = spelled at h
  cases h with
  | null => exact ht rfl
  | bool b => cases b <;> cases hspelled
  | @positive n _ h =>
    obtain ⟨c, cs', rfl, hc⟩ := h.exists_cons n.2
    cases hspelled
    cases hc
  | _ => cases hspelled

/-- What is made of a tree that may be `null`. -/
def optionalOn (value : Tree → Except Fault α) : Tree → Except Fault (Option α)
  | .null => .ok none
  | t => some <$> value t

lemma optionalOn_of_ne {value : Tree → Except Fault α} {t : Tree} (ht : t ≠ .null) :
    optionalOn value t = some <$> value t := by
  cases t with
  | null => exact absurd rfl ht
  | _ => rfl

lemma gives_optional (h : ∀ depth, Regular (reader depth)) (depth : Nat) (t : Tree) :
    Gives (optional reader depth) t (optionalOn (onTree (reader depth)) t) := by
  intro ws cs rest hws hcs hrest
  rw [optional]
  by_cases ht : t = .null
  · subst ht
    cases hcs
    rw [List.cons_append, bind_of_ok (peek_spaces hws rfl)]
    rfl
  · have hread := map_of_eq (g := some) (h depth t [] cs rest spaces_nil hcs hrest)
    obtain ⟨c, cs', rfl, hc⟩ := hcs.exists_cons
    have hn := hcs.head_ne_n ht
    rw [List.cons_append, bind_of_ok (peek_spaces hws (not_space_of_opensValue hc).1),
      optionalOn_of_ne ht]
    refine (congrFun ?_ _).trans hread
    split
    · next heq => exact absurd (Option.some.inj heq) hn
    · rfl

end Optional

/-! ## Objects -/

section Objects

variable {first : Bool} {ms : List (RawText × Tree)} {ws before cs rest : List Char}

lemma hasMember_close (hws : Spaces ws) :
    hasMember first (ws ++ '}' :: cs) = .ok (false, '}' :: cs) := by
  rw [hasMember, bind_of_ok (peek_spaces hws rfl)]
  rfl

lemma hasMember_comma (hws : Spaces ws) :
    hasMember false (ws ++ ',' :: cs) = (do
      match ← peek with
      | none => throw .endInValue
      | some '"' => return true
      | some '}' => throw .trailingComma
      | some _ => throw .keyNotText : Reader Bool) cs := by
  rw [hasMember, bind_of_ok (peek_spaces hws rfl)]
  rfl

lemma hasMember_member (hbefore : Separates first before) :
    hasMember first (before ++ '"' :: cs) = .ok (true, '"' :: cs) := by
  cases hbefore with
  | spaces hws =>
    rw [hasMember, bind_of_ok (peek_spaces hws rfl)]
    rfl
  | comma hws hws' =>
    rw [List.append_assoc, List.cons_append, hasMember_comma hws,
      bind_of_ok (peek_spaces hws' rfl)]
    rfl

lemma key_append (raw : RawText) (rest : List Char) :
    key ('"' :: (raw.chars ++ '"' :: rest)) = (fun s => (s, rest)) <$> raw.text :=
  textRest_append raw rest

lemma colon_spaces (hws : Spaces ws) : colon (ws ++ ':' :: cs) = .ok ((), cs) := by
  rw [colon, bind_of_ok (peek_spaces hws rfl)]
  rfl

lemma SpellsMembers.length_le (h : SpellsMembers first ms cs) : ms.length ≤ cs.length := by
  induction ms generalizing first cs with
  | nil => exact Nat.zero_le _
  | cons m ms ih =>
    cases h with
    | member _ _ _ _ hmore =>
      have := ih hmore
      simp only [List.length_append, List.length_cons]
      omega

/-- One turn of `step` reads one member, with the effect `on`, or closes the object with the result
`close`.  In the state `s` no member was read if `first s`. -/
structure ReadsMembers {σ α : Type} (step : σ → Reader (σ ⊕ α)) (first : σ → Bool)
    (on : σ → RawText × Tree → Except Fault σ) (close : σ → Except Fault α) : Prop where
  close : ∀ s ws rest, Spaces ws →
    step s (ws ++ '}' :: rest) = (fun a => (.inr a, rest)) <$> close s
  member : ∀ s key t before ws ws' cs more, Separates (first s) before → Spaces ws → Spaces ws' →
    Spells t cs → Ends more →
    step s (before ++ '"' :: (key.chars ++ '"' :: (ws ++ ':' :: (ws' ++ (cs ++ more))))) =
      (fun s' => (.inl s', more)) <$> on s (key, t)
  first_eq : ∀ s m s', on s m = .ok s' → first s' = false

section Loop

variable {σ α : Type} {step : σ → Reader (σ ⊕ α)} {first : σ → Bool}
  {on : σ → RawText × Tree → Except Fault σ} {close : σ → Except Fault α} {s : σ}

lemma ReadsMembers.iterate_append (h : ReadsMembers step first on close) {clock : List Char}
    (hcs : SpellsMembers (first s) ms cs) (hclock : ms.length ≤ clock.length) :
    iterate step clock s (cs ++ rest) = (fun a => (a, rest)) <$> (ms.foldlM on s >>= close) := by
  induction ms generalizing s cs clock with
  | nil =>
    cases hcs with
    | close hws =>
      rw [List.append_assoc, List.singleton_append, iterate_of_inr (h.close s _ rest hws)]
      rfl
  | cons m ms ih =>
    cases hcs with
    | @member _ key t _ before ws ws' cs more hbefore hws hws' ht hmore =>
      have hstep := h.member s key t before ws ws' cs (more ++ rest) hbefore hws hws' ht
        (hmore.ends rest)
      have hne : clock ≠ [] := by
        rintro rfl
        cases hclock
      simp only [List.append_assoc, List.cons_append]
      rw [iterate_of_inl hstep hne, List.foldlM_cons]
      cases hon : on s (key, t) with
      | error fault => rfl
      | ok s' =>
        have hlength : ms.length ≤ clock.tail.length := by
          simp only [List.length_tail, List.length_cons] at hclock ⊢
          omega
        rw [← h.first_eq _ _ _ hon] at hmore
        exact ih hmore hlength

theorem ReadsMembers.loop_append (h : ReadsMembers step first on close)
    (hcs : SpellsMembers (first s) ms cs) :
    loop step s (cs ++ rest) = (fun a => (a, rest)) <$> (ms.foldlM on s >>= close) := by
  have hlength : ms.length ≤ (cs ++ rest).length := by
    have := hcs.length_le
    rw [List.length_append]
    omega
  exact h.iterate_append hcs hlength

end Loop

variable {α : Type}

/-- What is made of a member whose key is free. -/
def entryOn (value : Tree → Except Fault α) (m : RawText × Tree) : Except Fault (String × α) := do
  return (← m.1.text, ← value m.2)

/-- One turn of the loop that reads an object. -/
def memberStep (value : Reader α) :
    Bool × List (String × α) → Reader ((Bool × List (String × α)) ⊕ List (String × α)) :=
  fun (first, found) => do
    if ← hasMember first then
      let k ← key
      colon
      return .inl (false, putEntry k (← value) found)
    else
      advance
      return .inr found

lemma members_eq (value : Reader α) : members value = loop (memberStep value) (true, []) := rfl

lemma readsMembers_memberStep {value : Reader α} (h : Regular value) :
    ReadsMembers (memberStep value) Prod.fst
      (fun s m => (fun e => (false, putEntry e.1 e.2 s.2)) <$> entryOn (onTree value) m)
      (fun s => .ok s.2) where
  close := by
    rintro ⟨first, found⟩ ws rest hws
    rw [memberStep, bind_of_ok (hasMember_close hws)]
    rfl
  member := by
    rintro ⟨first, found⟩ key t before ws ws' cs more hbefore hws hws' ht hmore
    rw [memberStep, bind_of_ok (hasMember_member hbefore), entryOn]
    change (Json.key >>= fun k => colon >>= fun _ => value >>= fun a =>
      pure (Sum.inl (false, putEntry k a found))) _ = _
    rw [bind_of_eq (key_append key _)]
    cases key.text with
    | error fault => rfl
    | ok k =>
      change (colon >>= fun _ => _) _ = _
      rw [bind_of_ok (colon_spaces hws), bind_of_eq (h t ws' cs more hws' ht hmore)]
      cases onTree value t <;> rfl
  first_eq := by
    rintro s m s' hs'
    cases hm : entryOn (onTree value) m with
    | error fault =>
      rw [hm] at hs'
      cases hs'
    | ok e =>
      rw [hm] at hs'
      cases hs'
      rfl

lemma foldlM_entryOn (value : Tree → Except Fault α) (ms : List (RawText × Tree))
    (s : Bool × List (String × α)) :
    (ms.foldlM (fun s m => (fun e => (false, putEntry e.1 e.2 s.2)) <$> entryOn value m) s >>=
      fun s => .ok s.2) = (putEntries · s.2) <$> ms.mapM (entryOn value) := by
  induction ms generalizing s with
  | nil => rfl
  | cons m ms ih =>
    rw [List.foldlM_cons, List.mapM_cons]
    cases entryOn value m with
    | error fault => rfl
    | ok e =>
      refine (ih (false, putEntry e.1 e.2 s.2)).trans ?_
      cases ms.mapM (entryOn value) <;> rfl

/-- The members of an object are read one after the other and put into a table. -/
lemma members_append {value : Reader α} (h : Regular value) (hms : SpellsMembers true ms cs) :
    members value (cs ++ rest) =
      (fun es => (es, rest)) <$> (putEntries · []) <$> ms.mapM (entryOn (onTree value)) := by
  rw [members_eq, (readsMembers_memberStep h).loop_append hms, foldlM_entryOn]

/-- What is made of a tree that has to be an object with free keys. -/
def dictOn (value : (depth : Nat) → Tree → Except Fault α) (depth : Nat) :
    Tree → Except Fault (List (String × α))
  | .object ms => within depth fun depth => (putEntries · []) <$> ms.mapM (entryOn (value depth))
  | t => do throw (.wrongType (← t.seen).found .dict)

lemma gives_dictOf {reader : (depth : Nat) → Reader α} (h : ∀ depth, Regular (reader depth))
    (depth : Nat) (t : Tree) :
    Gives (dictOf reader depth) t (dictOn (fun depth => onTree (reader depth)) depth t) := by
  intro ws cs rest hws hcs hrest
  rw [dictOf]
  by_cases ht : t.isScalar
  · rw [bind_of_eq (head_scalar ht hws hcs hrest), dictOn]
    · cases t.seen <;> rfl
    · rintro ms rfl
      exact absurd ht Bool.false_ne_true
  · cases hcs with
    | list h =>
      rw [List.cons_append, bind_of_ok (head_list hws)]
      rfl
    | object hms =>
      rw [List.cons_append, bind_of_ok (head_object hws)]
      cases depth with
      | zero => rfl
      | succ depth => exact members_append (h depth) hms
    | _ => exact absurd rfl ht

end Objects

/-! ## Values -/

/-- What is made of a tree that is kept, by what is made of its parts. -/
def valueOn (depth : Nat) : Tree → Except Fault Json
  | .list ts => within depth fun depth => .arr <$> ts.mapM (onTree (value depth))
  | .object ms =>
    within depth fun depth =>
      (fun es => .obj (putEntries es [])) <$> ms.mapM (entryOn (onTree (value depth)))
  | t => t.seen

lemma value_scalar {t : Tree} (ht : t.isScalar) (depth : Nat) {ws cs rest : List Char}
    (hws : Spaces ws) (hcs : Spells t cs) (hrest : Ends rest) :
    value depth (ws ++ (cs ++ rest)) = (fun j => (j, rest)) <$> t.seen := by
  cases depth <;>
  · rw [value, bind_of_eq (head_scalar ht hws hcs hrest)]
    cases t.seen <;> rfl

lemma gives_value (depth : Nat) (t : Tree) : Gives (value depth) t (valueOn depth t) := by
  induction depth generalizing t with
  | zero =>
    intro ws cs rest hws hcs hrest
    by_cases ht : t.isScalar
    · rw [value_scalar ht 0 hws hcs hrest]
      cases hcs <;> first | rfl | cases ht
    · cases hcs with
      | list h => rw [value, List.cons_append, bind_of_ok (head_list hws)]; rfl
      | object h => rw [value, List.cons_append, bind_of_ok (head_object hws)]; rfl
      | _ => exact absurd rfl ht
  | succ depth ih =>
    have hvalue : Regular (value depth) := regular_of_gives fun t => ⟨_, ih t⟩
    intro ws cs rest hws hcs hrest
    by_cases ht : t.isScalar
    · rw [value_scalar ht (depth + 1) hws hcs hrest]
      cases hcs <;> first | rfl | cases ht
    · cases hcs with
      | @list ts cs h =>
        rw [value, List.cons_append, bind_of_ok (head_list hws)]
        change (items (value depth) >>= fun js => pure (arr js)) (cs ++ rest) = _
        rw [bind_of_eq (items_append hvalue h), valueOn, within]
        cases ts.mapM (onTree (value depth)) <;> rfl
      | @object ms cs h =>
        rw [value, List.cons_append, bind_of_ok (head_object hws)]
        change (members (value depth) >>= fun es => pure (obj es)) (cs ++ rest) = _
        rw [bind_of_eq (members_append hvalue h), valueOn, within]
        cases ms.mapM (entryOn (onTree (value depth))) <;> rfl
      | _ => exact absurd rfl ht

theorem regular_value (depth : Nat) : Regular (value depth) :=
  regular_of_gives fun t => ⟨_, gives_value depth t⟩

lemma onTree_value (depth : Nat) (t : Tree) : onTree (value depth) t = valueOn depth t :=
  (gives_value depth t).onTree_eq

lemma onTree_value_object (depth : Nat) (ms : List (RawText × Tree)) :
    onTree (value depth) (.object ms) = .obj <$> onTree (dictOf value depth) (.object ms) := by
  rw [onTree_value, (gives_dictOf regular_value depth _).onTree_eq, valueOn, dictOn]
  cases depth with
  | zero => rfl
  | succ depth =>
    rw [within, within]
    cases ms.mapM (entryOn (onTree (value depth))) <;> rfl

/-! ## Whole texts -/

/-- The text is a spelling of the tree, with spaces around it. -/
def SpellsText (t : Tree) (s : String) : Prop :=
  ∃ ws cs ws', Spaces ws ∧ Spells t cs ∧ Spaces ws' ∧ s.toList = ws ++ (cs ++ ws')

lemma readAll_eq {α : Type} {r : Reader α} (h : Regular r) {t : Tree} {s : String}
    (hs : SpellsText t s) : readAll r s = onTree r t := by
  obtain ⟨ws, cs, ws', hws, hcs, hws', hs⟩ := hs
  have hends : Ends ws' := by
    have := ends_spaces hws' ends_nil
    rwa [List.append_nil] at this
  have hfinish : finish ws' = .ok ((), []) := by
    rw [finish, bind_of_ok (peek_end hws')]
    rfl
  rw [readAll, hs, StateT.run']
  change Prod.fst <$> (r >>= fun a => finish >>= fun _ => pure a) _ = _
  rw [bind_of_eq (h t ws cs ws' hws hcs hends)]
  cases onTree r t with
  | error fault => rfl
  | ok a =>
    change Prod.fst <$> (finish >>= fun _ => pure a) ws' = _
    rw [bind_of_ok hfinish]
    rfl

end Dialogue.Json
