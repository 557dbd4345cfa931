import Mathlib.Data.List.Chain
import Mathlib.Logic.Relation
import Mathlib.Tactic.Common
/-!
Paths, and which of two paths comes first.

A path is the list of the ids that a walk comes to.  It is built step by step from the path that
stays where it is (`IsPath.step`), and every path can be taken apart in the same way
(`IsPath.eq_stay_or_step`).

Suppose that the steps that leave an id are ranked.  Of two paths from the same id, the one comes
first that leaves the last id which they share by the step of lower rank (`Precedes`).  A path is
better than another one (`Better`) if it is shorter, or equally long and comes first.  What matters
for a search is that one step more does not change which of two paths is better.
-/

namespace Dialogue

/-- A path from `source` to `target`: it begins at the one and ends at the other, and `R` leads from
each id to the next. -/
structure IsPath (R : String → String → Prop) (source target : String) (p : List String) :
    Prop where
  head : p.head? = some source
  last : p.getLast? = some target
  chain : p.IsChain R

namespace IsPath

variable {R : String → String → Prop} {source x y : String} {p : List String}

lemma stay (source : String) : IsPath R source source [source] :=
  ⟨rfl, rfl, .singleton source⟩

lemma step (h : IsPath R source x p) (hxy : R x y) : IsPath R source y (p ++ [y]) where
  head := by rw [List.head?_append, h.head]; rfl
  last := List.getLast?_concat
  chain := by
    refine h.chain.append (.singleton y) fun a ha b hb => ?_
    obtain rfl : x = a := Option.some.inj (h.last.symm.trans ha)
    obtain rfl : y = b := Option.some.inj hb
    exact hxy

/-- A path stays where it is, or it has a last step. -/
lemma eq_stay_or_step (h : IsPath R source y p) :
    p = [source] ∧ y = source ∨ ∃ x q, p = q ++ [y] ∧ IsPath R source x q ∧ R x y := by
  have hp : p.dropLast ++ [y] = p := List.dropLast_append_getLast? y h.last
  generalize p.dropLast = q at hp
  subst hp
  cases hlast : q.getLast? with
  | none =>
    obtain rfl := List.getLast?_eq_none_iff.1 hlast
    obtain rfl : y = source := Option.some.inj h.head
    exact .inl ⟨rfl, rfl⟩
  | some x =>
    obtain ⟨hq, -, hstep⟩ := List.isChain_append.1 h.chain
    have hhead : q.head? = some source := by
      have hhead := h.head
      cases q with
      | nil => cases hlast
      | cons a q => exact hhead
    exact .inr ⟨x, q, rfl, ⟨hhead, hlast, hq⟩, hstep x hlast y rfl⟩

lemma ne_nil (h : IsPath R source y p) : p ≠ [] := by
  rintro rfl
  cases h.head

/-- What holds of staying and is kept by every step holds of all paths. -/
theorem induction {motive : String → List String → Prop} (hstay : motive source [source])
    (hstep : ∀ x y p, IsPath R source x p → R x y → motive x p → motive y (p ++ [y]))
    (h : IsPath R source y p) : motive y p := by
  -- by the number of steps
  induction hlength : p.length generalizing p y with
  | zero => exact absurd (List.length_eq_zero_iff.1 hlength) h.ne_nil
  | succ k ih =>
    rcases h.eq_stay_or_step with ⟨rfl, rfl⟩ | ⟨x, q, rfl, hq, hxy⟩
    · exact hstay
    · exact hstep x y q hq hxy (ih hq (by simpa using hlength))

end IsPath

/-- There is a path exactly to what can be reached in zero or more steps. -/
theorem exists_isPath_iff {R : String → String → Prop} {source target : String} :
    (∃ p, IsPath R source target p) ↔ Relation.ReflTransGen R source target := by
  constructor
  · rintro ⟨p, hp⟩
    exact hp.induction (motive := fun x _ => Relation.ReflTransGen R source x) .refl
      fun _ _ _ _ hxy hx => hx.tail hxy
  · intro h
    induction h with
    | refl => exact ⟨_, .stay source⟩
    | tail _ hstep ih =>
      obtain ⟨p, hp⟩ := ih
      exact ⟨_, hp.step hstep⟩

/-! ## Which path comes first -/

/-- The first path comes before the second: where they part, it takes a step of lower rank. -/
inductive Precedes (rank : String → String → Nat) : List String → List String → Prop
  /-- The paths part at `a`. -/
  | part {a x y : String} {p q : List String} (h : rank a x < rank a y) :
    Precedes rank (a :: x :: p) (a :: y :: q)
  /-- The paths part later. -/
  | follow {a : String} {p q : List String} (h : Precedes rank p q) :
    Precedes rank (a :: p) (a :: q)

namespace Precedes

variable {rank : String → String → Nat} {p q r : List String}

/-- Only paths from the same id are compared. -/
lemma head?_eq (h : Precedes rank p q) : p.head? = q.head? := by
  cases h <;> rfl

theorem trans (h : Precedes rank p q) (h' : Precedes rank q r) : Precedes rank p r := by
  induction h generalizing r with
  | @part a x y p q hxy =>
    cases h' with
    | part hyz => exact .part (hxy.trans hyz)
    | follow h' => cases h' <;> exact .part hxy
  | @follow a p q h ih =>
    cases h' with
    | part hyz => cases h <;> exact .part hyz
    | follow h' => exact .follow (ih h')

lemma append (h : Precedes rank p q) (p' q' : List String) :
    Precedes rank (p ++ p') (q ++ q') := by
  induction h with
  | part hxy => exact .part hxy
  | follow _ ih => exact .follow ih

/-- Two paths that part at the end of a common path. -/
lemma of_last {a x y : String} (ha : p.getLast? = some a) (h : rank a x < rank a y) :
    Precedes rank (p ++ [x]) (p ++ [y]) := by
  induction p with
  | nil => cases ha
  | cons b p ih =>
    cases p with
    | nil =>
      obtain rfl : b = a := Option.some.inj ha
      exact .part h
    | cons c p => exact .follow (ih ha)

end Precedes

/-- The first path is better than the second: it is shorter, or it is equally long and comes
first. -/
def Better (rank : String → String → Nat) (p q : List String) : Prop :=
  p.length < q.length ∨ p.length = q.length ∧ Precedes rank p q

/-- The first path is no worse than the second: it is the same, or better. -/
def NoWorse (rank : String → String → Nat) (p q : List String) : Prop :=
  p = q ∨ Better rank p q

section Better

variable {rank : String → String → Nat} {p q r : List String}

lemma Better.length_le (h : Better rank p q) : p.length ≤ q.length := by
  rcases h with h | ⟨h, -⟩ <;> omega

theorem Better.trans (h : Better rank p q) (h' : Better rank q r) : Better rank p r := by
  have hle := h.length_le
  have hle' := h'.length_le
  rcases h with h | ⟨hlength, h⟩
  · exact .inl (by omega)
  rcases h' with h' | ⟨hlength', h'⟩
  · exact .inl (by omega)
  · exact .inr ⟨hlength.trans hlength', h.trans h'⟩

/-- One step more does not change which of two paths is better. -/
lemma Better.concat (h : Better rank p q) (x y : String) :
    Better rank (p ++ [x]) (q ++ [y]) := by
  rcases h with h | ⟨hlength, h⟩
  · exact .inl (by simpa using h)
  · exact .inr ⟨by simpa using hlength, h.append _ _⟩

lemma NoWorse.length_le (h : NoWorse rank p q) : p.length ≤ q.length := by
  rcases h with rfl | h
  · exact Nat.le_refl _
  · exact h.length_le

theorem NoWorse.trans (h : NoWorse rank p q) (h' : NoWorse rank q r) : NoWorse rank p r := by
  rcases h with rfl | h
  · exact h'
  rcases h' with rfl | h'
  · exact .inr h
  · exact .inr (h.trans h')

/-- The same step more does not change which of two paths is better. -/
lemma NoWorse.concat (h : NoWorse rank p q) (x : String) : NoWorse rank (p ++ [x]) (q ++ [x]) := by
  rcases h with rfl | h
  · exact .inl rfl
  · exact .inr (h.concat x x)

/-- No path is better than to stay. -/
lemma IsPath.noWorse_stay {R : String → String → Prop} {source x : String}
    (h : IsPath R source x p) : NoWorse rank [source] p := by
  rcases h.eq_stay_or_step with ⟨rfl, -⟩ | ⟨y, q, rfl, hq, -⟩
  · exact .inl rfl
  · have hpos := List.length_pos_iff.2 hq.ne_nil
    refine .inr (.inl ?_)
    simp only [List.length_append, List.length_singleton]
    omega

end Better

end Dialogue
