import Dialogue.Proofs.Printed
import Dialogue.Proofs.Records
/-!
What readers yield.

Some properties of what is read do not depend on the text at all.  `Yields r P` says that whatever
the reader `r` makes of a text has the property `P`; the rules for it follow the parts from which
readers are built.  For a loop they ask for an invariant of its state, and for a record for an
invariant of its draft that the change of each field preserves.

The first use is that values are canonical: their whole numbers fit into 64 bits, the keys of their
objects increase, and they are not nested deeper than was allowed.
-/

namespace Dialogue.Json

/-- Whatever the reader makes of a text has the property. -/
def Yields {α : Type} (r : Reader α) (P : α → Prop) : Prop :=
  ∀ cs a rest, r cs = .ok (a, rest) → P a

namespace Yields

variable {α β σ : Type} {r : Reader α} {P : α → Prop}

/-! ## Steps -/

lemma any (r : Reader α) : Yields r fun _ => True :=
  fun _ _ _ _ => trivial

lemma pure {a : α} (h : P a) : Yields (pure a : Reader α) P := by
  rintro cs _ _ ⟨⟩
  exact h

lemma throw (fault : Fault) : Yields (throw fault : Reader α) P := by
  rintro cs _ _ ⟨⟩

lemma bind {f : α → Reader β} {R : β → Prop} (h : Yields r P) (hf : ∀ a, P a → Yields (f a) R) :
    Yields (r >>= f) R := by
  intro cs b rest hb
  obtain ⟨⟨a, more⟩, ha, hb⟩ := bind_eq_ok_iff.1 hb
  exact hf a (h cs a more ha) more b rest hb

/-- The result of the first step does not matter. -/
lemma seq {f : α → Reader β} {R : β → Prop} (hf : ∀ a, Yields (f a) R) : Yields (r >>= f) R :=
  (any r).bind fun a _ => hf a

lemma map {R : β → Prop} (h : Yields r P) {f : α → β} (hf : ∀ a, P a → R (f a)) :
    Yields (f <$> r) R :=
  h.bind fun a ha => pure (hf a ha)

lemma word {letters : String} {a : α} (h : P a) : Yields (word letters a) P := by
  intro cs b rest hb
  obtain ⟨_, -, ⟨⟩⟩ := map_eq_ok_iff.1 hb
  exact h

lemma of_readAll {s : String} {a : α} (h : Yields r P) (ha : readAll r s = .ok a) : P a := by
  have hall : Yields (do let a ← r; finish; return a : Reader α) P :=
    h.bind fun a ha => seq fun _ => pure ha
  obtain ⟨⟨a, rest⟩, hrun, rfl⟩ := map_eq_ok_iff.1 ha
  exact hall _ _ _ hrun

/-! ## Loops -/

section Loops

variable {I : σ → Prop} {step : σ → Reader (σ ⊕ α)}

lemma iterate (hstep : ∀ s, I s → Yields (step s) (Sum.elim I P)) (clock : List Char) {s : σ}
    (hs : I s) : Yields (iterate step clock s) P := by
  induction clock generalizing s with
  | nil =>
    refine (hstep s hs).bind fun next hnext => ?_
    cases next with
    | inl s => exact throw _
    | inr a => exact pure hnext
  | cons _ clock ih =>
    refine (hstep s hs).bind fun next hnext => ?_
    cases next with
    | inl s => exact ih hnext
    | inr a => exact pure hnext

lemma loop (hstep : ∀ s, I s → Yields (step s) (Sum.elim I P)) {s : σ} (hs : I s) :
    Yields (loop step s) P :=
  fun cs a rest => iterate hstep cs hs cs a rest

end Loops

lemma items (h : Yields r P) : Yields (items r) fun as => ∀ a ∈ as, P a := by
  refine loop (I := fun found => ∀ a ∈ found, P a) (fun found hfound => ?_) (by simp)
  refine seq fun more => ?_
  cases more with
  | true => exact h.bind fun a ha => pure (List.forall_mem_cons.2 ⟨ha, hfound⟩)
  | false => exact seq fun _ => pure fun a ha => hfound a (List.mem_reverse.1 ha)

lemma members (h : Yields r P) :
    Yields (members r) fun ms => Increasing ms ∧ ∀ m ∈ ms, P m.2 := by
  refine loop (I := fun s : Bool × List (String × α) => Increasing s.2 ∧ ∀ m ∈ s.2, P m.2) ?_
    ⟨.nil, List.forall_mem_nil _⟩
  rintro ⟨first, found⟩ ⟨hincreasing, hfound⟩
  refine seq fun more => ?_
  cases more with
  | true =>
    refine seq fun k => seq fun _ => h.bind fun a ha => pure ⟨hincreasing.putEntry, fun m hm => ?_⟩
    rcases mem_putEntry hm with rfl | hm
    · exact ha
    · exact hfound m hm
  | false => exact seq fun _ => pure ⟨hincreasing, hfound⟩

/-! ## Readers of a given type -/

variable {reader : (depth : Nat) → Reader α} {depth : Nat}

lemma listOf (h : Yields (reader depth) P) :
    Yields (listOf reader (depth + 1)) fun as => ∀ a ∈ as, P a := by
  refine seq fun head => ?_
  cases head with
  | list => exact seq fun _ => h.items
  | _ => exact throw _

lemma dictOf (h : Yields (reader depth) P) :
    Yields (dictOf reader (depth + 1)) fun ms => Increasing ms ∧ ∀ m ∈ ms, P m.2 := by
  refine seq fun head => ?_
  cases head with
  | object => exact seq fun _ => h.members
  | _ => exact throw _

lemma optional (h : Yields (reader depth) P) :
    Yields (optional reader depth) fun o => ∀ a ∈ o, P a := by
  refine seq fun next => ?_
  split
  · exact seq fun _ => word nofun
  · refine h.map fun a ha b hb => ?_
    cases hb
    exact ha

end Yields

/-! ## Records -/

/-- The change preserves the property. -/
def Preserves {σ : Type} (I : σ → Prop) (change : σ → σ) : Prop :=
  ∀ s, I s → I (change s)

namespace Yields

variable {σ : Type} {I : σ → Prop} {fields : List (RecordField σ)} {blank : σ} {depth : Nat}

lemma recordMembers {other : (key : String) → Reader (σ → σ)}
    (hfields : ∀ f ∈ fields, Yields (f.read depth) (Preserves I))
    (hother : ∀ k, Yields (other k) (Preserves I)) (hblank : I blank) :
    Yields (recordMembers fields other blank depth) I := by
  refine loop (I := fun p => I p.draft) (fun p hp => ?_) hblank
  refine seq fun more => ?_
  cases more with
  | true =>
    refine seq fun k => ?_
    split
    · next f hf =>
      have hread := hfields f (List.mem_of_find?_eq_some hf)
      split
      · exact (throw (P := fun _ => False) _).bind fun _ => False.elim
      · exact seq fun _ => hread.bind fun change hchange => pure (hchange _ hp)
    · exact seq fun _ => (hother k).bind fun change hchange => pure (hchange _ hp)
  | false => exact seq fun _ => seq fun _ => pure hp

lemma recordItems {name : String} {count position : Nat} {draft : σ}
    (hfields : ∀ f ∈ fields, Yields (f.read depth) (Preserves I)) (hdraft : I draft) :
    Yields (recordItems name count depth fields position draft) I := by
  induction fields generalizing position draft with
  | nil => exact seq fun _ => pure hdraft
  | cons f fs ih =>
    have hrest := fun f hf => hfields f (List.mem_cons_of_mem _ hf)
    refine seq fun more => ?_
    cases more with
    | true =>
      exact (hfields f List.mem_cons_self).bind fun change hchange => ih hrest (hchange _ hdraft)
    | false =>
      rw [if_neg Bool.false_ne_true]
      split
      · exact throw _
      · exact ih hrest hdraft

lemma record {name : String} (hfields : ∀ f ∈ fields, Yields (f.read depth) (Preserves I))
    (hblank : I blank) : Yields (record name fields blank (depth + 1)) I := by
  refine seq fun head => ?_
  cases head with
  | scalar j => exact throw _
  | list => exact seq fun _ => recordItems hfields hblank
  | object =>
    refine seq fun _ => recordMembers hfields (fun k => ?_) hblank
    exact seq fun _ => pure fun _ hs => hs

lemma openRecord {name : String} {keep : String → Json → σ → σ}
    (hfields : ∀ f ∈ fields, Yields (f.read depth) (Preserves I))
    (hkeep : ∀ k j, Preserves I (keep k j)) (hblank : I blank) :
    Yields (openRecord name fields keep blank (depth + 1)) I := by
  refine seq fun head => ?_
  cases head with
  | object =>
    refine seq fun _ => recordMembers hfields (fun k => ?_) hblank
    exact (any _).map fun j _ => hkeep k j
  | _ => exact throw _

end Yields

/-! ## Values -/

/-- A value as it can be read within `depth` containers: its whole numbers fit into 64 bits, with or
without sign, and the keys of its objects increase. -/
inductive Canonical : (depth : Nat) → Json → Prop
  | null {depth : Nat} : Canonical depth null
  | bool {depth : Nat} (b : Bool) : Canonical depth (bool b)
  | int {depth : Nat} {n : Int} (hmin : -2 ^ 63 ≤ n) (hmax : n < 2 ^ 64) : Canonical depth (int n)
  | float {depth : Nat} (x : Float) : Canonical depth (num (.float x))
  | str {depth : Nat} (s : String) : Canonical depth (str s)
  | arr {depth : Nat} {items : List Json} (h : ∀ j ∈ items, Canonical depth j) :
      Canonical (depth + 1) (arr items)
  | obj {depth : Nat} {members : List (String × Json)} (hkeys : Increasing members)
      (h : ∀ m ∈ members, Canonical depth m.2) : Canonical (depth + 1) (obj members)

/-- A canonical value without fractions can be read back. -/
lemma Canonical.exact {depth : Nat} {j : Json} (h : Canonical depth j) (hwhole : Whole j) :
    Exact depth j := by
  induction h with
  | null => exact .null
  | bool b => exact .bool b
  | int hmin hmax => exact .int hmin hmax
  | float x => cases hwhole
  | str s => exact .str s
  | arr _ ih =>
    cases hwhole with
    | arr hitems => exact .arr fun j hj => ih j hj (hitems j hj)
  | obj hkeys _ ih =>
    cases hwhole with
    | obj hmembers => exact .obj hkeys fun m hm => ih m hm (hmembers m hm)

lemma absorb_lt {n : Nat} (h : n < UInt64.size) (ds : List Char) :
    (absorb n ds).1 < UInt64.size := by
  induction ds generalizing n with
  | nil => exact h
  | cons d ds ih =>
    rw [absorb]
    split
    · next hnext => exact ih hnext
    · exact h

lemma canonical_numeral {n : Numeral} {negative : Bool} {x : JsonNumber}
    (h : n.value negative = .ok x) (depth : Nat) : Canonical depth (num x) := by
  cases x with
  | float x => exact .float x
  | int z =>
    have hlt : (absorb 0 n.whole).1 < 2 ^ 64 := absorb_lt (by decide) n.whole
    rw [Numeral.value] at h
    dsimp only at h
    split at h
    · split at h
      · cases h
        exact .int (by omega) (by omega)
      · split at h
        · next hneg =>
          have hmin : -9223372036854775808 ≤ -((absorb 0 n.whole).1 : Int) :=
            of_decide_eq_true (Bool.and_eq_true_iff.1 hneg).2
          cases h
          exact .int (by omega) (by omega)
        · cases h
    · split at h <;> cases h

/-- If it is a scalar, it is canonical however deep it stands. -/
def Head.IsCanonical : Head → Prop
  | scalar j => ∀ depth, Canonical depth j
  | list | object => True

namespace Yields

lemma numberRest (negative : Bool) :
    Yields (numberRest negative) fun x => ∀ depth, Canonical depth (num x) := by
  intro cs x rest h
  obtain ⟨⟨n, more⟩, -, h⟩ := bind_eq_ok_iff.1 h
  obtain ⟨x, hx, ⟨⟩⟩ := bind_eq_ok_iff.1 h
  exact canonical_numeral hx

lemma head : Yields head Head.IsCanonical := by
  refine seq fun next => ?_
  split
  · exact throw _
  · exact seq fun _ => word fun _ => .null
  · exact seq fun _ => word fun _ => .bool true
  · exact seq fun _ => word fun _ => .bool false
  · exact seq fun _ => seq fun s => pure fun _ => .str s
  · exact seq fun _ => (numberRest true).bind fun x hx => pure hx
  · exact pure trivial
  · exact pure trivial
  · split
    · exact (numberRest false).bind fun x hx => pure hx
    · exact throw _

/-- Every value that is read is canonical. -/
theorem value (depth : Nat) : Yields (value depth) (Canonical depth) := by
  induction depth with
  | zero =>
    refine head.bind fun found hfound => ?_
    cases found with
    | scalar j => exact pure (hfound 0)
    | _ => exact throw _
  | succ depth ih =>
    refine head.bind fun found hfound => ?_
    cases found with
    | scalar j => exact pure (hfound (depth + 1))
    | list => exact seq fun _ => ih.items.bind fun _ h => pure (.arr h)
    | object => exact seq fun _ => ih.members.bind fun _ h => pure (.obj h.1 h.2)

end Yields

end Dialogue.Json
