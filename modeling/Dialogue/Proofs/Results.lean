import Mathlib.Data.List.Forall2
import Mathlib.Logic.Function.Basic
import Mathlib.Tactic.Common
/-!
Computations that may fail.

When a computation in several steps has a result is said step by step (`bind_eq_ok_iff` and the
lemmas after it).  Two computations have the same result (`SameResult`) if both succeed with it or
both fail; why they fail may differ.  This is kept by the steps of a computation, so it is enough to
look at the places where two of them differ.
-/

namespace Dialogue

variable {ε α β γ : Type}

/-! ## Results -/

lemma ok_bind (a : α) (g : α → Except ε β) : (Except.ok a >>= g) = g a := rfl

lemma bind_eq_ok_iff {x : Except ε α} {g : α → Except ε β} {b : β} :
    (x >>= g) = .ok b ↔ ∃ a, x = .ok a ∧ g a = .ok b := by
  cases x with
  | error e => exact ⟨nofun, nofun⟩
  | ok a => exact ⟨fun h => ⟨a, rfl, h⟩, fun ⟨_, ha, h⟩ => Except.ok.inj ha ▸ h⟩

lemma map_eq_ok_iff {x : Except ε α} {g : α → β} {b : β} :
    g <$> x = .ok b ↔ ∃ a, x = .ok a ∧ g a = b := by
  cases x with
  | error fault => exact ⟨nofun, nofun⟩
  | ok a =>
    exact ⟨fun h => ⟨a, rfl, Except.ok.inj h⟩, fun ⟨_, ha, h⟩ => by cases ha; exact congrArg _ h⟩

lemma mapM_cons_eq_ok_iff {g : α → Except ε β} {a : α} {as : List α} {bs : List β} :
    (a :: as).mapM g = .ok bs ↔ ∃ b bs', g a = .ok b ∧ as.mapM g = .ok bs' ∧ bs = b :: bs' := by
  rw [List.mapM_cons, bind_eq_ok_iff]
  constructor
  · rintro ⟨b, hb, h⟩
    obtain ⟨bs', hbs', h⟩ := bind_eq_ok_iff.1 h
    exact ⟨b, bs', hb, hbs', (Except.ok.inj h).symm⟩
  · rintro ⟨b, bs', hb, hbs', rfl⟩
    exact ⟨b, hb, bind_eq_ok_iff.2 ⟨bs', hbs', rfl⟩⟩

lemma mapM_eq_ok {f : α → Except ε β} {g : γ → α} {h : γ → β} {cs : List γ}
    (hf : ∀ c ∈ cs, f (g c) = .ok (h c)) : (cs.map g).mapM f = .ok (cs.map h) := by
  induction cs with
  | nil => rfl
  | cons c cs ih =>
    have hrest := ih fun c hc => hf c (List.mem_cons_of_mem _ hc)
    rw [List.map_cons, List.mapM_cons, hf c List.mem_cons_self, hrest]
    rfl

lemma mapM_map_eq_ok_iff {g : α → Except ε β} {k : β → γ} {as : List α} {cs : List γ} :
    as.mapM (fun a => k <$> g a) = .ok cs ↔ ∃ bs, as.mapM g = .ok bs ∧ cs = bs.map k := by
  induction as generalizing cs with
  | nil => exact ⟨fun h => ⟨[], rfl, by cases h; rfl⟩, fun ⟨_, h, hcs⟩ => by cases h; rw [hcs]; rfl⟩
  | cons a as ih =>
    constructor
    · intro h
      obtain ⟨c, cs, hc, hcs, rfl⟩ := mapM_cons_eq_ok_iff.1 h
      obtain ⟨b, hb, rfl⟩ := map_eq_ok_iff.1 hc
      obtain ⟨bs, hbs, rfl⟩ := ih.1 hcs
      exact ⟨b :: bs, mapM_cons_eq_ok_iff.2 ⟨b, bs, hb, hbs, rfl⟩, rfl⟩
    · rintro ⟨_, h, rfl⟩
      obtain ⟨b, bs, hb, hbs, rfl⟩ := mapM_cons_eq_ok_iff.1 h
      exact mapM_cons_eq_ok_iff.2
        ⟨k b, bs.map k, map_eq_ok_iff.2 ⟨b, hb, rfl⟩, ih.2 ⟨bs, hbs, rfl⟩, rfl⟩

/-- Two passes give the same as one, if there is no fault. -/
lemma mapM_bind_eq_ok_iff {g : α → Except ε β} {k : β → Except ε γ} {as : List α}
    {cs : List γ} :
    as.mapM (fun a => g a >>= k) = .ok cs ↔ ∃ bs, as.mapM g = .ok bs ∧ bs.mapM k = .ok cs := by
  induction as generalizing cs with
  | nil => exact ⟨fun h => ⟨[], rfl, h⟩, fun ⟨_, h, hcs⟩ => by cases h; exact hcs⟩
  | cons a as ih =>
    constructor
    · intro h
      obtain ⟨c, cs, hc, hcs, rfl⟩ := mapM_cons_eq_ok_iff.1 h
      obtain ⟨b, hb, hc⟩ := bind_eq_ok_iff.1 hc
      obtain ⟨bs, hbs, hcs⟩ := ih.1 hcs
      exact ⟨b :: bs, mapM_cons_eq_ok_iff.2 ⟨b, bs, hb, hbs, rfl⟩,
        mapM_cons_eq_ok_iff.2 ⟨c, cs, hc, hcs, rfl⟩⟩
    · rintro ⟨_, h, hk⟩
      obtain ⟨b, bs, hb, hbs, rfl⟩ := mapM_cons_eq_ok_iff.1 h
      obtain ⟨c, cs, hc, hcs, rfl⟩ := mapM_cons_eq_ok_iff.1 hk
      exact mapM_cons_eq_ok_iff.2
        ⟨c, cs, bind_eq_ok_iff.2 ⟨b, hb, hc⟩, ih.2 ⟨bs, hbs, hcs⟩, rfl⟩

lemma exists_of_mem_mapM {g : α → Except ε β} {as : List α} {bs : List β}
    (h : as.mapM g = .ok bs) {b : β} (hb : b ∈ bs) : ∃ a ∈ as, g a = .ok b := by
  induction as generalizing bs with
  | nil =>
    cases h
    cases hb
  | cons a as ih =>
    obtain ⟨b', bs', ha, has, rfl⟩ := mapM_cons_eq_ok_iff.1 h
    rcases List.mem_cons.1 hb with rfl | hb
    · exact ⟨a, List.mem_cons_self, ha⟩
    · obtain ⟨a', ha', hb⟩ := ih has hb
      exact ⟨a', List.mem_cons_of_mem _ ha', hb⟩

lemma mapM_perm {g : α → Except ε β} {as as' : List α} (h : as.Perm as') {bs : List β}
    (hbs : as.mapM g = .ok bs) : ∃ bs', as'.mapM g = .ok bs' ∧ bs.Perm bs' := by
  induction h generalizing bs with
  | nil => exact ⟨bs, hbs, .refl bs⟩
  | cons a _ ih =>
    obtain ⟨b, rest, hb, hrest, rfl⟩ := mapM_cons_eq_ok_iff.1 hbs
    obtain ⟨rest', hrest', hperm⟩ := ih hrest
    exact ⟨b :: rest', mapM_cons_eq_ok_iff.2 ⟨b, rest', hb, hrest', rfl⟩, hperm.cons b⟩
  | swap a a' as =>
    obtain ⟨b', more, hb', hmore, rfl⟩ := mapM_cons_eq_ok_iff.1 hbs
    obtain ⟨b, rest, hb, hrest, rfl⟩ := mapM_cons_eq_ok_iff.1 hmore
    refine ⟨b :: b' :: rest, mapM_cons_eq_ok_iff.2 ⟨b, _, hb, ?_, rfl⟩, .swap b b' rest⟩
    exact mapM_cons_eq_ok_iff.2 ⟨b', rest, hb', hrest, rfl⟩
  | trans _ _ ih ih' =>
    obtain ⟨bs', hbs', hperm⟩ := ih hbs
    obtain ⟨bs'', hbs'', hperm'⟩ := ih' hbs'
    exact ⟨bs'', hbs'', hperm.trans hperm'⟩

/-! ## Equal results -/

/-- Two computations have the same result, or both have none.  Errors may differ. -/
def SameResult (x y : Except ε α) : Prop :=
  ∀ a, x = .ok a ↔ y = .ok a

namespace SameResult

variable {x y z : Except ε α}

lemma refl (x : Except ε α) : SameResult x x := fun _ => Iff.rfl

lemma symm (h : SameResult x y) : SameResult y x :=
  fun a => (h a).symm

lemma trans (h : SameResult x y) (h' : SameResult y z) : SameResult x z :=
  fun a => (h a).trans (h' a)

lemma errors (e e' : ε) : SameResult (.error e : Except ε α) (.error e') :=
  fun _ => ⟨nofun, nofun⟩

lemma of_imp (h : ∀ a, x = .ok a → y = .ok a) (h' : ∀ a, y = .ok a → x = .ok a) :
    SameResult x y :=
  fun a => ⟨h a, h' a⟩

lemma bind (h : SameResult x y) {k k' : α → Except ε β} (hk : ∀ a, SameResult (k a) (k' a)) :
    SameResult (x >>= k) (y >>= k') := by
  intro b
  simp only [bind_eq_ok_iff, h _, hk _ _]

lemma map (h : SameResult x y) (g : α → β) : SameResult (g <$> x) (g <$> y) := by
  intro b
  simp only [map_eq_ok_iff, h _]

lemma of_map {g : α → β} (hg : Function.Injective g) (h : SameResult (g <$> x) (g <$> y)) :
    SameResult x y := by
  have himp : ∀ {x y : Except ε α}, SameResult (g <$> x) (g <$> y) →
      ∀ a, x = .ok a → y = .ok a := by
    intro x y h a ha
    obtain ⟨a', ha', heq⟩ := map_eq_ok_iff.1 ((h (g a)).1 (map_eq_ok_iff.2 ⟨a, ha, rfl⟩))
    rw [ha', hg heq]
  exact of_imp (himp h) (himp h.symm)

lemma mapM {f g : γ → Except ε α} {cs cs' : List γ}
    (h : List.Forall₂ (fun c c' => SameResult (f c) (g c')) cs cs') :
    SameResult (cs.mapM f) (cs'.mapM g) := by
  induction h with
  | nil => exact refl _
  | cons hc _ ih =>
    rw [List.mapM_cons, List.mapM_cons]
    exact hc.bind fun _ => ih.map _

/-- One member of a list is exchanged. -/
lemma mapM_middle {g : γ → Except ε α} {c c' : γ} (h : SameResult (g c) (g c'))
    (before after : List γ) :
    SameResult ((before ++ c :: after).mapM g) ((before ++ c' :: after).mapM g) := by
  have hsame : ∀ cs : List γ, List.Forall₂ (fun c c' => SameResult (g c) (g c')) cs cs :=
    fun cs => List.forall₂_same.2 fun c _ => refl (g c)
  exact mapM (List.rel_append (hsame before) (.cons h (hsame after)))

end SameResult

end Dialogue
