import Mathlib.Data.List.Infix
import Mathlib.Data.Prod.Lex
import Mathlib.Tactic.Common
/-!
Machines that take one step after the other and show something now and then.

A machine is given by its step function; it halts where there is no step.  What two machines show is
compared by what they show in finitely many steps, so it does not matter whether a run ends
(`Agree`).  The way to prove that two machines agree is a simulation: every step of the one is some
steps of the other.  A rank that goes down whenever these are no steps at all keeps the one from
running on while the other stands still.
-/

namespace Dialogue

section

variable {ε σ τ : Type*}

/-- `Runs step n s es t`: `n` steps lead from `s` to `t` and show `es`. -/
inductive Runs (step : σ → Option (List ε × σ)) : ℕ → σ → List ε → σ → Prop
  | refl (s : σ) : Runs step 0 s [] s
  | cons {n : ℕ} {s t u : σ} {es fs : List ε} : step s = some (es, t) → Runs step n t fs u →
      Runs step (n + 1) s (es ++ fs) u

/-- What is shown in `n` steps, or until the machine halts. -/
def trace (step : σ → Option (List ε × σ)) : ℕ → σ → List ε
  | 0, _ => []
  | n + 1, s =>
    match step s with
    | none => []
    | some (es, t) => es ++ trace step n t

/-- The machine halts after finitely many steps. -/
def Halts (step : σ → Option (List ε × σ)) (s : σ) : Prop :=
  ∃ n es t, Runs step n s es t ∧ step t = none

/-- Two machines show the same, and one of them halts if and only if the other one does. -/
structure Agree (stepA : σ → Option (List ε × σ)) (stepB : τ → Option (List ε × τ)) (a : σ)
    (b : τ) : Prop where
  /-- What the first one shows is shown by the second one. -/
  le : ∀ n, ∃ m, trace stepA n a <+: trace stepB m b
  /-- What the second one shows is shown by the first one. -/
  ge : ∀ m, ∃ n, trace stepB m b <+: trace stepA n a
  /-- They halt together. -/
  halts : Halts stepA a ↔ Halts stepB b

lemma trace_eq_nil {step : σ → Option (List ε × σ)} {s : σ} (h : step s = none) (n : ℕ) :
    trace step n s = [] := by
  cases n with
  | zero => rfl
  | succ n => rw [trace, h]

namespace Runs

variable {step : σ → Option (List ε × σ)} {n m : ℕ} {s t u : σ} {es fs : List ε}

lemma single (h : step s = some (es, t)) : Runs step 1 s es t := by
  simpa using Runs.cons h (.refl t)

lemma trans (h : Runs step n s es t) (h' : Runs step m t fs u) :
    Runs step (m + n) s (es ++ fs) u := by
  induction h with
  | refl s => exact h'
  | cons hstep _ ih =>
    rw [List.append_assoc]
    exact .cons hstep (ih h')

/-- Steps that show nothing, after others. -/
lemma then_quiet (h : Runs step n s es t) (h' : Runs step m t [] u) :
    Runs step (m + n) s es u := by
  simpa using h.trans h'

lemma trace_add (h : Runs step n s es t) (m : ℕ) :
    trace step (n + m) s = es ++ trace step m t := by
  induction h with
  | refl s => simp
  | cons hstep _ ih => rw [Nat.add_right_comm, trace, hstep, List.append_assoc, ← ih]

lemma trace_le (h : Runs step n s es t) (hm : m ≤ n) : trace step m s <+: es := by
  induction h generalizing m with
  | refl s =>
    obtain rfl := Nat.le_zero.1 hm
    exact List.prefix_rfl
  | cons hstep _ ih =>
    cases m with
    | zero => exact List.nil_prefix
    | succ m =>
      rw [trace, hstep]
      exact (List.prefix_append_right_inj _).2 (ih (Nat.le_of_succ_le_succ hm))

/-- A machine that halts after `n` steps makes no more of them. -/
lemma le_of_halt (h : Runs step n s es t) (ht : step t = none) {u : σ}
    (h' : Runs step m s fs u) : m ≤ n := by
  induction h generalizing m fs with
  | refl s =>
    cases h' with
    | refl => exact Nat.le_refl _
    | cons hstep _ =>
      rw [ht] at hstep
      cases hstep
  | cons hstep _ ih =>
    cases h' with
    | refl => exact Nat.zero_le _
    | cons hstep' hrun =>
      rw [hstep] at hstep'
      cases hstep'
      exact Nat.succ_le_succ (ih ht hrun)

/-- A machine that halts has shown all that it ever shows. -/
lemma trace_of_halt (h : Runs step n s es t) (ht : step t = none) (m : ℕ) :
    trace step m s <+: es := by
  rcases Nat.le_total m n with hm | hm
  · exact h.trace_le hm
  · obtain ⟨j, rfl⟩ := Nat.exists_eq_add_of_le hm
    rw [h.trace_add, trace_eq_nil ht, List.append_nil]

end Runs

/-- All that is shown in `n` steps is shown by a run. -/
lemma exists_runs_trace (step : σ → Option (List ε × σ)) (n : ℕ) (s : σ) :
    ∃ m t, Runs step m s (trace step n s) t := by
  induction n generalizing s with
  | zero => exact ⟨0, s, .refl s⟩
  | succ n ih =>
    cases hstep : step s with
    | none =>
      refine ⟨0, s, ?_⟩
      rw [trace_eq_nil hstep]
      exact .refl s
    | some next =>
      obtain ⟨es, t⟩ := next
      obtain ⟨m, u, hrun⟩ := ih t
      refine ⟨m + 1, u, ?_⟩
      rw [trace, hstep]
      exact .cons hstep hrun

/-! ## Simulations -/

/-- Every step of the first machine is some steps of the second one, and a rank goes down where
these are none. -/
def Simulates (stepA : σ → Option (List ε × σ)) (stepB : τ → Option (List ε × τ))
    (Rel : ℕ → σ → τ → Prop) : Prop :=
  ∀ ⦃r a b es a'⦄, Rel r a b → stepA a = some (es, a') →
    ∃ k r' b', Runs stepB k b es b' ∧ Rel r' a' b' ∧ (0 < k ∨ r' < r)

namespace Simulates

variable {stepA : σ → Option (List ε × σ)} {stepB : τ → Option (List ε × τ)}
  {Rel : ℕ → σ → τ → Prop} (h : Simulates stepA stepB Rel)

include h

/-- The second machine can follow every run of the first one. -/
theorem forward {r n : ℕ} {a a' : σ} {b : τ} {es : List ε} (hab : Rel r a b)
    (hrun : Runs stepA n a es a') : ∃ k r' b', Runs stepB k b es b' ∧ Rel r' a' b' := by
  induction hrun generalizing r b with
  | refl a => exact ⟨0, r, b, .refl b, hab⟩
  | cons hstep _ ih =>
    obtain ⟨k, r', b', hrun', hab', -⟩ := h hab hstep
    obtain ⟨k', r'', b'', hrun'', hab''⟩ := ih hab'
    exact ⟨k' + k, r'', b'', hrun'.trans hrun'', hab''⟩

/-- However long the second machine runs, it has been following the first one, which either has got
as far or has halted. -/
theorem backward (m r : ℕ) {a : σ} {b : τ} (hab : Rel r a b) :
    ∃ n es a' k r' b', Runs stepA n a es a' ∧ Runs stepB k b es b' ∧ Rel r' a' b' ∧
      (m < k ∨ k ≤ m ∧ stepA a' = none) := by
  cases hstep : stepA a with
  | none => exact ⟨0, [], a, 0, r, b, .refl a, .refl b, hab, .inr ⟨Nat.zero_le m, hstep⟩⟩
  | some next =>
    obtain ⟨es, a'⟩ := next
    obtain ⟨k, r', b', hrun, hab', hless⟩ := h hab hstep
    by_cases hk : m < k
    · exact ⟨1, es, a', k, r', b', .single hstep, hrun, hab', .inl hk⟩
    · -- `k` steps are used up, or the rank has gone down
      obtain ⟨n, fs, a'', k', r'', b'', hrunA, hrunB, hab'', hend⟩ := backward (m - k) r' hab'
      refine ⟨n + 1, es ++ fs, a'', k' + k, r'', b'', .cons hstep hrunA, hrun.trans hrunB, hab'',
        ?_⟩
      rcases hend with hend | ⟨hend, hhalt⟩
      · exact .inl (by omega)
      · exact .inr ⟨by omega, hhalt⟩
termination_by (m, r)
decreasing_by
  rcases hless with hless | hless
  · exact Prod.Lex.left _ _ (by omega)
  · rcases Nat.eq_zero_or_pos k with hzero | hpos
    · simpa [hzero] using Prod.Lex.right m hless
    · exact Prod.Lex.left _ _ (by omega)

/-- Machines agree if moreover the second one halts quietly where the first one has halted. -/
theorem agree {r : ℕ} {a : σ} {b : τ} (hab : Rel r a b)
    (hhalt : ∀ {n es r a' b'}, Runs stepA n a es a' → Rel r a' b' → stepA a' = none →
      ∃ k b'', Runs stepB k b' [] b'' ∧ stepB b'' = none) : Agree stepA stepB a b where
  le n := by
    obtain ⟨m, a', hrun⟩ := exists_runs_trace stepA n a
    obtain ⟨k, r', b', hrun', -⟩ := h.forward hab hrun
    refine ⟨k + 0, ?_⟩
    rw [hrun'.trace_add]
    exact List.prefix_append _ _
  ge m := by
    obtain ⟨n, es, a', k, r', b', hrunA, hrunB, hab', hend⟩ := h.backward m r hab
    refine ⟨n + 0, ?_⟩
    rw [hrunA.trace_add]
    refine List.IsPrefix.trans ?_ (List.prefix_append _ _)
    -- either the run is long enough, or both machines have shown all
    rcases hend with hend | ⟨hend, hnone⟩
    · exact hrunB.trace_le (Nat.le_of_lt hend)
    · obtain ⟨k', b'', hquiet, hnone'⟩ := hhalt hrunA hab' hnone
      exact (hrunB.then_quiet hquiet).trace_of_halt hnone' m
  halts := by
    constructor
    · rintro ⟨n, es, a', hrun, hnone⟩
      obtain ⟨k, r', b', hrun', hab'⟩ := h.forward hab hrun
      obtain ⟨k', b'', hquiet, hnone'⟩ := hhalt hrun hab' hnone
      exact ⟨_, _, b'', hrun'.trans hquiet, hnone'⟩
    · rintro ⟨m, es, b', hrun, hnone⟩
      obtain ⟨n, fs, a', k, r', b'', hrunA, hrunB, -, hend⟩ := h.backward m r hab
      rcases hend with hend | ⟨-, hhalted⟩
      · exact absurd (hrun.le_of_halt hnone hrunB) (Nat.not_le.2 hend)
      · exact ⟨n, fs, a', hrunA, hhalted⟩

end Simulates

end

end Dialogue
