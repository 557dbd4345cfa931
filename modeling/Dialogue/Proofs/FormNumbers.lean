import Mathlib.Data.List.DropRight
import Dialogue.Proofs.Usable
import Dialogue.Proofs.Yields
/-!
Numbers from forms.

A number in a form is saved as a number or as the text that was typed.  What a text stands for is
said here without computing anything: digits stand for a number (`IsDecimal`), a sign may stand in
front of them (`IsSigned`), and blanks may stand around the whole (`Writes`).  A text is read as the
number that it stands for if that number fits into 64 bits, and as zero otherwise; a number is read
as itself, or as the largest number of 64 bits.  So it makes no difference to an action or a
condition how a number was saved.

A number that does not fit becomes a double before it is cut off.  This does not show, since
rounding does not go below a power of two (`two_pow_le_asDouble`).
-/

namespace Dialogue

namespace Text

/-! ## Blanks -/

lemma trimChars_append {before core after : List Char} (hbefore : ∀ c ∈ before, isBlank c)
    (hcore : ∀ c ∈ core, isBlank c = false) (hafter : ∀ c ∈ after, isBlank c) :
    trimChars (before ++ core ++ after) = core := by
  cases core with
  | nil =>
    have hall : ∀ c ∈ before ++ [] ++ after, isBlank c := by
      rw [List.append_nil]
      exact List.forall_mem_append.2 ⟨hbefore, hafter⟩
    rw [trimChars, List.dropWhile_eq_nil_iff.2 hall]
    rfl
  | cons c core =>
    have hfront : (before ++ c :: core ++ after).dropWhile isBlank = c :: core ++ after := by
      rw [List.append_assoc, List.dropWhile_append_of_pos hbefore, List.cons_append,
        List.dropWhile_cons_of_neg (by simp [hcore c List.mem_cons_self])]
    have hback : (c :: core).rdropWhile isBlank = c :: core :=
      List.rdropWhile_eq_self_iff.2 fun hne => by simp [hcore _ (List.getLast_mem hne)]
    rw [trimChars, hfront, List.reverse_append,
      List.dropWhile_append_of_pos (by simpa using hafter)]
    exact hback

/-- Only blanks are left out. -/
lemma exists_eq_append_trimChars (cs : List Char) :
    ∃ before after, cs = before ++ trimChars cs ++ after ∧ (∀ c ∈ before, isBlank c) ∧
      ∀ c ∈ after, isBlank c := by
  refine ⟨cs.takeWhile isBlank, (cs.dropWhile isBlank).rtakeWhile isBlank, ?_,
    fun c hc => List.mem_takeWhile_imp hc, fun c hc => List.mem_rtakeWhile_imp hc⟩
  have hback : trimChars cs ++ (cs.dropWhile isBlank).rtakeWhile isBlank = cs.dropWhile isBlank :=
    List.rdropWhile_append_rtakeWhile
  rw [List.append_assoc, hback, List.takeWhile_append_dropWhile]

end Text

/-! ## Rounding -/

lemma mul_div_le_roundTo (unit n : Nat) : unit * (n / unit) ≤ roundTo unit n := by
  rw [roundTo]
  split
  · exact Nat.le_refl _
  · exact Nat.mul_le_mul_left _ (Nat.le_succ _)

/-- Rounding does not go below a power of two, since that is a double itself. -/
lemma two_pow_le_roundTo {k n : Nat} (h : 2 ^ k ≤ n) : 2 ^ k ≤ roundTo (lastPlace n) n := by
  have hne : n ≠ 0 := (Nat.lt_of_lt_of_le (Nat.two_pow_pos k) h).ne'
  have hdvd : lastPlace n ∣ 2 ^ n.log2 := Nat.pow_dvd_pow 2 (Nat.sub_le _ _)
  calc 2 ^ k ≤ 2 ^ n.log2 := Nat.pow_le_pow_right (by decide) ((Nat.le_log2 hne).2 h)
    _ = lastPlace n * (2 ^ n.log2 / lastPlace n) := (Nat.mul_div_cancel' hdvd).symm
    _ ≤ lastPlace n * (n / lastPlace n) :=
      Nat.mul_le_mul_left _ (Nat.div_le_div_right (Nat.log2_self_le hne))
    _ ≤ roundTo (lastPlace n) n := mul_div_le_roundTo _ _

lemma two_pow_le_asDouble {k : Nat} {z : Int} (h : 2 ^ k ≤ z) : 2 ^ k ≤ asDouble z := by
  have hpos : 0 < z := Int.lt_of_lt_of_le (Int.pow_pos (by decide)) h
  obtain ⟨n, rfl⟩ := Int.eq_ofNat_of_zero_le (Int.le_of_lt hpos)
  rw [asDouble, Int.sign_eq_one_of_pos hpos, Int.one_mul, Int.natAbs_natCast]
  exact_mod_cast two_pow_le_roundTo (k := k) (by exact_mod_cast h)

/-- A tie goes to the even multiple of the last place. -/
example : asDouble (2 ^ 53 + 1) = 2 ^ 53 ∧ asDouble (2 ^ 53 + 3) = 2 ^ 53 + 4 ∧
    asDouble (2 ^ 64 - 1) = 2 ^ 64 := by
  decide

namespace Editor

open Json Text

/-! ## Numerals -/

/-- The digits stand for the number, the first one for the most; zeros may stand in front. -/
inductive IsDecimal : List Char → Nat → Prop
  | digit {d : Nat} (hd : d < 10) : IsDecimal [Nat.digitChar d] d
  | append {ds : List Char} {n d : Nat} (h : IsDecimal ds n) (hd : d < 10) :
      IsDecimal (ds ++ [Nat.digitChar d]) (10 * n + d)

/-- The characters stand for the number: digits, with one sign in front or none. -/
inductive IsSigned : List Char → Int → Prop
  | plain {ds : List Char} {n : Nat} (h : IsDecimal ds n) : IsSigned ds n
  | plus {ds : List Char} {n : Nat} (h : IsDecimal ds n) : IsSigned ('+' :: ds) n
  | minus {ds : List Char} {n : Nat} (h : IsDecimal ds n) : IsSigned ('-' :: ds) (-n)

/-- The text stands for the number, with blanks around it. -/
def Writes (s : String) (z : Int) : Prop :=
  ∃ before numeral after, s.toList = before ++ numeral ++ after ∧ (∀ c ∈ before, isBlank c) ∧
    (∀ c ∈ after, isBlank c) ∧ IsSigned numeral z

/-! ## Digits -/

lemma naturalOf?_eq_some {ds : List Char} {n : Nat} :
    naturalOf? ds = some n ↔ (ds ≠ [] ∧ ∀ c ∈ ds, c.isDigit) ∧ digitsValue ds = n := by
  have hrefused : (ds.isEmpty || !ds.all Char.isDigit) = true ↔
      ¬(ds ≠ [] ∧ ∀ c ∈ ds, c.isDigit) := by
    rw [← List.all_eq_true, Bool.or_eq_true, List.isEmpty_iff, Bool.not_eq_true', not_and_or,
      not_not, Bool.not_eq_true]
  rw [naturalOf?]
  split
  · next h => simp [hrefused.1 h]
  · next h =>
    have hdigits := not_not.1 (mt hrefused.2 h)
    rw [and_iff_right hdigits, Option.some_inj]

lemma digitsValue_append (ds : List Char) (c : Char) :
    digitsValue (ds ++ [c]) = 10 * digitsValue ds + digitValue c := by
  rw [digitsValue, List.foldl_append, Nat.mul_comm]
  rfl

lemma digitValue_digitChar {d : Nat} (hd : d < 10) : digitValue (Nat.digitChar d) = d := by
  decide +revert

lemma exists_digitChar {c : Char} (h : c.isDigit) : ∃ d < 10, Nat.digitChar d = c := by
  obtain ⟨hmin, hmax⟩ : 48 ≤ c.toNat ∧ c.toNat ≤ 57 := Char.isDigit_iff_toNat.1 h
  have hchar : ∀ d < 10, (Nat.digitChar d).toNat = 48 + d := by decide
  have hd : c.toNat - 48 < 10 := by omega
  refine ⟨c.toNat - 48, hd, Char.toNat_inj.1 ?_⟩
  rw [hchar _ hd]
  omega

theorem naturalOf?_eq_some_iff {ds : List Char} {n : Nat} :
    naturalOf? ds = some n ↔ IsDecimal ds n := by
  rw [naturalOf?_eq_some]
  constructor
  · rintro ⟨⟨hne, hdigits⟩, rfl⟩
    -- digits are added at the end, so the induction is from there
    induction ds using List.reverseRecOn with
    | nil => exact absurd rfl hne
    | append_singleton ds c ih =>
      rw [List.forall_mem_append, List.forall_mem_singleton] at hdigits
      obtain ⟨d, hd, rfl⟩ := exists_digitChar hdigits.2
      rw [digitsValue_append, digitValue_digitChar hd]
      cases ds with
      | nil => simpa [digitsValue] using IsDecimal.digit hd
      | cons b ds => exact .append (ih (List.cons_ne_nil b ds) hdigits.1) hd
  · intro h
    induction h with
    | digit hd => simp [digitsValue, digitValue_digitChar hd, Nat.isDigit_digitChar, hd]
    | append _ hd ih =>
      obtain ⟨⟨-, hdigits⟩, rfl⟩ := ih
      rw [digitsValue_append, digitValue_digitChar hd, List.forall_mem_append,
        List.forall_mem_singleton, Nat.isDigit_digitChar, decide_eq_true_eq]
      exact ⟨⟨List.append_ne_nil_of_right_ne_nil _ (List.cons_ne_nil _ _), hdigits, hd⟩, rfl⟩

lemma IsDecimal.isDigit {ds : List Char} {n : Nat} (h : IsDecimal ds n) : ∀ c ∈ ds, c.isDigit :=
  (naturalOf?_eq_some.1 (naturalOf?_eq_some_iff.2 h)).1.2

/-! ## Signs -/

theorem int64Of?_eq_some_iff {cs : List Char} {w : Int64} :
    int64Of? cs = some w ↔ IsSigned cs w.toInt := by
  constructor
  · intro h
    unfold int64Of? at h
    split at h
    all_goals
      obtain ⟨n, hn, hw⟩ := Option.bind_eq_some_iff.1 h
      rw [word?_eq_some_iff.1 hw]
    · exact .minus (naturalOf?_eq_some_iff.1 hn)
    · exact .plus (naturalOf?_eq_some_iff.1 hn)
    · exact .plain (naturalOf?_eq_some_iff.1 hn)
  · intro h
    generalize hz : w.toInt = z at h
    have hw : word? z = some w := word?_eq_some_iff.2 hz
    unfold int64Of?
    cases h with
    | minus h => exact Option.bind_eq_some_iff.2 ⟨_, naturalOf?_eq_some_iff.2 h, hw⟩
    | plus h => exact Option.bind_eq_some_iff.2 ⟨_, naturalOf?_eq_some_iff.2 h, hw⟩
    | plain h =>
      -- a sign is no digit
      split
      · exact absurd (h.isDigit '-' List.mem_cons_self) (by decide)
      · exact absurd (h.isDigit '+' List.mem_cons_self) (by decide)
      · exact Option.bind_eq_some_iff.2 ⟨_, naturalOf?_eq_some_iff.2 h, hw⟩

/-! ## Texts and numbers -/

/-- No character of a numeral is blank. -/
lemma IsSigned.isBlank_eq_false {cs : List Char} {z : Int} (h : IsSigned cs z) :
    ∀ c ∈ cs, isBlank c = false := by
  have hchar : ∀ d < 10, isBlank (Nat.digitChar d) = false := by decide
  have hdigit : ∀ {ds : List Char} {n : Nat}, IsDecimal ds n → ∀ c ∈ ds, isBlank c = false := by
    intro ds n h c hc
    obtain ⟨d, hd, rfl⟩ := exists_digitChar (h.isDigit c hc)
    exact hchar d hd
  cases h with
  | plain h => exact hdigit h
  | plus h => exact List.forall_mem_cons.2 ⟨by decide, hdigit h⟩
  | minus h => exact List.forall_mem_cons.2 ⟨by decide, hdigit h⟩

lemma writes_iff {s : String} {z : Int} : Writes s z ↔ IsSigned (trimChars s.toList) z := by
  constructor
  · rintro ⟨before, numeral, after, hs, hbefore, hafter, h⟩
    rwa [hs, trimChars_append hbefore h.isBlank_eq_false hafter]
  · intro h
    obtain ⟨before, after, hs, hbefore, hafter⟩ := exists_eq_append_trimChars s.toList
    exact ⟨before, _, after, hs, hbefore, hafter, h⟩

lemma Writes.lenientInt_eq {s : String} {w : Int64} (h : Writes s w.toInt) :
    lenientInt (some (.str s)) = w := by
  rw [lenientInt, int64Of?_eq_some_iff.2 (writes_iff.1 h), Option.getD_some]

lemma lenientInt_str_of_not_writes {s : String} (h : ∀ w : Int64, ¬Writes s w.toInt) :
    lenientInt (some (.str s)) = 0 := by
  rw [lenientInt]
  cases hw : int64Of? (trimChars s.toList) with
  | none => rfl
  | some w => exact absurd (writes_iff.2 (int64Of?_eq_some_iff.1 hw)) (h w)

/-- A number that is too large for 64 bits with sign is not made smaller than it has to be, although
it is rounded first. -/
lemma lenientInt_of_le {z : Int} (h : 2 ^ 63 ≤ z) :
    lenientInt (some (.int z)) = Int64.maxValue := by
  have hword : word? z = none := by
    cases hw : word? z with
    | none => rfl
    | some w =>
      have hlt := w.toInt_lt
      rw [word?_eq_some_iff.1 hw] at hlt
      exact absurd h (Int.not_le.2 hlt)
  have hdouble : 2 ^ 63 ≤ asDouble z := two_pow_le_asDouble h
  have hmin : ¬asDouble z < Int64.minValue.toInt :=
    Int.not_lt.2 (Int.le_trans (by decide) hdouble)
  have hmax : Int64.maxValue.toInt < asDouble z := Int.lt_of_lt_of_le (by decide) hdouble
  rw [Json.int, lenientInt, hword, Option.getD_none, saturate, if_neg hmin, if_pos hmax]

/-- Every number that fits is one of 64 bits. -/
lemma exists_toInt_eq {z : Int} (hmin : -2 ^ 63 ≤ z) (hmax : z < 2 ^ 63) :
    ∃ w : Int64, w.toInt = z :=
  ⟨Int64.ofInt z, Int64.toInt_ofInt_of_le hmin hmax⟩

/-- The whole numbers that can be read are those of 64 bits, with or without sign. -/
lemma exists_parse_eq_int_iff {z : Int} :
    (∃ text, Json.parse text = .ok (.int z)) ↔ -2 ^ 63 ≤ z ∧ z < 2 ^ 64 := by
  constructor
  · rintro ⟨text, h⟩
    cases (Yields.value depthLimit).of_readAll h with
    | int hmin hmax => exact ⟨hmin, hmax⟩
  · rintro ⟨hmin, hmax⟩
    exact ⟨_, readAll_compact (.int hmin hmax)⟩

/-- What is asked of a reader of numbers: a text counts as the number that it stands for, unless
that is none of 64 bits, and a number counts as the next one of 64 bits. -/
structure ReadsExactly (read : Option Json → Int64) : Prop where
  text : ∀ s z, Writes s z → -2 ^ 63 ≤ z → z < 2 ^ 63 → (read (some (.str s))).toInt = z
  other : ∀ s, (∀ z, Writes s z → ¬(-2 ^ 63 ≤ z ∧ z < 2 ^ 63)) → (read (some (.str s))).toInt = 0
  number : ∀ z, -2 ^ 63 ≤ z → z < 2 ^ 63 → (read (some (.int z))).toInt = z
  large : ∀ z, 2 ^ 63 ≤ z → z < 2 ^ 64 → (read (some (.int z))).toInt = 2 ^ 63 - 1

lemma readsExactly_lenientInt : ReadsExactly lenientInt where
  text s z h hmin hmax := by
    obtain ⟨w, rfl⟩ := exists_toInt_eq hmin hmax
    rw [h.lenientInt_eq]
  other s h := by
    rw [lenientInt_str_of_not_writes fun w hw => h _ hw ⟨w.le_toInt, w.toInt_lt⟩]
    rfl
  number z hmin hmax := by
    obtain ⟨w, rfl⟩ := exists_toInt_eq hmin hmax
    exact congrArg Int64.toInt (lenientInt_intJson w)
  large z hmin _ := by
    rw [lenientInt_of_le hmin]
    rfl

lemma Action.convert_setVariable (a : Action) (node : String)
    (htag : normalTag a.tag = "setvariable") :
    a.convert node = .ok (.setVariable (a.variableId.getD 0)
      ((a.operation.map VariableOperation.parse).getD .set) (lenientInt a.value)) := by
  rw [convert, htag]
  rfl

lemma Condition.convert_variable (c : Condition) (node : String)
    (htag : normalTag c.tag = "variable") :
    c.convert node = .ok (.compare (c.variableId.getD 0)
      ((c.operator.map Comparison.parse).getD .equal) (lenientInt c.value)) := by
  rw [convert, htag]
  rfl

/-- Numbers in forms are read exactly, where the whole numbers that a document can hold are those of
64 bits, with or without sign.  Saved as a number or as any text for it, a number with sign gives
the same value to an action that sets a variable, and to a condition on one. -/
theorem numbers_are_read_exactly :
    ReadsExactly lenientInt ∧
    (∀ z, (∃ text, Json.parse text = .ok (.int z)) ↔ -2 ^ 63 ≤ z ∧ z < 2 ^ 64) ∧
    ∀ s z, Writes s z → -2 ^ 63 ≤ z → z < 2 ^ 63 → ∃ value : Int64, value.toInt = z ∧
      ∀ saved ∈ [Json.str s, Json.int z],
        (∀ (node : String) (a : Action), normalTag a.tag = "setvariable" → a.value = some saved →
          a.convert node = .ok (.setVariable (a.variableId.getD 0)
            ((a.operation.map VariableOperation.parse).getD .set) value)) ∧
        ∀ (node : String) (c : Condition), normalTag c.tag = "variable" → c.value = some saved →
          c.convert node = .ok (.compare (c.variableId.getD 0)
            ((c.operator.map Comparison.parse).getD .equal) value) := by
  refine ⟨readsExactly_lenientInt, fun _ => exists_parse_eq_int_iff, ?_⟩
  intro s z h hmin hmax
  obtain ⟨w, rfl⟩ := exists_toInt_eq hmin hmax
  have hread : ∀ saved ∈ [Json.str s, Json.int w.toInt], lenientInt (some saved) = w :=
    List.forall_mem_cons.2 ⟨h.lenientInt_eq, List.forall_mem_singleton.2 (lenientInt_intJson w)⟩
  refine ⟨w, rfl, fun saved hsaved => ⟨fun node a htag ha => ?_, fun node c htag hc => ?_⟩⟩
  · rw [a.convert_setVariable node htag, ha, hread saved hsaved]
  · rw [c.convert_variable node htag, hc, hread saved hsaved]

/-- The smallest number of 64 bits as someone typed it: with zeros in front and blanks around it. -/
def typedDebt : String := " -0009223372036854775808\n"

lemma writes_typedDebt : Writes typedDebt (-2 ^ 63) :=
  writes_iff.2 (.minus (n := 9223372036854775808) (naturalOf?_eq_some_iff.1 (by decide)))

/-- One more than the largest number of 64 bits. -/
lemma not_fits_of_writes {z : Int} (h : Writes "9223372036854775808" z) :
    ¬(-2 ^ 63 ≤ z ∧ z < 2 ^ 63) := by
  rintro ⟨hmin, hmax⟩
  obtain ⟨w, rfl⟩ := exists_toInt_eq hmin hmax
  have hnone : int64Of? (trimChars "9223372036854775808".toList) = none := by decide
  rw [int64Of?_eq_some_iff.2 (writes_iff.1 h)] at hnone
  cases hnone

theorem typedDebt_is_read_exactly :
    Writes typedDebt (-2 ^ 63) ∧ (lenientInt (some (.str typedDebt))).toInt = -2 ^ 63 ∧
      (lenientInt (some (.str "9223372036854775808"))).toInt = 0 ∧
      (lenientInt (some (.int (-2 ^ 63)))).toInt = -2 ^ 63 ∧
      (lenientInt (some (.int (2 ^ 64 - 1)))).toInt = 2 ^ 63 - 1 ∧
      ∃ value : Int64, value.toInt = -2 ^ 63 ∧
        ({ tag := "Set_Variable", value := some (.str typedDebt) } : Action).convert "loan" =
          .ok (.setVariable 0 .set value) ∧
        ({ tag := "VARIABLE", value := some (.int (-2 ^ 63)) } : Condition).convert "loan" =
          .ok (.compare 0 .equal value) := by
  obtain ⟨hexact, -, hsame⟩ := numbers_are_read_exactly
  obtain ⟨value, hvalue, hsaved⟩ := hsame _ _ writes_typedDebt (by decide) (by decide)
  refine ⟨writes_typedDebt, hexact.text _ _ writes_typedDebt (by decide) (by decide),
    hexact.other _ fun _ => not_fits_of_writes, hexact.number _ (by decide) (by decide),
    hexact.large _ (by decide) (by decide), value, hvalue, ?_, ?_⟩
  · exact (hsaved _ List.mem_cons_self).1 "loan"
      { tag := "Set_Variable", value := _ } (by decide) rfl
  · exact (hsaved _ (List.mem_cons_of_mem _ List.mem_cons_self)).2 "loan"
      { tag := "VARIABLE", value := _ } (by decide) rfl

end Editor

end Dialogue
