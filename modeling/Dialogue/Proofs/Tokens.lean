import Mathlib.Data.List.Basic
import Mathlib.Tactic.Common
import Dialogue.Json.Reader
/-!
Texts and numbers as they are written.

What stands between the quotes of a text is told by a grammar (`IsRaw`): plain characters, escapes
by a letter and escapes by a number.  A text that is skipped may be any of these; a text that is
kept is also refused if it has one half of a surrogate pair without the other.  In both cases the
reader finds the closing quote, and what it makes of the text does not depend on what follows
(`textBody_append`).

A number ends where no further character can belong to it, so what follows it matters: it must not
begin with a digit, a point or the letter of an exponent (`Ends`).
-/

namespace Dialogue.Json

/-! ## Texts -/

/-- The letters that follow a backslash in a text, but for the `u` of an escape by a number. -/
def escapeLetters : List Char := ['"', '\\', '/', 'b', 'f', 'n', 'r', 't']

/-- What may stand between the quotes of a text. -/
inductive IsRaw : List Char → Prop
  | nil : IsRaw []
  | plain {c : Char} {raw : List Char} (hquote : c ≠ '"') (hslash : c ≠ '\\')
      (hcontrol : 0x20 ≤ c.toNat) (h : IsRaw raw) : IsRaw (c :: raw)
  | letter {c : Char} {raw : List Char} (hc : c ∈ escapeLetters) (h : IsRaw raw) :
      IsRaw ('\\' :: c :: raw)
  | number {a b c d : Char} {n : Nat} {raw : List Char} (hn : hexNumber? a b c d = some n)
      (h : IsRaw raw) : IsRaw ('\\' :: 'u' :: a :: b :: c :: d :: raw)

section TextBody

variable {strict : Bool} {c : Char} {cs rest : List Char} {fault : Fault}

lemma textBody_quote : textBody strict ('"' :: rest) = .ok ([], rest) := by
  rw [textBody]

lemma textBody_plain (hquote : c ≠ '"') (hslash : c ≠ '\\') (hcontrol : 0x20 ≤ c.toNat) :
    textBody strict (c :: rest) = (fun p => (c :: p.1, p.2)) <$> textBody strict rest := by
  rw [textBody]
  · rw [if_neg (by omega)]
    rfl
  · simpa using hquote
  · simpa using hslash

lemma textBody_escape (h : escape strict cs = .ok (c, rest)) :
    textBody strict ('\\' :: cs) = (fun p => (c :: p.1, p.2)) <$> textBody strict rest := by
  rw [textBody]
  split
  · next fault heq => rw [h] at heq; cases heq
  · next c' rest' heq =>
    rw [h] at heq
    cases heq
    rfl

lemma textBody_of_escape_error (h : escape strict cs = .error fault) :
    textBody strict ('\\' :: cs) = .error fault := by
  rw [textBody]
  split
  · next fault' heq => rw [h] at heq; cases heq; rfl
  · next heq => rw [h] at heq; cases heq

lemma hexEscape_of_eq_some {a b d : Char} {n : Nat} (hn : hexNumber? a b c d = some n) :
    hexEscape (a :: b :: c :: d :: rest) = .ok (n, rest) := by
  rw [hexEscape, hn]

lemma escape_number {a b d : Char} {n : Nat} (hn : hexNumber? a b c d = some n) :
    escape strict ('u' :: a :: b :: c :: d :: rest) =
      if strict && isLowSurrogate n then .error .loneSurrogate
      else if strict && isHighSurrogate n then pairEscape n rest
      else .ok (Char.ofNat n, rest) := by
  simp only [escape, unicodeEscape, hexEscape_of_eq_some hn, bind, Except.bind]
  rfl

end TextBody

/-- The character that a letter after a backslash stands for. -/
lemma exists_escape_letter {c : Char} (hc : c ∈ escapeLetters) :
    ∃ x, ∀ strict rest, escape strict (c :: rest) = .ok (x, rest) := by
  simp only [escapeLetters, List.mem_cons, List.not_mem_nil, or_false] at hc
  rcases hc with rfl | rfl | rfl | rfl | rfl | rfl | rfl | rfl <;> exact ⟨_, fun _ _ => rfl⟩

/-- The second half of a surrogate pair, as far as it is there, is found before the closing
quote. -/
lemma pairEscape_cases (high : Nat) {raw : List Char} (h : IsRaw raw) :
    (∃ fault, ∀ rest, pairEscape high (raw ++ '"' :: rest) = .error fault) ∨
      ∃ c raw', IsRaw raw' ∧ raw'.length < raw.length ∧
        ∀ rest, pairEscape high (raw ++ '"' :: rest) = .ok (c, raw' ++ '"' :: rest) := by
  cases h with
  | nil => exact .inl ⟨_, fun _ => rfl⟩
  | @plain c raw _ hslash _ _ =>
    refine .inl ⟨.brokenPair, fun rest => ?_⟩
    rw [List.cons_append, pairEscape] <;> simp [hslash]
  | @letter c raw hc _ =>
    refine .inl ⟨.brokenPair, fun rest => ?_⟩
    have hu : c ≠ 'u' := by
      rintro rfl
      simp [escapeLetters] at hc
    rw [List.cons_append, List.cons_append, pairEscape] <;> simp [hu]
  | @number a b c d n raw hn h =>
    cases hlow : isLowSurrogate n with
    | false =>
      refine .inl ⟨.loneSurrogate, fun rest => ?_⟩
      simp [pairEscape, hexEscape_of_eq_some hn, hlow, bind, Except.bind, throw, throwThe,
        MonadExceptOf.throw]
    | true =>
      refine .inr ⟨pairChar high n, raw, h, by simp only [List.length_cons]; omega, fun rest => ?_⟩
      simp [pairEscape, hexEscape_of_eq_some hn, hlow, bind, Except.bind, pure, Except.pure]

/-- An escape is read before the closing quote, whatever follows. -/
lemma escape_cases (strict : Bool) {cs : List Char} (h : IsRaw ('\\' :: cs)) :
    (strict = true ∧ ∃ fault, ∀ rest, escape strict (cs ++ '"' :: rest) = .error fault) ∨
      ∃ c raw, IsRaw raw ∧ raw.length < cs.length ∧
        ∀ rest, escape strict (cs ++ '"' :: rest) = .ok (c, raw ++ '"' :: rest) := by
  cases h with
  | plain _ hslash => exact absurd rfl hslash
  | @letter c raw hc h =>
    obtain ⟨x, hx⟩ := exists_escape_letter hc
    exact .inr ⟨x, raw, h, Nat.lt_succ_self _, fun rest => hx strict _⟩
  | @number a b c d n raw hn h =>
    have hunicode : ∀ rest, escape strict ('u' :: a :: b :: c :: d :: raw ++ '"' :: rest) =
        if strict && isLowSurrogate n then .error .loneSurrogate
        else if strict && isHighSurrogate n then pairEscape n (raw ++ '"' :: rest)
        else .ok (Char.ofNat n, raw ++ '"' :: rest) := fun rest => escape_number hn
    have hplain : raw.length < ('u' :: a :: b :: c :: d :: raw).length := by
      simp only [List.length_cons]
      omega
    cases strict with
    | false => exact .inr ⟨_, raw, h, hplain, fun rest => hunicode rest⟩
    | true =>
      simp only [Bool.true_and] at hunicode
      cases hlow : isLowSurrogate n with
      | true => exact .inl ⟨rfl, .loneSurrogate, fun rest => by rw [hunicode, hlow]; rfl⟩
      | false =>
        cases hhigh : isHighSurrogate n with
        | false =>
          exact .inr ⟨_, raw, h, hplain, fun rest => by rw [hunicode, hlow, hhigh]; rfl⟩
        | true =>
          have hpair : ∀ rest, escape true ('u' :: a :: b :: c :: d :: raw ++ '"' :: rest) =
              pairEscape n (raw ++ '"' :: rest) := by
            intro rest
            rw [hunicode, hlow, hhigh]
            rfl
          rcases pairEscape_cases n h with ⟨fault, hfault⟩ | ⟨x, raw', h', hlt, hok⟩
          · exact .inl ⟨rfl, fault, fun rest => (hpair rest).trans (hfault rest)⟩
          · exact .inr ⟨x, raw', h', by omega, fun rest => (hpair rest).trans (hok rest)⟩

/-- By induction on the length: a text is read up to its closing quote, or it is refused, whatever
follows.  A text that is skipped is not refused. -/
theorem textBody_cases (strict : Bool) {raw : List Char} (h : IsRaw raw) :
    (∃ s, ∀ rest, textBody strict (raw ++ '"' :: rest) = .ok (s, rest)) ∨
      strict = true ∧ ∃ fault, ∀ rest, textBody strict (raw ++ '"' :: rest) = .error fault := by
  induction hlength : raw.length using Nat.strongRecOn generalizing raw with
  | _ k ih =>
    subst hlength
    -- what is read after its first part gives what is read of the whole text
    have hcons : ∀ {c : Char} {cs raw' : List Char}, IsRaw raw' → raw'.length < raw.length →
        (∀ rest, textBody strict (cs ++ '"' :: rest) =
          (fun p => (c :: p.1, p.2)) <$> textBody strict (raw' ++ '"' :: rest)) →
        (∃ s, ∀ rest, textBody strict (cs ++ '"' :: rest) = .ok (s, rest)) ∨
          strict = true ∧ ∃ fault, ∀ rest, textBody strict (cs ++ '"' :: rest) = .error fault := by
      intro c cs raw' h' hlt hstep
      rcases ih _ hlt h' rfl with ⟨s, hs⟩ | ⟨hstrict, fault, hfault⟩
      · exact .inl ⟨c :: s, fun rest => by rw [hstep, hs]; rfl⟩
      · exact .inr ⟨hstrict, fault, fun rest => by rw [hstep, hfault]; rfl⟩
    have hescape : ∀ {cs : List Char}, IsRaw ('\\' :: cs) → cs.length < raw.length →
        (∃ s, ∀ rest, textBody strict ('\\' :: cs ++ '"' :: rest) = .ok (s, rest)) ∨
          strict = true ∧
            ∃ fault, ∀ rest, textBody strict ('\\' :: cs ++ '"' :: rest) = .error fault := by
      intro cs hcs hlt
      rcases escape_cases strict hcs with ⟨hstrict, fault, hfault⟩ | ⟨c, raw', h', hlt', hok⟩
      · exact .inr ⟨hstrict, fault, fun rest => textBody_of_escape_error (hfault rest)⟩
      · exact hcons h' (by omega) fun rest => textBody_escape (hok rest)
    cases h with
    | nil => exact .inl ⟨[], fun rest => textBody_quote⟩
    | plain hquote hslash hcontrol h =>
      exact hcons h (Nat.lt_succ_self _) fun rest => textBody_plain hquote hslash hcontrol
    | letter hc h => exact hescape (.letter hc h) (Nat.lt_succ_self _)
    | number hn h => exact hescape (.number hn h) (Nat.lt_succ_self _)

/-- What stands between the quotes of a text, read. -/
def decode (strict : Bool) (raw : List Char) : Except Fault (List Char) :=
  Prod.fst <$> textBody strict (raw ++ ['"'])

theorem textBody_append (strict : Bool) {raw : List Char} (h : IsRaw raw) (rest : List Char) :
    textBody strict (raw ++ '"' :: rest) = (fun s => (s, rest)) <$> decode strict raw := by
  rcases textBody_cases strict h with ⟨s, hs⟩ | ⟨-, fault, hfault⟩
  · rw [decode, hs, hs]
    rfl
  · rw [decode, hfault, hfault]
    rfl

/-- A text that is skipped is not refused. -/
lemma exists_decode {raw : List Char} (h : IsRaw raw) : ∃ s, decode false raw = .ok s := by
  rcases textBody_cases false h with ⟨s, hs⟩ | ⟨hstrict, -⟩
  · exact ⟨s, by rw [decode, hs]; rfl⟩
  · cases hstrict

/-! ### Escaped texts -/

lemma hexNumber?_hexDigit : ∀ n < 0x20,
    hexNumber? '0' '0' (hexDigit (n / 16)) (hexDigit n) = some n ∧ isLowSurrogate n = false ∧
      isHighSurrogate n = false := by
  decide

/-- An escaped character is read as the character. -/
lemma textBody_escapeChar (c : Char) (rest : List Char) :
    textBody true (escapeChar c ++ rest) =
      (fun p => (c :: p.1, p.2)) <$> textBody true rest := by
  unfold escapeChar
  split
  all_goals try exact textBody_escape rfl
  next hquote hslash _ _ _ _ _ =>
    split
    · next hcontrol =>
      obtain ⟨hhex, hlow, hhigh⟩ := hexNumber?_hexDigit c.toNat hcontrol
      refine textBody_escape ((escape_number hhex).trans ?_)
      rw [hlow, hhigh, Char.ofNat_toNat]
      rfl
    · next hcontrol =>
      exact textBody_plain (by simpa using hquote) (by simpa using hslash) (by omega)

lemma isRaw_escapeChar (c : Char) {raw : List Char} (h : IsRaw raw) :
    IsRaw (escapeChar c ++ raw) := by
  unfold escapeChar
  split
  all_goals try exact .letter (by decide) h
  next hquote hslash _ _ _ _ _ =>
    split
    · next hcontrol => exact .number (hexNumber?_hexDigit c.toNat hcontrol).1 h
    · next hcontrol => exact .plain (by simpa using hquote) (by simpa using hslash) (by omega) h

lemma isRaw_flatMap_escapeChar (s : List Char) : IsRaw (s.flatMap escapeChar) := by
  induction s with
  | nil => exact .nil
  | cons c s ih => exact isRaw_escapeChar c ih

/-- Escaping a text and reading it gives the text. -/
theorem decode_flatMap_escapeChar (s : List Char) : decode true (s.flatMap escapeChar) = .ok s := by
  have hread : textBody true (s.flatMap escapeChar ++ ['"']) = .ok (s, []) := by
    induction s with
    | nil => exact textBody_quote
    | cons c s ih =>
      rw [List.flatMap_cons, List.append_assoc, textBody_escapeChar, ih]
      rfl
  rw [decode, hread]
  rfl

/-! ## Numbers -/

/-- The digits of a number are as they should be. -/
structure IsNumeral (n : Numeral) : Prop where
  whole_ne_nil : n.whole ≠ []
  whole : ∀ c ∈ n.whole, c.isDigit
  /-- A zero stands alone before the point. -/
  zero : n.whole.head? = some '0' → n.whole = ['0']
  fraction : ∀ c ∈ n.fraction, c.isDigit
  exponent : ∀ negative ds, n.exponent = some (negative, ds) → ds ≠ [] ∧ ∀ c ∈ ds, c.isDigit

/-- How the exponent of a number may be written. -/
inductive SpellsExponent : Option (Bool × List Char) → List Char → Prop
  | none : SpellsExponent none []
  | plain {e : Char} {ds : List Char} (he : e = 'e' ∨ e = 'E') :
      SpellsExponent (some (false, ds)) (e :: ds)
  | plus {e : Char} {ds : List Char} (he : e = 'e' ∨ e = 'E') :
      SpellsExponent (some (false, ds)) (e :: '+' :: ds)
  | minus {e : Char} {ds : List Char} (he : e = 'e' ∨ e = 'E') :
      SpellsExponent (some (true, ds)) (e :: '-' :: ds)

/-- The point of a number and the digits after it, if there are any. -/
def fractionChars (fraction : List Char) : List Char :=
  if fraction = [] then [] else '.' :: fraction

/-- How a number without its sign may be written. -/
inductive SpellsNumeral (n : Numeral) : List Char → Prop
  | mk {exponent : List Char} (h : SpellsExponent n.exponent exponent) :
      SpellsNumeral n (n.whole ++ fractionChars n.fraction ++ exponent)

/-- Nothing follows that could belong to a number. -/
def Ends (rest : List Char) : Prop :=
  ∀ c ∈ rest.head?, c.isDigit = false ∧ c ≠ '.' ∧ c ≠ 'e' ∧ c ≠ 'E'

section Numerals

variable {atEnd : Fault} {ds rest : List Char}

lemma digits_append (hds : ∀ c ∈ ds, c.isDigit) (hrest : ∀ c ∈ rest.head?, c.isDigit = false) :
    digits (ds ++ rest) = (ds, rest) := by
  have htake : rest.takeWhile Char.isDigit = [] := by
    cases rest with
    | nil => rfl
    | cons c rest => simp [hrest c rfl]
  have hdrop : rest.dropWhile Char.isDigit = rest := by
    cases rest with
    | nil => rfl
    | cons c rest => simp [hrest c rfl]
  rw [digits, List.takeWhile_append_of_pos hds, List.dropWhile_append_of_pos hds, htake, hdrop,
    List.append_nil]

lemma someDigits_append (hne : ds ≠ []) (hds : ∀ c ∈ ds, c.isDigit)
    (hrest : ∀ c ∈ rest.head?, c.isDigit = false) :
    someDigits atEnd (ds ++ rest) = .ok (ds, rest) := by
  rw [someDigits, digits_append hds hrest]
  cases ds with
  | nil => exact absurd rfl hne
  | cons d ds => rfl

lemma wholePart_append {n : Numeral} (h : IsNumeral n)
    (hrest : ∀ c ∈ rest.head?, c.isDigit = false) :
    wholePart atEnd (n.whole ++ rest) = .ok (n.whole, rest) := by
  rw [wholePart, someDigits_append h.whole_ne_nil h.whole hrest]
  simp only [bind, Except.bind]
  split
  · next d ds heq =>
    have hzero := h.zero (by rw [heq]; rfl)
    rw [heq] at hzero
    cases hzero
  · rfl

lemma fractionPart_append (hds : ∀ c ∈ ds, c.isDigit)
    (hrest : ∀ c ∈ rest.head?, c.isDigit = false ∧ c ≠ '.') :
    fractionPart atEnd (fractionChars ds ++ rest) = .ok (ds, rest) := by
  rw [fractionChars]
  split
  · next hnil =>
    subst hnil
    cases rest with
    | nil => rfl
    | cons c rest =>
      have hc := (hrest c rfl).2
      rw [List.nil_append, fractionPart]
      simpa using hc
  · next hne => exact someDigits_append hne hds fun c hc => (hrest c hc).1

lemma exponentPart_append {exponent : Option (Bool × List Char)} {cs : List Char}
    (h : SpellsExponent exponent cs)
    (hds : ∀ negative ds, exponent = some (negative, ds) → ds ≠ [] ∧ ∀ c ∈ ds, c.isDigit)
    (hrest : Ends rest) : exponentPart atEnd (cs ++ rest) = .ok (exponent, rest) := by
  have hletter : ∀ {e : Char}, e = 'e' ∨ e = 'E' → (e == 'e' || e == 'E') = true := by
    rintro e (rfl | rfl) <;> rfl
  have hdigit : ∀ c ∈ rest.head?, c.isDigit = false := fun c hc => (hrest c hc).1
  cases h with
  | none =>
    cases rest with
    | nil => rfl
    | cons c rest =>
      obtain ⟨-, -, he, hE⟩ := hrest c rfl
      unfold exponentPart
      simp [he, hE]
  | @plain e ds he =>
    obtain ⟨hne, hds⟩ := hds false ds rfl
    have hread : someDigits atEnd (ds ++ rest) = .ok (ds, rest) := someDigits_append hne hds hdigit
    obtain ⟨d, ds, rfl⟩ := List.exists_cons_of_ne_nil hne
    have hd : d.isDigit = true := hds d List.mem_cons_self
    rw [List.cons_append, exponentPart, if_pos (hletter he), hread]
    · rfl
    -- a digit is no sign
    · rintro _ ⟨⟩
      cases hd
    · rintro _ ⟨⟩
      cases hd
  | plus he =>
    obtain ⟨hne, hds⟩ := hds _ _ rfl
    simp only [List.cons_append, exponentPart, if_pos (hletter he),
      someDigits_append hne hds hdigit]
    rfl
  | minus he =>
    obtain ⟨hne, hds⟩ := hds _ _ rfl
    simp only [List.cons_append, exponentPart, if_pos (hletter he),
      someDigits_append hne hds hdigit]
    rfl

/-- Neither an exponent nor what follows a number begins with a digit or a point. -/
lemma SpellsExponent.head?_append {exponent : Option (Bool × List Char)} {cs : List Char}
    (h : SpellsExponent exponent cs) (hrest : Ends rest) :
    ∀ c ∈ (cs ++ rest).head?, c.isDigit = false ∧ c ≠ '.' := by
  have hletter : ∀ {e : Char}, e = 'e' ∨ e = 'E' → e.isDigit = false ∧ e ≠ '.' := by
    rintro e (rfl | rfl) <;> exact ⟨rfl, by decide⟩
  intro c hc
  cases h with
  | none => exact ⟨(hrest c hc).1, (hrest c hc).2.1⟩
  | plain he | plus he | minus he =>
    obtain rfl : _ = c := Option.some.inj hc
    exact hletter he

/-- A number is read up to its end. -/
theorem numeral_append {n : Numeral} (h : IsNumeral n) {cs : List Char} (hcs : SpellsNumeral n cs)
    (hrest : Ends rest) : numeral atEnd (cs ++ rest) = .ok (n, rest) := by
  obtain @⟨exponent, hexponent⟩ := hcs
  have htail := hexponent.head?_append hrest
  have hfraction : ∀ c ∈ (fractionChars n.fraction ++ (exponent ++ rest)).head?,
      c.isDigit = false := by
    intro c hc
    rw [fractionChars] at hc
    split at hc
    · exact (htail c hc).1
    · obtain rfl : '.' = c := Option.some.inj hc
      rfl
  simp only [numeral, List.append_assoc, wholePart_append h hfraction,
    fractionPart_append h.fraction htail, exponentPart_append hexponent h.exponent hrest, bind,
    Except.bind]
  rfl

end Numerals

end Dialogue.Json
