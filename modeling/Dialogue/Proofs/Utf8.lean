import Mathlib.Tactic.Common
import Dialogue.Text.Utf8
/-!
Texts survive their bytes.

A character is written as one to four bytes.  The first byte tells how many there are, and the range
that the reader asks of the second byte leaves out only what the writer never writes: forms that are
longer than needed, surrogates, and numbers beyond the last character.  So reading goes over the
bytes of a character and comes out behind them (`decodeUtf8From_append`), and reading the bytes of a
text gives the text (`decodeUtf8_encodeUtf8`).

All arithmetic is on numbers: a byte is used through `toNat`.
-/

namespace Dialogue.Text

/-! ## Bytes as numbers -/

lemma continuations_eq (a : UInt8) :
    continuations a =
      if a.toNat < 128 then some 0
      else if 194 ≤ a.toNat ∧ a.toNat ≤ 223 then some 1
      else if 224 ≤ a.toNat ∧ a.toNat ≤ 239 then some 2
      else if 240 ≤ a.toNat ∧ a.toNat ≤ 244 then some 3
      else none := by
  simp [continuations, UInt8.lt_iff_toNat_lt, UInt8.le_iff_toNat_le]

lemma isContinuation_iff {b : UInt8} :
    isContinuation b ↔ 128 ≤ b.toNat ∧ b.toNat ≤ 191 := by
  simp [isContinuation, UInt8.le_iff_toNat_le]

/-- A byte that continues a character can follow a first byte, if it is not one that the four
special first bytes leave out. -/
lemma canFollow_of_isContinuation {a b : UInt8} (h : 128 ≤ b.toNat ∧ b.toNat ≤ 191)
    (hshort : a.toNat = 224 → 160 ≤ b.toNat) (hsurrogate : a.toNat = 237 → b.toNat ≤ 159)
    (hshort' : a.toNat = 240 → 144 ≤ b.toNat) (hlarge : a.toNat = 244 → b.toNat ≤ 143) :
    canFollow a b := by
  simp only [canFollow, beq_iff_eq, ← UInt8.toNat_inj, UInt8.le_iff_toNat_le]
  split
  · next ha => simpa using And.intro (hshort ha) h.2
  · split
    · next ha => simpa using And.intro h.1 (hsurrogate ha)
    · split
      · next ha => simpa using And.intro (hshort' ha) h.2
      · split
        · next ha => simpa using And.intro h.1 (hlarge ha)
        · exact isContinuation_iff.2 h

lemma toNat_ofNat {n : Nat} (h : n < 256) : (UInt8.ofNat n).toNat = n :=
  UInt8.toNat_ofNat_of_lt' h

lemma char_ofNat {c : Char} {n : Nat} (h : n = c.val.toNat) : Char.ofNat n = c := by
  subst h
  exact Char.ofNat_toNat c

/-! ## Characters -/

section Lengths

variable {offset : Nat} {a b c d : UInt8} {rest : List UInt8}

lemma decodeUtf8From_one (h : continuations a = some 0) :
    decodeUtf8From offset (a :: rest) = (do
      let more ← decodeUtf8From (offset + 1) rest
      return Char.ofNat a.toNat :: more) := by
  rw [decodeUtf8From.eq_def]
  simp only [h]

lemma decodeUtf8From_two (h : continuations a = some 1) (hb : canFollow a b) :
    decodeUtf8From offset (a :: b :: rest) = (do
      let more ← decodeUtf8From (offset + 2) rest
      return Char.ofNat (a.toNat % 32 * 64 + payload b) :: more) := by
  rw [decodeUtf8From.eq_def]
  simp only [h, hb, if_true]

lemma decodeUtf8From_three (h : continuations a = some 2) (hb : canFollow a b)
    (hc : isContinuation c) :
    decodeUtf8From offset (a :: b :: c :: rest) = (do
      let more ← decodeUtf8From (offset + 3) rest
      return Char.ofNat (a.toNat % 16 * 4096 + payload b * 64 + payload c) :: more) := by
  rw [decodeUtf8From.eq_def]
  simp only [h, hb, hc, Bool.not_true, Bool.false_eq_true, if_false]

lemma decodeUtf8From_four (h : continuations a = some 3) (hb : canFollow a b)
    (hc : isContinuation c) (hd : isContinuation d) :
    decodeUtf8From offset (a :: b :: c :: d :: rest) = (do
      let more ← decodeUtf8From (offset + 4) rest
      return Char.ofNat
        (a.toNat % 8 * 262144 + payload b * 4096 + payload c * 64 + payload d) :: more) := by
  rw [decodeUtf8From.eq_def]
  simp only [h, hb, hc, hd, Bool.not_true, Bool.false_eq_true, if_false]

end Lengths

/-- Reading the bytes of a character gives the character and goes on behind them. -/
theorem decodeUtf8From_append (offset : Nat) (c : Char) (rest : List UInt8) :
    decodeUtf8From offset (String.utf8EncodeChar c ++ rest) = (do
      let more ← decodeUtf8From (offset + (String.utf8EncodeChar c).length) rest
      return c :: more) := by
  have hvalid : c.val.toNat < 55296 ∨ 57343 < c.val.toNat ∧ c.val.toNat < 1114112 := c.valid
  unfold String.utf8EncodeChar
  dsimp only
  split
  · have ha := toNat_ofNat (n := c.val.toNat) (by omega)
    have hcount : continuations (UInt8.ofNat c.val.toNat) = some 0 := by
      rw [continuations_eq, ha, if_pos (by omega)]
    refine (decodeUtf8From_one hcount).trans ?_
    rw [char_ofNat ha]
    rfl
  · split
    · have ha := toNat_ofNat (n := c.val.toNat / 64 % 32 + 192) (by omega)
      have hb := toNat_ofNat (n := c.val.toNat % 64 + 128) (by omega)
      have hcount : continuations (UInt8.ofNat (c.val.toNat / 64 % 32 + 192)) = some 1 := by
        rw [continuations_eq, ha, if_neg (by omega), if_pos (by omega)]
      refine (decodeUtf8From_two hcount ?_).trans ?_
      · apply canFollow_of_isContinuation <;> omega
      · rw [char_ofNat (c := c) (by simp only [payload, ha, hb]; omega)]
        rfl
    · split
      · have ha := toNat_ofNat (n := c.val.toNat / 4096 % 16 + 224) (by omega)
        have hb := toNat_ofNat (n := c.val.toNat / 64 % 64 + 128) (by omega)
        have hc := toNat_ofNat (n := c.val.toNat % 64 + 128) (by omega)
        have hcount : continuations (UInt8.ofNat (c.val.toNat / 4096 % 16 + 224)) = some 2 := by
          rw [continuations_eq, ha, if_neg (by omega), if_neg (by omega), if_pos (by omega)]
        refine (decodeUtf8From_three hcount ?_ ?_).trans ?_
        · apply canFollow_of_isContinuation <;> omega
        · exact isContinuation_iff.2 (by omega)
        · rw [char_ofNat (c := c) (by simp only [payload, ha, hb, hc]; omega)]
          rfl
      · have ha := toNat_ofNat (n := c.val.toNat / 262144 % 8 + 240) (by omega)
        have hb := toNat_ofNat (n := c.val.toNat / 4096 % 64 + 128) (by omega)
        have hc := toNat_ofNat (n := c.val.toNat / 64 % 64 + 128) (by omega)
        have hd := toNat_ofNat (n := c.val.toNat % 64 + 128) (by omega)
        have hcount : continuations (UInt8.ofNat (c.val.toNat / 262144 % 8 + 240)) = some 3 := by
          rw [continuations_eq, ha, if_neg (by omega), if_neg (by omega), if_neg (by omega),
            if_pos (by omega)]
        refine (decodeUtf8From_four hcount ?_ ?_ ?_).trans ?_
        · apply canFollow_of_isContinuation <;> omega
        · exact isContinuation_iff.2 (by omega)
        · exact isContinuation_iff.2 (by omega)
        · rw [char_ofNat (c := c) (by simp only [payload, ha, hb, hc, hd]; omega)]
          rfl

/-! ## Texts -/

lemma encodeUtf8_eq (s : String) : encodeUtf8 s = s.toByteArray.data.toList := by
  rw [← String.utf8Encode_toList, List.utf8Encode, List.data_toByteArray]
  rfl

lemma decodeUtf8From_flatMap (offset : Nat) (cs : List Char) :
    decodeUtf8From offset (cs.flatMap String.utf8EncodeChar) = .ok cs := by
  induction cs generalizing offset with
  | nil => rfl
  | cons c cs ih =>
    rw [List.flatMap_cons, decodeUtf8From_append, ih]
    rfl

/-- Reading the bytes of a text gives the text. -/
theorem decodeUtf8_encodeUtf8 (s : String) : decodeUtf8 (encodeUtf8 s) = .ok s := by
  rw [decodeUtf8, encodeUtf8, decodeUtf8From_flatMap]
  exact congrArg Except.ok String.ofList_toList

end Dialogue.Text
