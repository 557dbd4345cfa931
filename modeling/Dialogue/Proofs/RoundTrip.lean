import Dialogue.Proofs.Dictionaries
import Dialogue.Proofs.StoredForm
import Dialogue.Storage.Artifact
/-!
Reading what was written.

A reader reads a value from bytes (`Reads`) if it gives the value back when all the bytes are there,
whatever follows them, and if it runs out of bytes when the end of them is missing.  Both are said
together, since one reader after the other needs both: the input may end in the part of the second
one, and then the first one has to succeed.

Lists of parameters are nested, and the reader of parameters only goes down to a given depth.  If
the depth is used up it also reports a missing byte, so a short depth can be confused with a short
input but with nothing else.  It is used up only if the value has more bytes than that.

The readers of numbers, texts and lists are put together along the stored form of a script.  The
main results are that a written script is read back, whatever bytes are behind it
(`ofBytes_writeScript_append`), and that it is refused if its end is missing
(`ofBytes_truncated`).
-/

namespace Dialogue.Storage

/-! ## Readers -/

section Readers

variable {α β : Type}

/-- Reading the input fails, since bytes are missing. -/
def RunsOut (r : Reader α) (input : List UInt8) : Prop :=
  ∃ missing, 0 < missing ∧ r input = .error (.unexpectedEnd missing)

/-- The reader gets the value from these bytes and leaves what follows them; without the last of
them it runs out of bytes.  If there are more than `depth` bytes, then it may always run out. -/
structure Reads (depth : Nat) (r : Reader α) (bytes : List UInt8) (a : α) : Prop where
  whole : ∀ rest, r (bytes ++ rest) = .ok (a, rest) ∨
    depth < bytes.length ∧ RunsOut r (bytes ++ rest)
  cut : ∀ front back, front ++ back = bytes → back ≠ [] → RunsOut r front

variable {depth inner : Nat} {r : Reader α} {f : α → Reader β} {input rest xs ys : List UInt8}
  {a : α} {b : β}

lemma bind_of_ok (h : r input = .ok (a, rest)) : (r >>= f) input = f a rest := by
  change (r input >>= fun x => f x.1 x.2) = f a rest
  rw [h]
  rfl

lemma RunsOut.bind (h : RunsOut r input) : RunsOut (r >>= f) input := by
  obtain ⟨missing, hpos, h⟩ := h
  refine ⟨missing, hpos, ?_⟩
  change (r input >>= fun x => f x.1 x.2) = _
  rw [h]
  rfl

lemma RunsOut.of_ok (h : r input = .ok (a, rest)) (hf : RunsOut (f a) rest) :
    RunsOut (r >>= f) input := by
  rwa [RunsOut, bind_of_ok h]

/-- One reader after the other.  The depth of the second one may be less than that of both by the
bytes of the first one. -/
lemma Reads.bind_of_le (hr : Reads depth r xs a) (hf : Reads inner (f a) ys b)
    (hle : depth ≤ xs.length + inner) : Reads depth (r >>= f) (xs ++ ys) b where
  whole rest := by
    rw [List.append_assoc, List.length_append]
    rcases hr.whole (ys ++ rest) with hok | ⟨hlt, hout⟩
    · rcases hf.whole rest with hok' | ⟨hlt, hout⟩
      · exact Or.inl ((bind_of_ok hok).trans hok')
      · exact Or.inr ⟨by omega, .of_ok hok hout⟩
    · exact Or.inr ⟨by omega, hout.bind⟩
  cut front back heq hback := by
    -- the second reader sees what is left of the input after the first one
    have hsecond : ∀ middle, middle ++ back = ys → RunsOut (r >>= f) (xs ++ middle) := by
      intro middle hys
      rcases hr.whole middle with hok | ⟨-, hout⟩
      · exact .of_ok hok (hf.cut middle back hys hback)
      · exact hout.bind
    rcases List.append_eq_append_iff.1 heq with ⟨middle, hxs, hys⟩ | ⟨middle, hfront, hys⟩
    · by_cases hmiddle : middle = []
      · subst hmiddle
        simpa [hxs] using hsecond [] (by simpa using hys)
      · exact (hr.cut front middle hxs.symm hmiddle).bind
    · rw [hfront]
      exact hsecond middle hys.symm

lemma Reads.bind (hr : Reads depth r xs a) (hf : Reads depth (f a) ys b) :
    Reads depth (r >>= f) (xs ++ ys) b :=
  hr.bind_of_le hf (Nat.le_add_left _ _)

lemma Reads.pure (a : α) : Reads depth (pure a : Reader α) [] a where
  whole _ := Or.inl rfl
  cut _ _ heq hback := absurd (List.append_eq_nil_iff.1 heq).2 hback

lemma Reads.bind_pure (hr : Reads depth r xs a) (hf : f a = Pure.pure b) :
    Reads depth (r >>= f) xs b := by
  have hpure : Reads depth (f a) [] b := hf ▸ .pure b
  simpa using hr.bind hpure

lemma Reads.map {g : α → β} (hr : Reads depth r xs a) (hg : g a = b) :
    Reads depth (g <$> r) xs b := by
  rw [map_eq_pure_bind]
  exact hr.bind_pure (by rw [hg])

end Readers

/-! ## Bytes and numbers -/

section Numbers

variable {depth width n : Nat} {bytes : List UInt8}

lemma reads_byte (b : UInt8) : Reads depth readByte [b] b where
  whole _ := Or.inl rfl
  cut front back heq hback := by
    rcases List.append_eq_singleton_iff.1 heq with ⟨rfl, -⟩ | ⟨-, hnil⟩
    · exact ⟨1, Nat.one_pos, rfl⟩
    · exact absurd hnil hback

lemma reads_take (bytes : List UInt8) : Reads depth (take bytes.length) bytes bytes where
  whole rest := Or.inl (by simp [take])
  cut front back heq hback := by
    have hlt : front.length < bytes.length := by
      rw [← heq, List.length_append]
      exact Nat.lt_add_of_pos_right (List.length_pos_iff.2 hback)
    refine ⟨bytes.length - front.length, by omega, ?_⟩
    simp only [take, List.take_of_length_le hlt.le, if_pos hlt]

lemma ofLittleEndian_eq (bytes : List UInt8) : ofLittleEndian bytes = valueOf bytes := by
  induction bytes with
  | nil => rfl
  | cons b bytes ih => rw [ofLittleEndian, ih, valueOf, valueOf, List.map_cons, Nat.ofDigits_cons]

/-- A number behind a mark. -/
lemma reads_marked {mark : UInt8} (hmark : 251 ≤ mark ∧ mark ≤ 253)
    (hcount : (if mark == 251 then 2 else if mark == 252 then 4 else 8) = bytes.length)
    (hwidth : bytes.length ≤ width) :
    Reads depth (readNat width) (mark :: bytes) (valueOf bytes) := by
  have hlow : ¬ mark < 251 := UInt8.not_lt.2 hmark.1
  have hhigh : ¬ (253 < mark || width < bytes.length) := by
    simpa using And.intro (UInt8.not_lt.2 hmark.2) hwidth
  refine (reads_byte mark).bind ?_
  simp only [if_neg hlow, hcount, if_neg hhigh]
  exact (reads_take bytes).bind_pure (by rw [ofLittleEndian_eq])

lemma StoredNat.reads (h : StoredNat n bytes) (hwidth : bytes.length ≤ width + 1) :
    Reads depth (readNat width) bytes n := by
  cases h with
  | @byte b hn h =>
    have hb : b < 251 := UInt8.lt_iff_toNat_lt.2 (by simpa [hn] using h)
    exact (reads_byte b).bind_pure (by rw [if_pos hb, hn])
  | two hcount hn | four hcount hn | eight hcount hn =>
    subst hn
    exact reads_marked (by decide) (by rw [hcount]; rfl) (by simpa using hwidth)

lemma reads_length (h : StoredNat n bytes) : Reads depth readLength bytes n := by
  refine h.reads ?_
  cases h <;> simp [*]

lemma reads_word {w : UInt32} (h : StoredNat w.toNat bytes) : Reads depth readWord bytes w := by
  have hw := w.toNat_lt
  refine (h.reads ?_).map UInt32.ofNat_toNat
  cases h with
  | eight _ _ h => omega
  | _ => simp [*]

lemma unfoldSign_even (n : Nat) : unfoldSign (2 * n) = n := by
  rw [unfoldSign, if_pos (Nat.mul_mod_right 2 n), Nat.mul_div_cancel_left n Nat.two_pos]

lemma unfoldSign_odd (n : Nat) : unfoldSign (2 * n + 1) = -n - 1 := by
  rw [unfoldSign, if_neg (by omega), show (2 * n + 1) / 2 = n by omega]

lemma reads_int {z : Int64} (h : StoredInt z bytes) : Reads depth readInt bytes z := by
  cases h with
  | even hz h =>
    exact (reads_length h).map (by rw [unfoldSign_even, ← hz, Int64.ofInt_toInt])
  | odd hz h =>
    exact (reads_length h).map (by rw [unfoldSign_odd, ← hz, Int64.ofInt_toInt])

lemma reads_bool (b : Bool) : Reads depth readBool [b.toUInt8] b := by
  cases b with
  | false => exact (reads_byte 0).bind_pure rfl
  | true => exact (reads_byte 1).bind_pure rfl

end Numbers

/-! ## Texts and lists -/

section Lists

variable {depth : Nat} {bytes : List UInt8}

lemma reads_text {s : String} (h : StoredText s bytes) : Reads depth readText bytes s := by
  obtain ⟨hsize⟩ := h
  refine (reads_length hsize).bind ((reads_take _).bind_pure ?_)
  rw [← Text.encodeUtf8_eq, Text.decodeUtf8_encodeUtf8]

lemma reads_entry {kv : String × String} (h : StoredEntry kv bytes) :
    Reads depth readEntry bytes kv := by
  obtain ⟨hkey, hvalue⟩ := h
  exact (reads_text hkey).bind ((reads_text hvalue).bind_pure rfl)

variable {α : Type} {item : Reader α} {items : List α}

lemma reads_items {pieces : List (List UInt8)}
    (h : List.Forall₂ (fun a piece => Reads depth item piece a) items pieces) :
    Reads depth (readItems item items.length) pieces.flatten items := by
  induction h with
  | nil => exact .pure []
  | cons hitem _ ih => exact hitem.bind (ih.bind_pure rfl)

lemma reads_list {StoredItem : α → List UInt8 → Prop} (h : StoredList StoredItem items bytes)
    (hitem : ∀ {a piece}, StoredItem a piece → Reads depth item piece a) :
    Reads depth (readList item) bytes items := by
  obtain ⟨hlength, hitems⟩ := h
  exact (reads_length hlength).bind (reads_items (hitems.imp fun _ _ h => hitem h))

end Lists

/-! ## Scripts -/

section Scripts

variable {depth : Nat} {bytes : List UInt8}

/-- A value behind the number of its kind has one byte more, so the depth is one more as well. -/
lemma Reads.tagged {α : Type} {f : UInt32 → Reader α} {a : α} (tag : UInt8)
    (htag : tag.toNat < 251) (h : Reads depth (f tag.toUInt32) bytes a) :
    Reads (depth + 1) (readWord >>= f) (tag :: bytes) a := by
  have hstored : StoredNat tag.toUInt32.toNat [tag] := .byte rfl htag
  exact (reads_word hstored).bind_of_le h (by simp [Nat.add_comm])

/-- By induction on the depth, which is how the reader goes down into lists. -/
theorem reads_parameter {p : Parameter} (h : StoredParameter p bytes) :
    Reads depth (readParameter depth) bytes p := by
  induction depth generalizing p bytes with
  | zero =>
    -- no depth is left, so nothing is read; but every parameter has a byte at least
    have hout : ∀ input, RunsOut (readParameter 0) input := fun _ => ⟨1, Nat.one_pos, rfl⟩
    have hpos : 0 < bytes.length := by cases h <;> exact Nat.succ_pos _
    exact ⟨fun rest => Or.inr ⟨hpos, hout _⟩, fun front _ _ _ => hout front⟩
  | succ depth ih =>
    cases h with
    | int h => exact .tagged 0 (by decide) ((reads_int h).bind_pure rfl)
    | str h => exact .tagged 1 (by decide) ((reads_text h).bind_pure rfl)
    | bool => exact .tagged 2 (by decide) ((reads_bool _).bind_pure rfl)
    | list hlength hitems =>
      have hlist := reads_list (.mk hlength hitems) ih
      exact .tagged 3 (by decide) (hlist.bind_pure rfl)
    | object h =>
      exact .tagged 4 (by decide) ((reads_list h reads_entry).bind_pure (by rw [ofList_entries]))

lemma reads_opcode {o : Opcode} (h : StoredNat o.ctorIdx bytes) :
    Reads depth readOpcode bytes o := by
  have hword : (UInt32.ofNat o.ctorIdx).toNat = o.ctorIdx := by cases o <;> rfl
  have hplace : Opcode.ofPlace? o.ctorIdx = some o := by cases o <;> rfl
  refine (reads_word (w := UInt32.ofNat o.ctorIdx) (by rwa [hword])).bind_pure ?_
  rw [hword, hplace]

theorem reads_command {c : Command} (h : StoredCommand c bytes) :
    Reads depth (readCommand depth) bytes c := by
  obtain ⟨hopcode, hindent, hparameters⟩ := h
  exact (reads_opcode hopcode).bind
    ((reads_word hindent).bind ((reads_list hparameters reads_parameter).bind_pure rfl))

theorem reads_script {s : Script} (h : StoredScript s bytes) :
    Reads depth (readScript depth) bytes s := by
  obtain ⟨hname, hcommands⟩ := h
  exact (reads_text hname).bind ((reads_list hcommands reads_command).bind_pure rfl)

/-- The depth is more than the whole input, so it is enough. -/
lemma ofBytes_append {s : Script} (h : StoredScript s bytes) (rest : List UInt8) :
    ofBytes (bytes ++ rest) = .ok s := by
  have hread : readScript ((bytes ++ rest).length + 1) (bytes ++ rest) = .ok (s, rest) := by
    rcases (reads_script h).whole rest with hok | ⟨hlt, -⟩
    · exact hok
    · rw [List.length_append] at hlt
      omega
  rw [ofBytes, decodeScript, hread]
  rfl

lemma ofBytes_of_cut {s : Script} {front back : List UInt8} (h : StoredScript s bytes)
    (heq : front ++ back = bytes) (hback : back ≠ []) :
    ∃ missing, 0 < missing ∧ ofBytes front = .error (.decode (.unexpectedEnd missing)) := by
  obtain ⟨missing, hpos, hread⟩ := (reads_script h).cut front back heq hback
  refine ⟨missing, hpos, ?_⟩
  rw [ofBytes, decodeScript, hread]
  rfl

end Scripts

/-- A script with numbers of several widths, characters of several bytes, and lists in lists. -/
def nestedScript : Script :=
  ⟨"é", [⟨.choiceBranch, 70000, [.int Int64.minValue, .list [.str "語", .list [.bool true]],
    .object (.ofList [("k", ""), ("", "v")])]⟩]⟩

/-- A script is written in its stored form, and it is read back from its bytes, whatever bytes are
behind them.  The bytes of a script have to fit into a memory with addresses of eight bytes. -/
theorem ofBytes_writeScript_append (s : Script) (h : (writeScript s).length < 2 ^ 64) :
    StoredScript s (writeScript s) ∧ ∀ junk, ofBytes (writeScript s ++ junk) = .ok s := by
  have hstored := storedScript_writeScript h
  exact ⟨hstored, ofBytes_append hstored⟩

theorem ofBytes_nestedScript_append :
    (writeScript nestedScript).length < 2 ^ 64 ∧
      StoredScript nestedScript (writeScript nestedScript) ∧
      ofBytes (writeScript nestedScript ++ [3, 255]) = .ok nestedScript := by
  have h : (writeScript nestedScript).length < 2 ^ 64 := by decide
  exact ⟨h, (ofBytes_writeScript_append nestedScript h).1,
    (ofBytes_writeScript_append nestedScript h).2 [3, 255]⟩

/-- Without the last of its bytes, wherever they are cut off, a script is refused for the bytes that
are missing.  Hence the bytes of a script begin with the bytes of no other script. -/
theorem ofBytes_truncated (s : Script) (h : (writeScript s).length < 2 ^ 64) :
    (∀ front, front <+: writeScript s → front ≠ writeScript s →
      ∃ missing, 0 < missing ∧ ofBytes front = .error (.decode (.unexpectedEnd missing))) ∧
    ∀ t, writeScript t <+: writeScript s → t = s := by
  have hstored := storedScript_writeScript h
  constructor
  · rintro front ⟨back, heq⟩ hne
    refine ofBytes_of_cut hstored heq ?_
    rintro rfl
    exact hne (by simpa using heq)
  · rintro t ⟨junk, heq⟩
    have hfit : (writeScript t).length < 2 ^ 64 := by
      rw [← heq, List.length_append] at h
      omega
    have hread : ofBytes (writeScript s) = .ok t :=
      heq ▸ ofBytes_append (storedScript_writeScript hfit) junk
    have hread' : ofBytes (writeScript s) = .ok s := by
      simpa using ofBytes_append hstored []
    exact Except.ok.inj (hread.symm.trans hread')

/-- The cut is inside of a character of two bytes. -/
theorem ofBytes_nestedScript_truncated :
    (writeScript nestedScript).length < 2 ^ 64 ∧ [2, 195] <+: writeScript nestedScript ∧
      ∃ missing, 0 < missing ∧ ofBytes [2, 195] = .error (.decode (.unexpectedEnd missing)) := by
  have h : (writeScript nestedScript).length < 2 ^ 64 := by decide
  have hfront : [2, 195] <+: writeScript nestedScript := by decide
  exact ⟨h, hfront, (ofBytes_truncated nestedScript h).1 [2, 195] hfront (by decide)⟩

end Dialogue.Storage
