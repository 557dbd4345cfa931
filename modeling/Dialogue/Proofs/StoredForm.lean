import Mathlib.Data.List.Forall2
import Mathlib.Data.Nat.Digits.Defs
import Dialogue.Proofs.Utf8
import Dialogue.Storage.StoredScript
/-!
The stored form of a script.

The form is given by relations between values and bytes, which say nothing about writing or reading.
Numbers come first: a number is stored in the shortest of four forms, so it has only one.  Lists
begin with their length and texts with their size in bytes, values of several kinds with the number
of their kind.  A length has at most eight bytes, hence a list that is too long has no stored form;
but then its bytes have no place in a memory with addresses of eight bytes either.

The main result is that writing a script gives its stored form (`storedScript_writeScript`).
-/

namespace Dialogue.Storage

/-! ## The form -/

/-- The number that bytes stand for, the lowest byte first. -/
def valueOf (bytes : List UInt8) : Nat :=
  Nat.ofDigits 256 (bytes.map UInt8.toNat)

/-- How a number without sign is stored. -/
inductive StoredNat : Nat → List UInt8 → Prop
  | byte {n : Nat} {b : UInt8} (hn : b.toNat = n) (h : n < 251) : StoredNat n [b]
  | two {n : Nat} {bytes : List UInt8} (hwidth : bytes.length = 2) (hn : valueOf bytes = n)
      (h : 251 ≤ n) : StoredNat n (251 :: bytes)
  | four {n : Nat} {bytes : List UInt8} (hwidth : bytes.length = 4) (hn : valueOf bytes = n)
      (h : 2 ^ 16 ≤ n) : StoredNat n (252 :: bytes)
  | eight {n : Nat} {bytes : List UInt8} (hwidth : bytes.length = 8) (hn : valueOf bytes = n)
      (h : 2 ^ 32 ≤ n) : StoredNat n (253 :: bytes)

/-- How a number with a sign is stored: the even numbers are for those from zero upwards, and the
odd numbers for those below zero. -/
inductive StoredInt : Int64 → List UInt8 → Prop
  | even {z : Int64} {n : Nat} {bytes : List UInt8} (hz : z.toInt = n)
      (h : StoredNat (2 * n) bytes) : StoredInt z bytes
  | odd {z : Int64} {n : Nat} {bytes : List UInt8} (hz : z.toInt = -n - 1)
      (h : StoredNat (2 * n + 1) bytes) : StoredInt z bytes

/-- How a text is stored: the number of its bytes, then the bytes. -/
inductive StoredText : String → List UInt8 → Prop
  | mk {s : String} {size : List UInt8} (h : StoredNat s.utf8ByteSize size) :
      StoredText s (size ++ s.toByteArray.data.toList)

/-- How a list is stored: its length, then its items one after the other. -/
inductive StoredList {α : Type} (StoredItem : α → List UInt8 → Prop) : List α → List UInt8 → Prop
  | mk {items : List α} {length : List UInt8} {pieces : List (List UInt8)}
      (hlength : StoredNat items.length length) (hitems : List.Forall₂ StoredItem items pieces) :
      StoredList StoredItem items (length ++ pieces.flatten)

/-- How an entry of an object is stored. -/
inductive StoredEntry : String × String → List UInt8 → Prop
  | mk {key value : String} {front back : List UInt8} (hkey : StoredText key front)
      (hvalue : StoredText value back) : StoredEntry (key, value) (front ++ back)

/-- How a parameter is stored: the number of its kind, then its value.  The entries of an object are
in the order of their keys. -/
inductive StoredParameter : Parameter → List UInt8 → Prop
  | int {z : Int64} {bytes : List UInt8} (h : StoredInt z bytes) :
      StoredParameter (.int z) (0 :: bytes)
  | str {s : String} {bytes : List UInt8} (h : StoredText s bytes) :
      StoredParameter (.str s) (1 :: bytes)
  | bool {b : Bool} : StoredParameter (.bool b) [2, b.toUInt8]
  | list {items : List Parameter} {length : List UInt8} {pieces : List (List UInt8)}
      (hlength : StoredNat items.length length)
      (hitems : List.Forall₂ StoredParameter items pieces) :
      StoredParameter (.list items) (3 :: (length ++ pieces.flatten))
  | object {d : Dict String} {bytes : List UInt8} (h : StoredList StoredEntry d.entries bytes) :
      StoredParameter (.object d) (4 :: bytes)

/-- How a command is stored.  An opcode is the number of its constructor. -/
inductive StoredCommand : Command → List UInt8 → Prop
  | mk {c : Command} {opcode indent parameters : List UInt8}
      (hopcode : StoredNat c.opcode.ctorIdx opcode) (hindent : StoredNat c.indent.toNat indent)
      (hparameters : StoredList StoredParameter c.parameters parameters) :
      StoredCommand c (opcode ++ (indent ++ parameters))

/-- How a script is stored. -/
inductive StoredScript : Script → List UInt8 → Prop
  | mk {s : Script} {name commands : List UInt8} (hname : StoredText s.name name)
      (hcommands : StoredList StoredCommand s.commands commands) :
      StoredScript s (name ++ commands)

/-! ## Writing numbers -/

@[simp] lemma length_littleEndian (width n : Nat) : (littleEndian width n).length = width := by
  induction width generalizing n with
  | zero => rfl
  | succ width ih => rw [littleEndian, List.length_cons, ih]

lemma valueOf_littleEndian {width n : Nat} (h : n < 256 ^ width) :
    valueOf (littleEndian width n) = n := by
  induction width generalizing n with
  | zero =>
    have hn : n = 0 := by simpa using h
    subst hn
    rfl
  | succ width ih =>
    have hrest : valueOf (littleEndian width (n / 256)) = n / 256 :=
      ih (Nat.div_lt_of_lt_mul (by rwa [Nat.pow_succ'] at h))
    rw [valueOf] at hrest ⊢
    rw [littleEndian, List.map_cons, Nat.ofDigits_cons, hrest, UInt8.toNat_ofNat']
    exact Nat.mod_add_div n 256

theorem storedNat_writeNat {n : Nat} (h : n < 2 ^ 64) : StoredNat n (writeNat n) := by
  unfold writeNat
  split
  · next hn => exact .byte (Text.toNat_ofNat (by omega)) hn
  · next hn =>
    split
    · next hn' => exact .two (length_littleEndian 2 n) (valueOf_littleEndian hn') (by omega)
    · next hn' =>
      split
      · next hn'' =>
        exact .four (length_littleEndian 4 n) (valueOf_littleEndian hn'') (Nat.le_of_not_lt hn')
      · next hn'' =>
        exact .eight (length_littleEndian 8 n) (valueOf_littleEndian h) (Nat.le_of_not_lt hn'')

theorem storedInt_writeInt (z : Int64) : StoredInt z (writeInt z) := by
  have hlow : -2 ^ 63 ≤ z.toInt := z.le_toInt
  have hhigh : z.toInt < 2 ^ 63 := z.toInt_lt
  unfold writeInt foldSign
  split
  · next hz => exact .even (n := z.toInt.toNat) (by omega) (storedNat_writeNat (by omega))
  · next hz =>
    have hodd : 2 * (-z.toInt).toNat - 1 = 2 * (-z.toInt - 1).toNat + 1 := by omega
    rw [hodd]
    exact .odd (n := (-z.toInt - 1).toNat) (by omega) (storedNat_writeNat (by omega))

lemma writeNat_ne_nil (n : Nat) : writeNat n ≠ [] := by
  unfold writeNat
  split_ifs <;> exact List.cons_ne_nil _ _

/-! ## Writing texts and lists -/

theorem storedText_writeText {s : String} (h : (writeText s).length < 2 ^ 64) :
    StoredText s (writeText s) := by
  have hsize : s.toByteArray.data.toList.length = s.utf8ByteSize := rfl
  unfold writeText at h ⊢
  simp only [Text.encodeUtf8_eq, hsize] at h ⊢
  rw [List.length_append, hsize] at h
  exact .mk (storedNat_writeNat (by omega))

section Lists

variable {α : Type} {items : List α} {write : α → List UInt8}

lemma length_le_length_flatMap (h : ∀ a ∈ items, write a ≠ []) :
    items.length ≤ (items.flatMap write).length := by
  induction items with
  | nil => exact Nat.zero_le _
  | cons a items ih =>
    have ha : 0 < (write a).length := List.length_pos_iff.2 (h a List.mem_cons_self)
    have hitems := ih fun b hb => h b (List.mem_cons_of_mem _ hb)
    rw [List.flatMap_cons, List.length_append, List.length_cons]
    omega

/-- If every item is written in its stored form, then so is the list.  The bytes of the whole list
bound its length, since no item is written as nothing. -/
lemma stored_items (StoredItem : α → List UInt8 → Prop) (write : α → List UInt8)
    (hfit : (items.flatMap write).length < 2 ^ 64) (hne : ∀ a, write a ≠ [])
    (hitem : ∀ a ∈ items, (write a).length < 2 ^ 64 → StoredItem a (write a)) :
    StoredNat items.length (writeNat items.length) ∧
      List.Forall₂ StoredItem items (items.map write) := by
  have hlength : items.length ≤ (items.flatMap write).length :=
    length_le_length_flatMap fun a _ => hne a
  refine ⟨storedNat_writeNat (lt_of_le_of_lt hlength hfit), ?_⟩
  rw [List.forall₂_map_right_iff, List.forall₂_same]
  intro a ha
  have hle : (write a).length ≤ (items.flatMap write).length :=
    (List.sublist_flatten_of_mem (List.mem_map_of_mem ha)).length_le
  exact hitem a ha (lt_of_le_of_lt hle hfit)

end Lists

/-! ## Writing scripts -/

lemma writeParameter_ne_nil (p : Parameter) : writeParameter p ≠ [] := by
  cases p <;> simp [writeParameter, writeNat_ne_nil]

lemma writeParameters_eq (ps : List Parameter) :
    writeParameters ps = ps.flatMap writeParameter := by
  induction ps with
  | nil => rfl
  | cons p ps ih => rw [writeParameters, ih, List.flatMap_cons]

lemma storedEntry_write (kv : String × String)
    (h : (writeText kv.1 ++ writeText kv.2).length < 2 ^ 64) :
    StoredEntry kv (writeText kv.1 ++ writeText kv.2) := by
  rw [List.length_append] at h
  exact .mk (storedText_writeText (by omega)) (storedText_writeText (by omega))

theorem storedParameter_writeParameter :
    (p : Parameter) → (writeParameter p).length < 2 ^ 64 → StoredParameter p (writeParameter p)
  | .int z, _ => by
    rw [writeParameter]
    exact .int (storedInt_writeInt z)
  | .str s, h => by
    rw [writeParameter, List.length_append] at h
    rw [writeParameter]
    exact .str (storedText_writeText (by omega))
  | .bool false, _ => by
    rw [writeParameter]
    exact @StoredParameter.bool false
  | .bool true, _ => by
    rw [writeParameter]
    exact @StoredParameter.bool true
  | .list items, h => by
    rw [writeParameter, writeParameters_eq, List.length_append] at h
    obtain ⟨hlength, hitems⟩ := stored_items StoredParameter writeParameter (by omega)
      writeParameter_ne_nil fun p (_ : p ∈ items) => storedParameter_writeParameter p
    rw [writeParameter, writeParameters_eq, List.append_assoc]
    exact .list hlength hitems
  | .object d, h => by
    rw [writeParameter, List.length_append] at h
    obtain ⟨hlength, hentries⟩ := stored_items StoredEntry
      (fun kv => writeText kv.1 ++ writeText kv.2) (by omega) (by simp [writeText, writeNat_ne_nil])
      fun kv (_ : kv ∈ d.entries) => storedEntry_write kv
    rw [writeParameter, List.append_assoc]
    exact .object (.mk hlength hentries)

lemma place_eq_ctorIdx (o : Opcode) : o.place = o.ctorIdx := by
  cases o <;> rfl

lemma ctorIdx_lt (o : Opcode) : o.ctorIdx < 18 := by
  cases o <;> decide

lemma writeCommand_ne_nil (c : Command) : writeCommand c ≠ [] := by
  simp [writeCommand, writeNat_ne_nil]

theorem storedCommand_writeCommand {c : Command} (h : (writeCommand c).length < 2 ^ 64) :
    StoredCommand c (writeCommand c) := by
  have hopcode := ctorIdx_lt c.opcode
  have hindent := c.indent.toNat_lt
  unfold writeCommand at h ⊢
  rw [writeParameters_eq, place_eq_ctorIdx] at h ⊢
  rw [List.length_append] at h
  obtain ⟨hlength, hparameters⟩ := stored_items StoredParameter writeParameter (by omega)
    writeParameter_ne_nil fun p (_ : p ∈ c.parameters) => storedParameter_writeParameter p
  rw [List.append_assoc, List.append_assoc]
  exact .mk (storedNat_writeNat (by omega)) (storedNat_writeNat (by omega))
    (.mk hlength hparameters)

/-- Writing a script gives its stored form. -/
theorem storedScript_writeScript {s : Script} (h : (writeScript s).length < 2 ^ 64) :
    StoredScript s (writeScript s) := by
  unfold writeScript at h ⊢
  rw [List.length_append, List.length_append] at h
  obtain ⟨hlength, hcommands⟩ := stored_items StoredCommand writeCommand (by omega)
    writeCommand_ne_nil fun c (_ : c ∈ s.commands) => storedCommand_writeCommand
  rw [List.append_assoc]
  exact .mk (storedText_writeText (by omega)) (.mk hlength hcommands)

end Dialogue.Storage
