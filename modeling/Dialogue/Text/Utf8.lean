/-!
Texts as bytes.

Reading stops at the first byte that does not fit.  The fault tells how many bytes before it were in
order, and how many bytes belong to the broken character; the latter is unknown if the input ends
inside of a character.
-/

namespace Dialogue.Text

/-- The bytes of a text in UTF-8. -/
def encodeUtf8 (s : String) : List UInt8 :=
  s.toList.flatMap String.utf8EncodeChar

/-- Where bytes are not UTF-8. -/
structure Utf8Fault where
  /-- How many bytes before the fault are in order. -/
  validUpTo : Nat
  /-- How many bytes the broken character has; none if the input ends inside of it. -/
  errorLength : Option Nat
deriving DecidableEq

/-- Whether a byte continues a character. -/
def isContinuation (b : UInt8) : Bool :=
  0x80 ≤ b && b ≤ 0xBF

/-- How many bytes follow a first byte; none for a byte that begins no character. -/
def continuations (b : UInt8) : Option Nat :=
  if b < 0x80 then some 0
  else if 0xC2 ≤ b && b ≤ 0xDF then some 1
  else if 0xE0 ≤ b && b ≤ 0xEF then some 2
  else if 0xF0 ≤ b && b ≤ 0xF4 then some 3
  else none

/-- Whether `second` can follow `first`: the byte after some first bytes has a smaller range, which
leaves out surrogates, numbers that are too large and numbers that have a shorter form. -/
def canFollow (first second : UInt8) : Bool :=
  if first == 0xE0 then 0xA0 ≤ second && second ≤ 0xBF
  else if first == 0xED then 0x80 ≤ second && second ≤ 0x9F
  else if first == 0xF0 then 0x90 ≤ second && second ≤ 0xBF
  else if first == 0xF4 then 0x80 ≤ second && second ≤ 0x8F
  else isContinuation second

/-- The six bits that a continuation byte carries. -/
def payload (b : UInt8) : Nat :=
  b.toNat % 64

/-- The characters of bytes in UTF-8, of which `offset` bytes have been read before. -/
def decodeUtf8From (offset : Nat) : List UInt8 → Except Utf8Fault (List Char)
  | [] => .ok []
  | a :: rest =>
    match continuations a with
    | none => .error ⟨offset, some 1⟩
    | some 0 => do
      let more ← decodeUtf8From (offset + 1) rest
      return Char.ofNat a.toNat :: more
    | some 1 =>
      match rest with
      | [] => .error ⟨offset, none⟩
      | b :: rest =>
        if canFollow a b then do
          let more ← decodeUtf8From (offset + 2) rest
          return Char.ofNat (a.toNat % 32 * 64 + payload b) :: more
        else .error ⟨offset, some 1⟩
    | some 2 =>
      match rest with
      | [] => .error ⟨offset, none⟩
      | [b] => .error ⟨offset, if canFollow a b then none else some 1⟩
      | b :: c :: rest =>
        if !canFollow a b then .error ⟨offset, some 1⟩
        else if !isContinuation c then .error ⟨offset, some 2⟩
        else do
          let more ← decodeUtf8From (offset + 3) rest
          return Char.ofNat (a.toNat % 16 * 4096 + payload b * 64 + payload c) :: more
    | some _ =>
      match rest with
      | [] => .error ⟨offset, none⟩
      | [b] => .error ⟨offset, if canFollow a b then none else some 1⟩
      | [b, c] =>
        .error ⟨offset,
          if !canFollow a b then some 1 else if isContinuation c then none else some 2⟩
      | b :: c :: d :: rest =>
        if !canFollow a b then .error ⟨offset, some 1⟩
        else if !isContinuation c then .error ⟨offset, some 2⟩
        else if !isContinuation d then .error ⟨offset, some 3⟩
        else do
          let more ← decodeUtf8From (offset + 4) rest
          let n := a.toNat % 8 * 262144 + payload b * 4096 + payload c * 64 + payload d
          return Char.ofNat n :: more

/-- The text of bytes in UTF-8. -/
def decodeUtf8 (bytes : List UInt8) : Except Utf8Fault String :=
  (decodeUtf8From 0 bytes).map String.ofList

end Dialogue.Text
