import Dialogue.Json.Reader
/-!
Records.

A record is read into a draft: a value of its type in which every field has its default.  Each
member of an object changes the draft; members that the record does not know are skipped.  A record
may also be written as the list of its fields, in order, from which fields with a default may be
left off at the end.
-/

namespace Dialogue.Json

/-! ## Scalars of a given type -/

/-- A text. -/
def asText : Json → Except Fault String
  | .str s => .ok s
  | j => .error (.wrongType j.found .text)

/-- A truth value. -/
def asFlag : Json → Except Fault Bool
  | .bool b => .ok b
  | j => .error (.wrongType j.found .flag)

/-- A number without sign of 32 bits. -/
def asWord : Json → Except Fault UInt32
  | .num (.int n) =>
    if 0 ≤ n && n < UInt32.size then .ok (UInt32.ofNat n.toNat)
    else .error (.outOfRange (.num (.int n)) .word)
  | j => .error (.wrongType j.found .word)

/-- A number with sign of 64 bits. -/
def asInt : Json → Except Fault Int64
  | .num (.int n) =>
    if Int64.minValue.toInt ≤ n && n ≤ Int64.maxValue.toInt then .ok (Int64.ofInt n)
    else .error (.outOfRange (.num (.int n)) .int)
  | j => .error (.wrongType j.found .int)

/-- A value that may be left out by writing `null`. -/
def asOptional {α : Type} (as : Json → Except Fault α) : Json → Except Fault (Option α)
  | .null => .ok none
  | j => some <$> as j

/-! ## Readers of a given type -/

/-- A scalar.  A container is judged by its bracket alone. -/
def scalar {α : Type} (as : Json → Except Fault α) : Reader α := do
  match ← head with
  | .scalar j => as j
  | .list => as (.arr [])
  | .object => as (.obj [])

/-- A list. -/
def listOf {α : Type} (item : (depth : Nat) → Reader α) (depth : Nat) : Reader (List α) := do
  match ← head with
  | .list => nested depth fun depth => items (item depth)
  | other => throw (.wrongType other.found .list)

/-- An object whose keys are free. -/
def dictOf {α : Type} (value : (depth : Nat) → Reader α) (depth : Nat) :
    Reader (List (String × α)) := do
  match ← head with
  | .object => nested depth fun depth => members (value depth)
  | other => throw (.wrongType other.found .dict)

/-- What may be left out by writing `null`. -/
def optional {α : Type} (reader : (depth : Nat) → Reader α) (depth : Nat) : Reader (Option α) := do
  match ← peek with
  | some 'n' => do advance; word "ull" none
  | _ => some <$> reader depth

/-! ## Records -/

/-- A field of the record `σ`. -/
structure RecordField (σ : Type) where
  /-- The name of the field. -/
  name : String
  /-- Other names under which it may be written. -/
  aliases : List String := []
  /-- Whether the field has no default. -/
  required : Bool := false
  /-- Reads the field and puts it into a draft. -/
  read : (depth : Nat) → Reader (σ → σ)

/-- Whether the field goes by that name. -/
def RecordField.isNamed {σ : Type} (f : RecordField σ) (key : String) : Bool :=
  key == f.name || f.aliases.contains key

/-- A field that holds a scalar. -/
def RecordField.ofScalar {σ α : Type} (name : String) (aliases : List String) (required : Bool)
    (as : Json → Except Fault α) (put : α → σ → σ) : RecordField σ where
  name := name
  aliases := aliases
  required := required
  read _ := put <$> scalar as

/-- Refuses a record in which a field without default is not among those that were `seen`. -/
def checkSeen {σ : Type} (seen : List String) : List (RecordField σ) → Except Fault Unit
  | [] => .ok ()
  | f :: fs =>
    if f.required && !seen.contains f.name then .error (.missingField f.name) else checkSeen seen fs

/-- What is known while the members of a record are read. -/
structure Progress (σ : Type) where
  /-- Whether no member was read. -/
  first : Bool
  /-- The names of the fields that were read. -/
  seen : List String
  /-- The record so far. -/
  draft : σ

/-- The members of a record whose opening brace was taken; `other` reads a member that is no
field. -/
def recordMembers {σ : Type} (fields : List (RecordField σ))
    (other : (key : String) → Reader (σ → σ)) (blank : σ) (depth : Nat) : Reader σ :=
  loop (fun (p : Progress σ) => do
    if ← hasMember p.first then
      let k ← key
      match fields.find? (·.isNamed k) with
      | some f =>
        if p.seen.contains f.name then throw (.duplicateField f.name)
        colon
        let change ← f.read depth
        return .inl ⟨false, f.name :: p.seen, change p.draft⟩
      | none =>
        colon
        let change ← other k
        return .inl ⟨false, p.seen, change p.draft⟩
    else
      checkSeen p.seen fields
      advance
      return .inr p.draft) ⟨true, [], blank⟩

/-- The fields of a record that is written as a list whose opening bracket was taken.  `position` is
the place of the first of `fields` in the record. -/
def recordItems {σ : Type} (name : String) (count : Nat) (depth : Nat) :
    (fields : List (RecordField σ)) → (position : Nat) → (draft : σ) → Reader σ
  | [], _, draft => do
    closeList
    return draft
  | f :: fs, position, draft => do
    if ← hasItem (position == 0) then
      let change ← f.read depth
      recordItems name count depth fs (position + 1) (change draft)
    else if f.required then throw (.tooShort position name count)
    else recordItems name count depth fs (position + 1) draft

/-- A record.  Members that are no fields are skipped. -/
def record {σ : Type} (name : String) (fields : List (RecordField σ)) (blank : σ) (depth : Nat) :
    Reader σ := do
  match ← head with
  | .object => nested depth (recordMembers fields (fun _ => do skip; return id) blank)
  | .list => nested depth fun depth => recordItems name fields.length depth fields 0 blank
  | .scalar j => throw (.wrongType j.found (.record name))

/-- A record that keeps the members which are no fields, and cannot be written as a list. -/
def openRecord {σ : Type} (name : String) (fields : List (RecordField σ))
    (keep : String → Json → σ → σ) (blank : σ) (depth : Nat) : Reader σ := do
  match ← head with
  | .object =>
    nested depth fun depth =>
      recordMembers fields (fun k => keep k <$> value depth) blank depth
  | other => throw (.wrongType other.found (.record name))

end Dialogue.Json
