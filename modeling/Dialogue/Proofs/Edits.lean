import Mathlib.Data.List.Pairwise
import Dialogue.Proofs.Records
/-!
Changes of a text that do not matter.

In a record the order of the members does not matter, nor under which of its names a field is
written, nor members that are no fields; where nothing is written for a field, `null` may be written
if the field can be left out.  In a value that is kept as it is, only the order of members does not
matter, and only if no key stands twice.  `Edit` is one such change at one place of a tree; which
changes are allowed where is said by the form of the tree (`Form`).

A reader respects a form if it makes the same of two trees that differ by an edit (`Respects`).
A record does so if its fields are those of the form, and each of them respects its own
(`Conforms.respects_record`).
-/

namespace Dialogue.Json

/-! ## Values that are kept -/

section Values

/-- No two members have the same key. -/
def DistinctKeys (ms : List (RawText × Tree)) : Prop :=
  ms.Pairwise fun m m' => ∀ k, m.1.text = .ok k → m'.1.text ≠ .ok k

/-- Somewhere in the tree, the members of an object with distinct keys stand in another order. -/
inductive Permuted : Tree → Tree → Prop
  | here {ms ms' : List (RawText × Tree)} (h : ms.Perm ms') (hkeys : DistinctKeys ms) :
      Permuted (.object ms) (.object ms')
  | item {t t' : Tree} (before after : List Tree) (h : Permuted t t') :
      Permuted (.list (before ++ t :: after)) (.list (before ++ t' :: after))
  | member {t t' : Tree} (key : RawText) (before after : List (RawText × Tree))
      (h : Permuted t t') :
      Permuted (.object (before ++ (key, t) :: after)) (.object (before ++ (key, t') :: after))

/-- The value can be kept within `depth` containers: its numbers are in range, and its texts have no
halves of pairs. -/
inductive Fits : (depth : Nat) → Tree → Prop
  | null {depth : Nat} : Fits depth .null
  | bool {depth : Nat} (b : Bool) : Fits depth (.bool b)
  | number {depth : Nat} {negative : Bool} {n : {n : Numeral // IsNumeral n}} {v : JsonNumber}
      (h : n.1.value negative = .ok v) : Fits depth (.number negative n)
  | text {depth : Nat} {raw : RawText} {s : String} (h : raw.text = .ok s) : Fits depth (.text raw)
  | list {depth : Nat} {ts : List Tree} (h : ∀ t ∈ ts, Fits depth t) : Fits (depth + 1) (.list ts)
  | object {depth : Nat} {ms : List (RawText × Tree)} (hkeys : ∀ m ∈ ms, ∃ k, m.1.text = .ok k)
      (h : ∀ m ∈ ms, Fits depth m.2) : Fits (depth + 1) (.object ms)

lemma DistinctKeys.perm {ms ms' : List (RawText × Tree)} (h : DistinctKeys ms)
    (hperm : ms.Perm ms') :
    DistinctKeys ms' :=
  hperm.pairwise h fun h k hk hk' => h k hk' hk

lemma entryOn_eq_ok_iff {value : Tree → Except Fault Json} {m : RawText × Tree}
    {e : String × Json} :
    entryOn value m = .ok e ↔ m.1.text = .ok e.1 ∧ value m.2 = .ok e.2 := by
  rw [entryOn, bind_eq_ok_iff]
  constructor
  · rintro ⟨k, hk, h⟩
    obtain ⟨v, hv, ⟨⟩⟩ := bind_eq_ok_iff.1 h
    exact ⟨hk, hv⟩
  · rintro ⟨hk, hv⟩
    exact ⟨e.1, hk, bind_eq_ok_iff.2 ⟨e.2, hv, rfl⟩⟩

lemma DistinctKeys.nodup {value : Tree → Except Fault Json} {ms : List (RawText × Tree)}
    {es : List (String × Json)} (h : DistinctKeys ms) (hes : ms.mapM (entryOn value) = .ok es) :
    (es.map Prod.fst).Nodup := by
  induction ms generalizing es with
  | nil =>
    cases hes
    exact .nil
  | cons m ms ih =>
    obtain ⟨hm, hms⟩ := List.pairwise_cons.1 h
    obtain ⟨e, es, he, hrest, rfl⟩ := mapM_cons_eq_ok_iff.1 hes
    refine List.nodup_cons.2 ⟨fun hmem => ?_, ih hms hrest⟩
    obtain ⟨e', he', hkey⟩ := List.mem_map.1 hmem
    obtain ⟨m', hm', hentry⟩ := exists_of_mem_mapM hrest he'
    refine hm m' hm' e.1 (entryOn_eq_ok_iff.1 he).1 ?_
    rw [← hkey]
    exact (entryOn_eq_ok_iff.1 hentry).1

/-- The order of members with distinct keys does not matter. -/
lemma DistinctKeys.sameResult {β : Type} {value : Tree → Except Fault Json}
    {ms ms' : List (RawText × Tree)} (h : DistinctKeys ms) (hperm : ms.Perm ms')
    (g : List (String × Json) → β) :
    SameResult ((fun es => g (putEntries es [])) <$> ms.mapM (entryOn value))
      ((fun es => g (putEntries es [])) <$> ms'.mapM (entryOn value)) := by
  have himp : ∀ {ms ms' : List (RawText × Tree)}, DistinctKeys ms → ms.Perm ms' → ∀ b,
      (fun es => g (putEntries es [])) <$> ms.mapM (entryOn value) = .ok b →
        (fun es => g (putEntries es [])) <$> ms'.mapM (entryOn value) = .ok b := by
    intro ms ms' h hperm b hb
    obtain ⟨es, hes, rfl⟩ := map_eq_ok_iff.1 hb
    obtain ⟨es', hes', hperm'⟩ := mapM_perm hperm hes
    exact map_eq_ok_iff.2 ⟨es', hes', by rw [putEntries_perm hperm' (h.nodup hes)]⟩
  exact SameResult.of_imp (himp h hperm) (himp (h.perm hperm) hperm.symm)

theorem Permuted.sameResult_value {t t' : Tree} (h : Permuted t t') (depth : Nat) :
    SameResult (onTree (value depth) t) (onTree (value depth) t') := by
  induction h generalizing depth with
  | @here ms ms' hperm hkeys =>
    rw [onTree_value, onTree_value, valueOn, valueOn]
    cases depth with
    | zero => exact .refl _
    | succ depth => exact hkeys.sameResult hperm obj
  | item before after h ih =>
    rw [onTree_value, onTree_value, valueOn, valueOn]
    cases depth with
    | zero => exact .refl _
    | succ depth => exact ((ih depth).mapM_middle before after).map _
  | @member t t' key before after h ih =>
    rw [onTree_value, onTree_value, valueOn, valueOn]
    cases depth with
    | zero => exact .refl _
    | succ depth =>
      have hentry : SameResult (entryOn (onTree (value depth)) (key, t))
          (entryOn (onTree (value depth)) (key, t')) := by
        intro e
        simp only [entryOn_eq_ok_iff, ih depth _]
      exact (hentry.mapM_middle before after).map _

lemma Permuted.sameResult_dictOf {t t' : Tree} (h : Permuted t t') (depth : Nat) :
    SameResult (onTree (dictOf value depth) t) (onTree (dictOf value depth) t') := by
  have hvalue := h.sameResult_value depth
  have hobj : Function.Injective obj := fun _ _ h => by cases h; rfl
  cases h with
  | item before after h =>
    rw [(gives_dictOf regular_value _ _).onTree_eq, (gives_dictOf regular_value _ _).onTree_eq]
    exact .refl _
  | _ =>
    rw [onTree_value_object, onTree_value_object] at hvalue
    exact hvalue.of_map hobj

lemma Permuted.ne_null {t t' : Tree} (h : Permuted t t') : t ≠ .null ∧ t' ≠ .null := by
  cases h <;> exact ⟨nofun, nofun⟩

lemma mapM_total {α β ε : Type} {g : α → Except ε β} {as : List α}
    (h : ∀ a ∈ as, ∃ b, g a = .ok b) :
    ∃ bs, as.mapM g = .ok bs := by
  induction as with
  | nil => exact ⟨[], rfl⟩
  | cons a as ih =>
    obtain ⟨b, hb⟩ := h a List.mem_cons_self
    obtain ⟨bs, hbs⟩ := ih fun a ha => h a (List.mem_cons_of_mem _ ha)
    exact ⟨b :: bs, mapM_cons_eq_ok_iff.2 ⟨b, bs, hb, hbs, rfl⟩⟩

theorem Fits.exists_value {depth : Nat} {t : Tree} (h : Fits depth t) :
    ∃ j, onTree (value depth) t = .ok j := by
  induction h with
  | null => exact ⟨_, onTree_value _ _⟩
  | bool b => exact ⟨_, onTree_value _ _⟩
  | number h =>
    rw [onTree_value]
    exact ⟨_, map_eq_ok_iff.2 ⟨_, h, rfl⟩⟩
  | text h =>
    rw [onTree_value]
    exact ⟨_, map_eq_ok_iff.2 ⟨_, h, rfl⟩⟩
  | list _ ih =>
    obtain ⟨js, hjs⟩ := mapM_total ih
    rw [onTree_value]
    exact ⟨_, map_eq_ok_iff.2 ⟨js, hjs, rfl⟩⟩
  | object hkeys _ ih =>
    obtain ⟨es, hes⟩ := mapM_total fun m hm => by
      obtain ⟨k, hk⟩ := hkeys m hm
      obtain ⟨j, hj⟩ := ih m hm
      exact ⟨(k, j), entryOn_eq_ok_iff.2 ⟨hk, hj⟩⟩
    rw [onTree_value]
    exact ⟨_, map_eq_ok_iff.2 ⟨es, hes, rfl⟩⟩

end Values

/-! ## Forms and edits -/

mutual

/-- What a tree has to look like. -/
inductive Form
  /-- A scalar, in which nothing can be written differently. -/
  | scalar
  /-- A value that is kept as it is. -/
  | any
  /-- A list. -/
  | list (item : Form)
  /-- A record that is written as an object. -/
  | record (fields : List FieldForm)

/-- A field of a record. -/
structure FieldForm where
  /-- The names under which the field may be written. -/
  names : List String
  /-- Whether the field may be left out by writing `null`. -/
  optional : Bool
  /-- What is written for the field. -/
  form : Form

end

/-- The key is a name of the field. -/
def FieldForm.IsNamed (f : FieldForm) (key : RawText) : Prop :=
  ∃ k ∈ f.names, key.text = .ok k

/-- The key is a text but the name of no field. -/
def IsForeign (fields : List FieldForm) (key : RawText) : Prop :=
  ∃ k, key.text = .ok k ∧ ∀ f ∈ fields, k ∉ f.names

/-- The trees say the same in different ways, where `depth` containers may be opened.  Changes of
one member are made at the front: where it stands does not matter. -/
inductive Edit : (depth : Nat) → Form → Tree → Tree → Prop
  /-- The members of an object in a value that is kept stand in another order. -/
  | any {depth : Nat} {t t' : Tree} (h : Permuted t t') : Edit depth .any t t'
  /-- An item of a list is changed. -/
  | item {depth : Nat} {form : Form} {t t' : Tree} (before after : List Tree)
      (h : Edit depth form t t') :
      Edit (depth + 1) (.list form) (.list (before ++ t :: after)) (.list (before ++ t' :: after))
  /-- The members of a record stand in another order. -/
  | order {depth : Nat} {fields : List FieldForm} {ms ms' : List (RawText × Tree)}
      (h : ms.Perm ms') : Edit (depth + 1) (.record fields) (.object ms) (.object ms')
  /-- A field is written under another name. -/
  | name {depth : Nat} {fields : List FieldForm} {f : FieldForm} {key key' : RawText} {t : Tree}
      {ms : List (RawText × Tree)} (hf : f ∈ fields) (h : f.IsNamed key) (h' : f.IsNamed key') :
      Edit (depth + 1) (.record fields) (.object ((key, t) :: ms)) (.object ((key', t) :: ms))
  /-- What is written for a field is changed. -/
  | field {depth : Nat} {fields : List FieldForm} {f : FieldForm} {key : RawText} {t t' : Tree}
      {ms : List (RawText × Tree)} (hf : f ∈ fields) (hkey : f.IsNamed key)
      (h : Edit depth f.form t t') :
      Edit (depth + 1) (.record fields) (.object ((key, t) :: ms)) (.object ((key, t') :: ms))
  /-- A field that is not there is left out by writing `null`. -/
  | null {depth : Nat} {fields : List FieldForm} {f : FieldForm} {key : RawText}
      {ms : List (RawText × Tree)} (hf : f ∈ fields) (hoptional : f.optional = true)
      (hkey : f.IsNamed key) (habsent : ∀ m ∈ ms, ¬f.IsNamed m.1) :
      Edit (depth + 1) (.record fields) (.object ms) (.object ((key, .null) :: ms))
  /-- A member is added that is no field. -/
  | foreign {depth : Nat} {fields : List FieldForm} {key : RawText} {t : Tree}
      {ms : List (RawText × Tree)} (hkey : IsForeign fields key) (h : Fits depth t) :
      Edit (depth + 1) (.record fields) (.object ms) (.object ((key, t) :: ms))
  /-- In a member that is no field, the members of an object stand in another order. -/
  | foreignOrder {depth : Nat} {fields : List FieldForm} {key : RawText} {t t' : Tree}
      {ms : List (RawText × Tree)} (hkey : IsForeign fields key) (h : Permuted t t') :
      Edit (depth + 1) (.record fields) (.object ((key, t) :: ms)) (.object ((key, t') :: ms))

/-- The reader makes the same of trees that say the same. -/
def Respects {α : Type} (form : Form) (reader : (depth : Nat) → Reader α) : Prop :=
  ∀ ⦃depth t t'⦄, Edit depth form t t' →
    SameResult (onTree (reader depth) t) (onTree (reader depth) t')

section Readers

variable {α β : Type} {form : Form} {reader : (depth : Nat) → Reader α}

lemma respects_scalar : Respects .scalar reader := nofun

lemma Respects.map (h : Respects form reader) (g : α → β) :
    Respects form fun depth => g <$> reader depth := by
  intro depth t t' hedit
  rw [onTree_map, onTree_map]
  exact (h hedit).map g

lemma respects_value : Respects .any value := by
  rintro depth t t' ⟨h⟩
  exact h.sameResult_value depth

lemma respects_dictOf : Respects .any (dictOf value) := by
  rintro depth t t' ⟨h⟩
  exact h.sameResult_dictOf depth

lemma Respects.listOf (hreader : ∀ depth, Regular (reader depth)) (h : Respects form reader) :
    Respects (.list form) (listOf reader) := by
  intro depth t t' hedit
  rw [(gives_listOf hreader _ _).onTree_eq, (gives_listOf hreader _ _).onTree_eq]
  cases hedit with
  | item before after hedit => exact (h hedit).mapM_middle before after

lemma Edit.ne_null {depth : Nat} {t t' : Tree} (h : Edit depth form t t') :
    t ≠ .null ∧ t' ≠ .null := by
  cases h with
  | any h => exact h.ne_null
  | _ => exact ⟨nofun, nofun⟩

lemma Respects.optional (hreader : ∀ depth, Regular (reader depth)) (h : Respects form reader) :
    Respects form (optional reader) := by
  intro depth t t' hedit
  rw [(gives_optional hreader _ _).onTree_eq, (gives_optional hreader _ _).onTree_eq,
    optionalOn_of_ne hedit.ne_null.1, optionalOn_of_ne hedit.ne_null.2]
  exact (h hedit).map some

end Readers

/-! ## Records -/

section Records

variable {σ : Type}

/-- The changes of the two fields can be made in either order. -/
def Commutes (f g : RecordField σ) : Prop :=
  ∀ ⦃depth t t' change change'⦄, onTree (f.read depth) t = .ok change →
    onTree (g.read depth) t' = .ok change' → ∀ s, change (change' s) = change' (change s)

instance : Std.Symm (Commutes : RecordField σ → RecordField σ → Prop) where
  symm _ _ h _ _ _ _ _ hf hg s := (h hg hf s).symm

/-- The field is one of that form in a record with these defaults. -/
structure Describes (blank : σ) (form : FieldForm) (f : RecordField σ) : Prop where
  names : form.names = f.names
  optional : form.optional = true → f.required = false ∧
    ∀ depth, ∃ change, onTree (f.read depth) .null = .ok change ∧ change blank = blank
  respects : Respects form.form f.read

/-- What is done with members that are no fields does not change the record. -/
structure Forgets (other : String → Tree → Except Fault (σ → σ)) (depth : Nat) : Prop where
  eq_id : ∀ {k t change}, other k t = .ok change → change = id
  fits : ∀ {k t}, Fits depth t → other k t = .ok id
  permuted : ∀ {k t t'}, Permuted t t' → SameResult (other k t) (other k t')

/-- The fields are those of the forms, no name belongs to two of them, and each changes a part of
its own. -/
structure Conforms (blank : σ) (forms : List FieldForm) (fields : List (RecordField σ)) : Prop where
  describes : List.Forall₂ (Describes blank) forms fields
  apart : Apart fields
  commutes : fields.Pairwise Commutes

variable {blank : σ} {forms : List FieldForm} {fields : List (RecordField σ)}
  {other : String → Tree → Except Fault (σ → σ)} {depth : Nat} {ms ms' : List (RawText × Tree)}
  {m m' : RawText × Tree}

/-! ### Single members -/

lemma exists_of_mem_left {α β : Type} {R : α → β → Prop} {as : List α} {bs : List β} {a : α}
    (h : List.Forall₂ R as bs) (ha : a ∈ as) : ∃ b ∈ bs, R a b := by
  induction h with
  | nil => cases ha
  | cons hab _ ih =>
    rcases List.mem_cons.1 ha with rfl | ha
    · exact ⟨_, List.mem_cons_self, hab⟩
    · obtain ⟨b, hb, hab⟩ := ih ha
      exact ⟨b, List.mem_cons_of_mem _ hb, hab⟩

lemma changeOn_cases {c : Option String × (σ → σ)} (h : changeOn fields other depth m = .ok c) :
    ∃ k, m.1.text = .ok k ∧ (c.1 = none ∧ other k m.2 = .ok c.2 ∨
      ∃ f ∈ fields, k ∈ f.names ∧ c.1 = some f.name ∧ onTree (f.read depth) m.2 = .ok c.2) := by
  obtain ⟨k, hk, h⟩ := bind_eq_ok_iff.1 h
  refine ⟨k, hk, ?_⟩
  split at h
  · next f hfind =>
    obtain ⟨change, hchange, rfl⟩ := map_eq_ok_iff.1 h
    have hnamed : f.isNamed k = true :=
      List.find?_some (p := fun f : RecordField σ => f.isNamed k) hfind
    exact .inr ⟨f, List.mem_of_find?_eq_some hfind, RecordField.isNamed_iff.1 hnamed, rfl, hchange⟩
  · obtain ⟨change, hchange, rfl⟩ := map_eq_ok_iff.1 h
    exact .inl ⟨rfl, hchange⟩

lemma changeOn_of_isNamed (hapart : Apart fields) {f : RecordField σ} (hf : f ∈ fields)
    {form : FieldForm} (hdescribes : Describes blank form f) {key : RawText}
    (hkey : form.IsNamed key)
    (t : Tree) :
    changeOn fields other depth (key, t) = (some f.name, ·) <$> onTree (f.read depth) t := by
  obtain ⟨k, hk, htext⟩ := hkey
  rw [hdescribes.names] at hk
  exact changeOn_of_some htext (hapart.find?_eq_some hf hk)

lemma Conforms.changeOn_of_isForeign (h : Conforms blank forms fields) {key : RawText}
    (hkey : IsForeign forms key) :
    ∃ k, ∀ t, changeOn fields other depth (key, t) = (none, ·) <$> other k t := by
  obtain ⟨k, htext, hk⟩ := hkey
  refine ⟨k, fun t => changeOn_of_none htext (find?_isNamed_eq_none fun f hf hnamed => ?_)⟩
  obtain ⟨form, hform, hdescribes⟩ := exists_of_mem_left h.describes.flip hf
  rw [← hdescribes.names] at hnamed
  exact hk form hform hnamed

lemma sameResult_cons
    (h : SameResult (changeOn fields other depth m) (changeOn fields other depth m')) :
    SameResult (recordMembersOn fields other blank depth (m :: ms))
      (recordMembersOn fields other blank depth (m' :: ms)) := by
  intro s
  simp only [recordMembersOn_eq_ok_iff, mapM_cons_eq_ok_iff, h _]

/-! ### The order of the members -/

/-- Changes whose fields differ, as far as they belong to fields at all, can be made in either
order. -/
def Independent (changes : List (Option String × (σ → σ))) : Prop :=
  ∀ c ∈ changes, ∀ c' ∈ changes, (∀ name ∈ c.1, name ∉ c'.1) → ∀ s, c.2 (c'.2 s) = c'.2 (c.2 s)

lemma applyAll_perm {changes changes' : List (Option String × (σ → σ))} (h : changes.Perm changes')
    (hnodup : (changed changes).Nodup) (hindependent : Independent changes) (s : σ) :
    applyAll changes s = applyAll changes' s := by
  -- The induction is on the permutation.  Only where two changes are swapped it matters that their
  -- fields differ.
  induction h generalizing s with
  | nil => rfl
  | @cons c changes changes' _ ih =>
    rw [changed_cons] at hnodup
    have hrest : Independent changes := fun d hd d' hd' =>
      hindependent d (List.mem_cons_of_mem _ hd) d' (List.mem_cons_of_mem _ hd')
    exact ih (List.nodup_append.1 hnodup).2.1 hrest (c.2 s)
  | swap c c' changes =>
    have happart : ∀ name ∈ c.1, name ∉ c'.1 := by
      intro name hname hname'
      rw [changed_cons, changed_cons, hname, hname'] at hnodup
      simp at hnodup
    have hswap := hindependent c (List.mem_cons_of_mem _ List.mem_cons_self) c' List.mem_cons_self
      happart s
    change applyAll changes (c.2 (c'.2 s)) = applyAll changes (c'.2 (c.2 s))
    rw [hswap]
  | trans hperm _ ih ih' =>
    have hnodup' : _ := (hperm.filterMap Prod.fst).nodup_iff.1 hnodup
    have hindependent' : Independent _ := fun c hc c' hc' =>
      hindependent c (hperm.mem_iff.2 hc) c' (hperm.mem_iff.2 hc')
    exact (ih hnodup hindependent s).trans (ih' hnodup' hindependent' s)

lemma Conforms.independent (h : Conforms blank forms fields) (hother : Forgets other depth)
    {changes : List (Option String × (σ → σ))}
    (hchanges : ms.mapM (changeOn fields other depth) = .ok changes) : Independent changes := by
  intro c hc c' hc' happart s
  obtain ⟨m, -, hm⟩ := exists_of_mem_mapM hchanges hc
  obtain ⟨m', -, hm'⟩ := exists_of_mem_mapM hchanges hc'
  -- A change that belongs to no field is none at all.
  obtain ⟨k, -, ⟨-, hread⟩ | ⟨f, hf, -, hname, hread⟩⟩ := changeOn_cases hm
  · rw [hother.eq_id hread]
    rfl
  obtain ⟨k', -, ⟨-, hread'⟩ | ⟨g, hg, -, hname', hread'⟩⟩ := changeOn_cases hm'
  · rw [hother.eq_id hread']
    rfl
  have hne : f ≠ g := by
    rintro rfl
    exact happart f.name hname hname'
  exact h.commutes.forall hf hg hne hread hread' s

lemma Conforms.sameResult_perm (h : Conforms blank forms fields) (hother : Forgets other depth)
    (hperm : ms.Perm ms') :
    SameResult (recordMembersOn fields other blank depth ms)
      (recordMembersOn fields other blank depth ms') := by
  have himp : ∀ {ms ms' : List (RawText × Tree)}, ms.Perm ms' → ∀ s,
      recordMembersOn fields other blank depth ms = .ok s →
        recordMembersOn fields other blank depth ms' = .ok s := by
    intro ms ms' hperm s hs
    obtain ⟨changes, hchanges, hnodup, hrequired, rfl⟩ := recordMembersOn_eq_ok_iff.1 hs
    obtain ⟨changes', hchanges', hperm'⟩ := mapM_perm hperm hchanges
    have hnames : (changed changes).Perm (changed changes') := hperm'.filterMap Prod.fst
    refine recordMembersOn_eq_ok_iff.2 ⟨changes', hchanges', hnames.nodup_iff.1 hnodup,
      fun f hf hr => hnames.mem_iff.1 (hrequired f hf hr), ?_⟩
    exact (applyAll_perm hperm' hnodup (h.independent hother hchanges) blank).symm
  exact SameResult.of_imp (himp hperm) (himp hperm.symm)

/-! ### Members that come and go -/

lemma Apart.eq_of_mem (h : Apart fields) {f g : RecordField σ} (hf : f ∈ fields) (hg : g ∈ fields)
    {k : String} (hkf : k ∈ f.names) (hkg : k ∈ g.names) : f = g := by
  have hfind := h.find?_eq_some hf hkf
  rw [h.find?_eq_some hg hkg] at hfind
  exact (Option.some.inj hfind).symm

lemma not_mem_changed (hapart : Apart fields) {f : RecordField σ} (hf : f ∈ fields)
    {form : FieldForm} (hdescribes : Describes blank form f) (habsent : ∀ m ∈ ms, ¬form.IsNamed m.1)
    {changes : List (Option String × (σ → σ))}
    (hchanges : ms.mapM (changeOn fields other depth) = .ok changes) :
    f.name ∉ changed changes := by
  intro hmem
  obtain ⟨c, hc, hname⟩ := List.mem_filterMap.1 hmem
  obtain ⟨m, hm, hchange⟩ := exists_of_mem_mapM hchanges hc
  obtain ⟨k, hk, ⟨hnone, -⟩ | ⟨g, hg, hkg, hsome, -⟩⟩ := changeOn_cases hchange
  · rw [hnone] at hname
    cases hname
  · rw [hsome] at hname
    have hfg : f = g := hapart.eq_of_mem hf hg List.mem_cons_self
      (by rw [← Option.some.inj hname]; exact List.mem_cons_self)
    refine habsent m hm ⟨k, ?_, hk⟩
    rw [hdescribes.names, hfg]
    exact hkg

lemma Conforms.sameResult_null (h : Conforms blank forms fields) {form : FieldForm}
    (hform : form ∈ forms) (hoptional : form.optional = true) {key : RawText}
    (hkey : form.IsNamed key) (habsent : ∀ m ∈ ms, ¬form.IsNamed m.1) :
    SameResult (recordMembersOn fields other blank depth ms)
      (recordMembersOn fields other blank depth ((key, .null) :: ms)) := by
  obtain ⟨f, hf, hdescribes⟩ := exists_of_mem_left h.describes hform
  obtain ⟨hrequired, hnull⟩ := hdescribes.optional hoptional
  obtain ⟨change, hread, hblank⟩ := hnull depth
  have hchange : changeOn fields other depth (key, .null) = .ok (some f.name, change) := by
    rw [changeOn_of_isNamed h.apart hf hdescribes hkey, hread]
    rfl
  intro s
  rw [recordMembersOn_eq_ok_iff, recordMembersOn_eq_ok_iff]
  constructor
  · rintro ⟨changes, hchanges, hnodup, hseen, rfl⟩
    refine ⟨_, mapM_cons_eq_ok_iff.2 ⟨_, changes, hchange, hchanges, rfl⟩, ?_,
      fun g hg hr => ?_, ?_⟩
    · exact List.nodup_cons.2 ⟨not_mem_changed h.apart hf hdescribes habsent hchanges, hnodup⟩
    · exact List.mem_cons_of_mem _ (hseen g hg hr)
    · exact congrArg (applyAll changes) hblank
  · rintro ⟨_, hmap, hnodup, hseen, rfl⟩
    obtain ⟨c, changes, hc, hchanges, rfl⟩ := mapM_cons_eq_ok_iff.1 hmap
    obtain rfl : (some f.name, change) = c := Except.ok.inj (hchange.symm.trans hc)
    refine ⟨changes, hchanges, (List.nodup_cons.1 hnodup).2, fun g hg hr => ?_, ?_⟩
    -- A field without default is not the one that was left out.
    · rcases List.mem_cons.1 (hseen g hg hr) with hname | hmem
      · have hfg : f = g := h.apart.eq_of_mem hf hg List.mem_cons_self
          (by rw [← hname]; exact List.mem_cons_self)
        rw [← hfg, hrequired] at hr
        cases hr
      · exact hmem
    · exact congrArg (applyAll changes) hblank.symm

lemma Conforms.sameResult_foreign (h : Conforms blank forms fields) (hother : Forgets other depth)
    {key : RawText} (hkey : IsForeign forms key) {t : Tree} (ht : Fits depth t) :
    SameResult (recordMembersOn fields other blank depth ms)
      (recordMembersOn fields other blank depth ((key, t) :: ms)) := by
  have hchange : changeOn fields other depth (key, t) = .ok (none, id) := by
    obtain ⟨k, hforeign⟩ := h.changeOn_of_isForeign hkey
    rw [hforeign, hother.fits ht]
    rfl
  intro s
  rw [recordMembersOn_eq_ok_iff, recordMembersOn_eq_ok_iff]
  constructor
  · rintro ⟨changes, hchanges, h⟩
    exact ⟨_, mapM_cons_eq_ok_iff.2 ⟨_, changes, hchange, hchanges, rfl⟩, h⟩
  · rintro ⟨_, hmap, h⟩
    obtain ⟨c, changes, hc, hchanges, rfl⟩ := mapM_cons_eq_ok_iff.1 hmap
    obtain rfl : (none, id) = c := Except.ok.inj (hchange.symm.trans hc)
    exact ⟨changes, hchanges, h⟩

/-- A record that is written as an object respects its form. -/
theorem Conforms.sameResult_edit (h : Conforms blank forms fields) (hother : Forgets other depth)
    (hedit : Edit (depth + 1) (.record forms) (.object ms) (.object ms')) :
    SameResult (recordMembersOn fields other blank depth ms)
      (recordMembersOn fields other blank depth ms') := by
  cases hedit with
  | order hperm => exact h.sameResult_perm hother hperm
  | @name _ _ form key key' t ms hform hkey hkey' =>
    obtain ⟨f, hf, hdescribes⟩ := exists_of_mem_left h.describes hform
    refine sameResult_cons ?_
    rw [changeOn_of_isNamed h.apart hf hdescribes hkey,
      changeOn_of_isNamed h.apart hf hdescribes hkey']
    exact .refl _
  | @field _ _ form key t t' ms hform hkey hedit =>
    obtain ⟨f, hf, hdescribes⟩ := exists_of_mem_left h.describes hform
    refine sameResult_cons ?_
    rw [changeOn_of_isNamed h.apart hf hdescribes hkey,
      changeOn_of_isNamed h.apart hf hdescribes hkey]
    exact (hdescribes.respects hedit).map _
  | null hform hoptional hkey habsent => exact h.sameResult_null hform hoptional hkey habsent
  | foreign hkey ht => exact h.sameResult_foreign hother hkey ht
  | foreignOrder hkey hpermuted =>
    obtain ⟨k, hforeign⟩ := h.changeOn_of_isForeign hkey
    refine sameResult_cons ?_
    rw [hforeign, hforeign]
    exact (hother.permuted hpermuted).map _

lemma Edit.exists_object {t t' : Tree} (h : Edit depth (.record forms) t t') :
    ∃ inner ms ms', depth = inner + 1 ∧ t = .object ms ∧ t' = .object ms' := by
  cases h <;> exact ⟨_, _, _, rfl, rfl, rfl⟩

lemma forgets_skip : Forgets (fun _ _ => .ok (id : σ → σ)) depth where
  eq_id h := (Except.ok.inj h).symm
  fits _ := rfl
  permuted _ := .refl _

theorem Conforms.respects_record (h : Conforms blank forms fields)
    (hregular : ∀ f ∈ fields, ∀ depth, Regular (f.read depth)) (name : String) :
    Respects (.record forms) (record name fields blank) := by
  intro depth t t' hedit
  obtain ⟨inner, ms, ms', rfl, rfl, rfl⟩ := hedit.exists_object
  rw [(gives_record hregular _ _).onTree_eq, (gives_record hregular _ _).onTree_eq]
  exact h.sameResult_edit forgets_skip hedit

end Records

end Dialogue.Json
