import Dialogue.Proofs.Skipping
/-!
Records on trees.

The readers of records are regular if the readers of their fields are, and what they make of a tree
is given here by functions on trees.  For a record that is written as an object there is a second
description, which does not depend on the order of its members: each member stands for a change
(`changeOn`), no field is changed twice, the fields without default are all there, and the record is
the result of the changes (`recordMembersOn_eq_ok_iff`).
-/

namespace Dialogue.Json

variable {σ : Type}

/-! ## Records that are written as objects -/

section Members

variable {fields : List (RecordField σ)}

/-- One turn of the loop that reads the members of a record. -/
def recordStep (fields : List (RecordField σ)) (other : (key : String) → Reader (σ → σ))
    (depth : Nat) (p : Progress σ) : Reader (Progress σ ⊕ σ) := do
  if ← hasMember p.first then
    let k ← key
    match fields.find? (·.isNamed k) with
    | some f =>
      if p.seen.contains f.name then throw (.duplicateField f.name)
      colon
      let change ← f.read depth
      return .inl ⟨false, f.name :: p.seen, change p.draft⟩
    | none =>
      colon
      let change ← other k
      return .inl ⟨false, p.seen, change p.draft⟩
  else
    checkSeen p.seen fields
    advance
    return .inr p.draft

/-- What a member does to a record that is being read. -/
def memberOn (fields : List (RecordField σ)) (other : String → Tree → Except Fault (σ → σ))
    (depth : Nat) (p : Progress σ) (m : RawText × Tree) : Except Fault (Progress σ) := do
  let k ← m.1.text
  match fields.find? (·.isNamed k) with
  | some f =>
    if p.seen.contains f.name then .error (.duplicateField f.name)
    else return ⟨false, f.name :: p.seen, (← onTree (f.read depth) m.2) p.draft⟩
  | none => return ⟨false, p.seen, (← other k m.2) p.draft⟩

/-- The record, if no field is missing. -/
def closeOn (fields : List (RecordField σ)) (p : Progress σ) : Except Fault σ := do
  checkSeen p.seen fields
  return p.draft

/-- What is made of the members of a record. -/
def recordMembersOn (fields : List (RecordField σ)) (other : String → Tree → Except Fault (σ → σ))
    (blank : σ) (depth : Nat) (ms : List (RawText × Tree)) : Except Fault σ :=
  ms.foldlM (memberOn fields other depth) ⟨true, [], blank⟩ >>= closeOn fields

/-- What a member changes: the name of its field, if it has one, and the change. -/
def changeOn (fields : List (RecordField σ)) (other : String → Tree → Except Fault (σ → σ))
    (depth : Nat) (m : RawText × Tree) : Except Fault (Option String × (σ → σ)) := do
  let k ← m.1.text
  match fields.find? (·.isNamed k) with
  | some f => (some f.name, ·) <$> onTree (f.read depth) m.2
  | none => (none, ·) <$> other k m.2

section Changes

variable {other : String → Tree → Except Fault (σ → σ)} {depth : Nat} {p p' : Progress σ}
  {m : RawText × Tree}

lemma changeOn_of_none {k : String} (hk : m.1.text = .ok k)
    (h : fields.find? (·.isNamed k) = none) :
    changeOn fields other depth m = (none, ·) <$> other k m.2 := by
  rw [changeOn, hk, ok_bind, h]

lemma changeOn_of_some {k : String} {f : RecordField σ} (hk : m.1.text = .ok k)
    (h : fields.find? (·.isNamed k) = some f) :
    changeOn fields other depth m = (some f.name, ·) <$> onTree (f.read depth) m.2 := by
  rw [changeOn, hk, ok_bind, h]

lemma memberOn_eq_ok_iff :
    memberOn fields other depth p m = .ok p' ↔ ∃ c, changeOn fields other depth m = .ok c ∧
      (∀ name ∈ c.1, name ∉ p.seen) ∧ p' = ⟨false, c.1.toList ++ p.seen, c.2 p.draft⟩ := by
  rw [memberOn]
  cases hk : m.1.text with
  | error fault =>
    rw [changeOn, hk]
    exact ⟨nofun, nofun⟩
  | ok k =>
    rw [ok_bind]
    cases h : fields.find? (fun f => f.isNamed k) with
    | none =>
      rw [changeOn_of_none hk h]
      cases other k m.2 with
      | error fault => exact ⟨nofun, nofun⟩
      | ok change =>
        constructor
        · rintro ⟨⟩
          exact ⟨_, rfl, nofun, rfl⟩
        · rintro ⟨_, ⟨⟩, -, rfl⟩
          rfl
    | some f =>
      rw [changeOn_of_some hk h]
      by_cases hseen : f.name ∈ p.seen
      · simp only [List.contains_iff_mem.2 hseen, if_true]
        refine ⟨nofun, ?_⟩
        rintro ⟨c, hc, hnot, -⟩
        obtain ⟨change, -, rfl⟩ := map_eq_ok_iff.1 hc
        exact absurd hseen (hnot f.name rfl)
      · have hcontains : ¬p.seen.contains f.name = true :=
          fun h => hseen (List.contains_iff_mem.1 h)
        simp only [hcontains, Bool.false_eq_true, if_false]
        cases onTree (f.read depth) m.2 with
        | error fault => exact ⟨nofun, nofun⟩
        | ok change =>
          constructor
          · rintro ⟨⟩
            refine ⟨_, rfl, ?_, rfl⟩
            rintro name ⟨⟩
            exact hseen
          · rintro ⟨_, ⟨⟩, -, rfl⟩
            rfl

/-- The names of the fields that are changed. -/
def changed (changes : List (Option String × (σ → σ))) : List String :=
  changes.filterMap Prod.fst

/-- Changes a record, from the first change to the last. -/
def applyAll (changes : List (Option String × (σ → σ))) (s : σ) : σ :=
  changes.foldl (fun s change => change.2 s) s

lemma changed_cons (c : Option String × (σ → σ)) (changes : List (Option String × (σ → σ))) :
    changed (c :: changes) = c.1.toList ++ changed changes := by
  obtain ⟨_ | name, change⟩ := c <;> rfl

lemma checkSeen_eq_ok_iff {seen : List String} {fields : List (RecordField σ)} :
    checkSeen seen fields = .ok () ↔ ∀ f ∈ fields, f.required = true → f.name ∈ seen := by
  induction fields with
  | nil => exact ⟨fun _ => nofun, fun _ => rfl⟩
  | cons f fs ih =>
    rw [checkSeen, List.forall_mem_cons, ← ih]
    by_cases hrequired : f.required = true
    · by_cases hseen : f.name ∈ seen
      · simp [hrequired, hseen]
      · simp [hrequired, hseen]
    · simp [hrequired]

/-- The names are distinct, and none of them was seen before. -/
def Fresh (names seen : List String) : Prop :=
  names.Nodup ∧ ∀ name ∈ names, name ∉ seen

lemma fresh_nil_iff {names : List String} : Fresh names [] ↔ names.Nodup :=
  ⟨And.left, fun h => ⟨h, nofun⟩⟩

lemma fresh_append_iff {name : Option String} {names seen : List String} :
    Fresh (name.toList ++ names) seen ↔
      (∀ n ∈ name, n ∉ seen) ∧ Fresh names (name.toList ++ seen) := by
  cases name with
  | none => exact ⟨fun h => ⟨nofun, h⟩, And.right⟩
  | some name =>
    simp only [Fresh, Option.toList_some, List.singleton_append, List.nodup_cons, List.mem_cons,
      forall_eq_or_imp, Option.mem_def, Option.some.injEq, not_or, forall_eq']
    constructor
    · rintro ⟨⟨hname, hnames⟩, hseen, hnot⟩
      exact ⟨hseen, hnames, fun n hn => ⟨fun heq => hname (heq ▸ hn), hnot n hn⟩⟩
    · rintro ⟨hseen, hnames, hnot⟩
      exact ⟨⟨fun hname => (hnot name hname).1 rfl, hnames⟩, hseen, fun n hn => (hnot n hn).2⟩

lemma foldlM_memberOn_eq_ok_iff {ms : List (RawText × Tree)} {s : σ} :
    (ms.foldlM (memberOn fields other depth) p >>= closeOn fields) = .ok s ↔
      ∃ changes, ms.mapM (changeOn fields other depth) = .ok changes ∧
        Fresh (changed changes) p.seen ∧
        (∀ f ∈ fields, f.required = true → f.name ∈ changed changes ∨ f.name ∈ p.seen) ∧
        applyAll changes p.draft = s := by
  induction ms generalizing p with
  | nil =>
    rw [List.foldlM_nil, List.mapM_nil]
    change closeOn fields p = .ok s ↔ _
    rw [closeOn, bind_eq_ok_iff]
    constructor
    · rintro ⟨⟨⟩, hseen, ⟨⟩⟩
      refine ⟨[], rfl, ⟨.nil, nofun⟩, fun f hf hr => .inr ?_, rfl⟩
      exact checkSeen_eq_ok_iff.1 hseen f hf hr
    · rintro ⟨_, ⟨⟩, -, hseen, ⟨⟩⟩
      refine ⟨(), checkSeen_eq_ok_iff.2 fun f hf hr => ?_, rfl⟩
      exact (hseen f hf hr).resolve_left nofun
  | cons m ms ih =>
    have hmem : ∀ (name : Option String) (names : List String) (n : String),
        n ∈ name.toList ++ names ∨ n ∈ p.seen ↔ n ∈ names ∨ n ∈ name.toList ++ p.seen := by
      intro name names n
      simp only [List.mem_append]
      tauto
    rw [List.foldlM_cons, bind_assoc, bind_eq_ok_iff]
    constructor
    · rintro ⟨p', hp', h⟩
      obtain ⟨c, hc, hfresh, rfl⟩ := memberOn_eq_ok_iff.1 hp'
      obtain ⟨changes, hchanges, hfresh', hrequired, hs⟩ := ih.1 h
      refine ⟨c :: changes, mapM_cons_eq_ok_iff.2 ⟨c, changes, hc, hchanges, rfl⟩, ?_⟩
      rw [changed_cons]
      exact ⟨fresh_append_iff.2 ⟨hfresh, hfresh'⟩,
        fun f hf hr => (hmem _ _ _).2 (hrequired f hf hr), hs⟩
    · rintro ⟨_, h, hfresh, hrequired, hs⟩
      obtain ⟨c, changes, hc, hchanges, rfl⟩ := mapM_cons_eq_ok_iff.1 h
      rw [changed_cons] at hfresh hrequired
      obtain ⟨hfresh, hfresh'⟩ := fresh_append_iff.1 hfresh
      exact ⟨_, memberOn_eq_ok_iff.2 ⟨c, hc, hfresh, rfl⟩, ih.2 ⟨changes, hchanges, hfresh',
        fun f hf hr => (hmem _ _ _).1 (hrequired f hf hr), hs⟩⟩

/-- A record does not depend on the order of its members but for the order of their changes. -/
theorem recordMembersOn_eq_ok_iff {ms : List (RawText × Tree)} {blank s : σ} :
    recordMembersOn fields other blank depth ms = .ok s ↔
      ∃ changes, ms.mapM (changeOn fields other depth) = .ok changes ∧ (changed changes).Nodup ∧
        (∀ f ∈ fields, f.required = true → f.name ∈ changed changes) ∧
        applyAll changes blank = s := by
  rw [recordMembersOn, foldlM_memberOn_eq_ok_iff]
  simp only [fresh_nil_iff, List.not_mem_nil, or_false]

end Changes

/-! ### Reading -/

section Reading

variable {other : (key : String) → Reader (σ → σ)} {depth : Nat}

lemma readsMembers_recordStep (hfields : ∀ f ∈ fields, Regular (f.read depth))
    (hother : ∀ k, Regular (other k)) :
    ReadsMembers (recordStep fields other depth) Progress.first
      (memberOn fields (fun k => onTree (other k)) depth) (closeOn fields) where
  close := by
    intro p ws rest hws
    rw [recordStep, bind_of_ok (hasMember_close hws), if_neg Bool.false_ne_true, bind_lift, closeOn]
    cases checkSeen p.seen fields <;> rfl
  member := by
    intro p raw t before ws ws' cs more hbefore hws hws' ht hmore
    rw [recordStep, bind_of_ok (hasMember_member hbefore), if_pos rfl,
      bind_of_eq (key_append raw _), memberOn]
    cases raw.text with
    | error fault => rfl
    | ok k =>
      rw [ok_bind, ok_bind]
      cases hfind : fields.find? (fun f => f.isNamed k) with
      | none =>
        simp only
        rw [bind_of_ok (colon_spaces hws), bind_of_eq (hother k t ws' cs more hws' ht hmore)]
        cases onTree (other k) t <;> rfl
      | some f =>
        have hread := hfields f (List.mem_of_find?_eq_some hfind) t ws' cs more hws' ht hmore
        by_cases hseen : p.seen.contains f.name = true
        · simp only [hseen, if_true]
          rfl
        · simp only [hseen, Bool.false_eq_true, if_false]
          rw [bind_of_ok (colon_spaces hws), bind_of_eq hread]
          cases onTree (f.read depth) t <;> rfl
  first_eq := by
    intro p m p' hp'
    obtain ⟨c, -, -, rfl⟩ := memberOn_eq_ok_iff.1 hp'
    rfl

/-- The members of a record are read one after the other. -/
lemma recordMembers_append (hfields : ∀ f ∈ fields, Regular (f.read depth))
    (hother : ∀ k, Regular (other k)) (blank : σ) {ms : List (RawText × Tree)} {cs rest : List Char}
    (h : SpellsMembers true ms cs) :
    recordMembers fields other blank depth (cs ++ rest) = (fun s => (s, rest)) <$>
      recordMembersOn fields (fun k => onTree (other k)) blank depth ms :=
  (readsMembers_recordStep hfields hother).loop_append h

end Reading

end Members

/-! ## Records that are written as lists -/

section Items

/-- What is made of a record that is written as a list. -/
def recordItemsOn (name : String) (count depth : Nat) :
    (fields : List (RecordField σ)) → (position : Nat) → (draft : σ) → List Tree → Except Fault σ
  | [], _, draft, [] => .ok draft
  | [], _, _, _ :: _ => .error .trailingCharacters
  | f :: fs, position, draft, t :: ts => do
    let change ← onTree (f.read depth) t
    recordItemsOn name count depth fs (position + 1) (change draft) ts
  | f :: fs, position, draft, [] =>
    if f.required then .error (.tooShort position name count)
    else recordItemsOn name count depth fs (position + 1) draft []

variable {first : Bool} {ws before cs rest : List Char} {c : Char} {ts : List Tree}

lemma closeList_close (hws : Spaces ws) : closeList (ws ++ ']' :: rest) = .ok ((), rest) := by
  rw [closeList, bind_of_ok (peek_spaces hws rfl)]
  rfl

lemma closeList_comma (hws : Spaces ws) :
    closeList (ws ++ ',' :: cs) = (do
      match ← peek with
      | some ']' => throw .trailingComma
      | _ => throw .trailingCharacters : Reader Unit) cs := by
  rw [closeList, bind_of_ok (peek_spaces hws rfl)]
  rfl

lemma closeList_item (hbefore : Separates first before) (hc : opensValue c = true) :
    closeList (before ++ c :: cs) = .error .trailingCharacters := by
  obtain ⟨hspace, hclose, -, hcomma⟩ := not_space_of_opensValue hc
  cases hbefore with
  | spaces hws =>
    rw [closeList, bind_of_ok (peek_spaces hws hspace)]
    simp only
    rfl
  | comma hws hws' =>
    rw [List.append_assoc, List.cons_append, closeList_comma hws,
      bind_of_ok (peek_spaces hws' hspace)]
    change _ = (throw Fault.trailingCharacters : Reader Unit) (c :: cs)
    refine congrFun ?_ (c :: cs)
    split
    · next heq => exact absurd (Option.some.inj heq) hclose
    · rfl

lemma recordItems_append {name : String} {count depth : Nat} {fields : List (RecordField σ)}
    (hfields : ∀ f ∈ fields, Regular (f.read depth)) {position : Nat} {draft : σ}
    (h : SpellsItems (position == 0) ts cs) :
    recordItems name count depth fields position draft (cs ++ rest) = (fun s => (s, rest)) <$>
      recordItemsOn name count depth fields position draft ts := by
  induction fields generalizing position draft cs ts with
  | nil =>
    rw [recordItems]
    cases h with
    | close hws =>
      rw [List.append_assoc, List.singleton_append, bind_of_ok (closeList_close hws)]
      rfl
    | item hbefore h hmore =>
      obtain ⟨c, cs, rfl, hc⟩ := h.exists_cons
      rw [List.append_assoc, List.append_assoc, List.cons_append]
      change (closeList _ >>= _) = _
      rw [closeList_item hbefore hc]
      rfl
  | cons f fs ih =>
    have hfs : ∀ f ∈ fs, Regular (f.read depth) := fun f hf => hfields f (List.mem_cons_of_mem _ hf)
    rw [recordItems]
    cases h with
    | close hws =>
      rw [List.append_assoc, List.singleton_append, bind_of_ok (hasItem_close hws),
        if_neg Bool.false_ne_true, recordItemsOn]
      by_cases hrequired : f.required = true
      · rw [if_pos hrequired, if_pos hrequired]
        rfl
      · rw [if_neg hrequired, if_neg hrequired]
        exact ih hfs (.close spaces_nil)
    | @item _ t ts before cs more hbefore h hmore =>
      have hread := hfields f List.mem_cons_self t [] cs (more ++ rest) spaces_nil h
        (hmore.ends rest)
      obtain ⟨c, cs, rfl, hc⟩ := h.exists_cons
      rw [List.append_assoc, List.append_assoc, List.cons_append,
        bind_of_ok (hasItem_item hbefore hc), if_pos rfl, recordItemsOn]
      refine (bind_of_eq hread).trans ?_
      cases onTree (f.read depth) t with
      | error fault => rfl
      | ok change => exact ih hfs hmore

end Items

/-! ## Records -/

section Records

/-- What is made of a tree that has to be a record. -/
def recordOn (name : String) (fields : List (RecordField σ)) (blank : σ) (depth : Nat) :
    Tree → Except Fault σ
  | .object ms =>
    within depth fun depth => recordMembersOn fields (fun _ _ => .ok id) blank depth ms
  | .list ts =>
    within depth fun depth => recordItemsOn name fields.length depth fields 0 blank ts
  | t => do throw (.wrongType (← t.seen).found (.record name))

/-- What is made of a tree that has to be a record which keeps the members that are no fields. -/
def openRecordOn (name : String) (fields : List (RecordField σ)) (keep : String → Json → σ → σ)
    (blank : σ) (depth : Nat) : Tree → Except Fault σ
  | .object ms =>
    within depth fun depth =>
      recordMembersOn fields (fun k t => keep k <$> onTree (value depth) t) blank depth ms
  | t => do throw (.wrongType (← t.seen).found (.record name))

variable {name : String} {fields : List (RecordField σ)} {blank : σ}

lemma gives_skip_id (t : Tree) : Gives (do skip; return id : Reader (σ → σ)) t (.ok id) := by
  intro ws cs rest hws hcs hrest
  rw [bind_of_eq (gives_skip t ws cs rest hws hcs hrest)]
  rfl

lemma gives_record (hfields : ∀ f ∈ fields, ∀ depth, Regular (f.read depth)) (depth : Nat)
    (t : Tree) :
    Gives (record name fields blank depth) t (recordOn name fields blank depth t) := by
  intro ws cs rest hws hcs hrest
  rw [record]
  by_cases ht : t.isScalar
  · rw [bind_of_eq (head_scalar ht hws hcs hrest), recordOn]
    · cases t.seen <;> rfl
    · rintro ms rfl
      exact absurd ht Bool.false_ne_true
    · rintro ts rfl
      exact absurd ht Bool.false_ne_true
  · cases hcs with
    | list hts =>
      rw [List.cons_append, bind_of_ok (head_list hws)]
      cases depth with
      | zero => rfl
      | succ depth => exact recordItems_append (fun f hf => hfields f hf depth) hts
    | object hms =>
      rw [List.cons_append, bind_of_ok (head_object hws)]
      cases depth with
      | zero => rfl
      | succ depth =>
        have hother : ∀ _ : String, Regular (do skip; return id : Reader (σ → σ)) :=
          fun _ => regular_of_gives fun t => ⟨_, gives_skip_id t⟩
        have hid : (fun _ : String => onTree (do skip; return id : Reader (σ → σ))) =
            fun _ _ => .ok id :=
          funext fun _ => funext fun t => (gives_skip_id t).onTree_eq
        rw [recordOn, within, ← hid]
        exact recordMembers_append (fun f hf => hfields f hf depth) hother blank hms
    | _ => exact absurd rfl ht

lemma gives_openRecord {keep : String → Json → σ → σ}
    (hfields : ∀ f ∈ fields, ∀ depth, Regular (f.read depth)) (depth : Nat) (t : Tree) :
    Gives (openRecord name fields keep blank depth) t
      (openRecordOn name fields keep blank depth t) := by
  intro ws cs rest hws hcs hrest
  rw [openRecord]
  by_cases ht : t.isScalar
  · rw [bind_of_eq (head_scalar ht hws hcs hrest), openRecordOn]
    · cases t.seen <;> rfl
    · rintro ms rfl
      exact absurd ht Bool.false_ne_true
  · cases hcs with
    | list hts =>
      rw [List.cons_append, bind_of_ok (head_list hws)]
      rfl
    | object hms =>
      rw [List.cons_append, bind_of_ok (head_object hws)]
      cases depth with
      | zero => rfl
      | succ depth =>
        have hkeep : (fun k => onTree (keep k <$> value depth)) =
            fun k t => keep k <$> onTree (value depth) t :=
          funext fun k => funext fun t => onTree_map (value depth) (keep k) t
        rw [openRecordOn, within, ← hkeep]
        exact recordMembers_append (fun f hf => hfields f hf depth)
          (fun k => (regular_value depth).map (keep k)) blank hms
    | _ => exact absurd rfl ht

end Records

/-! ## Names of fields -/

section Names

/-- All names under which a field may be written. -/
def RecordField.names (f : RecordField σ) : List String :=
  f.name :: f.aliases

lemma RecordField.isNamed_iff {f : RecordField σ} {k : String} :
    f.isNamed k = true ↔ k ∈ f.names := by
  simp [isNamed, names]

/-- No name belongs to two fields. -/
def Apart (fields : List (RecordField σ)) : Prop :=
  (fields.flatMap RecordField.names).Nodup

instance (fields : List (RecordField σ)) : Decidable (Apart fields) :=
  inferInstanceAs (Decidable (List.Nodup _))

variable {fields : List (RecordField σ)} {f : RecordField σ} {k : String}

lemma Apart.find?_eq_some (h : Apart fields) (hf : f ∈ fields) (hk : k ∈ f.names) :
    fields.find? (·.isNamed k) = some f := by
  induction fields with
  | nil => cases hf
  | cons g fs ih =>
    rw [Apart, List.flatMap_cons, List.nodup_append] at h
    rcases List.mem_cons.1 hf with rfl | hf
    · exact List.find?_cons_of_pos (RecordField.isNamed_iff.2 hk)
    · have hg : ¬g.isNamed k = true := by
        intro hg
        exact h.2.2 k (RecordField.isNamed_iff.1 hg) k (List.mem_flatMap.2 ⟨f, hf, hk⟩) rfl
      exact (List.find?_cons_of_neg (p := fun f : RecordField σ => f.isNamed k) hg).trans
        (ih h.2.1 hf)

lemma find?_isNamed_eq_none (h : ∀ f ∈ fields, k ∉ f.names) :
    fields.find? (·.isNamed k) = none :=
  List.find?_eq_none.2 fun f hf hk => h f hf (RecordField.isNamed_iff.1 hk)

end Names

/-! ## What a field puts into a record -/

section Puts

variable {α : Type} {f : RecordField σ} {put : α → σ → σ}

/-- Reading the field puts some value into the record. -/
def Puts (f : RecordField σ) (put : α → σ → σ) : Prop :=
  ∀ depth t change, onTree (f.read depth) t = .ok change → ∃ v, change = put v

lemma puts_of_map {r : (depth : Nat) → Reader α} (h : ∀ depth, f.read depth = put <$> r depth) :
    Puts f put := by
  intro depth t change hread
  rw [h, onTree_map] at hread
  obtain ⟨v, -, rfl⟩ := map_eq_ok_iff.1 hread
  exact ⟨v, rfl⟩

end Puts

end Dialogue.Json
