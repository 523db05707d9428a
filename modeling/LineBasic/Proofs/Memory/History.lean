import LineBasic.Proofs.Memory

/-!
# Memory is told by its history

What a memory answers follows from the operations that were done on it and
succeeded, and only those since it was last cleared count. A variable is there
if one of them made it. It is as long as the last one that gave it a length
says, and a slot holds what the last one that decided the slot put there.

* `Memory.Op`, `Memory.after`, `Memory.done`: operations, the memory after some
  of them, and those that succeeded.
* `Memory.Made`, `Memory.lengthOf`, `Memory.contentOf`: what the operations
  tell.
* `Memory.Op.tells`: what one operation changes, and `Memory.told_after` for all
  of them.
* `Memory.read_after`: what is read after some operations, and what other
  operations cannot change.
-/

namespace LineBasic

/-- The kind of the variables that hold such values. -/
def VariableKind.ofValue (x : Value) : VariableKind := if x.isNumeric then .numeric else .text

theorem VariableKind.accepts_ofValue (x : Value) : (ofValue x).accepts x = true := by
  unfold ofValue
  split
  case isTrue h => exact h
  case isFalse h => simpa [accepts] using h

/-! ### What a memory holds -/

/-- What a slot holds, if there is the slot. -/
def Variable.content (v : Variable) (index : Int64) : Option Value :=
  if 0 ≤ index.toInt then v.slots[index.toInt.toNat]?.join else none

namespace Variable

variable {v w : Variable} {index : Int64} {x : Value}

theorem read_eq (v : Variable) (index : Int64) :
    v.read index =
      if 0 ≤ index.toInt ∧ index.toInt.toNat < v.size then
        match v.content index with
        | some x => .ok x
        | none => .error (.unassignedVariable v.name)
      else .error (.subscript v.name index v.size) := by
  by_cases h : 0 ≤ index.toInt ∧ index.toInt.toNat < v.size
  · have hslot : v.slot index = .ok ⟨index.toInt.toNat, h.2⟩ := dif_pos h
    rw [if_pos h, read, hslot, content, if_pos h.1, Array.getElem?_eq_getElem h.2]
    rfl
  · have hslot : v.slot index = .error (.subscript v.name index v.size) := dif_neg h
    rw [if_neg h, read, hslot]

theorem write_eq_ok (h : v.write index x = .ok w) :
    ∃ hi : index.toInt.toNat < v.slots.size, 0 ≤ index.toInt ∧
      w = { v with slots := v.slots.set index.toInt.toNat (some x) hi } := by
  unfold write slot at h
  by_cases hi : 0 ≤ index.toInt ∧ index.toInt.toNat < v.slots.size
  · rw [dif_pos hi] at h
    dsimp only at h
    split at h
    · exact ⟨hi.2, hi.1, (Except.ok.inj h).symm⟩
    · cases h
  · rw [dif_neg hi] at h
    cases h

theorem size_of_write (h : v.write index x = .ok w) : w.size = v.size := by
  obtain ⟨hi, -, rfl⟩ := write_eq_ok h
  exact Array.size_set hi

theorem content_of_write (h : v.write index x = .ok w) (other : Int64) :
    w.content other = if index = other then some x else v.content other := by
  obtain ⟨hi, hindex, rfl⟩ := write_eq_ok h
  by_cases ho : 0 ≤ other.toInt
  · simp only [content, if_pos ho, Array.getElem?_set]
    by_cases he : index = other
    · subst he
      simp
    · have hne : index.toInt.toNat ≠ other.toInt.toNat := by
        intro hn
        exact he (Int64.toInt_inj.1 (by omega))
      rw [if_neg hne, if_neg he]
  · have he : index ≠ other := by
      rintro rfl
      exact ho hindex
    rw [content, if_neg ho, if_neg he, content, if_neg ho]

theorem content_blank (name : String) (kind : VariableKind) (size : Nat) (index : Int64) :
    (blank name kind size).content index = none := by
  unfold content blank
  split
  · rw [Array.getElem?_replicate]
    split <;> rfl
  · rfl

end Variable

namespace Memory

/-- What a slot of a variable holds, if there is the slot. -/
def content (m : Memory) (name : String) (index : Int64) : Option Value := (m.find? name).bind (·.content index)

/-- The number of slots of a variable. One that is missing would be made with
one slot. -/
def extent (m : Memory) (name : String) : Nat := ((m.find? name).map Variable.size).getD 1

variable {m m' : Memory} {name other : String} {index : Int64} {x : Value} {v w : Variable}

theorem read_eq (hm : m.Sound) (name : String) (index : Int64) :
    m.read name index =
      if (m.find? name).isSome then
        if 0 ≤ index.toInt ∧ index.toInt.toNat < m.extent name then
          match m.content name index with
          | some x => .ok x
          | none => .error (.unassignedVariable name)
        else .error (.subscript name index (m.extent name))
      else .error (.undefinedVariable name) := by
  unfold read find extent content
  cases hv : m.find? name with
  | none => rfl
  | some v =>
    have hname : v.name = name := (hm.variable_sound name v hv).name_eq
    refine (v.read_eq index).trans ?_
    rw [hname]
    rfl

/-- The memory has a variable in place of any other one of its name. -/
theorem find?_put_of_name (hw : w.name = name) :
    (m.put w).find? other = if name = other then some w else m.find? other := by
  rw [find?_put, hw]

theorem find?_put_blank (kind : VariableKind) (size : Nat) :
    (m.put (.blank name kind size)).find? other = if name = other then some (.blank name kind size) else m.find? other :=
  find?_put_of_name rfl

/-! ### Operations -/

/-- What can be done with a memory. A number is written as a number, and a text
as a text. -/
inductive Op where
  | clear
  | dim (name : String) (size : Int64) (kind : Option VariableKind)
  | write (name : String) (index : Int64) (x : Value)
  | storeLines (name : String) (texts : List String)

namespace Op

/-- Does an operation. The result of one that makes a variable is the memory
with it. -/
def apply (m : Memory) : Op → Except Halt Unit × Memory
  | clear => (.ok (), .empty)
  | dim name size kind => settle (m.dim name size kind)
  | write name index x =>
    ((m.write (.ofValue x) name index x).1.mapError .failed, (m.write (.ofValue x) name index x).2)
  | storeLines name texts => settle ((m.storeLines name texts).mapError .failed)
where
  settle : Except Halt Memory → Except Halt Unit × Memory
    | .ok m' => (.ok (), m')
    | .error h => (.error h, m)

/-- The variable that the operation is about. Clearing is about all of them. -/
def name? : Op → Option String
  | clear => none
  | dim name _ _ | write name _ _ | storeLines name _ => some name

def isClear : Op → Bool
  | clear => true
  | _ => false

/-- The operation makes the variable, if it is not there. -/
def makes (name : String) : Op → Bool
  | clear => false
  | dim n _ _ | storeLines n _ => n = name
  | write n index _ => n = name ∧ index = 0

/-- The number of slots that the operation gives to the variable. -/
def length? (name : String) : Op → Option Nat
  | dim n size _ => if n = name then some size.toInt.toNat else none
  | storeLines n texts => if n = name then some texts.length else none
  | clear | write _ _ _ => none

/-- What the slot holds after the operation, if that does not depend on what it
held before. -/
def content? (name : String) (index : Int64) : Op → Option (Option Value)
  | clear => none
  | dim n _ _ => if n = name then some none else none
  | write n i x => if n = name ∧ i = index then some (some x) else none
  | storeLines n texts =>
    if n = name then some (if 0 ≤ index.toInt then texts[index.toInt.toNat]?.map .text else none) else none

variable {op : Op}

theorem makes_of_ne (h : op.name? ≠ some name) : op.makes name = false := by
  cases op <;> simp_all [name?, makes]

theorem length?_of_ne (h : op.name? ≠ some name) : op.length? name = none := by
  cases op <;> simp_all [name?, length?]

theorem content?_of_ne (h : op.name? ≠ some name) : op.content? name index = none := by
  cases op <;> simp_all [name?, content?]

end Op

/-! ### What an operation changes -/

theorem provide_cases {kind : VariableKind} {mustExist : Bool} (h : m.provide name kind mustExist = .ok m') :
    ((m.find? name).isSome ∧ m' = m) ∨
      (m.find? name = none ∧ mustExist = false ∧ m' = m.put (.blank name (.ofName name) 1)) := by
  unfold provide at h
  split at h
  case isTrue hfound => exact .inl ⟨hfound, (Except.ok.inj h).symm⟩
  case isFalse hmissing =>
    split at h
    · cases h
    case isFalse hmust =>
      obtain ⟨-, -, rfl⟩ := make_eq_ok h
      exact .inr ⟨by simpa using hmissing, by simpa using hmust, rfl⟩

/-- A variable that is ensured was there, or was made with one slot. -/
theorem ensure_cases {kind : VariableKind} {mustExist : Bool} (h : m.ensure name kind mustExist = .ok (v, m')) :
    (m.find? name = some v ∧ m' = m) ∨
      (m.find? name = none ∧ mustExist = false ∧ v = .blank name (.ofName name) 1 ∧ m' = m.put v) := by
  obtain ⟨hp, hv⟩ := ensure_eq_ok h
  rcases provide_cases hp with ⟨-, rfl⟩ | ⟨hmissing, hmust, rfl⟩
  · exact .inl ⟨hv, rfl⟩
  · have hmade : v = .blank name (.ofName name) 1 := by
      rw [find?_put, if_pos (by rfl)] at hv
      exact (Option.some.inj hv).symm
    exact .inr ⟨hmissing, hmust, hmade, by rw [hmade]⟩

/-- **A write does one thing or nothing.** A value that is written to a variable
of its kind is in its slot, the variable being made if it is missing and slot 0
is written. A write that fails changes nothing. -/
theorem write_cases (hm : m.Sound) (name : String) (index : Int64) (x : Value) :
    (∃ e, m.write (.ofValue x) name index x = (.error e, m)) ∨
      ∃ v w m', m.write (.ofValue x) name index x = (.ok (), m') ∧ v.write index x = .ok w ∧
        (m.find? name = some v ∨ (m.find? name = none ∧ index = 0 ∧ v = .blank name (.ofName name) 1)) ∧
        ∀ other, m'.find? other = if name = other then some w else m.find? other := by
  unfold write
  cases he : m.ensure name (.ofValue x) (decide (index ≠ 0)) with
  | error e => exact .inl ⟨e, rfl⟩
  | ok p =>
    obtain ⟨v, m₁⟩ := p
    have hkind : v.kind = .ofValue x := kind_of_ensure he
    have haccepts : v.kind.accepts x = true := by
      rw [hkind]
      exact VariableKind.accepts_ofValue x
    have hsound : v.Sound name := (hm.provide (ensure_eq_ok he).1).variable_sound name v (ensure_eq_ok he).2
    dsimp only [writeSlot]
    rcases ensure_cases he with ⟨hv, rfl⟩ | ⟨hmissing, hindex, rfl, rfl⟩
    · cases hw : v.write index x with
      | error e => exact .inl ⟨e, rfl⟩
      | ok w => exact .inr ⟨v, w, _, rfl, hw, .inl hv, fun _ => find?_put_of_name (hsound.write hw).name_eq⟩
    · -- the slot of a variable just made can be written
      obtain rfl : index = 0 := by simpa using hindex
      obtain ⟨w, hw⟩ : ∃ w, (Variable.blank name (.ofName name) 1).write 0 x = .ok w := ⟨_, if_pos haccepts⟩
      have hname : w.name = name := (hsound.write hw).name_eq
      refine .inr ⟨_, w, (m.put (.blank name (.ofName name) 1)).put w, by rw [hw], hw, .inr ⟨hmissing, rfl, rfl⟩, ?_⟩
      intro other
      rw [find?_put_of_name hname, find?_put_blank]
      split <;> rfl

theorem storeLines_eq_ok {texts : List String} (h : m.storeLines name texts = .ok m') :
    ∀ other, m'.find? other =
      if name = other then some ⟨name, .text, (texts.map fun s => some (.text s)).toArray⟩ else m.find? other := by
  unfold storeLines at h
  cases hmake : m.make name (Int64.ofNat texts.length) .text with
  | error e =>
    rw [hmake] at h
    cases h
  | ok m₁ =>
    rw [hmake] at h
    obtain rfl := Except.ok.inj h
    obtain ⟨-, -, rfl⟩ := make_eq_ok hmake
    intro other
    rw [find?_put, find?_put_blank]
    dsimp only
    split <;> rfl

namespace Op

variable {op : Op}

theorem sound_apply (op : Op) (hm : m.Sound) : (op.apply m).2.Sound := by
  cases op with
  | clear => exact sound_empty
  | dim name size kind =>
    rw [apply]
    cases hd : m.dim name size kind with
    | error e => exact hm
    | ok m' => exact hm.make (make_of_dim hd)
  | write name index x => exact hm.write _ name index x
  | storeLines name texts =>
    rw [apply]
    cases hs : m.storeLines name texts with
    | error e => exact hm
    | ok m' => exact hm.storeLines hs

/-- An operation that fails changes nothing. -/
theorem apply_of_error (hm : m.Sound) {e : Halt} (h : (op.apply m).1 = .error e) : (op.apply m).2 = m := by
  cases op with
  | clear => cases h
  | dim name size kind =>
    rw [apply] at h ⊢
    cases hd : m.dim name size kind with
    | error e => rfl
    | ok m' =>
      rw [hd] at h
      cases h
  | write name index x =>
    rw [apply] at h ⊢
    rcases write_cases hm name index x with ⟨e', hw⟩ | ⟨v, w, m', hw, -⟩
    · rw [hw]
    · rw [hw] at h
      cases h
  | storeLines name texts =>
    rw [apply] at h ⊢
    cases hs : m.storeLines name texts with
    | error e => rfl
    | ok m' =>
      rw [hs] at h
      cases h

/-- What is known of the variable of a name after an operation, given what was
known before. -/
structure Tells (op : Op) (m m' : Memory) (name : String) : Prop where
  isSome_iff : (m'.find? name).isSome ↔ op.makes name = true ∨ (m.find? name).isSome
  extent_eq : m'.extent name = (op.length? name).getD (m.extent name)
  content_eq : ∀ index, m'.content name index = (op.content? name index).getD (m.content name index)

theorem tells_of_find?_eq (hname : op.name? ≠ some name) (h : m'.find? name = m.find? name) :
    op.Tells m m' name := by
  refine ⟨?_, ?_, fun index => ?_⟩
  · rw [h, makes_of_ne hname]
    simp
  · rw [length?_of_ne hname, extent, h]
    rfl
  · rw [content?_of_ne hname, content, h]
    rfl

/-- **What an operation that succeeds changes.** -/
theorem tells (hm : m.Sound) (hop : op.isClear = false) (h : op.apply m = (.ok (), m')) (name : String) :
    op.Tells m m' name := by
  -- each operation puts one variable, and variables of other names stay
  have key : ∀ w, (∀ other, m'.find? other = if op.name? = some other then some w else m.find? other) →
      (op.name? = some name → m'.find? name = some w → op.Tells m m' name) → op.Tells m m' name := by
    intro w hfind hsame
    by_cases hname : op.name? = some name
    · exact hsame hname (by rw [hfind, if_pos hname])
    · exact tells_of_find?_eq hname (by rw [hfind, if_neg hname])
  cases op with
  | clear => cases hop
  | dim n size kind =>
    rw [apply] at h
    cases hd : m.dim n size kind with
    | error e =>
      rw [hd] at h
      cases h
    | ok m₁ =>
      rw [hd] at h
      obtain rfl : m₁ = m' := congrArg Prod.snd h
      obtain ⟨-, -, hput⟩ := make_eq_ok (make_of_dim hd)
      refine key (.blank n (.ofName n) size.toInt.toNat) (fun other => by rw [hput, find?_put_blank]; simp [name?]) ?_
      intro hname hfound
      obtain rfl : n = name := Option.some.inj hname
      refine ⟨?_, ?_, fun index => ?_⟩
      · simp [hfound, makes]
      · simp [extent, hfound, length?, Variable.size, Variable.blank]
      · simp [content, hfound, content?, Variable.content_blank]
  | write n index x =>
    rw [apply] at h
    rcases write_cases hm n index x with ⟨e, hw⟩ | ⟨v, w, m₁, hw, hwrite, hv, hfind⟩
    · rw [hw] at h
      cases h
    rw [hw] at h
    obtain rfl : m₁ = m' := congrArg Prod.snd h
    refine key w (fun other => by simp [hfind, name?]) ?_
    intro hname hfound
    obtain rfl : n = name := Option.some.inj hname
    have hcontent : ∀ other, m.content n other = v.content other := by
      intro other
      rcases hv with hv | ⟨hv, -, rfl⟩
      · simp [content, hv]
      · simp [content, hv, Variable.content_blank]
    have hextent : m.extent n = v.size := by
      rcases hv with hv | ⟨hv, -, rfl⟩
      · simp [extent, hv]
      · simp [extent, hv, Variable.size, Variable.blank]
    refine ⟨?_, ?_, fun other => ?_⟩
    · rw [hfound]
      rcases hv with hv | ⟨-, hindex, -⟩
      · simp [hv]
      · simp [makes, hindex]
    · rw [hextent, ← Variable.size_of_write hwrite]
      simp [extent, hfound, length?]
    · have hother : m₁.content n other = w.content other := by simp [content, hfound]
      rw [hother, hcontent, Variable.content_of_write hwrite]
      by_cases he : index = other
      · simp [he, content?]
      · simp [he, content?]
  | storeLines n texts =>
    rw [apply] at h
    cases hs : m.storeLines n texts with
    | error e =>
      rw [hs] at h
      cases h
    | ok m₁ =>
      rw [hs] at h
      obtain rfl : m₁ = m' := congrArg Prod.snd h
      have hfind := storeLines_eq_ok hs
      refine key _ (fun other => by simp [hfind, name?]; rfl) ?_
      intro hname hfound
      obtain rfl : n = name := Option.some.inj hname
      refine ⟨?_, ?_, fun index => ?_⟩
      · simp [hfound, makes]
      · simp [extent, hfound, length?, Variable.size]
      · simp only [content, hfound, content?, if_true, Option.bind_some, Option.getD_some, Variable.content]
        split
        · rw [List.getElem?_toArray, List.getElem?_map]
          cases texts[index.toInt.toNat]? <;> rfl
        · rfl

end Op

/-! ### Histories -/

/-- The memory after some operations, of which the last comes first. -/
def after : List Op → Memory
  | [] => .empty
  | op :: earlier => (op.apply (after earlier)).2

/-- Those of the operations that succeeded. -/
def done : List Op → List Op
  | [] => []
  | op :: earlier =>
    match (op.apply (after earlier)).1 with
    | .ok _ => op :: done earlier
    | .error _ => done earlier

/-- The operations since the memory was last cleared. -/
def sinceClear (ops : List Op) : List Op := ops.takeWhile (!·.isClear)

/-- The operations made the variable. -/
def Made (ops : List Op) (name : String) : Prop := ∃ op ∈ sinceClear ops, op.makes name = true

instance (ops : List Op) (name : String) : Decidable (Made ops name) :=
  inferInstanceAs (Decidable (∃ op ∈ sinceClear ops, op.makes name = true))

/-- The number of slots that the variable was last given, or one. -/
def lengthOf (ops : List Op) (name : String) : Nat := ((sinceClear ops).findSome? (·.length? name)).getD 1

/-- What the last operation that decided about the slot put there. -/
def contentOf (ops : List Op) (name : String) (index : Int64) : Option Value :=
  ((sinceClear ops).findSome? (·.content? name index)).join

/-- What is read after the operations succeeded. -/
def answer (ops : List Op) (name : String) (index : Int64) : Except Error Value :=
  if Made ops name then
    if 0 ≤ index.toInt ∧ index.toInt.toNat < lengthOf ops name then
      match contentOf ops name index with
      | some x => .ok x
      | none => .error (.unassignedVariable name)
    else .error (.subscript name index (lengthOf ops name))
  else .error (.undefinedVariable name)

/-- The memory is as the operations tell. -/
structure Told (ops : List Op) (m : Memory) : Prop where
  sound : m.Sound
  isSome_iff : ∀ name, (m.find? name).isSome ↔ Made ops name
  extent_eq : ∀ name, m.extent name = lengthOf ops name
  content_eq : ∀ name index, m.content name index = contentOf ops name index

variable {op : Op} {ops : List Op}

theorem sinceClear_cons (hop : op.isClear = false) : sinceClear (op :: ops) = op :: sinceClear ops := by
  simp [sinceClear, hop]

theorem told_of_sinceClear_nil (h : sinceClear ops = []) : Told ops .empty := by
  have hfind : ∀ name, Memory.empty.find? name = none := fun name => by simp [find?, empty]
  refine ⟨sound_empty, fun name => ?_, fun name => ?_, fun name index => ?_⟩
  · simp [Made, h, hfind]
  · simp [lengthOf, h, extent, hfind]
  · simp [contentOf, h, content, hfind]

/-- What the operations tell is what the last one tells, given the others. -/
theorem Told.cons (h : Told ops m) (happly : op.apply m = (.ok (), m')) : Told (op :: ops) m' := by
  cases hop : op.isClear with
  | true =>
    obtain rfl : op = .clear := by
      cases op with
      | clear => rfl
      | _ => cases hop
    obtain rfl : .empty = m' := congrArg Prod.snd happly
    exact told_of_sinceClear_nil rfl
  | false =>
    have hsince : sinceClear (op :: ops) = op :: sinceClear ops := sinceClear_cons hop
    have htells := Op.tells h.sound hop happly
    have hsound : m'.Sound := by
      have := op.sound_apply h.sound
      rwa [happly] at this
    refine ⟨hsound, fun name => ?_, fun name => ?_, fun name index => ?_⟩
    · rw [(htells name).isSome_iff, h.isSome_iff, Made, Made, hsince, List.exists_mem_cons_iff]
    · rw [(htells name).extent_eq, h.extent_eq, lengthOf, lengthOf, hsince, List.findSome?_cons]
      cases op.length? name <;> rfl
    · rw [(htells name).content_eq, h.content_eq, contentOf, contentOf, hsince, List.findSome?_cons]
      cases op.content? name index <;> rfl

/-- **The operations that succeeded tell what the memory is.** -/
theorem told_after (ops : List Op) : Told (done ops) (after ops) := by
  induction ops with
  | nil => exact told_of_sinceClear_nil rfl
  | cons op earlier ih =>
    rw [done, after]
    cases hr : (op.apply (after earlier)).1 with
    | ok _ => exact ih.cons (Prod.ext hr rfl)
    | error e =>
      rw [Op.apply_of_error ih.sound hr]
      exact ih

theorem Told.read_eq (h : Told ops m) (name : String) (index : Int64) : m.read name index = answer ops name index := by
  rw [Memory.read_eq h.sound, h.extent_eq, h.content_eq]
  simp only [h.isSome_iff]
  rfl

/-! ### What an operation leaves as it is -/

theorem contentOf_cons (hop : op.isClear = false) (h : op.content? name index = none) :
    contentOf (op :: ops) name index = contentOf ops name index := by
  rw [contentOf, sinceClear_cons hop, List.findSome?_cons, h]
  rfl

theorem answer_cons (hop : op.isClear = false) (hmade : op.makes name = true → Made ops name)
    (hlength : op.length? name = none) (hcontent : op.content? name index = none) :
    answer (op :: ops) name index = answer ops name index := by
  have h1 : Made (op :: ops) name ↔ Made ops name := by
    rw [Made, sinceClear_cons hop, List.exists_mem_cons_iff]
    exact or_iff_right_of_imp hmade
  have h2 : lengthOf (op :: ops) name = lengthOf ops name := by
    rw [lengthOf, sinceClear_cons hop, List.findSome?_cons, hlength]
    rfl
  simp only [answer, h1, h2, contentOf_cons hop hcontent]

/-- An operation shows only if it succeeds. -/
theorem done_cons (op : Op) (ops : List Op) : done (op :: ops) = op :: done ops ∨ done (op :: ops) = done ops := by
  rw [done]
  cases (op.apply (after ops)).1 with
  | ok _ => exact .inl rfl
  | error e => exact .inr rfl

theorem read_cons (h : answer (op :: done ops) name index = answer (done ops) name index) :
    (after (op :: ops)).read name index = (after ops).read name index := by
  rw [(told_after (op :: ops)).read_eq, (told_after ops).read_eq]
  rcases done_cons op ops with hd | hd
  · rw [hd, h]
  · rw [hd]

theorem toOption_read_of_contentOf (h : contentOf (done ops) name index = none) :
    ((after ops).read name index).toOption = none := by
  rw [(told_after ops).read_eq, answer, h]
  split
  · split <;> rfl
  · rfl

/-- A write to another slot does not change the value that is read, or that
there is none. If the variable was there, it does not change the error
either. -/
theorem read_write_other {other : Int64} (h : other ≠ index) (x : Value) :
    ((after (.write name other x :: ops)).read name index).toOption = ((after ops).read name index).toOption ∧
      (Made (done ops) name → (after (.write name other x :: ops)).read name index = (after ops).read name index) := by
  have hcontent : (Op.write name other x).content? name index = none := if_neg fun hn => h hn.2
  have hsame : Made (done ops) name →
      (after (.write name other x :: ops)).read name index = (after ops).read name index :=
    fun hmade => read_cons (answer_cons rfl (fun _ => hmade) rfl hcontent)
  refine ⟨?_, hsame⟩
  by_cases hmade : Made (done ops) name
  · rw [hsame hmade]
  · -- a variable that is missing holds nothing, and slot 0 is not the one that is read
    have hnone : contentOf (done ops) name index = none := by
      have hmissing : (after ops).find? name = none := by
        rw [← Option.not_isSome_iff_eq_none, (told_after ops).isSome_iff]
        exact hmade
      rw [← (told_after ops).content_eq, content, hmissing]
      rfl
    have hstill : contentOf (done (.write name other x :: ops)) name index = none := by
      rcases done_cons (.write name other x) ops with hd | hd
      · rw [hd, contentOf_cons rfl hcontent, hnone]
      · rw [hd, hnone]
    rw [toOption_read_of_contentOf hnone, toOption_read_of_contentOf hstill]

/-! ### Reading by kind -/

theorem Sound.readKind_eq_ok_iff (hm : m.Sound) {kind : VariableKind} :
    m.readKind kind name index = .ok x ↔ VariableKind.ofName name = kind ∧ m.read name index = .ok x := by
  unfold readKind read find
  cases hv : m.find? name with
  | none => simp [bind, Except.bind]
  | some v =>
    have hkind : v.kind = .ofName name := (hm.variable_sound name v hv).kind_eq
    simp only [bind, Except.bind, Variable.ofKind, hkind]
    by_cases hk : VariableKind.ofName name = kind
    · simp [hk]
    · simp [hk]

/-- What is read is of the kind of the variable. -/
theorem Sound.accepts_of_read (hm : m.Sound) (h : m.read name index = .ok x) :
    (VariableKind.ofName name).accepts x = true := by
  unfold read find at h
  cases hv : m.find? name with
  | none =>
    rw [hv] at h
    cases h
  | some v =>
    rw [hv] at h
    have hread : v.read index = .ok x := h
    have hsound := hm.variable_sound name v hv
    rw [← hsound.kind_eq]
    refine hsound.accepts x ?_
    unfold Variable.read at hread
    split at hread
    · cases hread
    case h_2 i _ =>
      split at hread
      case h_1 y hy =>
        obtain rfl := Except.ok.inj hread
        exact hy ▸ Array.getElem_mem i.isLt
      case h_2 => cases hread

theorem Sound.readNumber_iff (hm : m.Sound) :
    m.readNumber name index = .ok x ↔
      name.toList.getLast? ≠ some '$' ∧ x.isNumeric = true ∧ m.read name index = .ok x := by
  have hkind : VariableKind.ofName name = .numeric ↔ name.toList.getLast? ≠ some '$' := by
    unfold VariableKind.ofName
    split <;> simp [*]
  rw [readNumber, hm.readKind_eq_ok_iff, hkind]
  refine and_congr_right fun hname => ?_
  refine ⟨fun hread => ⟨?_, hread⟩, fun h => h.2⟩
  have := hm.accepts_of_read hread
  rwa [hkind.2 hname] at this

theorem Sound.readText_iff (hm : m.Sound) {s : String} :
    m.readText name index = .ok s ↔
      name.toList.getLast? = some '$' ∧ m.read name index = .ok (.text s) := by
  have hkind : VariableKind.ofName name = .text ↔ name.toList.getLast? = some '$' := by
    unfold VariableKind.ofName
    split <;> simp [*]
  rw [← hkind, ← hm.readKind_eq_ok_iff, readText]
  cases m.readKind .text name index with
  | error e => simp [bind, Except.bind]
  | ok y => cases y <;> simp [bind, Except.bind, Value.toText]

/-! ### The memory and its history -/

/-- **Memory is a store of typed arrays that its history tells.** After any
operations, a variable is there if and only if one of those that succeeded made
it since the last clearing, and it has as many slots as it was last given. What
is read is the error for a missing variable, a missing slot or a slot without a
value, in this order, or else what was last written. Operations on other
variables change nothing of that, nor do writes to other slots, except that
slots other than 0 of a missing variable are past the end of it when slot 0 was
written. Numbers are read from variables whose names do not end in `$`, and
texts from the others. -/
theorem read_after (ops : List Op) (name : String) (index : Int64) :
    (((after ops).find? name).isSome ↔ Made (done ops) name) ∧
    (∀ v, (after ops).find? name = some v → v.size = lengthOf (done ops) name) ∧
    (after ops).read name index = answer (done ops) name index ∧
    (∀ op : Op, op ≠ .clear → op.name? ≠ some name →
      (after (op :: ops)).read name index = (after ops).read name index) ∧
    (∀ other x, other ≠ index →
      ((after (.write name other x :: ops)).read name index).toOption = ((after ops).read name index).toOption ∧
      (Made (done ops) name →
        (after (.write name other x :: ops)).read name index = (after ops).read name index)) ∧
    (∀ x, (after ops).readNumber name index = .ok x ↔
      name.toList.getLast? ≠ some '$' ∧ x.isNumeric = true ∧ (after ops).read name index = .ok x) ∧
    (∀ s, (after ops).readText name index = .ok s ↔
      name.toList.getLast? = some '$' ∧ (after ops).read name index = .ok (.text s)) := by
  have h := told_after ops
  refine ⟨h.isSome_iff name, ?_, h.read_eq name index, ?_, fun other x hne => read_write_other hne x,
    fun x => h.sound.readNumber_iff, fun s => h.sound.readText_iff⟩
  · intro v hv
    rw [← h.extent_eq, extent, hv]
    rfl
  · intro op hop hname
    have hclear : op.isClear = false := by
      cases op with
      | clear => exact absurd rfl hop
      | _ => rfl
    refine read_cons (answer_cons hclear ?_ (Op.length?_of_ne hname) (Op.content?_of_ne hname))
    intro hmakes
    rw [Op.makes_of_ne hname] at hmakes
    cases hmakes

-- An array that was made anew after its slot 1 was written, and then written in
-- slot 2 and past its end.
theorem read_after_remade :
    (after [.write "A" 3 (.integer 9), .write "A" 2 (.integer 7), .dim "A" 3 none, .write "A" 1 (.integer 5),
        .dim "A" 2 none]).read "A" 2 = .ok (.integer 7) ∧
      (after [.write "A" 3 (.integer 9), .write "A" 2 (.integer 7), .dim "A" 3 none, .write "A" 1 (.integer 5),
        .dim "A" 2 none]).read "A" 1 = .error (.unassignedVariable "A") := by
  refine ⟨(read_after _ "A" 2).2.2.1.trans ?_, (read_after _ "A" 1).2.2.1.trans ?_⟩
  · rfl
  · rfl

end Memory

end LineBasic
