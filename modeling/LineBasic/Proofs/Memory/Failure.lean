import LineBasic.Proofs.Memory.History

/-!
# Stores that fail

A store changes a memory step by step. A variable is made before its kind, the
slot and the value are looked at, and an array is made before it is filled with
lines. An error may come up at any of these steps, or an array be too large, and
what was changed by then stays changed. All the same, a store that fails leaves
the memory as it was, with one exception: a text that is written as a number to
a variable that is missing. The variable has been made when the text is refused,
and it stays.

* `Memory.Work`: what is done to a memory in place, step by step.
* `Memory.Work.ensure_eq`, `Memory.Work.write_eq`, `Memory.Work.storeLines_eq`:
  the steps end where the operations say.
* `Memory.failed_store`: what a store that fails leaves behind.
-/

namespace LineBasic.Memory

variable {m m' : Memory} {name : String} {v w : Variable} {kind : VariableKind} {index : Int64} {x : Value}

/-! ### Changes in place -/

/-- What is done to a memory in place. What was changed before an error stays
changed. -/
abbrev Work := EStateM Halt Memory

namespace Work

/-- Goes on with a result, or breaks off. -/
def ofExcept {α : Type} : Except Error α → Work α
  | .ok a => pure a
  | .error e => throw (.failed e)

/-- Breaks off if no variable can be made. -/
def approve (name : String) (size : Int64) (kind : VariableKind) : Work Unit := do
  if VariableKind.ofName name ≠ kind then throw (.failed (.nameRefused name kind.label))
  else if size.toInt < 0 then throw (.failed (.negativeSize name size))
  else if capacity < (← get).count then throw (.failed .memoryFull)
  else pure ()

/-- Makes a variable without values, whose slots fit. -/
def make (name : String) (size : Int64) (kind : VariableKind) : Work Unit := do
  approve name size kind
  modify (·.put (.blank name kind size.toInt.toNat))

/-- Makes a variable without values. -/
def dim (name : String) (size : Int64) (kind : Option VariableKind) : Work Unit := do
  let kind := kind.getD (.ofName name)
  approve name size kind
  if Variable.largest < size.toInt.toNat then throw .aborted
  else modify (·.put (.blank name kind size.toInt.toNat))

/-- Makes a variable with one slot if it is missing, unless it must exist. -/
def provide (name : String) (kind : VariableKind) (mustExist : Bool) : Work Unit := do
  if ((← get).find? name).isSome then pure ()
  else if mustExist then throw (.failed (.undefinedVariable name))
  else make name 1 kind

/-- The variable of a name. If it is missing it is made, and only then its kind
is looked at. -/
def ensure (name : String) (kind : VariableKind) (mustExist : Bool) : Work Variable := do
  provide name kind mustExist
  match (← get).find? name with
  | some v => ofExcept (v.ofKind kind)
  | none => throw (.failed .variableVanished)

/-- Writes a slot of a variable, which is made if it is missing. -/
def write (kind : VariableKind) (name : String) (index : Int64) (x : Value) : Work Unit := do
  let v ← ensure name kind (index ≠ 0)
  let w ← ofExcept (v.write index x)
  modify (·.put w)

/-- Writes texts to the slots from `i` on. -/
def fill (name : String) (i : Nat) : List String → Work Unit
  | [] => pure ()
  | s :: rest => do
    write .text name (Int64.ofNat i) (.text s)
    fill name (i + 1) rest

/-- Makes a variable, and then fills it with texts. -/
def storeLines (name : String) (texts : List String) : Work Unit := do
  make name (Int64.ofNat texts.length) .text
  fill name 0 texts

theorem get_bind {α : Type} (f : Memory → Work α) (m : Memory) : (get >>= f) m = f m m := rfl

theorem bind_ok {α β : Type} {work : Work α} {a : α} (h : work m = .ok a m') (f : α → Work β) :
    (work >>= f) m = f a m' := by
  show EStateM.bind work f m = _
  rw [EStateM.bind, h]

theorem bind_error {α β : Type} {work : Work α} {e : Halt} (h : work m = .error e m') (f : α → Work β) :
    (work >>= f) m = .error e m' := by
  show EStateM.bind work f m = _
  rw [EStateM.bind, h]

end Work

/-! ### The steps and the operations -/

/-- What there is in place after an operation whose result is a memory. -/
def replaced (m : Memory) : Except Halt Memory → EStateM.Result Halt Memory Unit
  | .ok m' => .ok () m'
  | .error e => .error e m

/-- What there is in place after an operation that says what it leaves. -/
def changed : Except Error Unit × Memory → EStateM.Result Halt Memory Unit
  | (.ok (), m') => .ok () m'
  | (.error e, m') => .error (.failed e) m'

theorem Work.approve_eq (m : Memory) (name : String) (size : Int64) (kind : VariableKind) :
    Work.approve name size kind m =
      match m.refusal? name size kind with
      | some e => .error (.failed e) m
      | none => .ok () m := by
  unfold Work.approve Memory.refusal?
  split
  · rfl
  split
  · rfl
  rw [Work.get_bind]
  split
  · rfl
  · rfl

theorem Work.make_eq (m : Memory) (name : String) (size : Int64) (kind : VariableKind) :
    Work.make name size kind m = replaced m ((m.make name size kind).mapError .failed) := by
  unfold Work.make Memory.make
  have happrove := Work.approve_eq m name size kind
  cases hrefusal : m.refusal? name size kind with
  | some e =>
    rw [hrefusal] at happrove
    exact Work.bind_error happrove _
  | none =>
    rw [hrefusal] at happrove
    exact Work.bind_ok happrove _

theorem Work.dim_eq (m : Memory) (name : String) (size : Int64) (kind : Option VariableKind) :
    Work.dim name size kind m = replaced m (m.dim name size kind) := by
  unfold Work.dim Memory.dim
  have happrove := Work.approve_eq m name size (kind.getD (.ofName name))
  cases hrefusal : m.refusal? name size (kind.getD (.ofName name)) with
  | some e =>
    rw [hrefusal] at happrove
    simp only [hrefusal]
    exact Work.bind_error happrove _
  | none =>
    rw [hrefusal] at happrove
    simp only [hrefusal]
    refine (Work.bind_ok happrove _).trans ?_
    split
    · rfl
    · rfl

theorem Work.provide_eq (m : Memory) (name : String) (kind : VariableKind) (mustExist : Bool) :
    Work.provide name kind mustExist m = replaced m ((m.provide name kind mustExist).mapError .failed) := by
  unfold Work.provide Memory.provide
  rw [Work.get_bind]
  split
  · rfl
  split
  · rfl
  · exact Work.make_eq m name 1 kind

/-- A variable that was made is of the kind that was asked for. -/
theorem ofKind_of_provide (hmissing : m.find? name = none) {mustExist : Bool}
    (h : m.provide name kind mustExist = .ok m') (hv : m'.find? name = some v) : v.ofKind kind = .ok v := by
  simp only [provide, hmissing, Option.isSome_none, Bool.false_eq_true, if_false] at h
  split at h
  · cases h
  · obtain ⟨hkind, -, hput⟩ := make_eq_ok h
    rw [hput, find?_put_blank, if_pos rfl] at hv
    obtain rfl := Option.some.inj hv
    exact if_pos hkind.symm

/-- **Ensuring a variable in place** changes nothing if it fails, although the
kind is looked at last. -/
theorem Work.ensure_eq (m : Memory) (name : String) (kind : VariableKind) (mustExist : Bool) :
    Work.ensure name kind mustExist m =
      match m.ensure name kind mustExist with
      | .ok (v, m') => .ok v m'
      | .error e => .error (.failed e) m := by
  unfold Work.ensure Memory.ensure
  have hprovide := Work.provide_eq m name kind mustExist
  cases hp : m.provide name kind mustExist with
  | error e =>
    rw [hp] at hprovide
    exact Work.bind_error hprovide _
  | ok m₁ =>
    rw [hp] at hprovide
    obtain ⟨v, hv⟩ := Option.isSome_iff_exists.1 (isSome_find?_provide hp)
    rw [Work.bind_ok hprovide, Work.get_bind]
    simp only [hv, bind, Except.bind]
    rcases provide_cases hp with ⟨-, rfl⟩ | ⟨hmissing, -, -⟩
    · -- the variable was there, and is left alone
      cases v.ofKind kind <;> rfl
    · -- what was made is of the right kind, so nothing can fail any more
      rw [ofKind_of_provide hmissing hp hv]
      rfl

theorem Work.write_eq (m : Memory) (kind : VariableKind) (name : String) (index : Int64) (x : Value) :
    Work.write kind name index x m = changed (m.write kind name index x) := by
  unfold Work.write Memory.write
  have hensure := Work.ensure_eq m name kind (index ≠ 0)
  cases he : m.ensure name kind (index ≠ 0) with
  | error e =>
    rw [he] at hensure
    exact Work.bind_error hensure _
  | ok p =>
    obtain ⟨v, m₁⟩ := p
    rw [he] at hensure
    refine (Work.bind_ok hensure _).trans ?_
    dsimp only [writeSlot]
    cases v.write index x with
    | error e => rfl
    | ok w => rfl

/-! ### Filling an array -/

/-- The variable that holds texts in its first slots, and has room for some
more. -/
def partly (name : String) (front : List String) (more : Nat) : Variable :=
  ⟨name, .text, (front.map (fun s => some (Value.text s)) ++ List.replicate more none).toArray⟩

theorem partly_nil (name : String) (more : Nat) : partly name [] more = .blank name .text more := by
  simp [partly, Variable.blank]

/-- The next slot is written. -/
theorem write_partly (front : List String) (s : String) (more : Nat) (h : front.length < 9223372036854775808) :
    (partly name front (more + 1)).write (Int64.ofNat front.length) (.text s) =
      .ok (partly name (front ++ [s]) more) := by
  have hindex : (Int64.ofNat front.length).toInt = front.length := Int64.toInt_ofNat_of_lt h
  have hsize : front.length < (partly name front (more + 1)).slots.size := by simp [partly]
  have hslot : (partly name front (more + 1)).slot (Int64.ofNat front.length) = .ok ⟨front.length, hsize⟩ := by
    rw [Variable.slot_eq_ok_iff, hindex]
    exact ⟨by omega, Int.toNat_natCast _⟩
  rw [Variable.write, hslot]
  simp [partly, VariableKind.accepts, Value.isNumeric, List.replicate_succ]

/-- A write to a variable that is there. -/
theorem write_of_find? (hv : m.find? name = some v) (hkind : v.kind = kind) (hw : v.write index x = .ok w) :
    m.write kind name index x = (.ok (), m.put w) := by
  have hensure : m.ensure name kind (index ≠ 0) = .ok (v, m) := by
    simp [ensure, provide, hv, Variable.ofKind, hkind, bind, Except.bind, pure, Except.pure]
  simp only [write, hensure, writeSlot, hw]

theorem put_of_find? (hv : m.find? name = some v) (hname : v.name = name) : m.put v = m := by
  refine ext_find? fun other => ?_
  rw [find?_put_of_name hname]
  split
  case isTrue h => rw [← h, hv]
  case isFalse => rfl

/-- **Filling an array** succeeds slot by slot. -/
theorem Work.fill_eq (front texts : List String) (hlength : front.length + texts.length < 9223372036854775808)
    (hfind : m.find? name = some (partly name front texts.length)) :
    Work.fill name front.length texts m = .ok () (m.put (partly name (front ++ texts) 0)) := by
  induction texts generalizing front m with
  | nil =>
    have hsame : m.put (partly name front 0) = m := put_of_find? hfind rfl
    rw [List.append_nil, hsame]
    rfl
  | cons s rest ih =>
    simp only [List.length_cons] at hlength hfind
    have hw : (partly name front (rest.length + 1)).write (Int64.ofNat front.length) (.text s) =
        .ok (partly name (front ++ [s]) rest.length) := write_partly front s rest.length (by omega)
    have hkind : (partly name front (rest.length + 1)).kind = .text := rfl
    have hstep : Work.write .text name (Int64.ofNat front.length) (.text s) m =
        .ok () (m.put (partly name (front ++ [s]) rest.length)) := by
      rw [Work.write_eq, write_of_find? hfind hkind hw]
      rfl
    have hnext : (m.put (partly name (front ++ [s]) rest.length)).find? name =
        some (partly name (front ++ [s]) rest.length) := by
      rw [find?_put, if_pos (by rfl)]
    have hrest := ih (front ++ [s]) (by simp; omega) hnext
    rw [put_put _ (by rfl), List.append_assoc, List.singleton_append, List.length_append] at hrest
    exact (Work.bind_ok hstep _).trans hrest

/-- **Storing lines in place** fails before the array is made, or not at all. -/
theorem Work.storeLines_eq (m : Memory) (name : String) {texts : List String}
    (hlength : texts.length < 9223372036854775808) :
    Work.storeLines name texts m = replaced m ((m.storeLines name texts).mapError .failed) := by
  unfold Work.storeLines Memory.storeLines
  have hmake := Work.make_eq m name (Int64.ofNat texts.length) .text
  cases hm : m.make name (Int64.ofNat texts.length) .text with
  | error e =>
    rw [hm] at hmake
    exact Work.bind_error hmake _
  | ok m₁ =>
    rw [hm] at hmake
    obtain ⟨hkind, -, hput⟩ := make_eq_ok hm
    have hsize : (Int64.ofNat texts.length).toInt.toNat = texts.length := by
      rw [Int64.toInt_ofNat_of_lt hlength]
      omega
    have hfind : m₁.find? name = some (partly name [] texts.length) := by
      rw [hput, ← hkind, hsize, find?_put_blank, if_pos rfl, partly_nil]
    have hfill := Work.fill_eq [] texts (by simpa using hlength) hfind
    refine (Work.bind_ok hmake _).trans (hfill.trans ?_)
    simp [partly, replaced, bind, Except.bind, pure, Except.pure, Except.mapError]

/-! ### Writes that fail -/

/-- A write that fails has changed nothing, or it has made the variable and the
variable refuses the value. -/
theorem write_eq_error {e : Error} (h : m.write kind name index x = (.error e, m')) :
    m' = m ∨ (m.find? name = none ∧ index = 0 ∧ VariableKind.ofName name = kind ∧ m.count ≤ capacity ∧
      kind.accepts x = false) := by
  unfold write at h
  cases he : m.ensure name kind (index ≠ 0) with
  | error e' =>
    rw [he] at h
    exact .inl (congrArg Prod.snd h).symm
  | ok p =>
    obtain ⟨v, m₁⟩ := p
    rw [he] at h
    unfold writeSlot at h
    cases hw : v.write index x with
    | ok w =>
      simp only [hw] at h
      cases congrArg Prod.fst h
    | error e' =>
      simp only [hw] at h
      have hm : m₁ = m' := congrArg Prod.snd h
      rcases ensure_cases he with ⟨-, hsame⟩ | ⟨hmissing, hindex, hblank, -⟩
      · exact .inl (hm.symm.trans hsame)
      · -- slot 0 of the new variable is there, so it is the value that is refused
        have hzero : index = 0 := by simpa using hindex
        have hkind : VariableKind.ofName name = kind := by
          have := kind_of_ensure he
          rwa [hblank] at this
        refine .inr ⟨hmissing, hzero, hkind, ?_, ?_⟩
        · have hprovide := (ensure_eq_ok he).1
          simp only [provide, hmissing, hindex, Option.isSome_none, Bool.false_eq_true, if_false] at hprovide
          exact (make_eq_ok hprovide).2.1
        · by_contra haccepts
          rw [hblank, hzero, hkind] at hw
          have hok : (Variable.blank name kind 1).write 0 x = .ok _ := if_pos (Bool.eq_true_of_not_eq_false haccepts)
          rw [hok] at hw
          cases hw

/-- A value that is refused by the variable that was made for it. -/
theorem write_refused (hmissing : m.find? name = none) (hkind : VariableKind.ofName name = kind)
    (hroom : m.count ≤ capacity) (hrefused : kind.accepts x = false) :
    m.write kind name 0 x = (.error (.valueRefused name x.kind.label), m.put (.blank name kind 1)) := by
  have hw : (Variable.blank name kind 1).write 0 x = .error (.valueRefused name x.kind.label) :=
    if_neg (by simpa [Variable.blank] using hrefused)
  simp only [write, ensure_of_missing hmissing hroom hkind, writeSlot, hw]

/-! ### Stores -/

/-- What stores something in a memory. -/
inductive Store where
  | dim (name : String) (size : Int64) (kind : Option VariableKind)
  | ensure (name : String) (kind : VariableKind) (mustExist : Bool)
  /-- Writes a value as a number. -/
  | writeNumber (name : String) (index : Int64) (x : Value)
  | writeText (name : String) (index : Int64) (s : String)
  | storeLines (name : String) (texts : List String)

namespace Store

/-- Stores in place. -/
def run : Store → Work Unit
  | dim name size kind => Work.dim name size kind
  | ensure name kind mustExist => do let _ ← Work.ensure name kind mustExist
  | writeNumber name index x => Work.write .numeric name index x
  | writeText name index s => Work.write .text name index (.text s)
  | storeLines name texts => Work.storeLines name texts

/-- What the operations of the memory say. -/
def outcome (m : Memory) : Store → EStateM.Result Halt Memory Unit
  | dim name size kind => replaced m (m.dim name size kind)
  | ensure name kind mustExist => replaced m (((m.ensure name kind mustExist).map Prod.snd).mapError .failed)
  | writeNumber name index x => changed (m.write .numeric name index x)
  | writeText name index s => changed (m.write .text name index (.text s))
  | storeLines name texts => replaced m ((m.storeLines name texts).mapError .failed)

/-- The slots of an array can be counted. -/
def Fits : Store → Prop
  | storeLines _ texts => texts.length < 9223372036854775808
  | _ => True

/-- A text is written as a number to slot 0 of a variable that is missing, can
hold numbers, and finds room. -/
def Strays (m : Memory) (name : String) : Store → Prop
  | writeNumber n index x =>
    n = name ∧ index = 0 ∧ x.isNumeric = false ∧ VariableKind.ofName name = .numeric ∧ m.find? name = none ∧
      m.count ≤ capacity
  | _ => False

theorem run_eq_outcome (m : Memory) {s : Store} (hs : s.Fits) : s.run m = s.outcome m := by
  cases s with
  | dim name size kind => exact Work.dim_eq m name size kind
  | ensure name kind mustExist =>
    have hensure := Work.ensure_eq m name kind mustExist
    rw [run, outcome]
    cases he : m.ensure name kind mustExist with
    | error e =>
      rw [he] at hensure
      exact Work.bind_error hensure _
    | ok p =>
      rw [he] at hensure
      exact Work.bind_ok hensure _
  | writeNumber name index x => exact Work.write_eq m .numeric name index x
  | writeText name index s => exact Work.write_eq m .text name index (.text s)
  | storeLines name texts => exact Work.storeLines_eq m name hs

theorem eq_of_replaced_error {r : Except Halt Memory} {e : Halt} (h : replaced m r = .error e m') : m' = m := by
  cases r with
  | error e' => exact (EStateM.Result.error.inj h).2.symm
  | ok m₁ => cases h

theorem eq_error_of_changed {p : Except Error Unit × Memory} {e : Halt} (h : changed p = .error e m') :
    ∃ e', p = (.error e', m') := by
  obtain ⟨r, m₁⟩ := p
  cases r with
  | error e' =>
    obtain ⟨-, hm⟩ := EStateM.Result.error.inj h
    exact ⟨e', by rw [hm]⟩
  | ok u => cases h

/-- A store that fails without straying changes nothing. -/
theorem outcome_error {s : Store} (hstray : ∀ name, ¬ s.Strays m name) {e : Halt}
    (h : s.outcome m = .error e m') : m' = m := by
  cases s with
  | dim name size kind => exact eq_of_replaced_error h
  | ensure name kind mustExist => exact eq_of_replaced_error h
  | storeLines name texts => exact eq_of_replaced_error h
  | writeText name index s =>
    obtain ⟨e', hwrite⟩ := eq_error_of_changed h
    rcases write_eq_error hwrite with hsame | ⟨-, -, -, -, hrefused⟩
    · exact hsame
    · cases hrefused
  | writeNumber name index x =>
    obtain ⟨e', hwrite⟩ := eq_error_of_changed h
    rcases write_eq_error hwrite with hsame | ⟨hmissing, hzero, hkind, hroom, hrefused⟩
    · exact hsame
    · exact absurd ⟨rfl, hzero, hrefused, hkind, hmissing, hroom⟩ (hstray name)

/-- A text that strays fails, and leaves the variable that was made for it. -/
theorem outcome_of_strays {s : Store} (h : s.Strays m name) :
    s.outcome m = .error (.failed (.valueRefused name "STRING")) (m.put (.blank name .numeric 1)) := by
  cases s with
  | writeNumber n index x =>
    obtain ⟨rfl, rfl, hx, hkind, hmissing, hroom⟩ := h
    cases x with
    | text s =>
      have hw := write_refused (x := .text s) hmissing hkind hroom rfl
      simp only [outcome, hw, changed, Value.kind, ValueKind.label]
    | integer k => cases hx
    | float y => cases hx
  | dim => exact h.elim
  | ensure => exact h.elim
  | writeText => exact h.elim
  | storeLines => exact h.elim

end Store

/-- **What a store that fails leaves behind.** Done step by step, a store ends
where the operations of the memory say. If a text is written as a number to slot
0 of a variable that is missing, while the name is that of a number and there is
room, the store fails for the kind of the value, and one variable more is there,
with one slot and no value. Any other store that fails, for an error or for its
size, leaves the memory exactly as it was. -/
theorem failed_store (m : Memory) {s : Store} (hs : s.Fits) :
    s.run m = s.outcome m ∧
    (∀ name, s.Strays m name → ∃ e : Error, e.kind = .typeMismatch ∧
      s.run m = .error (.failed e) (m.put (.blank name .numeric 1))) ∧
    ((∀ name, ¬ s.Strays m name) → ∀ h m', s.run m = .error h m' → m' = m) := by
  rw [Store.run_eq_outcome m hs]
  exact ⟨rfl, fun name h => ⟨_, rfl, Store.outcome_of_strays h⟩, fun hstray h m' => Store.outcome_error hstray⟩

-- Lines are refused by the name of a number that is there, and a text by a
-- number that is not.
theorem failed_store_both :
    ∃ m : Memory, m.find? "A" = some ⟨"A", .numeric, #[some (.integer 1)]⟩ ∧
      (∃ e, (Store.storeLines "A" ["X", "Y"]).run m = .error e m) ∧
      ∃ e, (Store.writeNumber "B" 0 (.text "X")).run m = .error e (m.put (.blank "B" .numeric 1)) := by
  let m : Memory := Memory.empty.put ⟨"A", .numeric, #[some (.integer 1)]⟩
  have hfind : m.find? "A" = some ⟨"A", .numeric, #[some (.integer 1)]⟩ := by
    rw [find?_put, if_pos (by rfl)]
  have hlines : (Store.storeLines "A" ["X", "Y"]).Fits := show 2 < 9223372036854775808 by decide
  have htext : (Store.writeNumber "B" 0 (.text "X")).Fits := trivial
  refine ⟨m, hfind, ?_, ?_⟩
  · obtain ⟨hrun, -, hsame⟩ := failed_store m hlines
    obtain ⟨e, m', hfails⟩ : ∃ e m', (Store.storeLines "A" ["X", "Y"]).run m = .error e m' := ⟨_, _, hrun.trans rfl⟩
    obtain rfl := hsame (fun name h => h) e m' hfails
    exact ⟨e, hfails⟩
  · obtain ⟨-, hstrays, -⟩ := failed_store m htext
    have hmissing : m.find? "B" = none := by
      rw [find?_put, if_neg (by decide)]
      rfl
    obtain ⟨e, -, hfails⟩ := hstrays "B" ⟨rfl, rfl, rfl, by decide, hmissing, by decide⟩
    exact ⟨.failed e, hfails⟩

/-- A write that fails can change a memory: a text that is refused as a number
leaves a variable behind. -/
theorem refused_text_changes_memory :
    ∃ e m', (Store.writeNumber "A" 0 (.text "X")).run .empty = .error e m' ∧ m' ≠ .empty := by
  have hmissing : Memory.empty.find? "A" = none := rfl
  have hstrays : (Store.writeNumber "A" 0 (.text "X")).Strays .empty "A" :=
    ⟨rfl, rfl, rfl, by decide, hmissing, by decide⟩
  have hfits : (Store.writeNumber "A" 0 (.text "X")).Fits := trivial
  refine ⟨_, _, (Store.run_eq_outcome .empty hfits).trans (Store.outcome_of_strays hstrays), ?_⟩
  intro hempty
  have hmade := congrArg (Memory.find? · "A") hempty
  rw [hmissing, find?_put_blank, if_pos rfl] at hmade
  cases hmade

end LineBasic.Memory
