import LineBasic.Proofs.Fitting.Expr

/-!
# Variables are what their names say

Variables are made, written and filled with lines. Whatever is done to them,
each is found under its own name, has the kind that the name dictates, and holds
values of that kind only. There are never more of them than fit. No write fails
by a fault of the interpreter: a variable that was made just before is there.

* `Memory.Change`: what is done to variables.
* `Memory.Sound`: what is known of them; `Change.sound` for one change.
* `Memory.kind_of_write_error`: why a write may fail.
* `Memory.Sound.readNumber_of_write`: what was written is read.
-/

namespace LineBasic

/-- The errors of a write: the name or the value is of the wrong kind, there is
no room for a new variable, the variable is not there although an index is
given, or it has no such slot. -/
def ErrorKind.OfWrite (kind : ErrorKind) : Prop :=
  kind = .typeMismatch ∨ kind = .outOfMemory ∨ kind = .undefinedVariable ∨ kind = .subscriptOutOfRange

/-- The variable can stand under the name: it has the name, the kind of the
name, and values of that kind. -/
structure Variable.Sound (name : String) (v : Variable) : Prop where
  name_eq : v.name = name
  kind_eq : v.kind = .ofName name
  accepts : ∀ x, some x ∈ v.slots → v.kind.accepts x = true

namespace Variable

variable {name : String} {v w : Variable}

theorem sound_blank (name : String) (size : Nat) : (blank name (.ofName name) size).Sound name := by
  refine ⟨rfl, rfl, ?_⟩
  intro x hx
  cases (Array.mem_replicate.1 hx).2

/-- A write keeps the name and the kind, and refuses values of another kind. -/
theorem Sound.write (h : v.Sound name) {index : Int64} {x : Value} (hw : v.write index x = .ok w) :
    w.Sound name := by
  unfold Variable.write at hw
  split at hw
  · cases hw
  case h_2 i _ =>
    split at hw
    case isTrue hx =>
      obtain rfl := Except.ok.inj hw
      refine ⟨h.name_eq, h.kind_eq, ?_⟩
      intro y hy
      rcases Array.mem_or_eq_of_mem_set (w := i.isLt) hy with hy | hy
      · exact h.accepts y hy
      · obtain rfl := Option.some.inj hy
        exact hx
    case isFalse => cases hw

theorem everyday_write (v : Variable) (index : Int64) (x : Value) : Raises Error.Everyday (v.write index x) := by
  unfold write
  split
  case h_1 e he => exact raises_error (v.everyday_slot index e he)
  case h_2 =>
    split
    · exact raises_ok _
    · exact raises_error ⟨nofun, nofun⟩

theorem kind_of_write_error {index : Int64} {x : Value} {e : Error} (h : v.write index x = .error e) :
    e.kind.OfWrite := by
  unfold write slot at h
  split at h
  case h_1 e' he =>
    obtain rfl := Except.error.inj h
    split at he
    · cases he
    · obtain rfl := Except.error.inj he
      exact .inr (.inr (.inr rfl))
  case h_2 =>
    split at h
    · cases h
    · obtain rfl := Except.error.inj h
      exact .inl rfl

end Variable

namespace Memory

/-- What is done to the variables. -/
inductive Change (m : Memory) : Memory → Prop
  | clear : Change m .empty
  | write (kind : VariableKind) (name : String) (index : Int64) (x : Value) :
      Change m (m.write kind name index x).2
  | dim {name : String} {size : Int64} {kind : Option VariableKind} {m' : Memory} :
      m.dim name size kind = .ok m' → Change m m'
  | storeLines {name : String} {texts : List String} {m' : Memory} :
      m.storeLines name texts = .ok m' → Change m m'

/-- Every variable can stand under its name, and there are no more than fit. -/
structure Sound (m : Memory) : Prop where
  variable_sound : ∀ name v, m.find? name = some v → v.Sound name
  count_le : m.count ≤ capacity + 1

theorem sound_empty : Sound .empty := by
  refine ⟨?_, by decide⟩
  intro name v h
  simp [find?, empty] at h

variable {m m' : Memory} {name : String} {v : Variable}

theorem find?_put (m : Memory) (v : Variable) (name : String) :
    (m.put v).find? name = if v.name = name then some v else m.find? name := by
  simp only [find?, put, Std.ExtTreeMap.getElem?_insert]
  split
  case isTrue h => rw [if_pos (Std.LawfulEqCmp.compare_eq_iff_eq.1 h)]
  case isFalse h => rw [if_neg fun hn => h (Std.LawfulEqCmp.compare_eq_iff_eq.2 hn)]

theorem ext_find? (h : ∀ name, m.find? name = m'.find? name) : m = m' := by
  obtain ⟨entries⟩ := m
  obtain ⟨entries'⟩ := m'
  exact congrArg Memory.mk (Std.ExtTreeMap.ext_getElem? h)

/-- Only the last of two variables with one name is there. -/
theorem put_put (m : Memory) {w : Variable} (h : v.name = w.name) : (m.put v).put w = m.put w := by
  refine ext_find? fun other => ?_
  rw [find?_put, find?_put, find?_put, h]
  split <;> rfl

/-- A variable more, if there is room for it, or one in place of another. -/
theorem Sound.put (h : m.Sound) (hv : v.Sound name) (hroom : m.count ≤ capacity ∨ (m.find? name).isSome) :
    (m.put v).Sound := by
  obtain rfl := hv.name_eq
  constructor
  · intro name w hw
    rw [find?_put] at hw
    split at hw
    case isTrue hn =>
      obtain rfl := Option.some.inj hw
      exact hn ▸ hv
    case isFalse => exact h.variable_sound name w hw
  · have hcount := h.count_le
    simp only [count, Memory.put, Std.ExtTreeMap.size_insert] at hcount hroom ⊢
    split
    · exact hcount
    case isFalse hnot =>
      rcases hroom with hroom | hroom
      · exact Nat.succ_le_succ hroom
      · -- a variable that is found has a place already
        exact absurd (Std.ExtTreeMap.mem_iff_isSome_getElem?.2 hroom) hnot

/-! ### Making a variable -/

theorem refusal?_eq_none_iff {size : Int64} {kind : VariableKind} :
    m.refusal? name size kind = none ↔
      VariableKind.ofName name = kind ∧ 0 ≤ size.toInt ∧ m.count ≤ capacity := by
  unfold refusal?
  split
  case isTrue hkind => simp [hkind]
  case isFalse hkind =>
    split
    case isTrue hsize =>
      simp only [reduceCtorEq, false_iff, not_and]
      intro _ h
      omega
    case isFalse hsize =>
      split
      case isTrue hfull =>
        simp only [reduceCtorEq, false_iff, not_and, Nat.not_le]
        exact fun _ _ => hfull
      case isFalse hroom => simpa using ⟨not_not.1 hkind, Int.not_lt.1 hsize, Nat.not_lt.1 hroom⟩

theorem everyday_refusal? {size : Int64} {kind : VariableKind} {e : Error}
    (h : m.refusal? name size kind = some e) : e.Everyday := by
  unfold refusal? at h
  split at h
  · obtain rfl := Option.some.inj h
    exact ⟨nofun, nofun⟩
  split at h
  · obtain rfl := Option.some.inj h
    exact ⟨nofun, nofun⟩
  split at h
  · obtain rfl := Option.some.inj h
    exact ⟨nofun, nofun⟩
  · cases h

theorem make_eq_ok {size : Int64} {kind : VariableKind} (h : m.make name size kind = .ok m') :
    kind = .ofName name ∧ m.count ≤ capacity ∧ m' = m.put (.blank name (.ofName name) size.toInt.toNat) := by
  unfold make at h
  split at h
  · cases h
  case h_2 hnone =>
    obtain ⟨rfl, -, hroom⟩ := refusal?_eq_none_iff.1 hnone
    exact ⟨rfl, hroom, (Except.ok.inj h).symm⟩

theorem Sound.make (h : m.Sound) {size : Int64} {kind : VariableKind} (hm : m.make name size kind = .ok m') :
    m'.Sound := by
  obtain ⟨-, hroom, rfl⟩ := make_eq_ok hm
  exact h.put (Variable.sound_blank name _) (.inl hroom)

theorem everyday_make (m : Memory) (name : String) (size : Int64) (kind : VariableKind) :
    Raises Error.Everyday (m.make name size kind) := by
  unfold make
  split
  case h_1 e he => exact raises_error (everyday_refusal? he)
  case h_2 => exact raises_ok _

/-- A variable of any size is made as one whose slots are known to fit. -/
theorem make_of_dim {size : Int64} {kind : Option VariableKind} (h : m.dim name size kind = .ok m') :
    m.make name size (kind.getD (.ofName name)) = .ok m' := by
  unfold dim at h
  unfold make
  dsimp only at h
  split at h
  · cases h
  · split at h
    · cases h
    · exact congrArg Except.ok (Except.ok.inj h)

/-- The process ends if nothing but the number of slots is wrong with a
variable. -/
theorem dim_eq_aborted_iff {size : Int64} {kind : Option VariableKind} :
    m.dim name size kind = .error .aborted ↔
      m.refusal? name size (kind.getD (.ofName name)) = none ∧ Variable.largest < size.toInt.toNat := by
  unfold dim
  dsimp only
  split
  case h_1 e he => simp [he]
  case h_2 hnone =>
    split
    case isTrue hlarge => exact ⟨fun _ => ⟨hnone, hlarge⟩, fun _ => rfl⟩
    case isFalse hfits =>
      constructor
      · intro h
        cases h
      · intro h
        exact absurd h.2 hfits

/-- A variable that is not made is refused, or the process ends. -/
theorem dim_eq_error {size : Int64} {kind : Option VariableKind} {h : Halt} (hd : m.dim name size kind = .error h) :
    h = .aborted ∨ ∃ e : Error, h = .failed e ∧ e.Everyday := by
  unfold dim at hd
  dsimp only at hd
  split at hd
  case h_1 e he => exact .inr ⟨e, (Except.error.inj hd).symm, everyday_refusal? he⟩
  case h_2 =>
    split at hd
    · exact .inl (Except.error.inj hd).symm
    · cases hd

/-! ### Writing a slot -/

theorem isSome_find?_provide {kind : VariableKind} {mustExist : Bool}
    (h : m.provide name kind mustExist = .ok m') : (m'.find? name).isSome := by
  unfold provide at h
  split at h
  case isTrue hfound =>
    obtain rfl := Except.ok.inj h
    exact hfound
  case isFalse =>
    split at h
    · cases h
    · obtain ⟨-, -, rfl⟩ := make_eq_ok h
      rw [find?_put, if_pos (by rfl)]
      rfl

theorem Sound.provide (h : m.Sound) {kind : VariableKind} {mustExist : Bool}
    (hp : m.provide name kind mustExist = .ok m') : m'.Sound := by
  unfold Memory.provide at hp
  split at hp
  · obtain rfl := Except.ok.inj hp
    exact h
  · split at hp
    · cases hp
    · exact h.make hp

theorem everyday_provide (m : Memory) (name : String) (kind : VariableKind) (mustExist : Bool) :
    Raises Error.Everyday (m.provide name kind mustExist) := by
  unfold provide
  split
  · exact raises_ok _
  split
  · exact raises_error ⟨nofun, nofun⟩
  · exact m.everyday_make name 1 kind

/-- A variable that is ensured is in the memory that was provided. -/
theorem ensure_eq_ok {kind : VariableKind} {mustExist : Bool} (h : m.ensure name kind mustExist = .ok (v, m')) :
    m.provide name kind mustExist = .ok m' ∧ m'.find? name = some v := by
  unfold ensure at h
  cases hp : m.provide name kind mustExist with
  | error e => rw [hp] at h; cases h
  | ok m₁ =>
    simp only [hp, bind, Except.bind] at h
    cases hw : m₁.find? name with
    | none => simp only [hw] at h; cases h
    | some w =>
      simp only [hw, Variable.ofKind] at h
      split at h
      · cases h
      case h_2 w' hk =>
        split at hk
        · obtain rfl := Except.ok.inj hk
          obtain ⟨rfl, rfl⟩ := Prod.mk.inj (Except.ok.inj h)
          exact ⟨rfl, hw⟩
        · cases hk

/-- The variable never vanishes. -/
theorem everyday_ensure (m : Memory) (name : String) (kind : VariableKind) (mustExist : Bool) :
    Raises Error.Everyday (m.ensure name kind mustExist) := by
  unfold ensure
  cases hp : m.provide name kind mustExist with
  | error e => exact raises_error (m.everyday_provide name kind mustExist e hp)
  | ok m' =>
    obtain ⟨v, hv⟩ := Option.isSome_iff_exists.1 (isSome_find?_provide hp)
    simp only [bind, Except.bind, hv]
    exact (v.everyday_ofKind kind).bind fun w => raises_ok (w, m')

theorem everyday_write (m : Memory) (kind : VariableKind) (name : String) (index : Int64) (x : Value) :
    Raises Error.Everyday (m.write kind name index x).1 := by
  unfold write
  split
  case h_1 v m' _ =>
    have hw := v.everyday_write index x
    unfold writeSlot
    split
    · exact raises_ok _
    case h_2 e he => exact raises_error (hw e he)
  case h_2 e he => exact raises_error (m.everyday_ensure name kind _ e he)

theorem Sound.write (h : m.Sound) (kind : VariableKind) (name : String) (index : Int64) (x : Value) :
    (m.write kind name index x).2.Sound := by
  unfold Memory.write
  split
  case h_1 v m' he =>
    obtain ⟨hp, hv⟩ := ensure_eq_ok he
    have hm' := h.provide hp
    unfold writeSlot
    split
    case h_1 w hw =>
      have hsound := (hm'.variable_sound name v hv).write hw
      exact hm'.put hsound (.inr (by rw [hv]; rfl))
    case h_2 => exact hm'
  case h_2 => exact h

/-! ### Why a write may fail -/

theorem kind_of_provide_error {kind : VariableKind} {mustExist : Bool} {e : Error}
    (h : m.provide name kind mustExist = .error e) : e.kind.OfWrite := by
  unfold provide at h
  split at h
  · cases h
  split at h
  · obtain rfl := Except.error.inj h
    exact .inr (.inr (.inl rfl))
  unfold make at h
  split at h
  case h_1 e' hrefused =>
    obtain rfl := Except.error.inj h
    unfold refusal? at hrefused
    split at hrefused
    · obtain rfl := Option.some.inj hrefused
      exact .inl rfl
    split at hrefused
    case isTrue hsize => exact absurd hsize (by decide)
    split at hrefused
    · obtain rfl := Option.some.inj hrefused
      exact .inr (.inl rfl)
    · cases hrefused
  case h_2 => cases h

theorem kind_of_ensure_error {kind : VariableKind} {mustExist : Bool} {e : Error}
    (h : m.ensure name kind mustExist = .error e) : e.kind.OfWrite := by
  unfold ensure at h
  cases hp : m.provide name kind mustExist with
  | error e' =>
    rw [hp] at h
    obtain rfl := Except.error.inj h
    exact kind_of_provide_error hp
  | ok m' =>
    obtain ⟨v, hv⟩ := Option.isSome_iff_exists.1 (isSome_find?_provide hp)
    simp only [hp, bind, Except.bind, hv, Variable.ofKind] at h
    split at h
    case h_1 e' he =>
      split at he
      · cases he
      · obtain rfl := Except.error.inj he
        obtain rfl := Except.error.inj h
        exact .inl rfl
    case h_2 => cases h

/-- **Why a write may fail.** -/
theorem kind_of_write_error {kind : VariableKind} {index : Int64} {x : Value} {e : Error}
    (h : (m.write kind name index x).1 = .error e) : e.kind.OfWrite := by
  unfold write at h
  split at h
  case h_1 v m' _ =>
    unfold writeSlot at h
    split at h
    · cases h
    case h_2 e' he =>
      obtain rfl := Except.error.inj h
      exact Variable.kind_of_write_error he
  case h_2 e' he =>
    obtain rfl := Except.error.inj h
    exact kind_of_ensure_error he

/-! ### Storing lines -/

theorem Sound.storeLines (h : m.Sound) {texts : List String} (hs : m.storeLines name texts = .ok m') :
    m'.Sound := by
  unfold Memory.storeLines at hs
  cases hmake : m.make name (Int64.ofNat texts.length) .text with
  | error e => rw [hmake] at hs; cases hs
  | ok m₁ =>
    rw [hmake] at hs
    obtain rfl := Except.ok.inj hs
    obtain ⟨hkind, -, rfl⟩ := make_eq_ok hmake
    have hsound : Variable.Sound name ⟨name, .text, (texts.map fun s => some (.text s)).toArray⟩ := by
      refine ⟨rfl, hkind, ?_⟩
      intro x hx
      obtain ⟨s, -, hs⟩ := List.mem_map.1 (List.mem_toArray.1 hx)
      obtain rfl := Option.some.inj hs
      rfl
    refine (h.make hmake).put hsound (.inr ?_)
    rw [find?_put, if_pos (by rfl)]
    rfl

theorem everyday_storeLines (m : Memory) (name : String) (texts : List String) :
    Raises Error.Everyday (m.storeLines name texts) :=
  (m.everyday_make name _ _).bind fun _ => raises_ok _

/-- **Whatever is done to the variables, they stay sound.** -/
theorem Change.sound (h : m.Change m') (hm : m.Sound) : m'.Sound := by
  cases h with
  | clear => exact sound_empty
  | write kind name index x => exact hm.write kind name index x
  | dim hd => exact hm.make (make_of_dim hd)
  | storeLines hs => exact hm.storeLines hs

end Memory

/-! ### Reading what was written -/

namespace Variable

variable {v w : Variable} {index : Int64} {x y : Value}

theorem slot_eq_ok_iff {i : Fin v.slots.size} :
    v.slot index = .ok i ↔ 0 ≤ index.toInt ∧ index.toInt.toNat = i.val := by
  have hi := i.isLt
  unfold slot
  split
  case isTrue h =>
    rw [Except.ok.injEq, Fin.ext_iff]
    exact (and_iff_right h.1).symm
  case isFalse h =>
    constructor
    · intro he
      cases he
    · intro hs
      omega

/-- What was written is read. -/
theorem read_of_write (h : v.write index x = .ok w) : w.read index = .ok x := by
  unfold write at h
  cases hs : v.slot index with
  | error e =>
    rw [hs] at h
    cases h
  | ok i =>
    rw [hs] at h
    dsimp only at h
    split at h
    · obtain rfl := Except.ok.inj h
      have hi : i.val < (v.slots.set i (some x) i.isLt).size := by simp
      have hindex := slot_eq_ok_iff.1 hs
      have hslot : slot { v with slots := v.slots.set i (some x) i.isLt } index = .ok ⟨i, hi⟩ :=
        slot_eq_ok_iff.2 hindex
      rw [read, hslot]
      simp
    · cases h

theorem kind_of_write (h : v.write index x = .ok w) : w.kind = v.kind := by
  unfold write at h
  split at h
  · cases h
  split at h
  · obtain rfl := Except.ok.inj h
    rfl
  · cases h

/-- A slot that can be read can be written. -/
theorem exists_write_of_read (h : v.read index = .ok y) (hx : v.kind.accepts x = true) :
    ∃ w, v.write index x = .ok w := by
  unfold read at h
  unfold write
  cases hs : v.slot index with
  | error e =>
    rw [hs] at h
    cases h
  | ok i => exact ⟨_, if_pos hx⟩

end Variable

namespace Memory

variable {m m' : Memory} {name : String} {index : Int64} {x y : Value}

theorem readNumber_eq_ok_iff :
    m.readNumber name index = .ok x ↔
      ∃ v, m.find? name = some v ∧ v.kind = .numeric ∧ v.read index = .ok x := by
  unfold readNumber readKind find
  cases hv : m.find? name with
  | none =>
    constructor
    · intro h
      cases h
    · rintro ⟨v, h, -⟩
      cases h
  | some v =>
    by_cases hk : v.kind = .numeric
    · simp [bind, Except.bind, Variable.ofKind, hk]
    · simp [bind, Except.bind, Variable.ofKind, hk]

theorem kind_of_ensure {v : Variable} {kind : VariableKind} {mustExist : Bool}
    (h : m.ensure name kind mustExist = .ok (v, m')) : v.kind = kind := by
  obtain ⟨hp, hv⟩ := ensure_eq_ok h
  by_contra hk
  simp [ensure, hp, hv, bind, Except.bind, Variable.ofKind, hk] at h

/-- A number that was written is read. -/
theorem Sound.readNumber_of_write (hm : m.Sound) (h : m.write .numeric name index x = (.ok (), m')) :
    m'.readNumber name index = .ok x := by
  unfold Memory.write at h
  split at h
  case h_1 v m₁ he =>
    obtain ⟨hp, hv⟩ := ensure_eq_ok he
    have hsound := (hm.provide hp).variable_sound name v hv
    unfold writeSlot at h
    split at h
    case h_1 w hw =>
      obtain ⟨-, rfl⟩ := Prod.mk.inj h
      have hname : w.name = name := (hsound.write hw).name_eq
      have hkind : w.kind = .numeric := (Variable.kind_of_write hw).trans (kind_of_ensure he)
      refine readNumber_eq_ok_iff.2 ⟨w, ?_, hkind, Variable.read_of_write hw⟩
      rw [find?_put, if_pos hname]
    case h_2 => cases h
  case h_2 => cases h

/-- A slot that holds a number can be written. -/
theorem exists_write_of_readNumber (h : m.readNumber name index = .ok y) (hx : x.isNumeric = true) :
    ∃ m', m.write .numeric name index x = (.ok (), m') := by
  obtain ⟨v, hv, hk, hr⟩ := readNumber_eq_ok_iff.1 h
  have he : m.ensure name .numeric (index ≠ 0) = .ok (v, m) := by
    simp [ensure, provide, hv, bind, Except.bind, Variable.ofKind, hk, pure, Except.pure]
  obtain ⟨w, hw⟩ := Variable.exists_write_of_read hr (x := x) (by rw [hk]; exact hx)
  exact ⟨m.put w, by rw [write, he]; simp [writeSlot, hw]⟩

/-- A variable that is missing is made with one slot, if there is room for
it. -/
theorem ensure_of_missing {kind : VariableKind} (h : m.find? name = none) (hroom : m.count ≤ capacity)
    (hname : VariableKind.ofName name = kind) :
    m.ensure name kind ((0 : Int64) ≠ 0) = .ok (.blank name kind 1, m.put (.blank name kind 1)) := by
  have hprovide : m.provide name kind false = .ok (m.put (.blank name kind 1)) := by
    have hnone : m.refusal? name 1 kind = none := refusal?_eq_none_iff.2 ⟨hname, by decide, hroom⟩
    rw [provide, h]
    simp only [Option.isSome_none, Bool.false_eq_true, if_false, make, hnone]
    rfl
  have hfind : (m.put (.blank name kind 1)).find? name = some (.blank name kind 1) :=
    (find?_put m _ name).trans (if_pos rfl)
  have hof : (Variable.blank name kind 1).ofKind kind = .ok (.blank name kind 1) := if_pos rfl
  simp only [ne_eq, not_true_eq_false, decide_false, ensure, hprovide, bind, Except.bind, hfind, hof]
  rfl

/-- A variable that is missing can be written, and is a scalar then. -/
theorem write_of_missing {kind : VariableKind} (h : m.find? name = none) (hroom : m.count ≤ capacity)
    (hname : VariableKind.ofName name = kind) (hx : kind.accepts x = true) :
    m.write kind name 0 x = (.ok (), m.put ⟨name, kind, #[some x]⟩) := by
  have hw : (Variable.blank name kind 1).write 0 x = .ok ⟨name, kind, #[some x]⟩ := if_pos hx
  have hput : (m.put (.blank name kind 1)).put ⟨name, kind, #[some x]⟩ = m.put ⟨name, kind, #[some x]⟩ :=
    put_put m rfl
  simp only [write, ensure_of_missing h hroom hname, writeSlot, hw, hput]

theorem exists_write_of_missing (h : m.find? name = none) (hroom : m.count ≤ capacity)
    (hname : VariableKind.ofName name = .numeric) (hx : x.isNumeric = true) :
    ∃ m', m.write .numeric name 0 x = (.ok (), m') :=
  ⟨_, write_of_missing h hroom hname hx⟩

/-- A missing variable is made by a write that succeeds, so its name allows that
and there is room. -/
theorem room_of_write_missing {kind : VariableKind} (h : m.find? name = none)
    (hw : (m.write kind name 0 x).1 = .ok ()) : VariableKind.ofName name = kind ∧ m.count ≤ capacity := by
  unfold write at hw
  cases he : m.ensure name kind ((0 : Int64) ≠ 0) with
  | error e =>
    rw [he] at hw
    cases hw
  | ok p =>
    obtain ⟨v, m₁⟩ := p
    have hprovide := (ensure_eq_ok he).1
    simp only [provide, h, Option.isSome_none, ne_eq, not_true_eq_false, decide_false, Bool.false_eq_true,
      if_false] at hprovide
    obtain ⟨hkind, hroom, -⟩ := make_eq_ok hprovide
    exact ⟨hkind.symm, hroom⟩

end Memory

end LineBasic
