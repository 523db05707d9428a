import LineBasic.Proofs.Grammar.LoopLines
import LineBasic.Proofs.Listing.View
import LineBasic.Proofs.Machine.Conduct
import LineBasic.Proofs.Machine.Sound

/-!
# Labels

A line may begin with a label. When a program is reset, every label becomes a
variable that holds the number of its line, the last one if several lines have
the label. The table of line numbers is made anew, so the line is in the table,
and a jump to the label finds it there.

* `Listing.labels_eq_some_iff`: which line a label means.
* `Machine.bindLabels_eq`: the memory after all labels were bound.
* `Machine.resetIn_eq_ok_iff`: the order of the labels makes no difference.
* `Machine.LeadsTo`: what jumping to a label means; `Machine.leadsTo` for a
  label that is bound.
* `Machine.reset_binds_labels`: the machine after a reset, and when there is
  none.
-/

namespace LineBasic

/-! ### The line of a label -/

namespace Listing

/-- The line `n` begins with the label. -/
def Carries (l : Listing) (n : Int64) (name : String) : Prop := ∃ text, l.find? n = some text ∧ labelOf text = some name

/-- The line `n` is the last one that begins with the label. -/
structure Means (l : Listing) (name : String) (n : Int64) : Prop where
  carries : l.Carries n name
  le : ∀ k, l.Carries k name → k ≤ n

variable {l : Listing} {name : String} {n : Int64}

theorem Ascending.mem_labelled_iff (h : l.Ascending) : (name, n) ∈ l.labelled ↔ l.Carries n name := by
  rw [labelled, List.mem_filterMap]
  constructor
  · rintro ⟨⟨k, text⟩, hmem, hlabel⟩
    obtain ⟨other, hother, heq⟩ := Option.map_eq_some_iff.1 hlabel
    obtain ⟨rfl, rfl⟩ := Prod.mk.inj heq
    exact ⟨text, h.find?_of_mem hmem, hother⟩
  · rintro ⟨text, hfind, hlabel⟩
    obtain ⟨before, after, hlines, -⟩ := List.lookup_eq_some_iff.1 hfind
    refine ⟨(n, text), by rw [hlines]; simp, ?_⟩
    dsimp only
    rw [hlabel]
    rfl

theorem Ascending.labelled (h : l.Ascending) : l.labelled.Pairwise (·.2 < ·.2) := by
  refine List.pairwise_filterMap.2 (List.Pairwise.imp ?_ h)
  rintro ⟨j, s⟩ ⟨k, t⟩ hjk x hx y hy
  obtain ⟨_, -, rfl⟩ := Option.map_eq_some_iff.1 hx
  obtain ⟨_, -, rfl⟩ := Option.map_eq_some_iff.1 hy
  exact hjk

/-- Of the entries with one name, which ascend, the last one is found. -/
theorem getElem?_foldl_insert {xs : List (String × Int64)} (h : xs.Pairwise (·.2 < ·.2)) :
    (xs.foldl (fun m x => m.insert x.1 x.2) (∅ : Std.ExtTreeMap String Int64))[name]? = some n ↔
      (name, n) ∈ xs ∧ ∀ k, (name, k) ∈ xs → k ≤ n := by
  induction xs using List.reverseRecOn with
  | nil => simp
  | append_singleton xs x ih =>
    obtain ⟨hxs, -, hlast⟩ := List.pairwise_append.1 h
    obtain ⟨other, j⟩ := x
    rw [List.foldl_append, List.foldl_cons, List.foldl_nil, Std.ExtTreeMap.getElem?_insert]
    by_cases hname : other = name
    · subst hname
      have hbelow : ∀ k, (other, k) ∈ xs → k ≤ j := fun k hk =>
        Int64.le_of_lt (hlast (other, k) hk (other, j) List.mem_cons_self)
      rw [if_pos (Std.LawfulEqCmp.compare_eq_iff_eq.2 rfl), Option.some.injEq]
      constructor
      · rintro rfl
        refine ⟨by simp, fun k hk => ?_⟩
        rcases List.mem_append.1 hk with hk | hk
        · exact hbelow k hk
        · obtain rfl : k = j := by simpa using hk
          exact Int64.le_refl _
      · rintro ⟨hmem, hle⟩
        have hjn : j ≤ n := hle j (by simp)
        rcases List.mem_append.1 hmem with hmem | hmem
        · exact Int64.le_antisymm hjn (hbelow n hmem)
        · exact (by simpa using hmem : n = j).symm
    · have hmem : ∀ k, (name, k) ∈ xs ++ [(other, j)] ↔ (name, k) ∈ xs := by
        intro k
        simp [Ne.symm hname]
      rw [if_neg fun he => hname (Std.LawfulEqCmp.compare_eq_iff_eq.1 he)]
      simp only [hmem]
      exact ih hxs

/-- **A label means the last line that begins with it.** -/
theorem labels_eq_some_iff (h : l.Ascending) : l.labels[name]? = some n ↔ l.Means name n := by
  have hfold : l.labels[name]? = some n ↔ (name, n) ∈ l.labelled ∧ ∀ k, (name, k) ∈ l.labelled → k ≤ n :=
    getElem?_foldl_insert h.labelled
  simp only [h.mem_labelled_iff] at hfold
  exact hfold.trans ⟨fun hn => ⟨hn.1, hn.2⟩, fun hn => ⟨hn.carries, hn.le⟩⟩

theorem Means.mem_numbers (h : l.Means name n) : n ∈ l.numbers := by
  obtain ⟨text, hfind, -⟩ := h.carries
  exact isSome_find?_iff.1 (by rw [hfind]; rfl)

end Listing

/-! ### Binding labels -/

namespace Machine

/-- The variable of a label. -/
def labelVariable (name : String) (n : Int64) : Variable := ⟨name, .numeric, #[some (.integer n)]⟩

/-- The memory with the variables of some labels. -/
def bound (memory : Memory) (labels : List (String × Int64)) : Memory :=
  labels.foldl (fun memory x => memory.put (labelVariable x.1 x.2)) memory

variable {m d : Machine} {name : String} {n : Int64} {labels : List (String × Int64)}

theorem find?_bound_of_not_mem (memory : Memory) (h : ∀ x ∈ labels, x.1 ≠ name) :
    (bound memory labels).find? name = memory.find? name := by
  induction labels generalizing memory with
  | nil => rfl
  | cons x rest ih =>
    obtain ⟨hx, hrest⟩ := List.forall_mem_cons.1 h
    have hput : (memory.put (labelVariable x.1 x.2)).find? name = memory.find? name := by
      rw [Memory.find?_put]
      exact if_neg hx
    exact (ih _ hrest).trans hput

theorem find?_bound_of_mem (memory : Memory) (hnames : labels.Pairwise (·.1 ≠ ·.1)) (h : (name, n) ∈ labels) :
    (bound memory labels).find? name = some (labelVariable name n) := by
  induction labels generalizing memory with
  | nil => cases h
  | cons x rest ih =>
    obtain ⟨hx, hrest⟩ := List.pairwise_cons.1 hnames
    rcases List.mem_cons.1 h with rfl | hmem
    · refine (find?_bound_of_not_mem _ fun y hy => (hx y hy).symm).trans ?_
      rw [Memory.find?_put]
      exact if_pos rfl
    · exact ih _ hrest hmem

theorem count_put_le (memory : Memory) (v : Variable) : (memory.put v).count ≤ memory.count + 1 :=
  Std.ExtTreeMap.size_insert_le

/-- **Labels are bound one after the other**: different names of numbers that
are missing, for which there is room. -/
theorem bindLabels_eq (hnames : labels.Pairwise (·.1 ≠ ·.1))
    (hkind : ∀ x ∈ labels, VariableKind.ofName x.1 = .numeric) (hmissing : ∀ x ∈ labels, m.memory.find? x.1 = none)
    (hroom : m.memory.count + labels.length ≤ Memory.capacity + 1) :
    bindLabels labels m = .ok () { m with memory := bound m.memory labels } := by
  induction labels generalizing m with
  | nil => rfl
  | cons x rest ih =>
    obtain ⟨name, n⟩ := x
    obtain ⟨hfirst, hrest⟩ := List.pairwise_cons.1 hnames
    obtain ⟨hnumeric, hkinds⟩ := List.forall_mem_cons.1 hkind
    obtain ⟨hnone, hothers⟩ := List.forall_mem_cons.1 hmissing
    rw [List.length_cons] at hroom
    have hwrite : Act.memory (·.write .numeric name 0 (.integer n)) m =
        .ok () { m with memory := m.memory.put (labelVariable name n) } := by
      rw [Act.memory, Memory.write_of_missing hnone (by omega) hnumeric rfl]
      rfl
    have hstill : ∀ y ∈ rest, (m.memory.put (labelVariable name n)).find? y.1 = none := by
      intro y hy
      rw [Memory.find?_put]
      exact (if_neg (hfirst y hy)).trans (hothers y hy)
    have hcount := count_put_le m.memory (labelVariable name n)
    refine (Act.bind_ok hwrite _).trans ?_
    exact @ih { m with memory := m.memory.put (labelVariable name n) } hrest hkinds hstill (by dsimp only; omega)

theorem pairwise_labels (l : Listing) : l.labels.toList.Pairwise (·.1 ≠ ·.1) :=
  Std.ExtTreeMap.distinct_keys_toList.imp fun h he => h (Std.LawfulEqCmp.compare_eq_iff_eq.2 he)

/-! ### The order of the labels -/

theorem count_put_of_missing {memory : Memory} {v : Variable} (h : memory.find? v.name = none) :
    (memory.put v).count = memory.count + 1 := by
  have hnot : ¬ memory.entries.contains v.name = true := by
    rw [Std.ExtTreeMap.contains_eq_isSome_getElem?, show memory.entries[v.name]? = none from h]
    exact Bool.false_ne_true
  rw [Memory.count, Memory.put, Std.ExtTreeMap.size_insert, if_neg hnot]
  rfl

/-- What it takes to bind the labels, which is the same in every order. -/
theorem room_of_bindLabels {m' : Machine} (hnames : labels.Pairwise (·.1 ≠ ·.1))
    (hmissing : ∀ x ∈ labels, m.memory.find? x.1 = none) (hcount : m.memory.count ≤ Memory.capacity + 1)
    (h : bindLabels labels m = .ok () m') :
    (∀ x ∈ labels, VariableKind.ofName x.1 = .numeric) ∧ m.memory.count + labels.length ≤ Memory.capacity + 1 := by
  induction labels generalizing m with
  | nil => exact ⟨fun _ hx => absurd hx List.not_mem_nil, hcount⟩
  | cons x rest ih =>
    obtain ⟨name, n⟩ := x
    obtain ⟨hfirst, hrest⟩ := List.pairwise_cons.1 hnames
    obtain ⟨hnone, hothers⟩ := List.forall_mem_cons.1 hmissing
    have hwritten : (m.memory.write .numeric name 0 (.integer n)).1 = .ok () := by
      cases hw : m.memory.write .numeric name 0 (.integer n) with
      | mk r memory =>
        cases r with
        | ok u => rfl
        | error e =>
          have hact : Act.memory (·.write .numeric name 0 (.integer n)) m = .error (.failed e) { m with memory } := by
            rw [Act.memory, hw]
          rw [bindLabels, Act.bind_error hact] at h
          cases h
    obtain ⟨hkind, hroom⟩ := Memory.room_of_write_missing hnone hwritten
    have hact : Act.memory (·.write .numeric name 0 (.integer n)) m =
        .ok () { m with memory := m.memory.put (labelVariable name n) } := by
      rw [Act.memory, Memory.write_of_missing hnone hroom hkind rfl]
      rfl
    rw [bindLabels, Act.bind_ok hact] at h
    have hstill : ∀ y ∈ rest, (m.memory.put (labelVariable name n)).find? y.1 = none := by
      intro y hy
      rw [Memory.find?_put]
      exact (if_neg (hfirst y hy)).trans (hothers y hy)
    have hput : (m.memory.put (labelVariable name n)).count = m.memory.count + 1 := count_put_of_missing hnone
    obtain ⟨hkinds, hlength⟩ :=
      @ih { m with memory := m.memory.put (labelVariable name n) } hrest hstill (by dsimp only; omega) h
    refine ⟨List.forall_mem_cons.2 ⟨hkind, hkinds⟩, ?_⟩
    rw [List.length_cons]
    dsimp only at hlength
    omega

/-- The variables of different labels are the same, in whatever order they
come. -/
theorem bound_perm (memory : Memory) {order : List (String × Int64)} (h : order.Perm labels)
    (hnames : labels.Pairwise (·.1 ≠ ·.1)) : bound memory order = bound memory labels := by
  have hnames' : order.Pairwise (·.1 ≠ ·.1) := (h.pairwise_iff Ne.symm).2 hnames
  refine Memory.ext_find? fun name => ?_
  by_cases hlabel : ∃ n, (name, n) ∈ labels
  · obtain ⟨n, hn⟩ := hlabel
    rw [find?_bound_of_mem memory hnames hn, find?_bound_of_mem memory hnames' (h.mem_iff.2 hn)]
  · have hnone : ∀ x ∈ labels, x.1 ≠ name := by
      rintro ⟨other, k⟩ hx rfl
      exact hlabel ⟨k, hx⟩
    rw [find?_bound_of_not_mem memory hnone, find?_bound_of_not_mem memory fun x hx => hnone x (h.mem_iff.1 hx)]

/-- A reset that takes up labels in a given order. -/
def resetIn (order : List (String × Int64)) : Act Unit := do
  modify fun m => { m with memory := .empty }
  bindLabels order
  modify fun m => { m with control := m.control.reset m.listing.numbers }

theorem bindLabels_perm {m' : Machine} {order : List (String × Int64)} (h : order.Perm labels)
    (hnames : labels.Pairwise (·.1 ≠ ·.1)) (hbind : bindLabels labels { m with memory := .empty } = .ok () m') :
    bindLabels order { m with memory := .empty } = .ok () m' := by
  have hmissing : ∀ (xs : List (String × Int64)), ∀ x ∈ xs, Memory.empty.find? x.1 = none := fun _ _ _ => rfl
  have hnames' : order.Pairwise (·.1 ≠ ·.1) := (h.pairwise_iff Ne.symm).2 hnames
  have hcount : Memory.empty.count ≤ Memory.capacity + 1 := by decide
  obtain ⟨hkinds, hroom⟩ :=
    @room_of_bindLabels { m with memory := .empty } labels m' hnames (hmissing labels) hcount hbind
  have hbound := @bindLabels_eq { m with memory := .empty } labels hnames hkinds (hmissing labels) hroom
  obtain ⟨-, rfl⟩ := EStateM.Result.ok.inj (hbound.symm.trans hbind)
  have hbound' := @bindLabels_eq { m with memory := .empty } order hnames' (fun x hx => hkinds x (h.mem_iff.1 hx))
    (hmissing order) (by rw [h.length_eq]; exact hroom)
  rw [hbound', bound_perm .empty h hnames]

/-- **The order of the labels makes no difference to a reset that succeeds.** It
succeeds in one order if and only if it does in any other, and then with the
same machine. -/
theorem resetIn_eq_ok_iff {m' : Machine} {order : List (String × Int64)} (h : order.Perm m.listing.labels.toList) :
    resetIn order m = .ok () m' ↔ reset m = .ok () m' := by
  have hnames := pairwise_labels m.listing
  have hnames' : order.Pairwise (·.1 ≠ ·.1) := (h.pairwise_iff Ne.symm).2 hnames
  have hclear : (modify fun m => { m with memory := .empty } : Act Unit) m = .ok () { m with memory := .empty } := rfl
  -- whichever order succeeds, the other one does so with the same memory
  have follows {xs ys : List (String × Int64)} (hperm : ys.Perm xs) (hxs : xs.Pairwise (·.1 ≠ ·.1))
      (hok : resetIn xs m = .ok () m') : resetIn ys m = .ok () m' := by
    rw [resetIn, Act.bind_ok hclear] at hok ⊢
    cases hbind : bindLabels xs { m with memory := .empty } with
    | error e m₁ =>
      rw [Act.bind_error hbind] at hok
      cases hok
    | ok u m₁ =>
      rw [Act.bind_ok hbind] at hok
      rw [Act.bind_ok (bindLabels_perm hperm hxs hbind)]
      exact hok
  have hreset : reset m = resetIn m.listing.labels.toList m := by
    rw [reset_eq, resetIn, Act.bind_ok hclear]
  rw [hreset]
  exact ⟨follows h.symm hnames', follows h hnames⟩

/-! ### Resets -/

/-- The names of labels are names of numbers unless they end in `$`. -/
theorem ofName_numeric (h : name.toList.getLast? ≠ some '$') : VariableKind.ofName name = .numeric := if_neg h

/-- The memory after a reset. -/
theorem find?_reset (h : m.listing.Ascending) (v : Variable) :
    (bound .empty m.listing.labels.toList).find? name = some v ↔
      ∃ n, m.listing.Means name n ∧ v = labelVariable name n := by
  have hiff : ∀ n, (name, n) ∈ m.listing.labels.toList ↔ m.listing.Means name n := fun n =>
    Std.ExtTreeMap.mem_toList_iff_getElem?_eq_some.trans (Listing.labels_eq_some_iff h)
  constructor
  · intro hv
    by_cases hlabel : ∃ n, (name, n) ∈ m.listing.labels.toList
    · obtain ⟨n, hn⟩ := hlabel
      rw [find?_bound_of_mem _ (pairwise_labels _) hn] at hv
      exact ⟨n, (hiff n).1 hn, (Option.some.inj hv).symm⟩
    · have hnone : ∀ x ∈ m.listing.labels.toList, x.1 ≠ name := by
        rintro ⟨other, k⟩ hx rfl
        exact hlabel ⟨k, hx⟩
      rw [find?_bound_of_not_mem _ hnone] at hv
      cases hv
  · rintro ⟨n, hn, rfl⟩
    exact find?_bound_of_mem _ (pairwise_labels _) ((hiff n).2 hn)

/-- **A reset succeeds** if no label ends in `$` and there is room for all of
them. -/
theorem reset_of_numeric (hnames : ∀ name ∈ m.listing.labels, name.toList.getLast? ≠ some '$')
    (hsize : m.listing.labels.size ≤ 65536) :
    reset m = .ok () { m with
      memory := bound .empty m.listing.labels.toList, control := m.control.reset m.listing.numbers } := by
  have hkind : ∀ x ∈ m.listing.labels.toList, VariableKind.ofName x.1 = .numeric := by
    rintro ⟨name, n⟩ hx
    have hlabel : m.listing.labels[name]? = some n := Std.ExtTreeMap.mem_toList_iff_getElem?_eq_some.1 hx
    refine ofName_numeric (hnames name ?_)
    exact Std.ExtTreeMap.mem_iff_isSome_getElem?.2 (by rw [hlabel]; rfl)
  have hroom : Memory.empty.count + m.listing.labels.toList.length ≤ Memory.capacity + 1 := by
    rw [Std.ExtTreeMap.length_toList]
    show 0 + m.listing.labels.size ≤ 65536
    omega
  have hbind := @bindLabels_eq { m with memory := .empty } _ (pairwise_labels m.listing) hkind (fun _ _ => rfl) hroom
  rw [reset_eq, Act.bind_ok hbind]
  rfl

/-- **A reset fails** at a label that ends in `$`, if it is the only one. -/
theorem reset_of_dollar (honly : ∀ other, other ∈ m.listing.labels ↔ other = name)
    (hname : name.toList.getLast? = some '$') :
    reset m = .error (.failed (.nameRefused name "NUMERIC")) { m with memory := .empty } := by
  have hkey : ∀ x ∈ m.listing.labels.toList, x.1 = name := by
    rintro ⟨other, n⟩ hx
    have hlabel : m.listing.labels[other]? = some n := Std.ExtTreeMap.mem_toList_iff_getElem?_eq_some.1 hx
    exact (honly other).1 (Std.ExtTreeMap.mem_iff_isSome_getElem?.2 (by rw [hlabel]; rfl))
  obtain ⟨n, hn⟩ := Option.isSome_iff_exists.1 (Std.ExtTreeMap.mem_iff_isSome_getElem?.1 ((honly name).2 rfl))
  have hmem : (name, n) ∈ m.listing.labels.toList := Std.ExtTreeMap.mem_toList_iff_getElem?_eq_some.2 hn
  obtain ⟨x, rest, hlabels⟩ := List.exists_cons_of_ne_nil (List.ne_nil_of_mem hmem)
  -- the first label is written first, and all labels are this one
  obtain ⟨first, k⟩ := x
  obtain rfl : first = name := hkey (first, k) (by rw [hlabels]; exact List.mem_cons_self)
  have hkind : VariableKind.ofName first = .text := if_pos hname
  have hrefused : Memory.empty.write .numeric first 0 (.integer k) =
      (.error (.nameRefused first "NUMERIC"), .empty) := by
    have hmissing : Memory.empty.find? first = none := rfl
    have hprovide : Memory.empty.provide first .numeric false = .error (.nameRefused first "NUMERIC") := by
      rw [Memory.provide, hmissing]
      simp [Memory.make, Memory.refusal?, hkind, VariableKind.label]
    simp [Memory.write, Memory.ensure, hprovide, bind, Except.bind]
  have hbind : bindLabels m.listing.labels.toList { m with memory := .empty } =
      .error (.failed (.nameRefused first "NUMERIC")) { m with memory := .empty } := by
    rw [hlabels, bindLabels]
    refine Act.bind_error ?_ _
    rw [Act.memory, hrefused]
  rw [reset_eq, Act.bind_error hbind]

/-! ### Jumping to a label -/

/-- Jumping to the label goes on at the address, whether a line does it among
other things or is nothing but the jump. A subroutine needs room for its
frame. -/
structure LeadsTo (d : Machine) (name : String) (address : Nat) : Prop where
  goto : ∀ run line, (Action.goto (.scalar name)).perform run line d =
    .ok () { d with control := { d.control with following := address } }
  gosub : ∀ run line control, d.control.push (.returnTo d.control.following) = .ok control →
    (Action.gosub (.scalar name)).perform run line d = .ok () { d with control := { control with following := address } }
  gosub_full : ∀ run line, Stack.capacity ≤ d.control.stack.depth →
    (Action.gosub (.scalar name)).perform run line d = .error (.failed .stackOverflow) d
  goto_line : ∀ run k text, (Tape.ofStatements text).tokens? = some [.verb .goto, .name name] →
    executeLine run k text d = (Action.goto (.scalar name)).perform run (some k) d
  gosub_line : ∀ run k text, (Tape.ofStatements text).tokens? = some [.verb .gosub, .name name] →
    executeLine run k text d = (Action.gosub (.scalar name)).perform run (some k) d

/-- A line that is a verb with a name behind it. -/
theorem executeLine_named {v : Verb} {action : Expr → Action}
    (hv : ∀ again t, Script.readVerb again v t = Script.readOne again action t) {text : String}
    (ht : (Tape.ofStatements text).tokens? = some [.verb v, .name name]) (run : Act Unit) (k : Int64) :
    executeLine run k text = (action (.scalar name)).perform run (some k) := by
  obtain ⟨xs, p, htape, hxs⟩ := Tape.exists_ofList ht
  obtain ⟨⟨x, a, b⟩, ys, rfl, rfl, hys⟩ := List.map_eq_cons_iff.1 hxs
  obtain ⟨⟨y, c, e⟩, zs, rfl, rfl, hzs⟩ := List.map_eq_cons_iff.1 hys
  obtain rfl := List.map_eq_nil_iff.1 hzs
  rw [executeLine, htape]
  show (Script.ofReading (Script.readVerb _ v _)).exec run (some k) = _
  rw [hv]
  exact bind_pure ((action (.scalar name)).perform run (some k))

theorem integer_of_find? (h : d.memory.find? name = some (labelVariable name n)) :
    Act.integer (.scalar name) d = .ok n d := by
  have hread : d.memory.read name 0 = .ok (.integer n) := by
    simp only [Memory.read, Memory.find, h, bind, Except.bind]
    rfl
  have hvalue : Act.value (.scalar name) d = .ok (.integer n) d := by
    rw [Act.value, Act.evaluate, Expr.eval, hread]
    rfl
  exact Act.bind_ok hvalue _

/-- **A label that is bound to a line in the table leads to the address of the
line.** -/
theorem leadsTo {address : Nat} (hfind : d.memory.find? name = some (labelVariable name n))
    (hresolve : d.control.resolve n = .ok address) : d.LeadsTo name address where
  goto run line := by
    refine (Act.bind_ok (integer_of_find? hfind) _).trans ?_
    rw [Act.control, Control.jump, hresolve]
    rfl
  gosub run line control hpush := by
    have hcontrol : Act.control (fun c => c.push (.returnTo c.following)) d = .ok () { d with control } := by
      rw [Act.control, hpush]
    refine (Act.bind_ok (integer_of_find? hfind) _).trans ?_
    refine (Act.bind_ok (Act.inspect_ok hresolve) _).trans ?_
    exact (Act.bind_ok hcontrol _).trans rfl
  gosub_full run line hfull := by
    have hpush : d.control.push (.returnTo d.control.following) = .error .stackOverflow := by
      rw [Control.push, Stack.push, if_pos hfull]
      rfl
    have hcontrol : Act.control (fun c => c.push (.returnTo c.following)) d = .error (.failed .stackOverflow) d := by
      rw [Act.control, hpush]
    refine (Act.bind_ok (integer_of_find? hfind) _).trans ?_
    refine (Act.bind_ok (Act.inspect_ok hresolve) _).trans ?_
    exact Act.bind_error hcontrol _
  goto_line run k text ht := congrFun (executeLine_named (fun _ _ => rfl) ht run k) d
  gosub_line run k text ht := congrFun (executeLine_named (fun _ _ => rfl) ht run k) d

/-- In a table that ascends every number has its own address. -/
theorem exists_resolve {l : Listing} (h : l.Ascending) (hn : n ∈ l.numbers) :
    ∃ address, l.numbers[address]? = some n ∧
      ∀ c : Control, c.table = l.numbers.toArray → c.resolve n = .ok address := by
  obtain ⟨address, hat⟩ := List.mem_iff_getElem?.1 hn
  refine ⟨address, hat, fun c hc => ?_⟩
  have hasc : c.table.toList.Pairwise (· < ·) := by
    rw [hc]
    exact h.shows.ascending
  rw [Control.resolve_eq_ok_iff hasc, hc, List.getElem?_toArray, hat]

/-- **A reset binds every label to its line.** Let no label end in `$`, and let
there be at most 65536 of them. Then a reset succeeds. The variables are the
labels, with the numbers of the last lines that begin with them. The program is
before its first line, with no frames and with all its lines in the table;
nothing else has changed. For as long as the variable of a label and the table
stay as they are, jumping to the label leads to its line. If there is one label
only and it ends in `$`, the reset fails for the kind of the name, with the
memory empty and nothing else changed. -/
theorem reset_binds_labels (m : Machine) (h : m.listing.Ascending) :
    ((∀ name ∈ m.listing.labels, name.toList.getLast? ≠ some '$') → m.listing.labels.size ≤ 65536 →
      ∃ memory control, reset m = .ok () { m with memory, control } ∧
        (∀ name v, memory.find? name = some v ↔
          ∃ n, m.listing.Means name n ∧ v = ⟨name, .numeric, #[some (.integer n)]⟩) ∧
        control = { m.control with address := 0, stack := .empty, table := m.listing.numbers.toArray } ∧
        m.listing.numbers.Pairwise (· < ·) ∧
        ∀ name n, m.listing.Means name n → ∃ address, m.listing.numbers[address]? = some n ∧
          ∀ d : Machine, d.control.table = control.table → d.memory.find? name = memory.find? name →
            d.control.resolve n = .ok address ∧ d.LeadsTo name address) ∧
    ∀ name : String, (∀ other, other ∈ m.listing.labels ↔ other = name) → name.toList.getLast? = some '$' →
      ∃ e : Error, e.kind = .typeMismatch ∧ reset m = .error (.failed e) { m with memory := .empty } := by
  constructor
  · intro hnames hsize
    refine ⟨_, _, reset_of_numeric hnames hsize, fun name v => find?_reset h v, rfl, h.shows.ascending, ?_⟩
    intro name n hmeans
    obtain ⟨address, hat, hresolve⟩ := exists_resolve h hmeans.mem_numbers
    refine ⟨address, hat, fun d htable hfind => ?_⟩
    have hbound : d.memory.find? name = some (labelVariable name n) :=
      hfind.trans ((find?_reset h _).2 ⟨n, hmeans, rfl⟩)
    exact ⟨hresolve d.control htable, leadsTo hbound (hresolve d.control htable)⟩
  · intro name honly hname
    exact ⟨_, rfl, reset_of_dollar honly hname⟩

/-- The labels of a listing, if they are known. -/
theorem mem_labels_iff {l : Listing} (hl : l.labels.toList = [(name, n)]) (other : String) :
    other ∈ l.labels ↔ other = name := by
  rw [Std.ExtTreeMap.mem_iff_isSome_getElem?, Option.isSome_iff_exists]
  constructor
  · rintro ⟨k, hk⟩
    have hmem := Std.ExtTreeMap.mem_toList_iff_getElem?_eq_some.2 hk
    rw [hl] at hmem
    exact (Prod.mk.inj (List.mem_singleton.1 hmem)).1
  · rintro rfl
    exact ⟨n, Std.ExtTreeMap.mem_toList_iff_getElem?_eq_some.1 (by rw [hl]; exact List.mem_singleton_self _)⟩

-- Of two lines with a label the last one is meant; the only label of another
-- program is the name of a text.
theorem reset_binds_labels_last :
    (∃ m' address, reset { listing := ⟨[(10, "TOP : END"), (20, "GOTO TOP"), (30, "TOP : PRINT 1")]⟩ } = .ok () m' ∧
      [10, 20, 30][address]? = some (30 : Int64) ∧
      executeLine (pure ()) 20 "GOTO TOP" m' =
        .ok () { m' with control := { m'.control with following := address } }) ∧
    ∃ e m', e.kind = .typeMismatch ∧ reset { listing := ⟨[(10, "A$ : END")]⟩ } = .error (.failed e) m' := by
  constructor
  · let m : Machine := { listing := ⟨[(10, "TOP : END"), (20, "GOTO TOP"), (30, "TOP : PRINT 1")]⟩ }
    have hasc : m.listing.Ascending := by
      show List.Pairwise (fun x y : Int64 × String => x.1 < y.1) _
      decide
    have hlabels : m.listing.labels.toList = [("TOP", 30)] := by decide +kernel
    have hmem := mem_labels_iff hlabels
    have hnames : ∀ name ∈ m.listing.labels, name.toList.getLast? ≠ some '$' := by
      intro name hname
      rw [(hmem name).1 hname]
      decide
    have hsize : m.listing.labels.size ≤ 65536 := by
      rw [← Std.ExtTreeMap.length_toList, hlabels]
      decide
    have hmeans : m.listing.Means "TOP" 30 := by
      refine (Listing.labels_eq_some_iff hasc).1 (Std.ExtTreeMap.mem_toList_iff_getElem?_eq_some.1 ?_)
      rw [hlabels]
      exact List.mem_singleton_self _
    obtain ⟨memory, control, hreset, -, -, -, hleads⟩ := (reset_binds_labels m hasc).1 hnames hsize
    obtain ⟨address, hat, hlabel⟩ := hleads "TOP" 30 hmeans
    obtain ⟨-, hto⟩ := hlabel { m with memory, control } rfl rfl
    refine ⟨_, address, hreset, hat, (hto.goto_line (pure ()) 20 "GOTO TOP" (by decide +kernel)).trans ?_⟩
    exact hto.goto (pure ()) (some 20)
  · let m : Machine := { listing := ⟨[(10, "A$ : END")]⟩ }
    have hasc : m.listing.Ascending := List.pairwise_singleton _ _
    have hlabels : m.listing.labels.toList = [("A$", 10)] := by decide +kernel
    obtain ⟨e, he, hreset⟩ := (reset_binds_labels m hasc).2 "A$" (mem_labels_iff hlabels) (by decide)
    exact ⟨e, _, he, hreset⟩

end Machine

end LineBasic
