import LineBasic.Proofs.Machine.LineLoop

/-!
# Loops over lines that are not entered

If the first value of a loop over lines is past the limit, the program goes on
behind the `NEXT` that closes the loop. That is the first one in the lines
behind the `FOR` that closes nothing else. A line may hold loops of its own, and
loops over lines may stand in each other, as long as each is opened and closed
by a line of its own.

* `Neutral`, `Opening`, `Closing`, `Block`: lines that are passed over.
* `Listing.searchLines_block`: looking for the `NEXT` passes over a block.
* `Machine.empty_loop_skips`: what `FOR` does if its range is empty.
-/

namespace LineBasic

/-! ### Looking through a line -/

section Search

variable {counter : String} {depth inline : Nat} {x : Token} {ts us vs : List Token}

theorem searchNext_other (hloop : x ≠ .verb .loop) (hnext : x ≠ .verb .next) :
    searchNext counter depth inline (x :: ts) = searchNext counter depth inline ts := by
  rw [searchNext]
  · intro h
    exact hloop h
  · intro h
    exact hnext h

/-- A `NEXT` closes a loop in its line first. -/
theorem searchNext_inline (h : 0 < inline) :
    searchNext counter depth inline (.verb .next :: ts) = searchNext counter depth (inline - 1) ts := by
  rw [searchNext.eq_def]
  dsimp only
  rw [if_pos h]

/-- Without a loop in its line, it closes one over lines. -/
theorem searchNext_nested : searchNext counter (depth + 1) 0 (.verb .next :: ts) = searchNext counter depth 0 ts := by
  rw [searchNext.eq_def]
  dsimp only
  rw [if_neg (Nat.lt_irrefl 0), if_pos (Nat.succ_pos depth), Nat.add_sub_cancel]

/-- Where nothing is left to be closed, a `NEXT` that stands alone or names the
variable is found. -/
theorem searchNext_found (h : ∀ s, ts.head? = some (.name s) → s = counter) :
    searchNext counter 0 0 (.verb .next :: ts) = none := by
  rw [searchNext.eq_def]
  dsimp only
  rw [if_neg (Nat.lt_irrefl 0), if_neg (Nat.lt_irrefl 0)]
  split
  case h_1 s _ => rw [if_pos (h s rfl)]
  case h_2 => rfl

/-- Tokens that open and close nothing are passed over. -/
theorem searchNext_append (hloop : .verb .loop ∉ us) (hnext : .verb .next ∉ us) :
    searchNext counter depth inline (us ++ ts) = searchNext counter depth inline ts := by
  induction us with
  | nil => rfl
  | cons x us ih =>
    rw [List.mem_cons, not_or] at hloop hnext
    rw [List.cons_append, searchNext_other (Ne.symm hloop.1) (Ne.symm hnext.1)]
    exact ih hloop.2 hnext.2

theorem searchNext_plain (hloop : .verb .loop ∉ us) (hnext : .verb .next ∉ us) :
    searchNext counter depth inline us = some depth := by
  have happend : searchNext counter depth inline (us ++ []) = some depth := searchNext_append hloop hnext
  rwa [List.append_nil] at happend

/-- If no `NEXT` occurs, none is found. -/
theorem searchNext_of_not_mem (hnext : .verb .next ∉ ts) : ∃ d, searchNext counter depth inline ts = some d := by
  induction ts generalizing depth inline with
  | nil => exact ⟨depth, rfl⟩
  | cons x ts ih =>
    rw [List.mem_cons, not_or] at hnext
    by_cases hloop : x = .verb .loop
    · subst hloop
      rw [searchNext]
      split
      · exact ih hnext.2
      · exact ih hnext.2
    · rw [searchNext_other hloop (Ne.symm hnext.1)]
      exact ih hnext.2

end Search

/-! ### Lines that are passed over -/

/-- A line whose loops are all in the line: a colon stands behind every `FOR`,
and before every `NEXT` there is a `FOR` that is not closed yet. -/
structure Neutral (ts : List Token) : Prop where
  inline : ∀ vs, .verb .loop :: vs <:+ ts → .colon ∈ vs
  within : ∀ us, us <+: ts → us.count (.verb .next) ≤ us.count (.verb .loop)

instance (ts : List Token) : Decidable (Neutral ts) :=
  decidable_of_iff
    ((∀ us ∈ ts.tails, us.head? = some (.verb .loop) → .colon ∈ us.tail) ∧
      ∀ us ∈ ts.inits, us.count (.verb .next) ≤ us.count (.verb .loop))
    ⟨fun h => ⟨fun vs hvs => h.1 (.verb .loop :: vs) ((List.mem_tails _ _).2 hvs) rfl,
        fun us hus => h.2 us ((List.mem_inits us ts).2 hus)⟩,
      fun h => ⟨fun us hus hhead => h.inline us.tail (by
          rw [List.cons_head?_tail hhead]
          exact (List.mem_tails us ts).1 hus),
        fun us hus => h.within us ((List.mem_inits us ts).1 hus)⟩⟩

/-- A line that opens a loop over lines. -/
inductive Opening : List Token → Prop
  | mk {us vs : List Token} : .verb .loop ∉ us ++ vs → .verb .next ∉ us ++ vs → .colon ∉ vs →
      Opening (us ++ .verb .loop :: vs)

/-- A line that closes a loop over lines. -/
inductive Closing : List Token → Prop
  | mk {vs : List Token} : .verb .loop ∉ vs → .verb .next ∉ vs → Closing (.verb .next :: vs)

/-- Lines in which every loop over lines is opened and closed. -/
inductive Block : List (List Token) → Prop
  | nil : Block []
  | line {ts : List Token} {rest : List (List Token)} : Neutral ts → Block rest → Block (ts :: rest)
  | loop {ts us : List Token} {inner rest : List (List Token)} : Opening ts → Block inner → Closing us → Block rest →
      Block (ts :: (inner ++ us :: rest))

section Search

variable {counter : String} {depth : Nat} {ts : List Token}

theorem searchNext_neutral {inline : Nat} (hinline : ∀ vs, .verb .loop :: vs <:+ ts → .colon ∈ vs)
    (hwithin : ∀ us, us <+: ts → us.count (.verb .next) ≤ inline + us.count (.verb .loop)) :
    searchNext counter depth inline ts = some depth := by
  induction ts generalizing inline with
  | nil => rfl
  | cons x ts ih =>
    have hinline' (vs : List Token) (h : .verb .loop :: vs <:+ ts) := hinline vs (h.trans (List.suffix_cons x ts))
    have hwithin' (us : List Token) (h : us <+: ts) := hwithin (x :: us) (List.cons_prefix_cons.2 ⟨rfl, h⟩)
    by_cases hloop : x = .verb .loop
    · subst hloop
      have hcolon : ts.contains .colon = true := by simpa using hinline ts List.suffix_rfl
      rw [searchNext, if_pos hcolon]
      refine ih hinline' fun us hus => ?_
      have hus := hwithin' us hus
      simp at hus
      omega
    by_cases hnext : x = .verb .next
    · subst hnext
      have hone := hwithin' [] List.nil_prefix
      have hpos : 0 < inline := by
        simp at hone
        omega
      rw [searchNext_inline hpos]
      refine ih hinline' fun us hus => ?_
      have hus := hwithin' us hus
      simp at hus
      omega
    · rw [searchNext_other hloop hnext]
      refine ih hinline' fun us hus => ?_
      have hus := hwithin' us hus
      rwa [List.count_cons_of_ne hloop, List.count_cons_of_ne hnext] at hus

/-- Looking for the `NEXT` of a loop over lines passes over a line in which
every loop is closed. -/
theorem searchNext_balanced {inline : Nat} (h : Balanced (depth + inline) ts) :
    searchNext counter depth inline ts = some 0 := by
  induction ts generalizing depth inline with
  | nil =>
    have hnone := h.nil
    rw [searchNext]
    congr 1
    omega
  | cons x ts ih =>
    by_cases hloop : x = .verb .loop
    · subst hloop
      rw [searchNext]
      split
      · exact ih h.loop
      · refine ih ?_
        rw [Nat.add_right_comm]
        exact h.loop
    by_cases hnext : x = .verb .next
    · subst hnext
      obtain ⟨k, hk, hts⟩ := h.next
      by_cases hinline : 0 < inline
      · rw [searchNext_inline hinline]
        refine ih ?_
        rwa [show depth + (inline - 1) = k by omega]
      · obtain rfl : inline = 0 := by omega
        obtain rfl : depth = k + 1 := by omega
        rw [searchNext_nested]
        exact ih hts
    · rw [searchNext_other hloop hnext]
      exact ih (h.other hloop hnext)

theorem Opening.searchNext_eq (h : Opening ts) : searchNext counter depth 0 ts = some (depth + 1) := by
  obtain ⟨hloop, hnext, hcolon⟩ := h
  rw [List.mem_append, not_or] at hloop hnext
  have hnone : ¬ List.contains _ Token.colon = true := fun h => hcolon (List.contains_iff_mem.1 h)
  rw [searchNext_append hloop.1 hnext.1, searchNext, if_neg hnone]
  exact searchNext_plain hloop.2 hnext.2

theorem Closing.searchNext_eq (h : Closing ts) : searchNext counter (depth + 1) 0 ts = some depth := by
  obtain ⟨hloop, hnext⟩ := h
  rw [searchNext_nested]
  exact searchNext_plain hloop hnext

end Search

namespace Listing

variable {l : Listing} {counter : String} {depth : Nat}

theorem searchLines_of_some {n : Int64} {d : Nat} (h : searchNext counter depth 0 (l.tokensOf n) = some d)
    (rest : List Int64) : l.searchLines counter depth (n :: rest) = (l.searchLines counter d rest).map (· + 1) := by
  rw [searchLines, h]

/-- **Looking for the `NEXT` passes over a block.** -/
theorem searchLines_block {tss : List (List Token)} (hb : Block tss) {ns : List Int64} (hns : ns.map l.tokensOf = tss)
    (depth : Nat) (rest : List Int64) :
    l.searchLines counter depth (ns ++ rest) = (l.searchLines counter depth rest).map (· + ns.length) := by
  induction hb generalizing ns depth rest with
  | nil =>
    obtain rfl := List.map_eq_nil_iff.1 hns
    simp
  | line hts _ ih =>
    obtain ⟨n, ms, rfl, hn, hms⟩ := List.map_eq_cons_iff.1 hns
    have hline : searchNext counter depth 0 (l.tokensOf n) = some depth := by
      rw [hn]
      exact searchNext_neutral hts.inline fun us hus => by simpa using hts.within us hus
    rw [List.cons_append, searchLines_of_some hline, ih hms, Option.map_map, List.length_cons]
    rfl
  | loop hopen _ hclose _ ih ih' =>
    obtain ⟨n, ms, rfl, hn, hms⟩ := List.map_eq_cons_iff.1 hns
    obtain ⟨inner, ms, rfl, hinner, hms⟩ := List.map_eq_append_iff.1 hms
    obtain ⟨k, after, rfl, hk, hafter⟩ := List.map_eq_cons_iff.1 hms
    have hfor : searchNext counter depth 0 (l.tokensOf n) = some (depth + 1) := hn ▸ hopen.searchNext_eq
    have hnext : searchNext counter (depth + 1) 0 (l.tokensOf k) = some depth := hk ▸ hclose.searchNext_eq
    rw [List.cons_append, searchLines_of_some hfor, List.append_assoc, ih hinner, List.cons_append,
      searchLines_of_some hnext, ih' hafter]
    simp only [Option.map_map, List.length_cons, List.length_append]
    congr 1
    funext d
    simp only [Function.comp_apply]
    omega

/-- If no `NEXT` occurs in any line, none is found. -/
theorem searchLines_of_not_mem {ns : List Int64} (h : ∀ n ∈ ns, .verb .next ∉ l.tokensOf n) (depth : Nat) :
    l.searchLines counter depth ns = none := by
  induction ns generalizing depth with
  | nil => rfl
  | cons n ns ih =>
    obtain ⟨d, hd⟩ := searchNext_of_not_mem (h n List.mem_cons_self)
    rw [searchLines_of_some hd, ih (fun k hk => h k (List.mem_cons_of_mem n hk)), Option.map_none]

end Listing

namespace Machine

variable {m m₁ : Machine} {n : Int64} {text : String} {ts : List Token}

/-- A line of the program that does not begin with a number is the same when it
is taken for a line of its own. -/
theorem Orderly.exists_parse (hm : m.Orderly) (hmem : (n, text) ∈ m.listing.lines)
    (ht : (Tape.ofStatements text).tokens? = some ts) (hnumber : ∀ k, ts.head? ≠ some (.number k)) :
    ∃ line, Line.parse text = .ok line ∧ line.tokens = ts := by
  obtain ⟨s, line, -, hp, -, rfl⟩ := hm.listing.origin (n, text) hmem
  have hlegible := Line.legible_of_parse hp
  obtain rfl : line.tokens = ts := Option.some.inj ((Line.tokens?_ofStatements hlegible).symm.trans ht)
  obtain ⟨l, hl, -, htokens⟩ := Line.parse_spell hlegible fun k us hk => hnumber k (by rw [hk]; rfl)
  exact ⟨l, hl, htokens⟩

theorem Orderly.tokensOf_eq (hm : m.Orderly) (hfind : m.listing.find? n = some text)
    (ht : (Tape.ofStatements text).tokens? = some ts) (hnumber : ∀ k, ts.head? ≠ some (.number k)) :
    m.listing.tokensOf n = ts := by
  obtain ⟨before, after, hlines, -⟩ := List.lookup_eq_some_iff.1 hfind
  obtain ⟨line, hline, htokens⟩ := hm.exists_parse (n := n) (by rw [hlines]; simp) ht hnumber
  rw [Listing.tokensOf, hfind]
  simp only [Option.map_some, hline, htokens]

theorem Reads.exists_tokensOf {address : Nat} (h : m.Reads address ts) (hm : m.Orderly)
    (hnumber : ∀ k, ts.head? ≠ some (.number k)) :
    ∃ n, m.control.table[address]? = some n ∧ m.listing.tokensOf n = ts := by
  obtain ⟨n, text, hline, hfind, ht⟩ := h
  exact ⟨n, hline, hm.tokensOf_eq hfind ht hnumber⟩

/-- **The line that closes a loop** is the first `NEXT` behind a block. -/
theorem closing_of_block (hm : m.Orderly) (line : Int64) {counter : String}
    (hnumber : ∀ address us k, m.control.address < address → m.Reads address us → us.head? ≠ some (.number k))
    {tss : List (List Token)} (hblock : Block tss)
    (hlines : ∀ k us, tss[k]? = some us → m.Reads (m.control.address + 1 + k) us)
    (hlast : m.Reads (m.control.address + 1 + tss.length) (.verb .next :: ts))
    (hname : ∀ s, ts.head? = some (.name s) → s = counter) :
    m.closing (some line) counter = .ok (m.control.address + 1 + tss.length) := by
  have hat (k : Nat) (us : List Token) (h : m.Reads (m.control.address + 1 + k) us) :
      ∃ n, (m.control.table.toList.drop (m.control.address + 1))[k]? = some n ∧ m.listing.tokensOf n = us := by
    obtain ⟨n, hn, hus⟩ := h.exists_tokensOf hm fun j => hnumber _ us j (by omega) h
    refine ⟨n, ?_, hus⟩
    rw [List.getElem?_drop, Array.getElem?_toList]
    exact hn
  generalize hlater : m.control.table.toList.drop (m.control.address + 1) = later at hat
  -- the numbers of the block, and then that of the last line
  obtain ⟨n, hn, htokens⟩ := hat tss.length _ hlast
  obtain ⟨hlt, hn⟩ := List.getElem?_eq_some_iff.1 hn
  have hsplit : later = later.take tss.length ++ n :: later.drop (tss.length + 1) := by
    rw [← hn, ← List.drop_eq_getElem_cons hlt, List.take_append_drop]
  have hlength : (later.take tss.length).length = tss.length := by
    rw [List.length_take]
    omega
  have hmap : (later.take tss.length).map m.listing.tokensOf = tss := by
    refine List.ext_getElem? fun k => ?_
    rw [List.getElem?_map, List.getElem?_take]
    split
    case isTrue hk =>
      obtain ⟨i, hi, hus⟩ := hat k tss[k] (hlines k _ (List.getElem?_eq_getElem hk))
      rw [hi, Option.map_some, hus, List.getElem?_eq_getElem hk]
    case isFalse hk => rw [List.getElem?_eq_none (by omega), Option.map_none]
  have hfound : m.listing.searchLines counter 0 (n :: later.drop (tss.length + 1)) = some 0 := by
    rw [Listing.searchLines, htokens, searchNext_found hname]
  have hsearch : m.listing.searchLines counter 0 later = some tss.length := by
    rw [hsplit, Listing.searchLines_block hblock hmap, hfound, hlength, Option.map_some, Nat.zero_add]
  rw [closing, hlater]
  simp only [Option.isSome_some, if_true, hsearch]

/-- Without any `NEXT` behind it, a loop is not closed. -/
theorem closing_of_not_mem (hm : m.Orderly) (line : Option Int64) (counter : String)
    (hnumber : ∀ address us k, m.control.address < address → m.Reads address us → us.head? ≠ some (.number k))
    (hnext : ∀ address us, m.control.address < address → m.Reads address us → .verb .next ∉ us) :
    m.closing line counter = .error (.forWithoutNext counter) := by
  have hnone : m.listing.searchLines counter 0 (m.control.table.toList.drop (m.control.address + 1)) = none := by
    refine Listing.searchLines_of_not_mem (fun n hn => ?_) 0
    obtain ⟨k, hk⟩ := List.getElem?_of_mem hn
    rw [List.getElem?_drop, Array.getElem?_toList] at hk
    cases hfind : m.listing.find? n with
    | none => simp [Listing.tokensOf, hfind]
    | some text =>
      obtain ⟨before, after, hlines, -⟩ := List.lookup_eq_some_iff.1 hfind
      obtain ⟨-, -, us, hus, -⟩ := hm.lines (n, text) (by rw [hlines]; simp)
      have hreads : m.Reads (m.control.address + 1 + k) us := ⟨n, text, hk, hfind, hus⟩
      rw [hm.tokensOf_eq hfind hus fun j => hnumber _ us j (by omega) hreads]
      exact hnext _ us (by omega) hreads
  rw [closing, hnone]
  simp only [ite_self]

theorem executeLine_opening (run : Act Unit) (n : Int64) {range : List Token} {head : LoopHead}
    (ht : (Tape.ofStatements text).tokens? = some (.verb .loop :: range)) (hhead : head.Spelled range)
    (hkind : VariableKind.ofName head.place.name = .numeric) :
    executeLine run n text = Act.startLoop (some n) head := by
  rw [executeLine, Script.read_opening ht hhead hkind]
  exact bind_pure (Act.startLoop (some n) head)

/-- `FOR` goes on behind the `NEXT` if its range is empty. -/
theorem step_skipping (run : Act Unit) {range : List Token} {head : LoopHead} {i start limit : Int64} {s : Stride}
    {m₁ : Machine} {memory : Memory} {address : Nat} (hline : m.Reads m.control.address (.verb .loop :: range))
    (hhead : head.Spelled range) (hkind : VariableKind.ofName head.place.name = .numeric)
    (hrange : Act.range head m.fetched = .ok (i, start, limit, s) m₁)
    (hw : m.memory.write .numeric head.place.name i (.integer start) = (.ok (), memory))
    (hout : Loop.Past s.val.toInt limit.toInt start.toInt)
    (hclosing : ∀ n, m.closing (some n) head.place.name = .ok address) :
    step run m = .ok true { m with memory, chance := m₁.chance, control := m.control.reached (address + 1) } := by
  obtain ⟨chance, rfl⟩ := (Act.range_looks head).of_ok hrange
  let l : Loop := ⟨head.place.name, i, m.control.address + 1, limit, s⟩
  have hpast : l.admits (.integer start) = false := Bool.eq_false_iff.2 fun h => Loop.within_iff.1 h hout
  have hact (n : Int64) := (Act.startLoop_eq hrange).trans
    ((Act.openLoop_refused (some n) (m := { m.fetched with chance }) (l := l) hw hpast).trans
      (Act.bind_ok (Act.inspect_ok (hclosing n)) _))
  exact step_of_reads hline (fun t ht => Script.read_opening ht hhead hkind) hact

/-- **An empty loop over lines goes on behind its own `NEXT`.** The current line
holds nothing but `FOR`, and no line behind it begins with a number. The
variable gets its first value in any case. If a block of lines follows and then
a line that begins with `NEXT`, alone or with the variable, what follows is the
line behind that, and no frame is pushed. If there is no `NEXT` in any line
behind the loop, there is an error, and the place in the program and the frames
stay. -/
theorem empty_loop_skips (run : Act Unit) (hm : m.Reachable) {range : List Token} {head : LoopHead} {i a b : Int64}
    {s : Stride} (hfor : m.Reads m.control.address (.verb .loop :: range)) (hhead : head.Spelled range)
    (hkind : VariableKind.ofName head.place.name = .numeric) (hrange : Act.range head m = .ok (i, a, b, s) m₁)
    (hwrite : (m.memory.write .numeric head.place.name i (.integer a)).1 = .ok ())
    (hempty : Loop.Past s.val.toInt b.toInt a.toInt)
    (hnumber : ∀ address us k, m.control.address < address → m.Reads address us → us.head? ≠ some (.number k)) :
    ∃ n text memory chance, m.control.lineAt? m.control.address = some n ∧ m.listing.find? n = some text ∧
      memory = (m.memory.write .numeric head.place.name i (.integer a)).2 ∧
      memory.readNumber head.place.name i = .ok (.integer a) ∧
      (∀ tss vs, Block tss → (∀ k us, tss[k]? = some us → m.Reads (m.control.address + 1 + k) us) →
        m.Reads (m.control.address + 1 + tss.length) (.verb .next :: vs) →
        (∀ x, vs.head? = some (.name x) → x = head.place.name) →
        executeLine run n text m = .ok ()
          { m with
            memory, chance, control := { m.control with following := m.control.address + 1 + tss.length + 1 } }) ∧
      ((∀ address us, m.control.address < address → m.Reads address us → .verb .next ∉ us) →
        executeLine run n text m = .error (.failed (.forWithoutNext head.place.name)) { m with memory, chance }) := by
  obtain ⟨n, text, hline, hfind, ht⟩ := hfor
  obtain ⟨chance, rfl⟩ := (Act.range_looks head).of_ok hrange
  obtain ⟨memory, hw⟩ : ∃ memory, m.memory.write .numeric head.place.name i (.integer a) = (.ok (), memory) :=
    ⟨_, Prod.ext hwrite rfl⟩
  -- all but the search is the same in both cases
  have hrefused : executeLine run n text m =
      (Act.inspect (·.closing (some n) head.place.name) >>= fun address => Act.follow (address + 1))
        { m with memory, chance } := by
    have hout : Loop.within b s (.integer a) = false := Bool.eq_false_iff.2 fun h => Loop.within_iff.1 h hempty
    rw [executeLine_opening run n ht hhead hkind, Act.startLoop_eq hrange]
    exact Act.openLoop_refused (some n) hw hout
  refine ⟨n, text, memory, chance, hline, hfind, (congrArg Prod.snd hw).symm,
    hm.orderly.memory.readNumber_of_write hw, ?_, ?_⟩
  · intro tss vs hblock hlines hlast hname
    have hclosing := closing_of_block hm.orderly n hnumber hblock hlines hlast hname
    have hinspect := Act.inspect_ok (m := { m with memory, chance }) (f := (·.closing (some n) head.place.name))
      hclosing
    rw [hrefused, Act.bind_ok hinspect]
    rfl
  · intro hnext
    have hclosing := closing_of_not_mem hm.orderly (some n) head.place.name hnumber hnext
    have hinspect := Act.inspect_error (m := { m with memory, chance }) (f := (·.closing (some n) head.place.name))
      hclosing
    rw [hrefused, Act.bind_error hinspect]

/-- Whether the tokens of all lines of the program satisfy a condition. -/
def everyLine (m : Machine) (p : List Token → Bool) : Bool :=
  m.control.table.toList.all fun n => (m.listing.find? n).all fun text => (Tape.ofStatements text).tokens?.all p

theorem Reads.of_everyLine {m : Machine} {p : List Token → Bool} (h : m.everyLine p = true) {address : Nat}
    {ts : List Token} (hr : m.Reads address ts) : p ts = true := by
  obtain ⟨n, text, hline, hfind, ht⟩ := hr
  rw [Control.lineAt?, ← Array.getElem?_toList] at hline
  have hn := List.all_eq_true.1 h n (List.mem_of_getElem? hline)
  simpa only [hfind, ht, Option.all_some] using hn

-- A line with a loop of its own and a loop over two lines stand between `FOR`
-- and `NEXT`. Alone, the `FOR` has no `NEXT` to go to.
theorem empty_loop_skips_nested :
    (∃ m m' : Machine, m.Reachable ∧ executeLine (pure ()) 10 "FOR I = 5 TO 1 STEP 1" m = .ok () m' ∧
      m'.memory.readNumber "I" 0 = .ok (.integer 5) ∧ m'.control.following = 5 ∧
      m'.control.stack = m.control.stack) ∧
    ∃ m m' : Machine, m.Reachable ∧
      executeLine (pure ()) 10 "FOR I = 5 TO 1 STEP 1" m = .error (.failed (.forWithoutNext "I")) m' ∧
      m'.memory.readNumber "I" 0 = .ok (.integer 5) ∧ m'.control = m.control := by
  let range (s : String) (a b : Int64) : List Token :=
    [.name s, .equal, .number a, .keyword .upTo, .number b, .keyword .step, .number 1]
  let own : List Token := .verb .loop :: (range "J" 1 2 ++ [.colon, .verb .print, .name "J", .colon, .verb .next])
  let verbs : List (Option Token) := [some (.verb .loop), some (.verb .next), some (.verb .finish)]
  have hhead := LoopHead.spelled_numbers "I" 5 1 1
  have hfor : (Tape.ofStatements "FOR I = 5 TO 1 STEP 1").tokens? = some (.verb .loop :: range "I" 5 1) := by
    decide +kernel
  have hnumber {us : List Token} (h : decide (us.head? ∈ verbs) = true) (k : Int64) :
      us.head? ≠ some (.number k) := by
    intro hk
    simp [verbs, hk] at h
  constructor
  · have hm : ∃ m : Machine, m.Reachable ∧ m.control.address = 0 ∧
        (m.memory.write .numeric "I" 0 (.integer 5)).1 = .ok () ∧
        (m.control.lineAt? 0 = some 10 ∧ m.listing.find? 10 = some "FOR I = 5 TO 1 STEP 1") ∧
        (m.control.lineAt? 1 = some 20 ∧ m.listing.find? 20 = some "FOR J = 1 TO 2 STEP 1 : PRINT J : NEXT") ∧
        (m.control.lineAt? 2 = some 30 ∧ m.listing.find? 30 = some "FOR K = 1 TO 3 STEP 1") ∧
        (m.control.lineAt? 3 = some 40 ∧ m.listing.find? 40 = some "NEXT") ∧
        (m.control.lineAt? 4 = some 50 ∧ m.listing.find? 50 = some "NEXT I : END") ∧
        m.everyLine (·.head? ∈ verbs) = true :=
      ⟨typed ["10 for i = 5 to 1 step 1", "20 for j = 1 to 2 step 1: print j: next", "30 for k = 1 to 3 step 1",
        "40 next", "50 next i: end", "reset"], reachable_typed _, by decide +kernel⟩
    obtain ⟨m, hm, haddress, hwrite, h₀, h₁, h₂, h₃, h₄, hverbs⟩ := hm
    have hown : Neutral own := by decide +kernel
    have hinner : Opening ([] ++ .verb .loop :: range "K" 1 3) :=
      .mk (by decide +kernel) (by decide +kernel) (by decide +kernel)
    have hblock : Block [own, .verb .loop :: range "K" 1 3, [.verb .next]] :=
      .line hown (.loop hinner .nil (.mk (by decide) (by decide)) .nil)
    have hreads : m.Reads m.control.address (.verb .loop :: range "I" 5 1) := by
      rw [haddress]
      exact ⟨10, _, h₀.1, h₀.2, hfor⟩
    obtain ⟨n, text, memory, chance, hn, htext, -, hread, hskip, -⟩ :=
      empty_loop_skips (pure ()) hm (s := ⟨1, by decide⟩) hreads hhead (by decide) rfl hwrite (by decide)
        fun address us k _ hus => hnumber (hus.of_everyLine hverbs) k
    rw [haddress, h₀.1] at hn
    obtain rfl := Option.some.inj hn
    rw [h₀.2] at htext
    obtain rfl := Option.some.inj htext
    have hskip := hskip _ [.name "I", .colon, .verb .finish] hblock ?_ ?_ ?_
    · refine ⟨m, _, hm, hskip, hread, ?_, rfl⟩
      rw [haddress]
      rfl
    · rw [haddress]
      intro k us hk
      have hlt := (List.getElem?_eq_some_iff.1 hk).1
      have hlt : k < 3 := hlt
      interval_cases k
      · obtain rfl := Option.some.inj hk
        exact ⟨20, _, h₁.1, h₁.2, by decide +kernel⟩
      · obtain rfl := Option.some.inj hk
        exact ⟨30, _, h₂.1, h₂.2, by decide +kernel⟩
      · obtain rfl := Option.some.inj hk
        exact ⟨40, _, h₃.1, h₃.2, by decide +kernel⟩
    · rw [haddress]
      exact ⟨50, _, h₄.1, h₄.2, by decide +kernel⟩
    · intro x hx
      exact (Token.name.inj (Option.some.inj hx)).symm
  · have hm : ∃ m : Machine, m.Reachable ∧ m.control.address = 0 ∧
        (m.memory.write .numeric "I" 0 (.integer 5)).1 = .ok () ∧ m.control.lineAt? 0 = some 10 ∧
        m.listing.find? 10 = some "FOR I = 5 TO 1 STEP 1" ∧ m.everyLine (·.head? ∈ verbs) = true ∧
        m.everyLine (.verb .next ∉ ·) = true :=
      ⟨typed ["10 for i = 5 to 1 step 1", "20 end", "reset"], reachable_typed _, by decide +kernel⟩
    obtain ⟨m, hm, haddress, hwrite, hline, hfind, hverbs, hnone⟩ := hm
    have hreads : m.Reads m.control.address (.verb .loop :: range "I" 5 1) := by
      rw [haddress]
      exact ⟨10, _, hline, hfind, hfor⟩
    obtain ⟨n, text, memory, chance, hn, htext, -, hread, -, hfail⟩ :=
      empty_loop_skips (pure ()) hm (s := ⟨1, by decide⟩) hreads hhead (by decide) rfl hwrite (by decide)
        fun address us k _ hus => hnumber (hus.of_everyLine hverbs) k
    rw [haddress, hline] at hn
    obtain rfl := Option.some.inj hn
    rw [hfind] at htext
    obtain rfl := Option.some.inj htext
    exact ⟨m, _, hm, hfail fun address us _ hus => of_decide_eq_true (hus.of_everyLine hnone), hread, rfl⟩

end Machine

end LineBasic
