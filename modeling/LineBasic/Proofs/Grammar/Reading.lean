import LineBasic.Proofs.Grammar.Phrase

/-!
# Reading phrases

The readers of expressions take a phrase of their level off a tape, if the token
behind the phrase cannot belong to it. There is one lemma for every rule of the
grammar.

* `Tape.Leads`: the tokens at the beginning of a tape, and what follows them.
* `Readable`: what the reader of a level does with a phrase.
* `Phrase.readable`: every phrase is readable.
* `Expr.read_phrase`: an expression is read off a tape with its tree.
-/

namespace LineBasic

/-! ### Tokens at the beginning of a tape -/

namespace Tape

/-- The tape begins with these tokens, and the rest follows. -/
inductive Leads : List Token → Tape → Tape → Prop
  | nil (t : Tape) : Leads [] t t
  | cons (x : Token) (p q : Position) {ts : List Token} {r rest : Tape} :
      Leads ts r rest → Leads (x :: ts) (.cons ⟨x, p, q⟩ r) rest

/-- The first lexeme of the tape could be scanned, if there is one. -/
def Scanned (t : Tape) : Prop := ∀ e, t ≠ .broken e

variable {ts us : List Token} {t mid rest : Tape}

theorem Leads.length (h : Leads ts t rest) : t.length = ts.length + rest.length := by
  induction h with
  | nil t => simp
  | cons x p q _ ih =>
    simp only [Tape.length, List.length_cons, ih]
    omega

theorem Leads.append (h : Leads ts t mid) (h' : Leads us mid rest) : Leads (ts ++ us) t rest := by
  induction h with
  | nil t => exact h'
  | cons x p q _ ih => exact .cons x p q (ih h')

theorem Leads.split (h : Leads (ts ++ us) t rest) : ∃ mid, Leads ts t mid ∧ Leads us mid rest := by
  induction ts generalizing t with
  | nil => exact ⟨t, .nil t, h⟩
  | cons x ts ih =>
    cases h with
    | cons _ p q h =>
      obtain ⟨mid, h1, h2⟩ := ih h
      exact ⟨mid, .cons x p q h1, h2⟩

theorem scanned_cons (x : Lexeme) (t : Tape) : (cons x t).Scanned := nofun

theorem scanned_stop (p : Position) : (stop p).Scanned := nofun

theorem Leads.scanned (h : Leads ts t rest) (hr : rest.Scanned) : t.Scanned := by
  cases h with
  | nil => exact hr
  | cons => exact scanned_cons _ _

theorem Scanned.ready (h : t.Scanned) : t.ready = .ok t := by
  cases t with
  | broken e => exact absurd rfl (h e)
  | _ => rfl

theorem accept?_cons (token : Token) (p q : Position) (h : t.Scanned) :
    (cons ⟨token, p, q⟩ t).accept? token = .ok (some t) := by
  rw [accept?, if_pos rfl, h.ready]
  rfl

theorem accept?_of_ne {token : Token} (h : t.peek? ≠ some token) : t.accept? token = .ok none := by
  cases t with
  | cons x r =>
    rw [accept?, if_neg]
    exact fun hx => h (congrArg some hx)
  | _ => rfl

theorem expect_cons (token : Token) (p q : Position) (h : t.Scanned) :
    (cons ⟨token, p, q⟩ t).expect token = .ok t := by
  rw [expect, accept?_cons token p q h]
  rfl

end Tape

open Tape (Leads)

/-- No token that comes next can belong to a phrase of the level. -/
def Level.stops (v : Level) (g : Edge) (rest : Tape) : Prop := ∀ x, rest.peek? = some x → ¬ v.takes g x

theorem Level.stops_below {v : Level} {g : Edge} {rest : Tape} (hv : v ≠ .factor) (h : v.stops g rest) :
    v.below.stops g rest :=
  fun x hx ht => h x hx ((Level.takes_iff hv).2 (Or.inl ht))

/-- What is neither an operator nor an opening parenthesis belongs to no phrase
before it. -/
theorem Level.stops_of_level? {x : Token} (hlevel : x.level? = none) (hparen : x ≠ .openParen) (v : Level) (g : Edge)
    (p q : Position) (t : Tape) : v.stops g (.cons ⟨x, p, q⟩ t) := by
  intro y hy ht
  obtain rfl : x = y := Option.some.inj hy
  rcases ht with ⟨-, h⟩ | ⟨w, h, -⟩
  · exact hparen h
  · rw [hlevel] at h
    cases h

/-- Commas and closing parentheses belong to no phrase before them. -/
theorem Level.stops_cons {x : Token} (hx : x = .comma ∨ x = .closeParen) (v : Level) (g : Edge) (p q : Position)
    (t : Tape) : v.stops g (.cons ⟨x, p, q⟩ t) := by
  rcases hx with rfl | rfl
  · exact stops_of_level? (x := .comma) rfl nofun v g p q t
  · exact stops_of_level? (x := .closeParen) rfl nofun v g p q t

/-! ### Readers -/

/-- The reader of a level. -/
def Level.reader (nested : Expr.Reader) : Level → Expr.Reader
  | disjunction => Expr.readWith nested
  | conjunction => Expr.readChain Token.conjunction? (Expr.readChain Token.exclusion? (Expr.readTerm nested))
  | exclusion => Expr.readChain Token.exclusion? (Expr.readTerm nested)
  | term => Expr.readTerm nested
  | sum => Expr.readChain Token.sum? (Expr.readChain Token.product? (Expr.readFactor nested))
  | product => Expr.readChain Token.product? (Expr.readFactor nested)
  | factor => Expr.readFactor nested

theorem Level.reader_eq {v : Level} (h : v.repeats = true) (nested : Expr.Reader) :
    v.reader nested = Expr.readChain v.op? (v.below.reader nested) := by
  cases v <;> first | rfl | cases h

/-- The reader of the level takes the phrase off every tape on which it ends. On
a level with a chain of operands this has a stage before: the chain is read as
far as the phrase goes. -/
structure Readable (v : Level) (g : Edge) (ts : List Token) (e : Expr) : Prop where
  whole : ∀ ⦃bound t rest : Tape⦄, ts.length ≤ bound.length + 1 → Leads ts t rest → rest.Scanned →
    v.stops g rest → v.reader (Expr.readNested bound) t = .ok (e, rest)
  chained : v.repeats = true → ∀ ⦃bound t rest : Tape⦄, ts.length ≤ bound.length + 1 → Leads ts t rest →
    rest.Scanned → v.below.stops g rest → ∃ b : Tape, rest.length ≤ b.length ∧
      v.reader (Expr.readNested bound) t =
        Expr.readChainFrom v.op? (v.below.reader (Expr.readNested bound)) b e rest

theorem Expr.readChainFrom_stop {op? : Token → Option Binary} {rest : Tape}
    (h : ∀ x, rest.peek? = some x → op? x = none) (operand : Reader) (b : Tape) (l : Expr) :
    readChainFrom op? operand b l rest = .ok (l, rest) := by
  cases b with
  | cons y b =>
    cases rest with
    | cons x r =>
      have hx := h x.token rfl
      simp only [readChainFrom, hx]
    | _ => rfl
  | _ => rfl

namespace Readable

variable {v : Level} {g g' : Edge} {ts us : List Token} {l r e : Expr}

/-- A chain ends where no operator of its level follows. -/
theorem ofChained (hv : v.repeats = true)
    (h : ∀ ⦃bound t rest : Tape⦄, ts.length ≤ bound.length + 1 → Leads ts t rest → rest.Scanned →
      v.below.stops g rest → ∃ b : Tape, rest.length ≤ b.length ∧ v.reader (Expr.readNested bound) t =
        Expr.readChainFrom v.op? (v.below.reader (Expr.readNested bound)) b e rest) : Readable v g ts e := by
  refine ⟨?_, fun _ => h⟩
  intro bound t rest hlen hlead hscan hstop
  have hfactor : v ≠ .factor := by rintro rfl; cases hv
  obtain ⟨b, -, hb⟩ := h hlen hlead hscan (Level.stops_below hfactor hstop)
  rw [hb]
  refine Expr.readChainFrom_stop ?_ _ b e
  intro x hx
  cases hop : v.op? x with
  | none => rfl
  | some op =>
    refine absurd ((Level.takes_iff hfactor).2 (Or.inr ⟨Level.op?_eq_some hop, ?_⟩)) (hstop x hx)
    rintro rfl
    cases hv

/-- One operand is a chain. -/
theorem operand (hv : v.repeats = true) (h : Readable v.below g ts e) : Readable v g ts e := by
  refine ofChained hv ?_
  intro bound t rest hlen hlead hscan hstop
  refine ⟨rest, le_rfl, ?_⟩
  rw [Level.reader_eq hv, Expr.readChain, h.whole hlen hlead hscan hstop]
  rfl

/-- A chain goes on with an operator and an operand. -/
theorem binary (hv : v.repeats = true) (hl : Readable v g ts l) (hg : g.negated = false) {x : Token}
    {op : Binary} (hop : v.op? x = some op) (hr : Readable v.below g' us r) :
    Readable v g' (ts ++ x :: us) (.binary op l r) := by
  refine ofChained hv ?_
  intro bound t rest hlen hlead hscan hstop
  have hfactor : v ≠ .factor := by rintro rfl; cases hv
  rw [List.length_append, List.length_cons] at hlen
  obtain ⟨mid, hts, hmid⟩ := hlead.split
  cases hmid with
  | @cons _ p q _ t' _ hus =>
    -- the operator belongs to the chain and not to the operand before it
    have hstop' : v.below.stops g (.cons ⟨x, p, q⟩ t') := by
      intro y hy
      obtain rfl : x = y := Option.some.inj hy
      exact Level.not_takes_below hfactor hg (Level.op?_eq_some hop)
    obtain ⟨b, hlength, hb⟩ :=
      hl.chained hv (show ts.length ≤ bound.length + 1 by omega) hts (Tape.scanned_cons _ _) hstop'
    rw [hb]
    cases b with
    | cons y b =>
      refine ⟨b, ?_, ?_⟩
      · have := hus.length
        simp only [Tape.length] at hlength
        omega
      · have hread := hr.whole (show us.length ≤ bound.length + 1 by omega) hus hscan hstop
        rw [Expr.readChainFrom]
        simp only [hop, (hus.scanned hscan).ready, bind, Except.bind, hread]
        rfl
    | _ => simp [Tape.length] at hlength

/-- The phrases of a level without a chain need only be read as a whole. -/
theorem ofWhole (hv : v.repeats = false)
    (h : ∀ ⦃bound t rest : Tape⦄, ts.length ≤ bound.length + 1 → Leads ts t rest → rest.Scanned →
      v.stops g rest → v.reader (Expr.readNested bound) t = .ok (e, rest)) : Readable v g ts e :=
  ⟨h, fun hv' => absurd (hv.symm.trans hv') Bool.false_ne_true⟩

/-- An expression inside of another one is read with one level of nesting
less. -/
theorem nested (h : Readable .disjunction g ts e) {bound t rest : Tape} (hne : ts ≠ [])
    (hlen : ts.length ≤ bound.length) (hlead : Leads ts t rest) (hscan : rest.Scanned)
    (hstop : Level.disjunction.stops g rest) : Expr.readNested bound t = .ok (e, rest) := by
  have hpos := List.length_pos_iff.2 hne
  cases bound with
  | cons x b => exact h.whole hlen hlead hscan hstop
  | _ =>
    simp only [Tape.length] at hlen
    omega

/-- An expression up to its closing parenthesis. -/
theorem enclosed (h : Readable .disjunction g ts e) {bound t rest : Tape} (hne : ts ≠ [])
    (hlen : ts.length ≤ bound.length) (hlead : Leads (ts ++ [.closeParen]) t rest) (hscan : rest.Scanned) :
    ∃ mid, t.Scanned ∧ Expr.readNested bound t = .ok (e, mid) ∧ mid.expect .closeParen = .ok rest := by
  obtain ⟨mid, hts, hmid⟩ := hlead.split
  cases hmid with
  | cons _ p q hr =>
    cases hr
    have hclose := Tape.scanned_cons ⟨.closeParen, p, q⟩ rest
    exact ⟨_, hts.scanned hclose, h.nested hne hlen hts hclose (Level.stops_cons (.inr rfl) _ g p q rest),
      Tape.expect_cons _ p q hscan⟩

/-! ### Factors -/

theorem number (n : Int64) : Readable .factor {} [.number n] (.number n) := by
  refine ofWhole rfl ?_
  rintro bound _ rest - (_ | ⟨_, p, q, hr⟩) hscan -
  cases hr
  simp only [Level.reader, Expr.readFactor, hscan.ready]
  rfl

theorem text (s : String) : Readable .factor {} [.quoted s] (.text s) := by
  refine ofWhole rfl ?_
  rintro bound _ rest - (_ | ⟨_, p, q, hr⟩) hscan -
  cases hr
  simp only [Level.reader, Expr.readFactor, hscan.ready]
  rfl

theorem scalar (s : String) : Readable .factor { named := true } [.name s] (.scalar s) := by
  refine ofWhole rfl ?_
  rintro bound _ rest - (_ | ⟨_, p, q, hr⟩) hscan hstop
  cases hr
  have hparen : rest.peek? ≠ some .openParen := fun h => hstop _ h (Or.inl ⟨rfl, rfl⟩)
  simp only [Level.reader, Expr.readFactor, hscan.ready, bind, Except.bind, Expr.readIndex,
    Tape.accept?_of_ne hparen]
  rfl

theorem element (s : String) (hne : ts ≠ []) (h : Readable .disjunction g ts e) :
    Readable .factor {} (.name s :: .openParen :: ts ++ [.closeParen]) (.element s e) := by
  refine ofWhole rfl ?_
  rintro bound _ rest hlen (_ | ⟨_, p, q, _ | ⟨_, p', q', hr⟩⟩) hscan -
  simp only [List.length_cons, List.length_append, List.cons_append] at hlen
  obtain ⟨mid, hready, hread, hexpect⟩ := h.enclosed hne (show ts.length ≤ bound.length by omega) hr hscan
  simp only [Level.reader, Expr.readFactor, (Tape.scanned_cons _ _).ready, bind, Except.bind, Expr.readIndex,
    Tape.accept?_cons _ p' q' hready, hread, hexpect]
  rfl

theorem group (hne : ts ≠ []) (h : Readable .disjunction g ts e) :
    Readable .factor {} (.openParen :: ts ++ [.closeParen]) e := by
  refine ofWhole rfl ?_
  rintro bound _ rest hlen (_ | ⟨_, p, q, hr⟩) hscan -
  simp only [List.length_cons, List.length_append, List.cons_append] at hlen
  obtain ⟨mid, hready, hread, hexpect⟩ := h.enclosed hne (show ts.length ≤ bound.length by omega) hr hscan
  simp only [Level.reader, Expr.readFactor, hready.ready, bind, Except.bind, hread, hexpect]
  rfl

theorem sign (s : Sign) (h : Readable .factor g ts e) :
    Readable .factor g (.sign s :: ts) (.unary (Expr.signed s) e) := by
  refine ofWhole rfl ?_
  rintro bound _ rest hlen (_ | ⟨_, p, q, hr⟩) hscan hstop
  rw [List.length_cons] at hlen
  have hread : Expr.readFactor (Expr.readNested bound) _ = .ok (e, rest) := h.whole (by omega) hr hscan hstop
  simp only [Level.reader, Expr.readFactor, bind, Except.bind, hread]
  rfl

/-! ### Terms -/

theorem negation (hne : ts ≠ []) (h : Readable .disjunction g ts e) :
    Readable .term { g with negated := true } (.connective .not :: ts) (.unary .not e) := by
  refine ofWhole rfl ?_
  rintro bound _ rest hlen (_ | ⟨_, p, q, hr⟩) hscan hstop
  rw [List.length_cons] at hlen
  have hread : Expr.readNested bound _ = .ok (e, rest) :=
    h.nested hne (by omega) hr hscan fun x hx ht => hstop x hx (Level.takes_negation.2 ht)
  simp only [Level.reader, Expr.readTerm, Tape.accept?_cons _ p q (hr.scanned hscan), bind, Except.bind, hread]
  rfl

/-- Where no `NOT` comes first, a term is a comparison. -/
theorem readTerm_of_ne {nested : Expr.Reader} {t : Tape} (h : t.peek? ≠ some (.connective .not)) :
    Expr.readTerm nested t = Expr.readPair Token.comparison? (Level.sum.reader nested) t := by
  rw [Expr.readTerm, Tape.accept?_of_ne h]
  rfl

/-- A tape does not begin with `NOT` if a plain phrase leads it. -/
theorem peek?_ne_not {t rest : Tape} (h : Phrase .sum g ts l) (hlead : Leads ts t rest) :
    t.peek? ≠ some (.connective .not) := by
  obtain ⟨x, vs, rfl, -, hx⟩ := h.head
  cases hlead with
  | cons => exact fun he => hx rfl (Option.some.inj he)

theorem term (hp : Phrase .sum g ts e) (h : Readable .sum g ts e) : Readable .term g ts e := by
  refine ofWhole rfl ?_
  intro bound t rest hlen hlead hscan hstop
  have hread := h.whole hlen hlead hscan (Level.stops_below (v := .term) nofun hstop)
  rw [Level.reader, readTerm_of_ne (peek?_ne_not hp hlead), Expr.readPair, hread]
  -- a sum is no comparison, so one could still follow
  cases rest with
  | cons x r =>
    cases hop : Token.comparison? x.token with
    | none => simp only [bind, Except.bind, hop]; rfl
    | some op =>
      refine absurd ?_ (hstop x.token rfl)
      exact (Level.takes_iff (v := .term) nofun).2
        (Or.inr ⟨Level.op?_eq_some (v := .term) hop, fun _ => (hp.edge rfl).1⟩)
  | _ => rfl

theorem comparison (hp : Phrase .sum g ts l) (hl : Readable .sum g ts l) {x : Token} {op : Binary}
    (hop : Token.comparison? x = some op) (hp' : Phrase .sum g' us r) (hr : Readable .sum g' us r) :
    Readable .term { g' with compared := true } (ts ++ x :: us) (.binary op l r) := by
  refine ofWhole rfl ?_
  intro bound t rest hlen hlead hscan hstop
  rw [List.length_append, List.length_cons] at hlen
  obtain ⟨mid, hts, hmid⟩ := hlead.split
  cases hmid with
  | @cons _ p q _ t' _ hus =>
    have hstopl : Level.sum.stops g (.cons ⟨x, p, q⟩ t') := by
      intro y hy
      obtain rfl : x = y := Option.some.inj hy
      exact Level.not_takes_below (v := .term) nofun (hp.edge rfl).2 (Level.op?_eq_some (v := .term) hop)
    obtain ⟨hc, hn⟩ := hp'.edge rfl
    have hstopr : Level.sum.stops g' rest := fun y hy ht => hstop y hy ((Level.takes_comparison hc hn).2 ht)
    have hreadl := hl.whole (show ts.length ≤ bound.length + 1 by omega) hts (Tape.scanned_cons _ _) hstopl
    have hreadr := hr.whole (show us.length ≤ bound.length + 1 by omega) hus hscan hstopr
    rw [Level.reader, readTerm_of_ne (peek?_ne_not hp hts), Expr.readPair, hreadl]
    simp only [bind, Except.bind, hop, (hus.scanned hscan).ready, hreadr]
    rfl

end Readable

/-! ### Arguments -/

/-- The arguments are read up to the closing parenthesis behind them. -/
def ArgReadable (slots : List Slot) (ts : List Token) (args : Args) : Prop :=
  ∀ ⦃bound t rest : Tape⦄ (f : Builtin), ts.length ≤ bound.length → Leads ts t rest →
    rest.peek? = some .closeParen → Expr.readArgs (Expr.readNested bound) f slots t = .ok (args, rest)

theorem Expr.readArgs_close {nested : Reader} (f : Builtin) (slots : List Slot) {t : Tape}
    (h : t.peek? = some .closeParen) : readArgs nested f slots t = .ok (.nil, t) := by
  unfold readArgs
  rw [if_pos h]

theorem Expr.readArgs_value {nested : Reader} (f : Builtin) {slot : Slot} (hs : slot ≠ .handle)
    (slots : List Slot) {t : Tape} (h : t.peek? ≠ some .closeParen) :
    readArgs nested f (slot :: slots) t = (do
      let (e, t) ← nested t
      let (args, t) ← behind [.expr slot.demand e] do readArgs nested f slots (← readSeparator t)
      return (.value slot.demand e args, t)) := by
  cases slot <;> first | exact absurd rfl hs | (rw [readArgs, if_neg h]; all_goals nofun)

theorem Expr.readArgs_handle {nested : Reader} (f : Builtin) (slots : List Slot) {t : Tape}
    (h : t.peek? ≠ some .closeParen) :
    readArgs nested f (.handle :: slots) t = (do
      let (name, t) ← t.expectName
      let (args, t) ← behind [.lookup name] do readArgs nested f slots (← readSeparator t)
      return (.handle name args, t)) := by
  rw [readArgs, if_neg h]

namespace ArgReadable

variable {slot : Slot} {slots : List Slot} {g : Edge} {ts us : List Token} {e : Expr} {args : Args}

theorem none (slots : List Slot) : ArgReadable slots [] .nil := by
  rintro bound _ rest f - (_ | _) hclose
  exact Expr.readArgs_close f slots hclose

/-- What is left of the places behind the last argument is not asked for. -/
theorem rest_close (nested : Expr.Reader) {rest : Tape} (f : Builtin) (slots : List Slot)
    (h : rest.peek? = some .closeParen) :
    (do Expr.readArgs nested f slots (← Expr.readSeparator rest)) = .ok (.nil, rest) := by
  have hsep : Expr.readSeparator rest = .ok rest := by rw [Expr.readSeparator, if_pos h]
  simp only [hsep, bind, Except.bind]
  exact Expr.readArgs_close f slots h

/-- Behind a comma the next place is filled. -/
theorem rest_comma (h : ArgReadable slots us args) {bound t rest : Tape} (f : Builtin)
    (hlen : us.length ≤ bound.length) (hlead : Leads us t rest) (hclose : rest.peek? = some .closeParen)
    (p q : Position) :
    (do Expr.readArgs (Expr.readNested bound) f slots (← Expr.readSeparator (.cons ⟨.comma, p, q⟩ t))) =
      .ok (args, rest) := by
  have hscan : rest.Scanned := by
    rintro e rfl
    cases hclose
  have hsep : Expr.readSeparator (.cons ⟨.comma, p, q⟩ t) = .ok t := by
    rw [Expr.readSeparator, if_neg (by simp [Tape.peek?])]
    exact Tape.expect_cons .comma p q (hlead.scanned hscan)
  simp only [hsep, bind, Except.bind]
  exact h f hlen hlead hclose

/-- The tape at an argument does not begin with a closing parenthesis. -/
theorem peek?_ne_close {t rest : Tape} (hp : Phrase .disjunction g ts e) (hlead : Leads ts t rest) :
    t.peek? ≠ some .closeParen := by
  obtain ⟨x, vs, rfl, hx, -⟩ := hp.head
  cases hlead with
  | cons => exact fun he => hx (Option.some.inj he)

theorem last (slots : List Slot) (hs : slot ≠ .handle) (hp : Phrase .disjunction g ts e)
    (h : Readable .disjunction g ts e) : ArgReadable (slot :: slots) ts (.value slot.demand e .nil) := by
  intro bound t rest f hlen hlead hclose
  obtain ⟨x, vs, hne, -, -⟩ := hp.head
  cases rest with
  | cons y r =>
    obtain ⟨token, p, q⟩ := y
    obtain rfl : token = .closeParen := Option.some.inj hclose
    have hread := h.nested (by rw [hne]; nofun) hlen hlead (Tape.scanned_cons _ _)
      (Level.stops_cons (.inr rfl) _ g p q r)
    rw [Expr.readArgs_value f hs slots (peek?_ne_close hp hlead), hread]
    simp only [bind, Except.bind]
    have hrest := rest_close (Expr.readNested bound) f slots hclose
    simp only [bind, Except.bind] at hrest
    rw [hrest]
    rfl
  | _ => cases hclose

theorem value (hs : slot ≠ .handle) (hp : Phrase .disjunction g ts e) (h : Readable .disjunction g ts e)
    (hus : ArgReadable slots us args) :
    ArgReadable (slot :: slots) (ts ++ .comma :: us) (.value slot.demand e args) := by
  intro bound t rest f hlen hlead hclose
  rw [List.length_append, List.length_cons] at hlen
  obtain ⟨x, vs, hne, -, -⟩ := hp.head
  obtain ⟨mid, hts, hmid⟩ := hlead.split
  cases hmid with
  | @cons _ p q _ t' _ hrest =>
    have hread := h.nested (by rw [hne]; nofun) (show ts.length ≤ bound.length by omega) hts
      (Tape.scanned_cons _ _) (Level.stops_cons (.inl rfl) _ g p q t')
    rw [Expr.readArgs_value f hs slots (peek?_ne_close hp hts), hread]
    simp only [bind, Except.bind]
    have hmore := hus.rest_comma f (show us.length ≤ bound.length by omega) hrest hclose p q
    simp only [bind, Except.bind] at hmore
    rw [hmore]
    rfl

theorem lastHandle (slots : List Slot) (s : String) :
    ArgReadable (.handle :: slots) [.name s] (.handle s .nil) := by
  rintro bound _ rest f - (_ | ⟨_, p, q, hr⟩) hclose
  cases hr
  have hscan : rest.Scanned := by
    rintro e rfl
    cases hclose
  rw [Expr.readArgs_handle f slots (by simp [Tape.peek?])]
  have hrest := rest_close (Expr.readNested bound) f slots hclose
  simp only [bind, Except.bind] at hrest ⊢
  simp only [Tape.expectName, hscan.ready, bind, Except.bind, pure, Except.pure, hrest]
  rfl

theorem handle (s : String) (hus : ArgReadable slots us args) :
    ArgReadable (.handle :: slots) (.name s :: .comma :: us) (.handle s args) := by
  rintro bound _ rest f hlen (_ | ⟨_, p, q, _ | ⟨_, p', q', hr⟩⟩) hclose
  simp only [List.length_cons] at hlen
  rw [Expr.readArgs_handle f slots (by simp [Tape.peek?])]
  have hmore := hus.rest_comma f (show us.length ≤ bound.length by omega) hr hclose p' q'
  simp only [bind, Except.bind] at hmore ⊢
  simp only [Tape.expectName, (Tape.scanned_cons _ _).ready, bind, Except.bind, pure, Except.pure, hmore]
  rfl

end ArgReadable

theorem Readable.call (f : Builtin) {ts : List Token} {args : Args}
    (h : ArgReadable f.signature.slots ts args) :
    Readable .factor {} (.builtin f :: .openParen :: ts ++ [.closeParen]) (.call f args) := by
  refine ofWhole rfl ?_
  rintro bound _ rest hlen (_ | ⟨_, p, q, _ | ⟨_, p', q', hr⟩⟩) hscan -
  simp only [List.length_cons, List.length_append, List.cons_append] at hlen
  obtain ⟨mid, hts, hmid⟩ := hr.split
  cases hmid with
  | cons _ p'' q'' hrest =>
    cases hrest
    have hscan' := hts.scanned (Tape.scanned_cons ⟨.closeParen, p'', q''⟩ rest)
    have hread := h f (show ts.length ≤ bound.length by omega) hts rfl
    simp only [Level.reader, Expr.readFactor, (Tape.scanned_cons _ _).ready, bind, Except.bind, Expr.readCall,
      Tape.expect_cons _ p' q' hscan', hread, Tape.expect_cons _ p'' q'' hscan]
    rfl

/-! ### All phrases -/

theorem Phrase.ne_nil {v : Level} {g : Edge} {ts : List Token} {e : Expr} (h : Phrase v g ts e) : ts ≠ [] := by
  obtain ⟨x, us, rfl, -⟩ := h.head
  exact List.cons_ne_nil x us

mutual

/-- **Every phrase is readable.** -/
theorem Phrase.readable {v : Level} {g : Edge} {ts : List Token} {e : Expr} (h : Phrase v g ts e) :
    Readable v g ts e := by
  match h with
  | .number n => exact .number n
  | .text s => exact .text s
  | .scalar s => exact .scalar s
  | .element s h => exact .element s h.ne_nil h.readable
  | .group h => exact .group h.ne_nil h.readable
  | .call f h => exact .call f h.readable
  | .sign s h => exact .sign s h.readable
  | .negation h => exact .negation h.ne_nil h.readable
  | .comparison hl hop hr => exact .comparison hl hl.readable hop hr hr.readable
  | @Phrase.operand v _ _ _ hv h =>
    have hread := h.readable
    by_cases hterm : v = .term
    · subst hterm
      exact .term h hread
    · have hrep : v.repeats = true := by
        cases v <;> first | rfl | contradiction
      exact .operand hrep hread
  | .binary hv hl hg hop hr => exact .binary hv hl.readable hg hop hr.readable

theorem ArgPhrase.readable {slots : List Slot} {ts : List Token} {args : Args} (h : ArgPhrase slots ts args) :
    ArgReadable slots ts args := by
  match h with
  | .none slots => exact .none slots
  | .last slots hs h => exact .last slots hs h h.readable
  | .value hs h hus => exact .value hs h h.readable hus.readable
  | .lastHandle slots s => exact .lastHandle slots s
  | .handle s hus => exact .handle s hus.readable

end

/-- **An expression is read off a tape with its tree**, if the token behind it
cannot belong to it. -/
theorem Expr.read_phrase {g : Edge} {ts : List Token} {e : Expr} (h : Phrase .disjunction g ts e)
    {t rest : Tape} (hlead : Leads ts t rest) (hscan : rest.Scanned) (hstop : Level.disjunction.stops g rest) :
    read t = .ok (e, rest) := by
  refine h.readable.nested h.ne_nil ?_ hlead hscan hstop
  rw [hlead.length]
  exact Nat.le_add_right _ _

end LineBasic
