import LineBasic.Proofs.Grammar.Reading

/-!
# The longest expression

What is read off a tape is an expression of the grammar, and no longer one
begins there. Conversely, the longest expression at the beginning of a tape is
read. That a phrase cannot go on follows from both: of a phrase and a longer one
the same reader would read one and the other.

* `Sound`: what a reader gives is a phrase of its level, with the end where it
  stops.
* `Longest`: an expression that the next token does not continue.
* `Expr.read_eq_ok_iff`: reading finds the longest expression, with its tree.
-/

namespace LineBasic

open Tape (Leads)

/-! ### What readings that succeed are made of -/

theorem Reading.bind_eq_ok {α β : Type} {x : Reading α} {f : α → Reading β} {b : β} (h : x >>= f = .ok b) :
    ∃ a, x = .ok a ∧ f a = .ok b := by
  cases x with
  | error e => cases h
  | ok a => exact ⟨a, rfl, h⟩

theorem Reading.behind_eq_ok {α : Type} {ops : List Operand} {x : Reading α} {a : α}
    (h : behind ops x = .ok a) : x = .ok a := by
  cases x with
  | error e => cases h
  | ok b => exact h

namespace Tape

theorem ready_eq_ok {t t' : Tape} (h : t.ready = .ok t') : t' = t ∧ t.Scanned := by
  cases t with
  | broken e => cases h
  | stop p => exact ⟨(Except.ok.inj h).symm, nofun⟩
  | cons x r => exact ⟨(Except.ok.inj h).symm, nofun⟩

theorem accept?_eq_ok {token : Token} {t : Tape} {o : Option Tape} (h : t.accept? token = .ok o) :
    (o = none ∧ t.peek? ≠ some token) ∨ ∃ p q r, o = some r ∧ t = .cons ⟨token, p, q⟩ r ∧ r.Scanned := by
  cases t with
  | cons x r =>
    rw [accept?] at h
    split at h
    case isTrue hx =>
      obtain ⟨y, p, q⟩ := x
      obtain rfl : y = token := hx
      cases hr : r.ready with
      | error b => rw [hr] at h; cases h
      | ok r' =>
        obtain ⟨rfl, hscan⟩ := ready_eq_ok hr
        rw [hr] at h
        exact Or.inr ⟨p, q, r', (Except.ok.inj h).symm, rfl, hscan⟩
    case isFalse hx =>
      exact Or.inl ⟨(Except.ok.inj h).symm, fun he => hx (Option.some.inj he)⟩
  | stop p => exact Or.inl ⟨(Except.ok.inj h).symm, Option.some_ne_none token ∘ Eq.symm⟩
  | broken e => exact Or.inl ⟨(Except.ok.inj h).symm, Option.some_ne_none token ∘ Eq.symm⟩

theorem expect_eq_ok {token : Token} {t r : Tape} (h : t.expect token = .ok r) :
    ∃ p q, t = .cons ⟨token, p, q⟩ r ∧ r.Scanned := by
  obtain ⟨o, ho, h⟩ := Reading.bind_eq_ok h
  rcases accept?_eq_ok ho with ⟨rfl, -⟩ | ⟨p, q, r', rfl, ht, hscan⟩
  · cases h
  · obtain rfl := Except.ok.inj h
    exact ⟨p, q, ht, hscan⟩

theorem expectName_eq_ok {t r : Tape} {s : String} (h : t.expectName = .ok (s, r)) :
    ∃ p q, t = .cons ⟨.name s, p, q⟩ r ∧ r.Scanned := by
  unfold expectName at h
  split at h
  case h_1 s' p q rest =>
    obtain ⟨r', hr, hpair⟩ := Reading.bind_eq_ok h
    obtain ⟨rfl, hscan⟩ := ready_eq_ok hr
    obtain ⟨rfl, rfl⟩ := Prod.mk.inj (Except.ok.inj hpair)
    exact ⟨p, q, rfl, hscan⟩
  case h_2 => cases h

end Tape

/-! ### Chains -/

/-- What the reader gives is a phrase of the level, which ends where the rest
begins. -/
def Sound (r : Expr.Reader) (v : Level) : Prop :=
  ∀ ⦃t rest : Tape⦄ ⦃e : Expr⦄, r t = .ok (e, rest) →
    ∃ ts g, Leads ts t rest ∧ rest.Scanned ∧ Phrase v g ts e ∧ v.stops g rest

/-- An operand may be followed by an operator of its own level only outside of a
negation. -/
theorem Level.negated_of_stops {v : Level} {g : Edge} {x : Token} {p q : Position} {t : Tape}
    (hv : v ≠ .term) (hx : x.level? = some v) (h : v.below.stops g (.cons ⟨x, p, q⟩ t)) :
    g.negated = false := by
  by_contra hg
  exact h x rfl (Or.inr ⟨v, hx, Or.inr (by simpa using hg), fun hterm => absurd hterm hv⟩)

theorem Level.stops_of_below {v : Level} (hv : v ≠ .factor) {g : Edge} {rest : Tape} (h : v.below.stops g rest)
    (hop : ∀ x, rest.peek? = some x → v.op? x = none) : v.stops g rest := by
  intro x hx ht
  rcases (Level.takes_iff hv).1 ht with ht | ⟨hlevel, -⟩
  · exact h x hx ht
  · obtain ⟨op, hop'⟩ := Level.exists_op hlevel
    rw [hop x hx] at hop'
    cases hop'

theorem Tape.peek?_eq_none {t : Tape} (h : t.length ≤ 0) : t.peek? = none := by
  cases t with
  | cons x r => simp [Tape.length] at h
  | _ => rfl

theorem sound_readChainFrom {v : Level} (hv : v.repeats = true) {operand : Expr.Reader}
    (ho : Sound operand v.below) (b : Tape) :
    ∀ {t₀ t rest : Tape} {ts : List Token} {g : Edge} {l e : Expr}, Leads ts t₀ t → t.Scanned →
      Phrase v g ts l → v.below.stops g t → t.length ≤ b.length →
      Expr.readChainFrom v.op? operand b l t = .ok (e, rest) →
      ∃ us g', Leads us t₀ rest ∧ rest.Scanned ∧ Phrase v g' us e ∧ v.stops g' rest := by
  have hfactor : v ≠ .factor := by rintro rfl; cases hv
  have hterm : v ≠ .term := by rintro rfl; cases hv
  -- where no operator comes next, the chain ends
  have hend : ∀ {b t₀ t rest : Tape} {ts : List Token} {g : Edge} {l e : Expr}, Leads ts t₀ t → t.Scanned →
      Phrase v g ts l → v.below.stops g t → (∀ x, t.peek? = some x → v.op? x = none) →
      Expr.readChainFrom v.op? operand b l t = .ok (e, rest) →
      ∃ us g', Leads us t₀ rest ∧ rest.Scanned ∧ Phrase v g' us e ∧ v.stops g' rest := by
    intro b t₀ t rest ts g l e hlead hscan hp hstop hnone h
    rw [Expr.readChainFrom_stop hnone] at h
    obtain ⟨rfl, rfl⟩ := Prod.mk.inj (Except.ok.inj h)
    exact ⟨ts, g, hlead, hscan, hp, Level.stops_of_below hfactor hstop hnone⟩
  -- each operator uses up a lexeme of the bound
  induction b with
  | stop p =>
    intro t₀ t rest ts g l e hlead hscan hp hstop hlen h
    exact hend hlead hscan hp hstop (by rw [Tape.peek?_eq_none hlen]; nofun) h
  | broken err =>
    intro t₀ t rest ts g l e hlead hscan hp hstop hlen h
    exact hend hlead hscan hp hstop (by rw [Tape.peek?_eq_none hlen]; nofun) h
  | cons y b ih =>
    intro t₀ t rest ts g l e hlead hscan hp hstop hlen h
    cases t with
    | stop p => exact hend hlead hscan hp hstop nofun h
    | broken err => exact absurd rfl (hscan err)
    | cons x r =>
      obtain ⟨x, p, q⟩ := x
      cases hop : v.op? x with
      | none =>
        refine hend hlead hscan hp hstop ?_ h
        intro z hz
        obtain rfl : x = z := Option.some.inj hz
        exact hop
      | some op =>
        simp only [Expr.readChainFrom, hop] at h
        obtain ⟨⟨e', t'⟩, hnext, hmore⟩ := Reading.bind_eq_ok h
        obtain ⟨r', hr, hread⟩ := Reading.bind_eq_ok (Reading.behind_eq_ok hnext)
        obtain ⟨rfl, -⟩ := Tape.ready_eq_ok hr
        obtain ⟨us, g', hus, hscan', hp', hstop'⟩ := ho hread
        have hneg := Level.negated_of_stops hterm (Level.op?_eq_some hop) hstop
        have hlen' := hus.length
        simp only [Tape.length] at hlen
        exact ih (hlead.append (.cons x p q hus)) hscan' (.binary hv hp hneg hop hp') hstop' (by omega) hmore

theorem sound_readChain {v : Level} (hv : v.repeats = true) {operand : Expr.Reader}
    (ho : Sound operand v.below) : Sound (Expr.readChain v.op? operand) v := by
  intro t rest e h
  obtain ⟨⟨l, t'⟩, hread, h⟩ := Reading.bind_eq_ok h
  obtain ⟨ts, g, hlead, hscan, hp, hstop⟩ := ho hread
  have hfactor : v ≠ .factor := by rintro rfl; cases hv
  exact sound_readChainFrom hv ho t' hlead hscan (.operand hfactor hp) hstop le_rfl h

/-! ### Terms and factors -/

section Readers

variable {nested : Expr.Reader} (hn : Sound nested .disjunction)
include hn

theorem sound_readTerm (hs : Sound (Level.sum.reader nested) .sum) : Sound (Expr.readTerm nested) .term := by
  intro t rest e h
  obtain ⟨o, ho, hterm⟩ := Reading.bind_eq_ok h
  rcases Tape.accept?_eq_ok ho with ⟨rfl, -⟩ | ⟨p, q, r, rfl, rfl, -⟩
  · -- a comparison, or a sum alone
    obtain ⟨⟨l, t'⟩, hread, hpair⟩ := Reading.bind_eq_ok hterm
    obtain ⟨ts, g, hlead, hscan, hp, hstop⟩ := hs hread
    have halone (hop : ∀ x, t'.peek? = some x → Token.comparison? x = none) :
        ∃ us g', Leads us t t' ∧ t'.Scanned ∧ Phrase .term g' us l ∧ Level.term.stops g' t' :=
      ⟨ts, g, hlead, hscan, .operand nofun hp, Level.stops_of_below (v := .term) nofun hstop hop⟩
    cases t' with
    | stop p =>
      obtain ⟨rfl, rfl⟩ := Prod.mk.inj (Except.ok.inj hpair)
      exact halone nofun
    | broken err => exact absurd rfl (hscan err)
    | cons x r =>
      obtain ⟨x, p, q⟩ := x
      cases hop : Token.comparison? x with
      | none =>
        simp only [hop] at hpair
        obtain ⟨rfl, rfl⟩ := Prod.mk.inj (Except.ok.inj hpair)
        refine halone ?_
        intro z hz
        obtain rfl : x = z := Option.some.inj hz
        exact hop
      | some op =>
        simp only [hop] at hpair
        obtain ⟨⟨e', t''⟩, hnext, hdone⟩ := Reading.bind_eq_ok hpair
        obtain ⟨r', hr, hread'⟩ := Reading.bind_eq_ok (Reading.behind_eq_ok hnext)
        obtain ⟨rfl, -⟩ := Tape.ready_eq_ok hr
        obtain ⟨us, g', hus, hscan', hp', hstop'⟩ := hs hread'
        obtain ⟨rfl, rfl⟩ := Prod.mk.inj (Except.ok.inj hdone)
        obtain ⟨hc, hneg⟩ := hp'.edge rfl
        refine ⟨_, _, hlead.append (.cons x p q hus), hscan', .comparison hp hop hp', ?_⟩
        exact fun y hy ht => hstop' y hy ((Level.takes_comparison hc hneg).1 ht)
  · -- a negation
    obtain ⟨⟨e', t'⟩, hread, hdone⟩ := Reading.bind_eq_ok hterm
    obtain ⟨ts, g, hlead, hscan, hp, hstop⟩ := hn hread
    obtain ⟨rfl, rfl⟩ := Prod.mk.inj (Except.ok.inj hdone)
    refine ⟨_, _, .cons _ p q hlead, hscan, .negation hp, ?_⟩
    exact fun y hy ht => hstop y hy (Level.takes_negation.1 ht)

/-- What is read up to a closing parenthesis is an expression and the
parenthesis. -/
theorem leads_enclosed {t mid rest : Tape} {e : Expr} (h : nested t = .ok (e, mid))
    (hclose : mid.expect .closeParen = .ok rest) :
    ∃ ts g, Leads (ts ++ [.closeParen]) t rest ∧ rest.Scanned ∧ Phrase .disjunction g ts e := by
  obtain ⟨ts, g, hlead, -, hp, -⟩ := hn h
  obtain ⟨p, q, rfl, hscan⟩ := Tape.expect_eq_ok hclose
  exact ⟨ts, g, hlead.append (.cons _ p q (.nil rest)), hscan, hp⟩

theorem readIndex_eq_ok {t rest : Tape} {index : Option Expr}
    (h : Expr.readIndex nested t = .ok (index, rest)) :
    (index = none ∧ rest = t ∧ t.peek? ≠ some .openParen) ∨
      ∃ e ts g, index = some e ∧ Leads (.openParen :: ts ++ [.closeParen]) t rest ∧ rest.Scanned ∧
        Phrase .disjunction g ts e := by
  obtain ⟨o, ho, hindex⟩ := Reading.bind_eq_ok h
  rcases Tape.accept?_eq_ok ho with ⟨rfl, hne⟩ | ⟨p, q, r, rfl, rfl, -⟩
  · obtain ⟨rfl, rfl⟩ := Prod.mk.inj (Except.ok.inj hindex)
    exact Or.inl ⟨rfl, rfl, hne⟩
  · obtain ⟨⟨e, mid⟩, hread, hrest⟩ := Reading.bind_eq_ok hindex
    obtain ⟨r', hclose, hdone⟩ := Reading.bind_eq_ok hrest
    obtain ⟨rfl, rfl⟩ := Prod.mk.inj (Except.ok.inj hdone)
    obtain ⟨ts, g, hlead, hscan, hp⟩ := leads_enclosed hn hread (Reading.behind_eq_ok hclose)
    exact Or.inr ⟨e, ts, g, rfl, .cons _ p q hlead, hscan, hp⟩

end Readers

theorem readSeparator_eq_ok {t rest : Tape} (h : Expr.readSeparator t = .ok rest) :
    (rest = t ∧ t.peek? = some .closeParen) ∨ ∃ p q, t = .cons ⟨.comma, p, q⟩ rest := by
  unfold Expr.readSeparator at h
  split at h
  case isTrue hclose => exact Or.inl ⟨(Except.ok.inj h).symm, hclose⟩
  case isFalse =>
    obtain ⟨p, q, rfl, -⟩ := Tape.expect_eq_ok h
    exact Or.inr ⟨p, q, rfl⟩

/-- What a reading of arguments says: they fill the places, up to a closing
parenthesis. -/
def ArgSound (slots : List Slot) (r : Reading (Args × Tape)) (t : Tape) : Prop :=
  ∀ ⦃args : Args⦄ ⦃rest : Tape⦄, r = .ok (args, rest) →
    ∃ ts, Leads ts t rest ∧ rest.peek? = some .closeParen ∧ ArgPhrase slots ts args

section Calls

variable {nested : Expr.Reader} (hn : Sound nested .disjunction) (f : Builtin)
include hn

theorem argSound_readArgs (slots : List Slot) : ∀ t, ArgSound slots (Expr.readArgs nested f slots t) t := by
  have hclosed : ∀ (slots : List Slot) (t : Tape), t.peek? = some .closeParen →
      ArgSound slots (Expr.readArgs nested f slots t) t := by
    intro slots t hclose args rest h
    rw [Expr.readArgs_close f slots hclose] at h
    obtain ⟨rfl, rfl⟩ := Prod.mk.inj (Except.ok.inj h)
    exact ⟨[], .nil t, hclose, .none slots⟩
  -- one place is used up for each argument
  induction slots with
  | nil =>
    intro t args rest h
    by_cases hclose : t.peek? = some .closeParen
    · exact hclosed [] t hclose h
    · rw [Expr.readArgs, if_neg hclose] at h
      cases h
  | cons slot slots ih =>
    intro t args rest h
    by_cases hclose : t.peek? = some .closeParen
    · exact hclosed _ t hclose h
    by_cases hs : slot = .handle
    · subst hs
      rw [Expr.readArgs_handle f slots hclose] at h
      obtain ⟨⟨name, t'⟩, hname, hrest⟩ := Reading.bind_eq_ok h
      obtain ⟨⟨args', rest'⟩, hmore, hdone⟩ := Reading.bind_eq_ok hrest
      obtain ⟨rfl, rfl⟩ := Prod.mk.inj (Except.ok.inj hdone)
      obtain ⟨t'', hsep, hargs⟩ := Reading.bind_eq_ok (Reading.behind_eq_ok hmore)
      obtain ⟨p, q, rfl, -⟩ := Tape.expectName_eq_ok hname
      rcases readSeparator_eq_ok hsep with ⟨rfl, hend⟩ | ⟨p', q', rfl⟩
      · rw [Expr.readArgs_close f slots hend] at hargs
        obtain ⟨rfl, rfl⟩ := Prod.mk.inj (Except.ok.inj hargs)
        exact ⟨_, .cons _ p q (.nil _), hend, .lastHandle slots name⟩
      · obtain ⟨us, hus, hend, hp⟩ := ih t'' hargs
        exact ⟨_, .cons _ p q (.cons _ p' q' hus), hend, .handle name hp⟩
    · rw [Expr.readArgs_value f hs slots hclose] at h
      obtain ⟨⟨e, t'⟩, hread, hrest⟩ := Reading.bind_eq_ok h
      obtain ⟨⟨args', rest'⟩, hmore, hdone⟩ := Reading.bind_eq_ok hrest
      obtain ⟨rfl, rfl⟩ := Prod.mk.inj (Except.ok.inj hdone)
      obtain ⟨t'', hsep, hargs⟩ := Reading.bind_eq_ok (Reading.behind_eq_ok hmore)
      obtain ⟨ts, g, hlead, -, hp, -⟩ := hn hread
      rcases readSeparator_eq_ok hsep with ⟨rfl, hend⟩ | ⟨p', q', rfl⟩
      · rw [Expr.readArgs_close f slots hend] at hargs
        obtain ⟨rfl, rfl⟩ := Prod.mk.inj (Except.ok.inj hargs)
        exact ⟨ts, hlead, hend, .last slots hs hp⟩
      · obtain ⟨us, hus, hend, hp'⟩ := ih t'' hargs
        exact ⟨_, hlead.append (.cons _ p' q' hus), hend, .value hs hp hp'⟩

theorem readCall_eq_ok {t rest : Tape} {e : Expr} (h : Expr.readCall nested f t = .ok (e, rest)) :
    ∃ ts args, e = .call f args ∧ Leads (.openParen :: ts ++ [.closeParen]) t rest ∧ rest.Scanned ∧
      ArgPhrase f.signature.slots ts args := by
  obtain ⟨t', hopen, hinner⟩ := Reading.bind_eq_ok h
  obtain ⟨p, q, rfl, -⟩ := Tape.expect_eq_ok hopen
  obtain ⟨⟨args, mid⟩, hargs, hrest⟩ := Reading.bind_eq_ok hinner
  obtain ⟨t'', hclose, hdone⟩ := Reading.bind_eq_ok hrest
  obtain ⟨rfl, rfl⟩ := Prod.mk.inj (Except.ok.inj hdone)
  obtain ⟨ts, hlead, -, hp⟩ := argSound_readArgs hn f f.signature.slots t' hargs
  obtain ⟨p', q', rfl, hscan⟩ := Tape.expect_eq_ok (Reading.behind_eq_ok hclose)
  exact ⟨ts, args, rfl, .cons _ p q (hlead.append (.cons _ p' q' (.nil _))), hscan, hp⟩

end Calls

/-- Nothing goes on behind a factor, unless it is a name. -/
theorem Level.stops_factor (rest : Tape) : factor.stops {} rest :=
  fun x _ => not_takes_factor rfl rfl x

theorem Level.stops_name {rest : Tape} (h : rest.peek? ≠ some .openParen) :
    factor.stops { named := true } rest := by
  rintro x hx (⟨-, rfl⟩ | ⟨w, -, hw | hw, -⟩)
  · exact h hx
  · cases hw
  · cases hw

theorem sound_readFactor {nested : Expr.Reader} (hn : Sound nested .disjunction) :
    Sound (Expr.readFactor nested) .factor := by
  intro t
  induction t with
  | stop p => intro rest e h; cases h
  | broken err => intro rest e h; cases h
  | cons x r ih =>
    intro rest e h
    obtain ⟨x, p, q⟩ := x
    unfold Expr.readFactor at h
    dsimp only at h
    split at h
    case h_1 s =>
      obtain ⟨⟨e', t'⟩, hread, hdone⟩ := Reading.bind_eq_ok h
      obtain ⟨rfl, rfl⟩ := Prod.mk.inj (Except.ok.inj hdone)
      obtain ⟨ts, g, hlead, hscan, hp, hstop⟩ := ih hread
      exact ⟨_, g, .cons _ p q hlead, hscan, .sign s hp, hstop⟩
    case h_2 =>
      obtain ⟨r', hr, hinner⟩ := Reading.bind_eq_ok h
      obtain ⟨rfl, -⟩ := Tape.ready_eq_ok hr
      obtain ⟨⟨e', mid⟩, hread, hrest⟩ := Reading.bind_eq_ok hinner
      obtain ⟨t'', hclose, hdone⟩ := Reading.bind_eq_ok hrest
      obtain ⟨rfl, rfl⟩ := Prod.mk.inj (Except.ok.inj hdone)
      obtain ⟨ts, g, hlead, hscan, hp⟩ := leads_enclosed hn hread (Reading.behind_eq_ok hclose)
      exact ⟨_, {}, .cons _ p q hlead, hscan, .group hp, Level.stops_factor _⟩
    case h_3 n =>
      obtain ⟨r', hr, hdone⟩ := Reading.bind_eq_ok h
      obtain ⟨rfl, hscan⟩ := Tape.ready_eq_ok hr
      obtain ⟨rfl, rfl⟩ := Prod.mk.inj (Except.ok.inj hdone)
      exact ⟨_, {}, .cons _ p q (.nil _), hscan, .number n, Level.stops_factor _⟩
    case h_4 s =>
      obtain ⟨r', hr, hdone⟩ := Reading.bind_eq_ok h
      obtain ⟨rfl, hscan⟩ := Tape.ready_eq_ok hr
      obtain ⟨rfl, rfl⟩ := Prod.mk.inj (Except.ok.inj hdone)
      exact ⟨_, {}, .cons _ p q (.nil _), hscan, .text s, Level.stops_factor _⟩
    case h_5 s =>
      obtain ⟨r', hr, hinner⟩ := Reading.bind_eq_ok h
      obtain ⟨rfl, hscan⟩ := Tape.ready_eq_ok hr
      obtain ⟨⟨index, t'⟩, hindex, hdone⟩ := Reading.bind_eq_ok hinner
      obtain ⟨rfl, rfl⟩ := Prod.mk.inj (Except.ok.inj hdone)
      rcases readIndex_eq_ok hn hindex with ⟨rfl, rfl, hne⟩ | ⟨i, ts, g, rfl, hlead, hscan', hp⟩
      · exact ⟨_, _, .cons _ p q (.nil _), hscan, .scalar s, Level.stops_name hne⟩
      · exact ⟨_, {}, .cons _ p q hlead, hscan', .element s hp, Level.stops_factor _⟩
    case h_6 f =>
      obtain ⟨r', hr, hcall⟩ := Reading.bind_eq_ok h
      obtain ⟨rfl, -⟩ := Tape.ready_eq_ok hr
      obtain ⟨ts, args, rfl, hlead, hscan, hp⟩ := readCall_eq_ok hn f hcall
      exact ⟨_, {}, .cons _ p q hlead, hscan, .call f hp, Level.stops_factor _⟩
    case h_7 => cases h

/-! ### Expressions -/

/-- The reader of every level is sound if that of nested expressions is. -/
theorem sound_reader {nested : Expr.Reader} (hn : Sound nested .disjunction) (v : Level) :
    Sound (v.reader nested) v := by
  have hchain : ∀ w : Level, w.repeats = true → Sound (w.below.reader nested) w.below →
      Sound (w.reader nested) w := by
    intro w hw hbelow
    rw [Level.reader_eq hw]
    exact sound_readChain hw hbelow
  have hfactor : Sound (Level.factor.reader nested) .factor := sound_readFactor hn
  have hproduct := hchain .product rfl hfactor
  have hsum := hchain .sum rfl hproduct
  have hterm : Sound (Level.term.reader nested) .term := sound_readTerm hn hsum
  have hexclusion := hchain .exclusion rfl hterm
  have hconjunction := hchain .conjunction rfl hexclusion
  cases v with
  | disjunction => exact hchain .disjunction rfl hconjunction
  | _ => assumption

theorem sound_readNested (bound : Tape) : Sound (Expr.readNested bound) .disjunction := by
  induction bound with
  | stop p => intro t rest e h; cases h
  | broken err => intro t rest e h; cases h
  | cons x bound ih => exact sound_reader ih .disjunction

/-- **What is read off a tape is an expression**, which ends where the rest
begins. -/
theorem Expr.sound_read : Sound read .disjunction := fun t => @sound_readNested t t

/-! ### The longest expression -/

/-- The tokens are an expression with this tree, and no expression begins with
them and the token that comes next. -/
def Longest (ts : List Token) (next : Option Token) (e : Expr) : Prop :=
  (∃ g, Phrase .disjunction g ts e) ∧
    ∀ x, next = some x → ∀ us g e', ¬ Phrase .disjunction g (ts ++ x :: us) e'

/-- Any tokens lead some tape with a given rest. -/
theorem Tape.exists_leads (ts : List Token) (rest : Tape) : ∃ t, Leads ts t rest := by
  induction ts with
  | nil => exact ⟨rest, .nil rest⟩
  | cons x ts ih =>
    obtain ⟨t, h⟩ := ih
    exact ⟨_, .cons x .start .start h⟩

theorem Longest.stops {ts : List Token} {rest : Tape} {e : Expr} (h : Longest ts rest.peek? e) :
    ∃ g, Phrase .disjunction g ts e ∧ Level.disjunction.stops g rest := by
  obtain ⟨⟨g, hp⟩, hmax⟩ := h
  refine ⟨g, hp, ?_⟩
  intro x hx ht
  obtain ⟨us, g', e', hlonger⟩ := hp.extend ht
  exact hmax x hx us g' e' hlonger

/-- A phrase that ends before a token is not the beginning of a longer one: the
reader would take both off the tape of the longer one. -/
theorem longest_of_stops {g : Edge} {ts : List Token} {rest : Tape} {e : Expr} (hp : Phrase .disjunction g ts e)
    (hstop : Level.disjunction.stops g rest) : Longest ts rest.peek? e := by
  refine ⟨⟨g, hp⟩, ?_⟩
  intro x hx us g' e' hlonger
  obtain ⟨t, hlead⟩ := Tape.exists_leads (ts ++ x :: us) (.stop .start)
  have hlong : Expr.read t = .ok (e', .stop .start) := Expr.read_phrase hlonger hlead nofun nofun
  obtain ⟨mid, hts, hmid⟩ := hlead.split
  cases hmid with
  | @cons _ p q _ r _ hus =>
    have hstop' : Level.disjunction.stops g (.cons ⟨x, p, q⟩ r) := by
      intro y hy
      obtain rfl : x = y := Option.some.inj hy
      exact hstop x hx
    have hshort := Expr.read_phrase hp hts (Tape.scanned_cons _ _) hstop'
    rw [hlong] at hshort
    cases hshort

/-- **Reading finds the longest expression, with its tree**, and nothing
else. -/
theorem Expr.read_eq_ok_iff {t rest : Tape} {e : Expr} :
    read t = .ok (e, rest) ↔ ∃ ts, Leads ts t rest ∧ rest.Scanned ∧ Longest ts rest.peek? e := by
  constructor
  · intro h
    obtain ⟨ts, g, hlead, hscan, hp, hstop⟩ := sound_read h
    exact ⟨ts, hlead, hscan, longest_of_stops hp hstop⟩
  · rintro ⟨ts, hlead, hscan, hlongest⟩
    obtain ⟨g, hp, hstop⟩ := hlongest.stops
    exact read_phrase hp hlead hscan hstop

end LineBasic
