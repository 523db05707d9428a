import Mathlib
import LineBasic.Expr.Reader

/-!
# The grammar of expressions

Which sequences of tokens are expressions, and which trees they have:

```text
disjunction = conjunction { OR conjunction }
conjunction = exclusion { AND exclusion }
exclusion   = term { XOR term }
term        = NOT disjunction
            | sum [ ( '=' | '<>' | '<' | '<=' | '>' | '>=' ) sum ]
sum         = product { ( '+' | '-' ) product }
product     = factor { ( '*' | '/' | DIV | MOD ) factor }
factor      = ( '-' | '+' ) factor | '(' disjunction ')' | number | text
            | name [ '(' disjunction ')' ] | function '(' arguments ')'
```

Operators of one level group to the left. What stands behind `NOT` reaches as
far as it can, so nothing but the last operand of a level may end inside of it.
The arguments of a function fill its places one by one; a comma may stand behind
the last of them.

* `Phrase`: the phrases of every level, with their trees; `ArgPhrase` for
  arguments.
* `Level.takes`: whether a token can belong to a phrase that it stands behind.
* `Phrase.extend`: if it can, there is a longer phrase.
-/

namespace LineBasic

/-- How tight the operators of a phrase bind. -/
inductive Level where
  | disjunction
  | conjunction
  | exclusion
  | term
  | sum
  | product
  | factor
  deriving DecidableEq, Repr

namespace Level

/-- The level of the operands. -/
def below : Level → Level
  | disjunction => conjunction
  | conjunction => exclusion
  | exclusion => term
  | term => sum
  | sum => product
  | product | factor => factor

/-- The operators between the operands of a level. -/
def op? : Level → Token → Option Binary
  | disjunction => Token.disjunction?
  | conjunction => Token.conjunction?
  | exclusion => Token.exclusion?
  | term => Token.comparison?
  | sum => Token.sum?
  | product => Token.product?
  | factor => fun _ => none

/-- Whether any number of operands may follow each other. -/
def repeats : Level → Bool
  | term | factor => false
  | _ => true

end Level

/-- How a phrase ends. -/
structure Edge where
  /-- With a name, which might have an index. -/
  named : Bool := false
  /-- With a comparison that is complete. -/
  compared : Bool := false
  /-- Inside of what stands behind `NOT`. -/
  negated : Bool := false

mutual

/-- The tokens are a phrase of the level with this tree. -/
inductive Phrase : Level → Edge → List Token → Expr → Prop
  | number (n : Int64) : Phrase .factor {} [.number n] (.number n)
  | text (s : String) : Phrase .factor {} [.quoted s] (.text s)
  | scalar (s : String) : Phrase .factor { named := true } [.name s] (.scalar s)
  | element (s : String) {g : Edge} {ts : List Token} {e : Expr} : Phrase .disjunction g ts e →
      Phrase .factor {} (.name s :: .openParen :: ts ++ [.closeParen]) (.element s e)
  | group {g : Edge} {ts : List Token} {e : Expr} : Phrase .disjunction g ts e →
      Phrase .factor {} (.openParen :: ts ++ [.closeParen]) e
  | call (f : Builtin) {ts : List Token} {args : Args} : ArgPhrase f.signature.slots ts args →
      Phrase .factor {} (.builtin f :: .openParen :: ts ++ [.closeParen]) (.call f args)
  | sign (s : Sign) {g : Edge} {ts : List Token} {e : Expr} : Phrase .factor g ts e →
      Phrase .factor g (.sign s :: ts) (.unary (Expr.signed s) e)
  | negation {g : Edge} {ts : List Token} {e : Expr} : Phrase .disjunction g ts e →
      Phrase .term { g with negated := true } (.connective .not :: ts) (.unary .not e)
  | comparison {g g' : Edge} {ts us : List Token} {x : Token} {op : Binary} {l r : Expr} :
      Phrase .sum g ts l → Token.comparison? x = some op → Phrase .sum g' us r →
      Phrase .term { g' with compared := true } (ts ++ x :: us) (.binary op l r)
  | operand {v : Level} {g : Edge} {ts : List Token} {e : Expr} : v ≠ .factor → Phrase v.below g ts e →
      Phrase v g ts e
  | binary {v : Level} {g g' : Edge} {ts us : List Token} {x : Token} {op : Binary} {l r : Expr} :
      v.repeats = true → Phrase v g ts l → g.negated = false → v.op? x = some op → Phrase v.below g' us r →
      Phrase v g' (ts ++ x :: us) (.binary op l r)

/-- The tokens are arguments for these places of a function. -/
inductive ArgPhrase : List Slot → List Token → Args → Prop
  | none (slots : List Slot) : ArgPhrase slots [] .nil
  | last {slot : Slot} (slots : List Slot) {g : Edge} {ts : List Token} {e : Expr} : slot ≠ .handle →
      Phrase .disjunction g ts e → ArgPhrase (slot :: slots) ts (.value slot.demand e .nil)
  | value {slot : Slot} {slots : List Slot} {g : Edge} {ts us : List Token} {e : Expr} {args : Args} :
      slot ≠ .handle → Phrase .disjunction g ts e → ArgPhrase slots us args →
      ArgPhrase (slot :: slots) (ts ++ .comma :: us) (.value slot.demand e args)
  | lastHandle (slots : List Slot) (s : String) : ArgPhrase (.handle :: slots) [.name s] (.handle s .nil)
  | handle {slots : List Slot} (s : String) {us : List Token} {args : Args} : ArgPhrase slots us args →
      ArgPhrase (.handle :: slots) (.name s :: .comma :: us) (.handle s args)

end

/-- Phrases of these levels hold no connectives and comparisons outside of
parentheses. -/
def Level.plain : Level → Bool
  | sum | product | factor => true
  | _ => false

theorem Level.plain_below {v : Level} (h : v.plain = true) : v.below.plain = true := by
  cases v <;> first | rfl | cases h

/-- No phrase is empty. None begins with a closing parenthesis, and a plain one
does not with `NOT`. -/
theorem Phrase.head {v : Level} {g : Edge} {ts : List Token} {e : Expr} (h : Phrase v g ts e) :
    ∃ x us, ts = x :: us ∧ x ≠ .closeParen ∧ (v.plain = true → x ≠ .connective .not) := by
  match h with
  | .number n => exact ⟨_, _, rfl, nofun, nofun⟩
  | .text s => exact ⟨_, _, rfl, nofun, nofun⟩
  | .scalar s => exact ⟨_, _, rfl, nofun, nofun⟩
  | .element s _ => exact ⟨_, _, rfl, nofun, nofun⟩
  | .group _ => exact ⟨_, _, rfl, nofun, nofun⟩
  | .call f _ => exact ⟨_, _, rfl, nofun, nofun⟩
  | .sign s _ => exact ⟨_, _, rfl, nofun, nofun⟩
  | .negation _ => exact ⟨_, _, rfl, nofun, nofun⟩
  | .comparison hl _ _ =>
    obtain ⟨x, us, rfl, hx, -⟩ := hl.head
    exact ⟨x, _, rfl, hx, nofun⟩
  | .operand _ h =>
    obtain ⟨x, us, rfl, hx, hnot⟩ := h.head
    exact ⟨x, us, rfl, hx, fun hv => hnot (Level.plain_below hv)⟩
  | .binary _ hl _ _ _ =>
    obtain ⟨x, us, rfl, hx, hnot⟩ := hl.head
    exact ⟨x, _, rfl, hx, hnot⟩

/-- A plain phrase ends neither behind a comparison nor inside of a negation. -/
theorem Phrase.edge {v : Level} {g : Edge} {ts : List Token} {e : Expr} (h : Phrase v g ts e)
    (hv : v.plain = true) : g.compared = false ∧ g.negated = false := by
  match h with
  | .number n => exact ⟨rfl, rfl⟩
  | .text s => exact ⟨rfl, rfl⟩
  | .scalar s => exact ⟨rfl, rfl⟩
  | .element s _ => exact ⟨rfl, rfl⟩
  | .group _ => exact ⟨rfl, rfl⟩
  | .call f _ => exact ⟨rfl, rfl⟩
  | .sign s h => exact h.edge hv
  | .negation _ => cases hv
  | .comparison _ _ _ => cases hv
  | .operand _ h => exact h.edge (Level.plain_below hv)
  | .binary _ _ _ _ hr => exact hr.edge (Level.plain_below hv)

/-! ### What can stand behind a phrase -/

/-- The level whose operator the token is. -/
def Token.level? : Token → Option Level
  | connective .or => some .disjunction
  | connective .and => some .conjunction
  | connective .xor => some .exclusion
  | equal | relation _ => some .term
  | sign _ => some .sum
  | scaling _ => some .product
  | _ => none

namespace Level

theorem op?_eq_some {v : Level} {x : Token} {op : Binary} (h : v.op? x = some op) : x.level? = some v := by
  cases v with
  | factor => cases h
  | _ =>
    simp only [op?, Token.disjunction?, Token.conjunction?, Token.exclusion?, Token.comparison?, Token.sum?,
      Token.product?] at h
    split at h <;> first | rfl | cases h

theorem exists_op {v : Level} {x : Token} (h : x.level? = some v) : ∃ op, v.op? x = some op := by
  unfold Token.level? at h
  split at h <;> cases h
  case h_5 r => cases r <;> exact ⟨_, rfl⟩
  case h_6 s => cases s <;> exact ⟨_, rfl⟩
  case h_7 s => cases s <;> exact ⟨_, rfl⟩
  all_goals exact ⟨_, rfl⟩

/-- The levels whose operators may stand in a phrase of the level outside of all
parentheses. -/
def inside : Level → List Level
  | disjunction => [disjunction, conjunction, exclusion, term, sum, product]
  | conjunction => [conjunction, exclusion, term, sum, product]
  | exclusion => [exclusion, term, sum, product]
  | term => [term, sum, product]
  | sum => [sum, product]
  | product => [product]
  | factor => []

/-- Whether a token behind a phrase of the level can belong to it. Behind a name
this is a parenthesis. Any operator can go on inside of a negation; a comparison
can follow only if none is complete. -/
def takes (v : Level) (g : Edge) (x : Token) : Prop :=
  (g.named = true ∧ x = .openParen) ∨
    ∃ w, x.level? = some w ∧ (w ∈ v.inside ∨ g.negated = true) ∧ (w = .term → g.compared = false)

/-- What can belong to a phrase can belong to its last operand, or goes on at
its own level. -/
theorem takes_iff {v : Level} (hv : v ≠ .factor) {g : Edge} {x : Token} :
    v.takes g x ↔ v.below.takes g x ∨ (x.level? = some v ∧ (v = .term → g.compared = false)) := by
  have hin : ∀ w, w ∈ v.inside ↔ w ∈ v.below.inside ∨ w = v := by
    cases v <;> first | contradiction | (intro w; cases w <;> decide)
  constructor
  · rintro (h | ⟨w, hw, hwin, hc⟩)
    · exact Or.inl (Or.inl h)
    · rcases hwin with hwin | hneg
      · rcases (hin w).1 hwin with hwin | rfl
        · exact Or.inl (Or.inr ⟨w, hw, Or.inl hwin, hc⟩)
        · exact Or.inr ⟨hw, hc⟩
      · exact Or.inl (Or.inr ⟨w, hw, Or.inr hneg, hc⟩)
  · rintro ((h | ⟨w, hw, hwin, hc⟩) | ⟨hw, hc⟩)
    · exact Or.inl h
    · exact Or.inr ⟨w, hw, hwin.imp_left fun h => (hin w).2 (Or.inl h), hc⟩
    · exact Or.inr ⟨v, hw, Or.inl ((hin v).2 (Or.inr rfl)), hc⟩

/-- An operator of a level cannot belong to the operand before it, unless that
ends inside of a negation. -/
theorem not_takes_below {v : Level} (hv : v ≠ .factor) {g : Edge} (hg : g.negated = false) {x : Token}
    (hx : x.level? = some v) : ¬ v.below.takes g x := by
  rintro (⟨-, rfl⟩ | ⟨w, hw, hwin, -⟩)
  · cases hx
  · obtain rfl := Option.some.inj (hw.symm.trans hx)
    rcases hwin with hwin | hneg
    · revert hwin
      cases w <;> first | contradiction | decide
    · rw [hg] at hneg
      cases hneg

end Level

theorem Level.not_takes_factor {g : Edge} (hn : g.named = false) (hg : g.negated = false) (x : Token) :
    ¬ factor.takes g x := by
  rintro (⟨h, -⟩ | ⟨w, -, h | h, -⟩)
  · rw [hn] at h; cases h
  · cases h
  · rw [hg] at h; cases h

/-- Inside of a negation anything goes on that can go on with an expression. -/
theorem Level.takes_negation {g : Edge} {x : Token} :
    term.takes { g with negated := true } x ↔ disjunction.takes g x := by
  constructor
  · rintro (h | ⟨w, hw, -, hc⟩)
    · exact Or.inl h
    · refine Or.inr ⟨w, hw, Or.inl ?_, hc⟩
      obtain ⟨op, hop⟩ := exists_op hw
      cases w <;> first | decide | cases hop
  · rintro (h | ⟨w, hw, -, hc⟩)
    · exact Or.inl h
    · exact Or.inr ⟨w, hw, Or.inr rfl, hc⟩

/-- Behind a comparison goes on what can go on with its right side. -/
theorem Level.takes_comparison {g : Edge} (hc : g.compared = false) (hn : g.negated = false) {x : Token} :
    term.takes { g with compared := true } x ↔ sum.takes g x := by
  constructor
  · intro h
    rcases (takes_iff (v := term) nofun).1 h with h | ⟨-, hc'⟩
    · rcases h with h | ⟨w, hw, hin, -⟩
      · exact Or.inl h
      · exact Or.inr ⟨w, hw, hin, fun _ => hc⟩
    · cases hc' rfl
  · rintro (h | ⟨w, hw, hin | hneg, -⟩)
    · exact Or.inl h
    · refine Or.inr ⟨w, hw, Or.inl ?_, ?_⟩
      · exact List.mem_cons_of_mem _ hin
      · rintro rfl
        exact absurd hin (by decide)
    · rw [hn] at hneg
      cases hneg

namespace Phrase

/-- A number is a phrase of every level. -/
theorem ofNumber (n : Int64) (v : Level) : Phrase v {} [.number n] (.number n) := by
  have hproduct : Phrase .product {} [.number n] (.number n) := .operand nofun (.number n)
  have hsum : Phrase .sum {} [.number n] (.number n) := .operand nofun hproduct
  have hterm : Phrase .term {} [.number n] (.number n) := .operand nofun hsum
  have hexclusion : Phrase .exclusion {} [.number n] (.number n) := .operand nofun hterm
  have hconjunction : Phrase .conjunction {} [.number n] (.number n) := .operand nofun hexclusion
  cases v with
  | disjunction => exact .operand nofun hconjunction
  | factor => exact .number n
  | _ => assumption

/-- **What can belong to a phrase does**: with the token behind it, it is the
beginning of a longer one. -/
theorem extend {v : Level} {g : Edge} {ts : List Token} {e : Expr} (h : Phrase v g ts e) {x : Token}
    (hx : v.takes g x) : ∃ us g' e', Phrase v g' (ts ++ x :: us) e' := by
  match h with
  | .number n => exact absurd hx (Level.not_takes_factor rfl rfl x)
  | .text s => exact absurd hx (Level.not_takes_factor rfl rfl x)
  | .element s _ => exact absurd hx (Level.not_takes_factor rfl rfl x)
  | .group _ => exact absurd hx (Level.not_takes_factor rfl rfl x)
  | .call f _ => exact absurd hx (Level.not_takes_factor rfl rfl x)
  | .scalar s =>
    rcases hx with ⟨-, rfl⟩ | ⟨w, -, hw | hw, -⟩
    · exact ⟨_, _, _, .element s (ofNumber 0 .disjunction)⟩
    · cases hw
    · cases hw
  | .sign s h =>
    obtain ⟨us, g', e', h'⟩ := h.extend hx
    exact ⟨us, g', _, .sign s h'⟩
  | .negation h =>
    obtain ⟨us, g', e', h'⟩ := h.extend (Level.takes_negation.1 hx)
    exact ⟨us, _, _, .negation h'⟩
  | .comparison hl hop hr =>
    obtain ⟨hc, hn⟩ := hr.edge rfl
    obtain ⟨us, g', e', h'⟩ := hr.extend ((Level.takes_comparison hc hn).1 hx)
    have hlonger := Phrase.comparison hl hop h'
    rw [← List.cons_append, ← List.append_assoc] at hlonger
    exact ⟨us, _, _, hlonger⟩
  | @operand v g ts e hv h =>
    by_cases hb : v.below.takes g x
    · obtain ⟨us, g', e', h'⟩ := h.extend hb
      exact ⟨us, g', e', .operand hv h'⟩
    · obtain ⟨hlevel, hc⟩ := ((Level.takes_iff hv).1 hx).resolve_left hb
      obtain ⟨op, hop⟩ := Level.exists_op hlevel
      by_cases hterm : v = .term
      · subst hterm
        exact ⟨_, _, _, .comparison h hop (ofNumber 0 .sum)⟩
      · have hrep : v.repeats = true := by
          cases v <;> first | rfl | contradiction
        have hneg : g.negated = false := by
          by_contra hneg
          exact hb (Or.inr ⟨v, hlevel, Or.inr (by simpa using hneg), hc⟩)
        exact ⟨_, _, _, .binary hrep (.operand hv h) hneg hop (ofNumber 0 v.below)⟩
  | @binary v g g' ts us y op l r hrep hl hg hop hr =>
    have hv : v ≠ .factor := by rintro rfl; cases hrep
    by_cases hb : v.below.takes g' x
    · obtain ⟨vs, g'', e', h'⟩ := hr.extend hb
      have hlonger := Phrase.binary hrep hl hg hop h'
      rw [← List.cons_append, ← List.append_assoc] at hlonger
      exact ⟨vs, g'', _, hlonger⟩
    · obtain ⟨hlevel, hc⟩ := ((Level.takes_iff hv).1 hx).resolve_left hb
      obtain ⟨op', hop'⟩ := Level.exists_op hlevel
      have hneg : g'.negated = false := by
        by_contra hneg
        exact hb (Or.inr ⟨v, hlevel, Or.inr (by simpa using hneg), hc⟩)
      exact ⟨_, _, _, .binary hrep (.binary hrep hl hg hop hr) hneg hop' (ofNumber 0 v.below)⟩

end Phrase

end LineBasic
