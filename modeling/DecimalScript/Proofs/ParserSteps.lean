import DecimalScript.Program.Parser
import DecimalScript.Proofs.Derivation

/-!
# What parsers take

One equation for each way to build a parser: when it succeeds, with which result, and which tokens
it has taken. A repetition succeeds exactly if its items run one after the other up to a token that
starts none, provided that every item takes a token. -/

namespace DecimalScript

open Derivations (endOf)

/-- From one cursor to a later one, just these tokens have been taken. -/
structure Cursor.Takes (tokens : List Token) (c c' : Cursor) : Prop where
  rest : c.rest = tokens ++ c'.rest
  last : c'.last = endOf c.last tokens

namespace Cursor

variable {ts us : List Token} {c c₁ c' : Cursor}

theorem Takes.refl (c : Cursor) : Takes [] c c :=
  ⟨rfl, rfl⟩

/-- Tokens that are taken in two steps are taken. -/
theorem Takes.trans (h : Takes ts c c₁) (h' : Takes us c₁ c') : Takes (ts ++ us) c c' := by
  refine ⟨by rw [h.rest, h'.rest, List.append_assoc], ?_⟩
  rw [h'.last, h.last, endOf, endOf, endOf, List.foldl_append]

theorem takes_append : Takes (ts ++ us) c c' ↔ ∃ c₁, Takes ts c c₁ ∧ Takes us c₁ c' := by
  constructor
  · intro h
    refine ⟨⟨endOf c.last ts, us ++ c'.rest⟩, ⟨?_, rfl⟩, rfl, ?_⟩
    · rw [h.rest, List.append_assoc]
    · rw [h.last, endOf, endOf, List.foldl_append]
      rfl
  · rintro ⟨c₁, h, h'⟩
    exact h.trans h'

theorem takes_cons {token : Token} :
    Takes (token :: ts) c c' ↔ ∃ c₁, Takes [token] c c₁ ∧ Takes ts c₁ c' := by
  rw [← List.singleton_append]
  exact takes_append

theorem Takes.eq_of_nil (h : Takes [] c c') : c' = c := by
  obtain ⟨last, rest⟩ := c
  obtain ⟨last', rest'⟩ := c'
  obtain ⟨hrest, hlast⟩ := h
  cases hrest
  cases hlast
  rfl

/-- What is taken and what is left is what there was. -/
theorem Takes.length (h : Takes ts c c') : c.rest.length = ts.length + c'.rest.length := by
  rw [h.rest, List.length_append]

theorem Takes.length_lt {token : Token} (h : Takes (token :: ts) c c') :
    c'.rest.length < c.rest.length := by
  rw [h.length, List.length_cons]
  omega

/-- The first token that is taken is the next one. -/
theorem Takes.head? {token : Token} (h : Takes (token :: ts) c c') :
    c.rest.head? = some token := by
  rw [h.rest]
  rfl

end Cursor

namespace Parser

open Cursor

variable {α β σ : Type}

theorem pure_eq_ok {a b : α} {c c' : Cursor} :
    (pure a : Parser α) c = .ok (b, c') ↔ a = b ∧ c = c' := by
  constructor
  · intro h
    cases h
    exact ⟨rfl, rfl⟩
  · rintro ⟨rfl, rfl⟩
    rfl

theorem bind_of_ok {p : Parser α} {f : α → Parser β} {c c₁ : Cursor} {a : α}
    (h : p c = .ok (a, c₁)) : (p >>= f) c = f a c₁ := by
  show Parser.bind p f c = f a c₁
  unfold Parser.bind
  simp only [h]

theorem bind_of_error {p : Parser α} {f : α → Parser β} {c : Cursor} {refusal : Refusal}
    (h : p c = .error refusal) : (p >>= f) c = .error refusal := by
  show Parser.bind p f c = .error refusal
  unfold Parser.bind
  simp only [h]

/-- Two parsers in a row succeed if the second one does where the first one stopped. -/
theorem bind_eq_ok {p : Parser α} {f : α → Parser β} {c : Cursor} {r : β × Cursor} :
    (p >>= f) c = .ok r ↔ ∃ a c₁, p c = .ok (a, c₁) ∧ f a c₁ = .ok r := by
  constructor
  · intro h
    cases hp : p c with
    | error refusal =>
      rw [bind_of_error hp] at h
      cases h
    | ok pair =>
      rw [bind_of_ok hp] at h
      exact ⟨pair.1, pair.2, rfl, h⟩
  · rintro ⟨a, c₁, hp, hf⟩
    rw [bind_of_ok hp]
    exact hf

theorem refuse_ne_ok {expected : String} {c : Cursor} {r : α × Cursor} :
    refuse expected c ≠ .ok r := by
  unfold refuse
  split <;> exact nofun

theorem expect_nil {expected : String} {f : Token → Option α} {last : Position} :
    expect expected f ⟨last, []⟩ = refuse expected ⟨last, []⟩ := rfl

theorem expect_cons {expected : String} {f : Token → Option α} {last : Position} {token : Token}
    {rest : List Token} :
    expect expected f ⟨last, token :: rest⟩ = match f token with
      | some a => .ok (a, ⟨token.span.stop, rest⟩)
      | none => refuse expected ⟨last, token :: rest⟩ := rfl

theorem accept_cons {f : Token → Option α} {last : Position} {token : Token}
    {rest : List Token} :
    accept? f ⟨last, token :: rest⟩ = match f token with
      | some a => .ok (some a, ⟨token.span.stop, rest⟩)
      | none => .ok (none, ⟨last, token :: rest⟩) := rfl

/-- A token that is expected is there, and is taken. -/
theorem expect_eq_ok {expected : String} {f : Token → Option α} {a : α} {c c' : Cursor} :
    expect expected f c = .ok (a, c') ↔ ∃ token, f token = some a ∧ Takes [token] c c' := by
  obtain ⟨last, rest⟩ := c
  obtain ⟨last', rest'⟩ := c'
  constructor
  · intro h
    -- The step only looks at the next token, so its presence and what `f` makes of it are all
    -- cases.
    cases rest with
    | nil =>
      rw [expect_nil] at h
      exact absurd h refuse_ne_ok
    | cons token rest =>
      cases hf : f token with
      | none =>
        rw [expect_cons, hf] at h
        exact absurd h refuse_ne_ok
      | some b =>
        rw [expect_cons, hf] at h
        cases h
        exact ⟨token, hf, rfl, rfl⟩
  · rintro ⟨token, hf, hrest, hlast⟩
    change rest = token :: rest' at hrest
    change last' = token.span.stop at hlast
    rw [hrest, hlast, expect_cons, hf]

/-- A token that is accepted is taken. -/
theorem accept_eq_some {f : Token → Option α} {a : α} {c c' : Cursor} :
    accept? f c = .ok (some a, c') ↔ ∃ token, f token = some a ∧ Takes [token] c c' := by
  obtain ⟨last, rest⟩ := c
  obtain ⟨last', rest'⟩ := c'
  constructor
  · intro h
    cases rest with
    | nil => cases h
    | cons token rest =>
      cases hf : f token with
      | none =>
        rw [accept_cons, hf] at h
        cases h
      | some b =>
        rw [accept_cons, hf] at h
        cases h
        exact ⟨token, hf, rfl, rfl⟩
  · rintro ⟨token, hf, hrest, hlast⟩
    change rest = token :: rest' at hrest
    change last' = token.span.stop at hlast
    rw [hrest, hlast, accept_cons, hf]

/-- Where no token is accepted, none is taken. -/
theorem accept_eq_none {f : Token → Option α} {c c' : Cursor} :
    accept? f c = .ok (none, c') ↔ (∀ token ∈ c.rest.head?, f token = none) ∧ c = c' := by
  obtain ⟨last, rest⟩ := c
  cases rest with
  | nil =>
    constructor
    · intro h
      cases h
      exact ⟨nofun, rfl⟩
    · rintro ⟨-, rfl⟩
      rfl
  | cons token rest =>
    constructor
    · intro h
      cases hf : f token with
      | none =>
        rw [accept_cons, hf] at h
        cases h
        exact ⟨fun _ h => Option.some.inj h ▸ hf, rfl⟩
      | some b =>
        rw [accept_cons, hf] at h
        cases h
    · rintro ⟨hf, rfl⟩
      rw [accept_cons, hf token rfl]

/-! ### Repetition -/

/-- Items run one after the other, each started by a token, up to a token that starts none. -/
inductive Runs (starts : Token → Option σ) (item : σ → Parser α) :
    Cursor → List α → Cursor → Prop where
  | stop {c : Cursor} (h : c.rest.head?.bind starts = none) : Runs starts item c [] c
  | step {c c₁ c' : Cursor} {s : σ} {a : α} {as : List α}
      (hs : c.rest.head?.bind starts = some s) (ha : item s c = .ok (a, c₁))
      (has : Runs starts item c₁ as c') : Runs starts item c (a :: as) c'

/-- Every item takes a token. -/
def Consumes (starts : Token → Option σ) (item : σ → Parser α) : Prop :=
  ∀ {s c a c'}, c.rest.head?.bind starts = some s → item s c = .ok (a, c') →
    c'.rest.length < c.rest.length

theorem manyUpTo_succ {starts : Token → Option σ} {item : σ → Parser α} {bound : Nat} {c : Cursor}
    {s : σ} {a : α} {c₁ : Cursor} {as : List α} {c' : Cursor}
    (hs : c.rest.head?.bind starts = some s) (ha : item s c = .ok (a, c₁))
    (has : manyUpTo starts item bound c₁ = .ok (as, c')) :
    manyUpTo starts item (bound + 1) c = .ok (a :: as, c') := by
  unfold manyUpTo
  simp only [hs, ha, has]

/-- What a repetition reads is a run: the bound is never what ends it. -/
theorem runs_of_manyUpTo {starts : Token → Option σ} {item : σ → Parser α}
    (hconsumes : Consumes starts item) :
    ∀ {bound : Nat} {c c' : Cursor} {as : List α}, c.rest.length ≤ bound →
      manyUpTo starts item bound c = .ok (as, c') → Runs starts item c as c'
  | 0, c, c', as, hbound, h => by
    cases h
    refine .stop ?_
    rw [List.eq_nil_of_length_eq_zero (Nat.le_zero.mp hbound)]
    rfl
  | bound + 1, c, c', as, hbound, h => by
    unfold manyUpTo at h
    cases hs : c.rest.head?.bind starts with
    | none =>
      simp only [hs] at h
      cases h
      exact .stop hs
    | some s =>
      simp only [hs] at h
      cases ha : item s c with
      | error refusal =>
        simp only [ha] at h
        cases h
      | ok pair =>
        obtain ⟨a, c₁⟩ := pair
        simp only [ha] at h
        cases hrest : manyUpTo starts item bound c₁ with
        | error refusal =>
          simp only [hrest] at h
          cases h
        | ok pair =>
          simp only [hrest] at h
          cases h
          -- Each item takes a token, which is why a bound of the tokens left is never what ends the
          -- loop.
          have hlength := hconsumes hs ha
          exact .step hs ha (runs_of_manyUpTo hconsumes (by omega) hrest)

/-- A run is what a repetition reads, if the bound allows for as many items as there are tokens. -/
theorem manyUpTo_of_runs {starts : Token → Option σ} {item : σ → Parser α}
    (hconsumes : Consumes starts item) {c c' : Cursor} {as : List α}
    (h : Runs starts item c as c') :
    ∀ {bound : Nat}, c.rest.length ≤ bound → manyUpTo starts item bound c = .ok (as, c') := by
  induction h with
  | @stop c hstop =>
    intro bound _
    cases bound with
    | zero => rfl
    | succ bound =>
      unfold manyUpTo
      simp only [hstop]
  | step hs ha _ ih =>
    intro bound hbound
    have hlength := hconsumes hs ha
    obtain ⟨bound, rfl⟩ : ∃ n, bound = n + 1 := ⟨bound - 1, by omega⟩
    exact manyUpTo_succ hs ha (ih (by omega))

/-- The bound on a repetition is never reached. -/
theorem many_eq_ok {starts : Token → Option σ} {item : σ → Parser α}
    (hconsumes : Consumes starts item) {c c' : Cursor} {as : List α} :
    many starts item c = .ok (as, c') ↔ Runs starts item c as c' := by
  have hmany : many starts item c = manyUpTo starts item c.rest.length c := by
    unfold many
    cases hs : c.rest.head?.bind starts with
    | some s => rfl
    | none => exact (manyUpTo_of_runs hconsumes (.stop hs) (Nat.le_refl _)).symm
  rw [hmany]
  exact ⟨runs_of_manyUpTo hconsumes (Nat.le_refl _),
    fun h => manyUpTo_of_runs hconsumes h (Nat.le_refl _)⟩

end Parser

namespace Grammar

open Cursor DecimalScript.Parser

/-! ### Tokens of a class -/

theorem content_of_kind {m : Mark} {token : Token} (h : token.kind = .mark m) :
    token.content = .mark m := by
  obtain ⟨content, lexeme, span⟩ := token
  cases content <;> cases h
  rfl

/-- A mark is known by its kind. -/
theorem isMark_eq_some {m : Mark} {token : Token} {span : Span} :
    isMark m token = some span ↔ token.kind = .mark m ∧ token.span = span := by
  unfold isMark Token.kind
  cases hcontent : token.content <;> simp [TokenContent.kind]

theorem isMark_eq_none {m : Mark} {token : Token} :
    isMark m token = none ↔ token.kind ≠ .mark m := by
  unfold isMark Token.kind
  cases hcontent : token.content <;> simp [TokenContent.kind]

theorem isMark_eq_none_iff {m : Mark} {token : Token} :
    isMark m token = none ↔ (token.kind == .mark m) = false := by
  rw [isMark_eq_none, beq_eq_false_iff_ne]

theorem isWord_eq_some {w : Word} {token : Token} {span : Span} :
    isWord w token = some span ↔ token.kind = .word w ∧ token.span = span := by
  unfold isWord Token.kind
  cases hcontent : token.content <;> simp [TokenContent.kind]

theorem isWord_eq_none {w : Word} {token : Token} :
    isWord w token = none ↔ token.kind ≠ .word w := by
  unfold isWord Token.kind
  cases hcontent : token.content <;> simp [TokenContent.kind]

/-- A name is known by its kind. -/
theorem isName_eq_some {token : Token} {r : String × Span} :
    isName token = some r ↔
      token.kind = .name ∧ (Derivations.nameOf token, token.span) = r := by
  unfold isName Token.kind Derivations.nameOf
  cases hcontent : token.content <;> simp [TokenContent.kind]

theorem kind_ne_of_isName {token : Token} (h : isName token = none) : token.kind ≠ .name := by
  intro hkind
  rw [isName_eq_some.mpr ⟨hkind, rfl⟩] at h
  cases h

/-- A mark that is asked for is the next token. -/
theorem mark_eq_ok {m : Mark} {span : Span} {c c' : Cursor} :
    mark m c = .ok (span, c') ↔
      ∃ token, (token.kind = .mark m ∧ token.span = span) ∧ Takes [token] c c' := by
  unfold mark
  simp only [expect_eq_ok, isMark_eq_some]

/-- A name that is asked for is the next token. -/
theorem name_eq_ok {role : String} {r : String × Span} {c c' : Cursor} :
    name role c = .ok (r, c') ↔
      ∃ token, (token.kind = .name ∧ (Derivations.nameOf token, token.span) = r) ∧
        Takes [token] c c' := by
  unfold name
  simp only [expect_eq_ok, isName_eq_some]

end Grammar

end DecimalScript
