import Ember.Ast.Parser

/-! Token streams seen without positions, and what each elementary reader does with a stream whose
next token is known. -/
namespace Ember
set_option autoImplicit false

/-! ## Streams -/

namespace Stream

/-- The tokens still to be read, without their positions. -/
def kinds (s : Stream) : List Token := s.tokens.map (·.token)

variable {s : Stream} {k : Token} {ks : List Token}

theorem tokens_of_kinds (h : s.kinds = k :: ks) :
    ∃ span rest, s.tokens = ⟨k, span⟩ :: rest ∧ rest.map (·.token) = ks := by
  obtain ⟨⟨token, span⟩, rest, htokens, rfl, hrest⟩ := List.map_eq_cons_iff.1 h
  exact ⟨span, rest, htokens, hrest⟩

theorem peek_of_kinds (h : s.kinds = k :: ks) : s.peek = k := by
  obtain ⟨span, rest, htokens, -⟩ := tokens_of_kinds h
  rw [peek, htokens]

theorem peekSecond_of_kinds (h : s.kinds = k :: ks) : s.peekSecond = ks.head?.getD .eof := by
  obtain ⟨span, rest, htokens, rfl⟩ := tokens_of_kinds h
  rw [peekSecond, htokens]
  cases rest <;> rfl

theorem kinds_skipWhile {p : Token → Bool} (h : s.kinds = k :: ks) (hk : p k = false) :
    (skipWhile p s.tokens s.last).kinds = k :: ks := by
  obtain ⟨span, rest, htokens, hrest⟩ := tokens_of_kinds h
  simp [htokens, skipWhile, hk, kinds, hrest]

theorem kinds_skipNewlines (h : s.kinds = k :: ks) (hk : isNewline k = false) :
    s.skipNewlines.1.kinds = k :: ks :=
  kinds_skipWhile h hk

theorem kinds_skipSeparators (h : s.kinds = k :: ks) (hk : isSeparator k = false) :
    s.skipSeparators.1.kinds = k :: ks :=
  kinds_skipWhile h hk

theorem eat?_of_kinds {m : Mark} (h : s.kinds = .mark m :: ks) :
    ∃ r hr, s.eat? m = some ⟨r, hr⟩ ∧ r.kinds = ks := by
  obtain ⟨tokens, last⟩ := s
  obtain ⟨span, rest, rfl, hrest⟩ := tokens_of_kinds h
  exact ⟨⟨rest, some span⟩, by simp [size], by simp [eat?], hrest⟩

theorem eat?_eq_none {m : Mark} (h : .mark m ∉ s.kinds.head?) : s.eat? m = none := by
  obtain ⟨_ | ⟨⟨k, span⟩, rest⟩, last⟩ := s
  · rfl
  · cases k with
    | mark m' =>
      have hm : m' ≠ m := fun e => h (e ▸ rfl)
      simp [eat?, hm]
    | _ => rfl

theorem expect_of_kinds {m : Mark} (context : String) (h : s.kinds = .mark m :: ks) :
    ∃ r hr, s.expect m context = .ok ⟨r, hr⟩ ∧ r.kinds = ks := by
  obtain ⟨r, hr, heat, hks⟩ := eat?_of_kinds h
  exact ⟨r, hr, by rw [expect, heat], hks⟩

theorem expectIdent_of_kinds {name : String} (context : String) (h : s.kinds = .ident name :: ks) :
    ∃ r hr, s.expectIdent context = .ok ⟨name, r, hr⟩ ∧ r.kinds = ks := by
  obtain ⟨tokens, last⟩ := s
  obtain ⟨span, rest, rfl, hrest⟩ := tokens_of_kinds h
  exact ⟨⟨rest, some span⟩, by simp [size], rfl, hrest⟩

theorem endStatement_of_kinds (h : s.kinds = .newline :: ks) :
    ∃ r hr, s.endStatement = .ok ⟨r, hr⟩ ∧ r.kinds = ks := by
  obtain ⟨tokens, last⟩ := s
  obtain ⟨span, rest, rfl, hrest⟩ := tokens_of_kinds h
  exact ⟨⟨rest, some span⟩, by simp [size], rfl, hrest⟩

end Stream

/-! ## Results of readers -/

/-- Reading succeeds with a value as `P` says and leaves the tokens `rest`. -/
def Parse.Reads {α : Type} {bound : Nat} (P : α → Prop) (rest : List Token) (r : Parse α bound) :
    Prop :=
  ∃ a s h, r = .ok ⟨a, s, h⟩ ∧ P a ∧ Stream.kinds s = rest

end Ember
