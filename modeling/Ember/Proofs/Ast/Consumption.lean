import Mathlib.Data.List.TakeWhile
import Ember.Proofs.Ast.Statements

/-! What the parser consumes. It comes to a result on any tokens in any order; a statement or an
expression that it reads takes at least one token and none after an end, and a program takes all
tokens before the first end. -/
namespace Ember
set_option autoImplicit false

/-! ## Ends -/

def Token.isEnd : Token → Bool
  | .eof => true
  | _ => false

theorem Token.isEnd_iff {t : Token} : t.isEnd = true ↔ t = .eof := by
  cases t <;> simp [isEnd]

def Lexeme.goesOn (t : Lexeme) : Bool := !t.token.isEnd

theorem Lexeme.goesOn_iff {t : Lexeme} : t.goesOn = true ↔ t.token ≠ .eof := by
  rw [goesOn, Bool.not_eq_true', Bool.eq_false_iff, ne_eq, Token.isEnd_iff]

theorem peek_dropWhile_goesOn (ts : List Lexeme) :
    Stream.peek ⟨ts.dropWhile Lexeme.goesOn, none⟩ = .eof := by
  induction ts with
  | nil => rfl
  | cons t rest ih =>
    by_cases ht : t.goesOn = true
    · rw [List.dropWhile_cons_of_pos ht]
      exact ih
    · rw [List.dropWhile_cons_of_neg ht]
      exact Classical.not_not.1 (mt Lexeme.goesOn_iff.2 ht)

theorem dropWhile_goesOn_of_peek {s : Stream} (h : s.peek = .eof) :
    s.tokens.dropWhile Lexeme.goesOn = s.tokens := by
  obtain ⟨_ | ⟨t, rest⟩, last⟩ := s
  · rfl
  · exact List.dropWhile_cons_of_neg fun ht => Lexeme.goesOn_iff.1 ht h

/-! ## One statement or expression -/

/-- The first tokens of `s` up to those of `r` are read, at least one and no end. -/
def Stream.Advances (s r : Stream) : Prop :=
  ∃ taken, taken ≠ [] ∧ s.tokens = taken ++ r.tokens ∧ ∀ t ∈ taken, t.token ≠ .eof

/-- A stream beside itself, up to its end. -/
def Fork.same (s : Stream) : Fork where
  move := id
  shared := s.tokens.takeWhile Lexeme.goesOn
  ending := s.tokens.dropWhile Lexeme.goesOn
  other := s.tokens.dropWhile Lexeme.goesOn
  ne_eof _ ht := Lexeme.goesOn_iff.1 (List.mem_takeWhile_imp ht)
  ends := peek_dropWhile_goesOn s.tokens
  divides := .inl (peek_dropWhile_goesOn s.tokens)

theorem Fork.same_alike (s : Stream) : (Fork.same s).Alike s s := by
  have htokens : s.tokens = s.tokens.takeWhile Lexeme.goesOn ++ s.tokens.dropWhile Lexeme.goesOn :=
    List.takeWhile_append_dropWhile.symm
  refine ⟨(Fork.same s).shared, List.suffix_rfl, htokens, ?_⟩
  rw [show (Fork.same s).shared.map (·.moved (Fork.same s).move) = _ from List.map_id' _]
  exact htokens

theorem Fork.Alike.advances {s r r' : Stream} (h : (Fork.same s).Alike r r')
    (hr : r.size < s.size) : s.Advances r := by
  obtain ⟨ts, ⟨taken, hshared⟩, htokens, -⟩ := h
  have hsplit : s.tokens = taken ++ r.tokens := by
    rw [htokens, ← List.append_assoc, hshared]
    exact List.takeWhile_append_dropWhile.symm
  refine ⟨taken, ?_, hsplit, fun t ht => ?_⟩
  · rintro rfl
    rw [Stream.size, Stream.size, hsplit] at hr
    exact Nat.lt_irrefl _ hr
  · exact (Fork.same s).ne_eof t (hshared ▸ List.mem_append_left ts ht)

theorem parseStatement_advances {s r : Stream} {st : Stmt} {hr : r.size < s.size}
    (hok : parseStatement s = .ok ⟨st, r, hr⟩) : s.Advances r := by
  obtain ⟨r', hr', -, hrest⟩ :=
    ((Fork.same s).upto _).statement (Nat.lt_succ_self _) (Fork.same_alike s) hok
  exact hrest.advances hr

theorem parseBinary_advances {least : Nat} {s r : Stream} {e : Expr} {hr : r.size < s.size}
    (hok : parseBinary least s = .ok ⟨e, r, hr⟩) : s.Advances r := by
  obtain ⟨r', hr', -, hrest⟩ :=
    ((Fork.same s).upto _).binary least (Nat.lt_succ_self _) (Fork.same_alike s) hok
  exact hrest.advances hr

/-! ## Programs -/

/-- From the first stream to the second, the statements are read one after the other, and nothing
else but separators. -/
inductive Consumes : Stream → List Stmt → Stream → Prop
  | done (s : Stream) : Consumes s [] s
  | separator {t : Lexeme} {rest : List Lexeme} {last : Option Span} {sts : List Stmt} {r : Stream}
    (ht : Stream.isSeparator t.token = true) (h : Consumes ⟨rest, some t.span⟩ sts r) :
    Consumes ⟨t :: rest, last⟩ sts r
  | statement {s r₁ r : Stream} {st : Stmt} {sts : List Stmt} {h₁ : r₁.size < s.size}
    (hst : parseStatement s = .ok ⟨st, r₁, h₁⟩) (h : Consumes r₁ sts r) : Consumes s (st :: sts) r

theorem Consumes.skipSeparators {s r : Stream} {sts : List Stmt}
    (h : Consumes s.skipSeparators.1 sts r) : Consumes s sts r := by
  obtain ⟨tokens, last⟩ := s
  induction tokens generalizing last with
  | nil => exact h
  | cons t rest ih =>
    change Consumes (Stream.skipWhile Stream.isSeparator (t :: rest) last) sts r at h
    rw [Stream.skipWhile] at h
    split at h
    · rename_i ht
      exact .separator ht (ih (some t.span) h)
    · exact h

theorem Consumes.endStatement {s r r' : Stream} {hr : r.size ≤ s.size} {sts : List Stmt}
    (hend : s.endStatement = .ok ⟨r, hr⟩) (h : Consumes r sts r') : Consumes s sts r' := by
  obtain ⟨tokens, last⟩ := s
  unfold Stream.endStatement at hend
  split at hend
  · rename_i htokens
    cases hend
    obtain rfl := htokens
    exact .separator rfl h
  · rename_i htokens
    cases hend
    obtain rfl := htokens
    exact .separator rfl h
  · cases hend
    exact h
  · cases hend
    exact h
  · cases hend
    exact h
  · cases hend

theorem Consumes.passes {s r : Stream} {sts : List Stmt} (h : Consumes s sts r) :
    ∃ taken, s.tokens = taken ++ r.tokens ∧ ∀ t ∈ taken, t.token ≠ .eof := by
  induction h with
  | done => exact ⟨[], rfl, nofun⟩
  | @separator t rest last sts r ht h ih =>
    obtain ⟨taken, htokens, htaken⟩ := ih
    refine ⟨t :: taken, congrArg (t :: ·) htokens, List.forall_mem_cons.2 ⟨?_, htaken⟩⟩
    intro hend
    rw [hend] at ht
    cases ht
  | statement hst h ih =>
    obtain ⟨first, -, hfirst, hgoes⟩ := parseStatement_advances hst
    obtain ⟨taken, htokens, htaken⟩ := ih
    refine ⟨first ++ taken, by rw [hfirst, htokens, List.append_assoc], ?_⟩
    exact List.forall_mem_append.2 ⟨hgoes, htaken⟩

theorem parseStatements_consumes {s : Stream} {found : List Stmt} {p : Program}
    (hok : parseStatements s found = .ok p) :
    ∃ new r, p.statements = found.reverse ++ new ∧ Consumes s new r ∧ r.peek = .eof := by
  rcases parseStatements_cases hok with
    ⟨hpeek, rfl⟩ | ⟨hpeek, st, r₂, h₂, r₃, h₃, hst, hend, hrest⟩
  · exact ⟨[], s.skipSeparators.1, (List.append_nil _).symm, .skipSeparators (.done _), hpeek⟩
  · have hskip := s.skipSeparators.2
    obtain ⟨new, r, hp, hnew, hpeek⟩ := parseStatements_consumes hrest
    exact ⟨st :: new, r, by rw [hp, List.reverse_cons, List.append_assoc]; rfl,
      .skipSeparators (.statement hst (.endStatement hend hnew)), hpeek⟩
termination_by s.size
decreasing_by all_goals omega

/-- The parser comes to a result on any tokens. A program that it reads takes all tokens before the
first end, and each statement or expression takes at least one token, and none after an end. -/
theorem parser_consumes (ts : List Lexeme) :
    ((∃ p, parseTokens ts = .ok p) ∨ ∃ e, parseTokens ts = .error e) ∧
    (∀ p, parseTokens ts = .ok p → ∃ r, Consumes ⟨meaningful ts, none⟩ p.statements r ∧
      r.tokens = (meaningful ts).dropWhile Lexeme.goesOn) ∧
    (∀ s st r hr, parseStatement s = .ok ⟨st, r, hr⟩ → s.Advances r) ∧
    ∀ least s e r hr, parseBinary least s = .ok ⟨e, r, hr⟩ → s.Advances r := by
  refine ⟨?_, fun p hok => ?_, fun s st r hr => parseStatement_advances,
    fun least s e r hr => parseBinary_advances⟩
  · cases parseTokens ts with
    | ok p => exact .inl ⟨p, rfl⟩
    | error e => exact .inr ⟨e, rfl⟩
  · rw [parseTokens_eq] at hok
    obtain ⟨new, r, hp, hnew, hpeek⟩ := parseStatements_consumes hok
    obtain ⟨taken, htokens, htaken⟩ := hnew.passes
    obtain rfl : p.statements = new := hp
    have hpassed : (taken ++ r.tokens).dropWhile Lexeme.goesOn = r.tokens := by
      rw [List.dropWhile_append_of_pos fun t ht => Lexeme.goesOn_iff.2 (htaken t ht),
        dropWhile_goesOn_of_peek hpeek]
    exact ⟨r, hnew, by rw [← hpassed, ← htokens]⟩

/-- A statement over two lines, and a stray parenthesis after the end. -/
def strayTokens : List Lexeme :=
  [⟨.mark .semicolon, ⟨1, 1⟩⟩, ⟨.comment "", ⟨1, 2⟩⟩, ⟨.ident "x", ⟨2, 1⟩⟩, ⟨.mark .minus, ⟨2, 3⟩⟩,
    ⟨.newline, ⟨2, 4⟩⟩, ⟨.integer 1, ⟨3, 1⟩⟩, ⟨.eof, ⟨3, 2⟩⟩, ⟨.mark .rParen, ⟨3, 3⟩⟩]

theorem parser_consumes_stray :
    ∃ p, parseTokens strayTokens = .ok p ∧
      p.statements = [.expr ⟨2, 1⟩ (.binary ⟨2, 3⟩ (.arithmetic .subtract) (.ident ⟨2, 1⟩ "x")
        (.int ⟨3, 1⟩ 1))] ∧
      ∃ r, Consumes ⟨meaningful strayTokens, none⟩ p.statements r ∧
        r.tokens = [⟨.eof, ⟨3, 2⟩⟩, ⟨.mark .rParen, ⟨3, 3⟩⟩] := by
  have hread : parseTokens strayTokens = .ok ⟨[.expr ⟨2, 1⟩ (.binary ⟨2, 3⟩
      (.arithmetic .subtract) (.ident ⟨2, 1⟩ "x") (.int ⟨3, 1⟩ 1))]⟩ := by cbv
  obtain ⟨-, hconsumed, -⟩ := parser_consumes strayTokens
  exact ⟨_, hread, rfl, hconsumed _ hread⟩

end Ember
