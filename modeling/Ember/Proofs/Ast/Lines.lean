import Mathlib
import Ember.Proofs.Ast.Statements
import Ember.Proofs.Token.Lines

/-! Programs that are put together line by line. Two texts that are programs give one program with a
line break between them: the statements of the first, and then those of the second further down. -/
namespace Ember
set_option autoImplicit false

/-! ## Tokens that mean something -/

theorem meaningful_append (ts us : List Lexeme) :
    meaningful (ts ++ us) = meaningful ts ++ meaningful us :=
  List.filter_append ts us

theorem meaningful_append_end (ts : List Lexeme) (last : Span) :
    meaningful (ts ++ [⟨.eof, last⟩]) = meaningful ts ++ [⟨.eof, last⟩] :=
  meaningful_append ts _

theorem meaningful_moved (f : Span → Span) (ts : List Lexeme) :
    meaningful (ts.map (·.moved f)) = (meaningful ts).map (·.moved f) :=
  List.filter_map

theorem meaningful_ne_eof {ts : List Lexeme} (h : ∀ t ∈ ts, t.token ≠ .eof) :
    ∀ t ∈ meaningful ts, t.token ≠ .eof :=
  fun t ht => h t (List.mem_filter.1 ht).1

/-! ## Two ways to go on -/

section
variable {ts : List Lexeme} (hts : ∀ t ∈ ts, t.token ≠ .eof) (last : Span)

/-- The tokens of a text, and of one that goes on in the next line where the first one ends. -/
def Fork.continued (more : List Lexeme) : Fork :=
  ⟨id, ts, [⟨.eof, last⟩], ⟨.newline, last⟩ :: more, hts, rfl, .inr rfl⟩

/-- The tokens of a text, and of the same text in another place. -/
def Fork.elsewhere (f : Span → Span) : Fork :=
  ⟨f, ts, [⟨.eof, last⟩], [⟨.eof, f last⟩], hts, rfl, .inl rfl⟩

variable {last} {p : Program} (hok : parseStatements ⟨ts ++ [⟨.eof, last⟩], none⟩ [] = .ok p)
include hts hok

theorem parseStatements_continued (more : List Lexeme) :
    parseStatements ⟨ts ++ ⟨.newline, last⟩ :: more, none⟩ [] =
      parseStatements ⟨more, some last⟩ p.statements.reverse := by
  have htokens : ts.map (·.moved id) = ts := List.map_id' ts
  have hstatements : p.statements.map (·.moved id) = p.statements :=
    List.map_id'' Stmt.moved_id p.statements
  have hnew : parseStatements ⟨ts.map (·.moved id) ++ ⟨.newline, last⟩ :: more, none⟩ [] =
      parseStatements ⟨⟨.newline, last⟩ :: more, none⟩
        ((p.statements.map (·.moved id)).reverse ++ []) :=
    (Fork.continued hts last more).parseStatements_start hok none []
  rw [htokens, hstatements, List.append_nil] at hnew
  exact hnew.trans (parseStatements_newline last more none _)

theorem parseStatements_elsewhere (f : Span → Span) (before : Option Span) (found : List Stmt) :
    parseStatements ⟨(ts ++ [Lexeme.mk .eof last]).map (·.moved f), before⟩ found =
      .ok ⟨found.reverse ++ p.statements.map (·.moved f)⟩ := by
  have hnew : parseStatements ⟨ts.map (·.moved f) ++ [⟨.eof, f last⟩], before⟩ found =
      parseStatements ⟨[⟨.eof, f last⟩], none⟩ ((p.statements.map (·.moved f)).reverse ++ found) :=
    (Fork.elsewhere hts last f).parseStatements_start hok before found
  rw [List.map_append]
  refine hnew.trans ((parseStatements_end rfl _).trans ?_)
  rw [List.reverse_append, List.reverse_reverse]

end

/-! ## Programs -/

theorem parse_eq_ok {source : String} {p : Program} (h : parse source = .ok p) :
    ∃ ts, lex source = .ok ts ∧ parseTokens ts = .ok p := by
  unfold parse at h
  split at h
  · cases h
  · rename_i ts hts
    split at h
    · cases h
    · rename_i p' hp
      cases h
      exact ⟨ts, hts, hp⟩

/-- Programs are put together with a line break between them, and then the places of the second one
are as many lines further down as come before it. -/
theorem parse_lines (s₁ s₂ : String) (p₁ p₂ : Program) (h₁ : parse s₁ = .ok p₁)
    (h₂ : parse s₂ = .ok p₂) :
    parse (s₁ ++ "\n" ++ s₂) = .ok ⟨p₁.statements ++
      p₂.statements.map (·.moved (.down (s₁.toList.count '\n' + 1)))⟩ := by
  obtain ⟨all₁, hlex₁, hparse₁⟩ := parse_eq_ok h₁
  obtain ⟨all₂, hlex₂, hparse₂⟩ := parse_eq_ok h₂
  obtain ⟨ts₁, rfl, hts₁⟩ := lex_ends hlex₁
  have hlex := lex_lines hlex₁ hlex₂
  obtain ⟨ts₂, rfl, hts₂⟩ := lex_ends hlex₂
  rw [parseTokens_eq, meaningful_append_end] at hparse₁ hparse₂
  generalize Span.after s₁.toList = last₁, Span.after s₂.toList = last₂ at *
  generalize Span.down (s₁.toList.count '\n' + 1) = f at *
  have hmore : meaningful (⟨.newline, last₁⟩ :: (ts₂ ++ [Lexeme.mk .eof last₂]).map (·.moved f)) =
      ⟨.newline, last₁⟩ :: (meaningful ts₂ ++ [Lexeme.mk .eof last₂]).map (·.moved f) := by
    rw [← meaningful_append_end, ← meaningful_moved]
    rfl
  have htokens : parseTokens (ts₁ ++ ⟨.newline, last₁⟩ ::
      (ts₂ ++ [Lexeme.mk .eof last₂]).map (·.moved f)) =
      .ok ⟨p₁.statements ++ p₂.statements.map (·.moved f)⟩ := by
    rw [parseTokens_eq, meaningful_append, hmore,
      parseStatements_continued (meaningful_ne_eof hts₁) hparse₁,
      parseStatements_elsewhere (meaningful_ne_eof hts₂) hparse₂, List.reverse_reverse]
  rw [parse, hlex]
  dsimp only
  rw [htokens]

/-- A conditional might go on after its block, an operand on the next line might go on with a
subscript, and a comment ends with its line. -/
theorem parse_lines_conditional :
    parse "x := 1 // one\nif x { print x }" = .ok ⟨[.var ⟨1, 1⟩ "x" (.int ⟨1, 6⟩ 1),
      .if ⟨2, 1⟩ (.ident ⟨2, 4⟩ "x") [.print ⟨2, 8⟩ (.ident ⟨2, 14⟩ "x")] none]⟩ ∧
    parse "-x // less\n[x]" = .ok ⟨[.expr ⟨1, 1⟩ (.unary ⟨1, 1⟩ .negate (.ident ⟨1, 2⟩ "x")),
      .expr ⟨2, 1⟩ (.list ⟨2, 1⟩ [.ident ⟨2, 2⟩ "x"])]⟩ ∧
    parse ("x := 1 // one\nif x { print x }" ++ "\n" ++ "-x // less\n[x]") =
      .ok ⟨[.var ⟨1, 1⟩ "x" (.int ⟨1, 6⟩ 1),
        .if ⟨2, 1⟩ (.ident ⟨2, 4⟩ "x") [.print ⟨2, 8⟩ (.ident ⟨2, 14⟩ "x")] none,
        .expr ⟨3, 1⟩ (.unary ⟨3, 1⟩ .negate (.ident ⟨3, 2⟩ "x")),
        .expr ⟨4, 1⟩ (.list ⟨4, 1⟩ [.ident ⟨4, 2⟩ "x"])]⟩ := by
  refine ⟨by cbv, by cbv, ?_⟩
  have hjoined := parse_lines "x := 1 // one\nif x { print x }" "-x // less\n[x]" _ _
    (by cbv) (by cbv)
  have hcount : "x := 1 // one\nif x { print x }".toList.count '\n' = 1 := by decide
  rw [hcount] at hjoined
  exact hjoined

end Ember
