import Ember.Proofs.Ast.Moves
import Ember.Proofs.Token.Positions

/-! The tokens of two texts with a line break between them: those of the first text, the line break,
and those of the second text, which stand as many lines further down as come before it. -/
namespace Ember
set_option autoImplicit false

/-- The place `n` lines further down. -/
def Span.down (n : Nat) (s : Span) : Span := ⟨s.line + n, s.col⟩

theorem Span.down_nextLine_after (cs : List Char) :
    (Span.after cs).nextLine = Span.start.down (cs.count '\n' + 1) := by
  rw [Span.nextLine, Span.after, Span.down, Nat.add_assoc]
  rfl

theorem Tiles.ne_eof {before cs : List Char} {ts : List Lexeme} (h : Tiles before cs ts) :
    ∀ t ∈ ts, t.token ≠ .eof := by
  induction h with
  | done => exact List.forall_mem_nil _
  | spacing _ _ ih => exact ih
  | token ht _ ih => exact List.forall_mem_cons.2 ⟨ht.ne_eof, ih⟩

/-- A text that starts further down has the same tokens, each as much further down. -/
theorem lexFrom_down (n : Nat) {span : Span} {cs : List Char} {found all : List Lexeme}
    (h : lexFrom span cs found = .ok all) :
    ∃ ts, all = found.reverse ++ ts ∧ ∀ found',
      lexFrom (span.down n) cs found' = .ok (found'.reverse ++ ts.map (·.moved (.down n))) := by
  fun_induction lexFrom span cs found with
  | case1 span found =>
    cases h
    refine ⟨[⟨.eof, span⟩], List.reverse_cons, fun found' => ?_⟩
    rw [lexFrom, List.reverse_cons]
    rfl
  | case2 span found c rest hspacing ih =>
    obtain ⟨ts, hall, hdown⟩ := ih h
    refine ⟨ts, hall, fun found' => ?_⟩
    rw [lexFrom, if_pos hspacing]
    exact hdown found'
  | case3 span found c rest hspacing hline ih =>
    obtain ⟨ts, hall, hdown⟩ := ih h
    refine ⟨⟨.newline, span⟩ :: ts, by rw [hall, List.reverse_cons, List.append_assoc]; rfl,
      fun found' => ?_⟩
    have hnext : (span.down n).nextLine = span.nextLine.down n := by
      rw [Span.nextLine, Span.down, Span.down, Span.nextLine, Nat.add_right_comm]
    rw [lexFrom, if_neg hspacing, if_pos hline, hnext, hdown, List.reverse_cons, List.append_assoc]
    rfl
  | case4 span found c rest hspacing hline token taken hscan ih =>
    obtain ⟨ts, hall, hdown⟩ := ih h
    refine ⟨⟨token, span⟩ :: ts, by rw [hall, List.reverse_cons, List.append_assoc]; rfl,
      fun found' => ?_⟩
    rw [lexFrom, if_neg hspacing, if_neg hline, hscan]
    refine (hdown _).trans ?_
    rw [List.reverse_cons, List.append_assoc]
    rfl
  | case5 => cases h

/-- Where a text ended, a line break and more characters may follow; its tokens are the same. -/
theorem lexFrom_append_break {span : Span} {cs : List Char} {found all : List Lexeme}
    (h : lexFrom span cs found = .ok all) :
    ∃ ts last, all = found.reverse ++ ts ++ [⟨.eof, last⟩] ∧ ∀ more found',
      lexFrom span (cs ++ '\n' :: more) found' =
        lexFrom last.nextLine more (⟨.newline, last⟩ :: (ts.reverse ++ found')) := by
  fun_induction lexFrom span cs found with
  | case1 span found =>
    cases h
    refine ⟨[], span, by rw [List.append_nil, List.reverse_cons], fun more found' => ?_⟩
    rw [List.nil_append, lexFrom, if_neg (by decide), if_pos (by decide)]
    rfl
  | case2 span found c rest hspacing ih =>
    obtain ⟨ts, last, hall, hmore⟩ := ih h
    refine ⟨ts, last, hall, fun more found' => ?_⟩
    rw [List.cons_append, lexFrom, if_pos hspacing]
    exact hmore more found'
  | case3 span found c rest hspacing hline ih =>
    obtain ⟨ts, last, rfl, hmore⟩ := ih h
    refine ⟨⟨.newline, span⟩ :: ts, last, by simp, fun more found' => ?_⟩
    rw [List.cons_append, lexFrom, if_neg hspacing, if_pos hline, hmore]
    simp
  | case4 span found c rest hspacing hline token taken hscan ih =>
    obtain ⟨ts, last, rfl, hmore⟩ := ih h
    have htaken := scan_takes hscan
    refine ⟨⟨token, span⟩ :: ts, last, by simp, fun more found' => ?_⟩
    rw [List.cons_append, lexFrom, if_neg hspacing, if_neg hline, htaken.followed]
    dsimp only
    rw [List.drop_append_of_le_length htaken.onLine.1, hmore]
    simp
  | case5 => cases h

/-- The end is the last token, and the only one of its kind. -/
theorem lex_ends {source : String} {all : List Lexeme} (h : lex source = .ok all) :
    ∃ ts, all = ts ++ [⟨.eof, .after source.toList⟩] ∧ ∀ t ∈ ts, t.token ≠ .eof := by
  have hlexed := lexFrom_lexed [] source.toList []
  rw [lex] at h
  obtain ⟨ts, htiles, hall⟩ : Lexed [] source.toList [] (.ok all) := h ▸ hlexed
  exact ⟨ts, hall, htiles.ne_eof⟩

theorem lex_lines {s₁ s₂ : String} {ts₁ all₂ : List Lexeme} {last : Span}
    (h₁ : lex s₁ = .ok (ts₁ ++ [⟨.eof, last⟩])) (h₂ : lex s₂ = .ok all₂) :
    lex (s₁ ++ "\n" ++ s₂) = .ok (ts₁ ++ ⟨.newline, last⟩ ::
      all₂.map (·.moved (.down (s₁.toList.count '\n' + 1)))) := by
  obtain ⟨ts, hends, -⟩ := lex_ends h₁
  obtain ⟨-, hlast⟩ := List.append_inj' hends rfl
  obtain rfl : last = .after s₁.toList := congrArg Lexeme.span (List.head_eq_of_cons_eq hlast)
  obtain ⟨_, _, hall, hmore⟩ := lexFrom_append_break h₁
  obtain ⟨rfl, hlast⟩ := List.append_inj' hall rfl
  obtain rfl := congrArg Lexeme.span (List.head_eq_of_cons_eq hlast)
  obtain ⟨_, rfl, hdown⟩ := lexFrom_down (s₁.toList.count '\n' + 1) h₂
  have htext : (s₁ ++ "\n" ++ s₂).toList = s₁.toList ++ '\n' :: s₂.toList := by simp
  rw [lex, htext, hmore, Span.down_nextLine_after, hdown]
  simp

end Ember
