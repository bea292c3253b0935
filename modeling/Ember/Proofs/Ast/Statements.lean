import Ember.Proofs.Ast.Expressions

/-! Two readings of the same statements, one after the other, up to where the first stream ends. -/
namespace Ember
set_option autoImplicit false

variable {w : Fork}

section
variable {n : Nat} (ih : w.Upto n)
include ih

theorem parseSimple_agrees {s s' : Stream} {st : Stmt} {r : Stream} {hr : r.size < s.size}
    (hn : s.size ≤ n) (h : w.Alike s s') (hok : parseSimple s = .ok ⟨st, r, hr⟩) :
    w.Reads (parseSimple s') (st.moved w.move) r := by
  rw [parseSimple] at hok
  split at hok
  · cases hok
  · rename_i target r₁ h₁ htarget
    obtain ⟨r₁', h₁', htarget', hrest⟩ := parseBinary_agrees ih 1 hn h htarget
    have hspan := h.span fun hend => parseBinary_end hend htarget
    rw [parseSimple, htarget', hspan]
    dsimp only
    split at hok
    · rename_i hassign
      cases hok
      rw [hrest.eat?_none hassign]
      exact ⟨r₁', h₁', rfl, hrest⟩
    · rename_i r₂ h₂ hassign
      obtain ⟨r₂', h₂', hassign', hrest'⟩ := hrest.eat?_some hassign
      rw [hassign', Expr.isAssignable_moved]
      dsimp only
      split at hok
      · rename_i htargets
        rw [if_pos htargets]
        have hskip := r₂.skipNewlines.2
        dsimp only at hok
        split at hok
        · cases hok
        · rename_i value r₄ h₄ hvalue
          cases hok
          obtain ⟨r₄', h₄', hvalue', hlast⟩ := ih.binary_after 1 (by omega) hrest' hvalue
          rw [hvalue']
          exact ⟨r₄', _, rfl, hlast⟩
      · cases hok

theorem parseIf_agrees (span : Span) {s s' : Stream} {st : Stmt} {r : Stream}
    {hr : r.size < s.size} (hn : s.size < n) (h : w.Alike s s')
    (hok : parseIf span s = .ok ⟨st, r, hr⟩) :
    w.Reads (parseIf (w.move span) s') (st.moved w.move) r := by
  rw [parseIf] at hok
  split at hok
  · cases hok
  · rename_i cond r₁ h₁ hcond
    obtain ⟨r₁', h₁', hcond', hrest⟩ := ih.binary 1 (by omega) h hcond
    rw [parseIf, hcond']
    dsimp only
    split at hok
    · cases hok
    · rename_i thenBody r₂ h₂ hthen
      obtain ⟨r₂', h₂', hthen', hrest'⟩ := parseBlock_agrees ih (by omega) hrest hthen
      rw [hthen']
      dsimp only
      split at hok
      · rename_i ifSpan rest htokens
        have hsize := Nat.lt_trans (Stream.size_tail rfl (some ifSpan)) (r₂.size_tail htokens none)
        obtain ⟨rest', last', rfl, hnext⟩ := hrest'.next htokens (by simp)
        obtain ⟨rest', _, ⟨⟩, hmore⟩ := (hnext none none).next rfl (by simp)
        dsimp only at hok ⊢
        split at hok
        · cases hok
        · rename_i inner r₃ h₃ hinner
          cases hok
          obtain ⟨r₃', h₃', hinner', hlast⟩ :=
            parseIf_agrees ifSpan (by omega) (hmore (some ifSpan) (some (w.move ifSpan))) hinner
          rw [hinner', ← movedBody_eq_map]
          exact ⟨r₃', _, rfl, hlast⟩
      · rename_i elseSpan rest _ htokens
        have hsize := r₂.size_tail htokens (some elseSpan)
        obtain ⟨rest', last', rfl, hnext⟩ := hrest'.next htokens (by simp)
        dsimp only at hok
        split at hok
        · cases hok
        · rename_i elseBody r₃ h₃ helse
          cases hok
          obtain ⟨r₃', h₃', helse', hlast⟩ :=
            parseBlock_agrees ih (by omega) (hnext (some elseSpan) (some (w.move elseSpan))) helse
          obtain ⟨braceSpan, after, rfl⟩ :=
            Stream.tokens_of_peek (peek_of_parseBlock helse) (by simp)
          obtain ⟨after', _, ⟨⟩, -⟩ := (hnext none none).next rfl (by simp)
          dsimp only at helse' ⊢
          rw [helse', ← movedBody_eq_map, ← movedBody_eq_map]
          exact ⟨r₃', _, rfl, hlast⟩
      · rename_i helse
        -- No `else` comes next, and so none does where a line break takes the place of the end.
        have hnone : r₂.peek ≠ .keyword .else := by
          intro hpeek
          obtain ⟨elseSpan, rest, htokens⟩ := Stream.tokens_of_peek hpeek (by simp)
          exact helse elseSpan rest htokens
        have hnone' := hrest'.of_peek (P := (· ≠ .keyword .else)) hnone (by simp)
        cases hok
        split
        · rename_i htokens
          exact absurd (Stream.peek_of_tokens htokens) hnone'
        · rename_i htokens
          exact absurd (Stream.peek_of_tokens htokens) hnone'
        · rw [← movedBody_eq_map]
          exact ⟨r₂', _, rfl, hrest'⟩
termination_by s.size
decreasing_by all_goals omega

/-- Statements with the first token `token` and at most `n` tokens are read from both streams. -/
def Fork.Starts (w : Fork) (n : Nat) (token : Token) : Prop :=
  ∀ {span : Span} {rest rest' : List Lexeme} {last last' : Option Span} {st : Stmt} {r : Stream}
    {hr : r.size < Stream.size ⟨⟨token, span⟩ :: rest, last⟩},
    Stream.size ⟨⟨token, span⟩ :: rest, last⟩ ≤ n →
    w.Alike ⟨⟨token, span⟩ :: rest, last⟩ ⟨⟨token, w.move span⟩ :: rest', last'⟩ →
    w.Alike ⟨rest, some span⟩ ⟨rest', some (w.move span)⟩ →
    parseStatement ⟨⟨token, span⟩ :: rest, last⟩ = .ok ⟨st, r, hr⟩ →
    w.Reads (parseStatement ⟨⟨token, w.move span⟩ :: rest', last'⟩) (st.moved w.move) r

omit ih in
theorem starts_break : w.Starts n (.keyword .break) := by
  intro span rest rest' last last' st r hr hn h hrest hok
  rw [parseStatement] at hok ⊢
  cases hok
  exact ⟨_, _, rfl, hrest⟩

omit ih in
theorem starts_continue : w.Starts n (.keyword .continue) := by
  intro span rest rest' last last' st r hr hn h hrest hok
  rw [parseStatement] at hok ⊢
  cases hok
  exact ⟨_, _, rfl, hrest⟩

theorem starts_print : w.Starts n (.keyword .print) := by
  intro span rest rest' last last' st r hr hn h hrest hok
  have hsize := Nat.lt_of_lt_of_le (Stream.size_tail rfl (some span)) hn
  rw [parseStatement] at hok ⊢
  dsimp only at hok ⊢
  split at hok
  · cases hok
  · rename_i value r₁ h₁ hvalue
    cases hok
    obtain ⟨r₁', h₁', hvalue', hlast⟩ := ih.binary 1 hsize hrest hvalue
    rw [hvalue']
    exact ⟨r₁', _, rfl, hlast⟩

theorem starts_del : w.Starts n (.keyword .del) := by
  intro span rest rest' last last' st r hr hn h hrest hok
  have hsize := Nat.lt_of_lt_of_le (Stream.size_tail rfl (some span)) hn
  rw [parseStatement] at hok ⊢
  dsimp only at hok ⊢
  split at hok
  · cases hok
  · rename_i indexSpan object key r₁ h₁ hindex
    cases hok
    obtain ⟨r₁', h₁', hindex', hlast⟩ := ih.binary 1 hsize hrest hindex
    rw [hindex']
    exact ⟨r₁', _, rfl, hlast⟩
  · cases hok

theorem starts_return : w.Starts n (.keyword .return) := by
  intro span rest rest' last last' st r hr hn h hrest hok
  have hsize := Nat.lt_of_lt_of_le (Stream.size_tail rfl (some span)) hn
  rw [parseStatement] at hok ⊢
  dsimp only at hok ⊢
  rw [hrest.isTerminator]
  split at hok
  · rename_i hbare
    cases hok
    rw [if_pos hbare]
    exact ⟨_, _, rfl, hrest⟩
  · rename_i hbare
    rw [if_neg hbare]
    split at hok
    · cases hok
    · rename_i value r₁ h₁ hvalue
      cases hok
      obtain ⟨r₁', h₁', hvalue', hlast⟩ := ih.binary 1 hsize hrest hvalue
      rw [hvalue']
      exact ⟨r₁', _, rfl, hlast⟩

theorem starts_if : w.Starts n (.keyword .if) := by
  intro span rest rest' last last' st r hr hn h hrest hok
  have hsize := Nat.lt_of_lt_of_le (Stream.size_tail rfl (some span)) hn
  rw [parseStatement] at hok ⊢
  dsimp only at hok ⊢
  split at hok
  · cases hok
  · rename_i inner r₁ h₁ hif
    cases hok
    obtain ⟨r₁', h₁', hif', hlast⟩ := parseIf_agrees ih span hsize hrest hif
    rw [hif']
    exact ⟨r₁', _, rfl, hlast⟩

theorem starts_while : w.Starts n (.keyword .while) := by
  intro span rest rest' last last' st r hr hn h hrest hok
  have hsize := Nat.lt_of_lt_of_le (Stream.size_tail rfl (some span)) hn
  rw [parseStatement] at hok ⊢
  dsimp only at hok ⊢
  split at hok
  · cases hok
  · rename_i cond r₁ h₁ hcond
    have h₁ : r₁.size < Stream.size ⟨rest, some span⟩ := h₁
    obtain ⟨r₁', h₁', hcond', hrest'⟩ := ih.binary 1 hsize hrest hcond
    rw [hcond']
    dsimp only
    split at hok
    · cases hok
    · rename_i body r₂ h₂ hbody
      cases hok
      obtain ⟨r₂', h₂', hbody', hlast⟩ := parseBlock_agrees ih (by omega) hrest' hbody
      rw [hbody', ← movedBody_eq_map]
      exact ⟨r₂', _, rfl, hlast⟩

theorem starts_var : w.Starts n (.keyword .var) := by
  intro span rest rest' last last' st r hr hn h hrest hok
  have hsize := Nat.lt_of_lt_of_le (Stream.size_tail rfl (some span)) hn
  rw [parseStatement] at hok ⊢
  dsimp only at hok ⊢
  split at hok
  · cases hok
  · rename_i name r₁ h₁ hname
    have h₁ : r₁.size < Stream.size ⟨rest, some span⟩ := h₁
    obtain ⟨r₁', h₁', hname', hrest'⟩ := hrest.expectIdent hname
    rw [hname']
    dsimp only
    split at hok
    · cases hok
    · rename_i r₂ h₂ hassign
      obtain ⟨r₂', h₂', hassign', hrest''⟩ := hrest'.expect hassign
      rw [hassign']
      dsimp only
      have hskip := r₂.skipNewlines.2
      split at hok
      · cases hok
      · rename_i value r₄ h₄ hvalue
        cases hok
        obtain ⟨r₄', h₄', hvalue', hlast⟩ := ih.binary_after 1 (by omega) hrest'' hvalue
        rw [hvalue']
        exact ⟨r₄', _, rfl, hlast⟩

theorem starts_func : w.Starts n (.keyword .func) := by
  intro span rest rest' last last' st r hr hn h hrest hok
  have hsize := Nat.lt_of_lt_of_le (Stream.size_tail rfl (some span)) hn
  by_cases hnamed : ∃ name, Stream.peek ⟨rest, none⟩ = .ident name
  · obtain ⟨name, hname⟩ := hnamed
    obtain ⟨nameSpan, after, rfl⟩ := Stream.tokens_of_peek hname (by simp)
    have hsize' := Nat.lt_trans (Stream.size_tail rfl (some nameSpan)) hsize
    obtain ⟨after', _, ⟨⟩, hafter⟩ := hrest.next rfl (by simp)
    rw [parseStatement] at hok ⊢
    dsimp only at hok ⊢
    split at hok
    · cases hok
    · rename_i params r₁ h₁ hparams
      obtain ⟨r₁', h₁', hparams', hrest'⟩ :=
        parseParams_agrees (hafter _ (some (w.move nameSpan))) hparams
      rw [hparams']
      dsimp only
      split at hok
      · cases hok
      · rename_i body r₂ h₂ hbody
        cases hok
        obtain ⟨r₂', h₂', hbody', hlast⟩ := parseBlock_agrees ih (by omega) hrest' hbody
        rw [hbody', ← movedBody_eq_map]
        exact ⟨r₂', _, rfl, hlast⟩
  · have hsecond : ∀ name, Stream.peekSecond ⟨⟨.keyword .func, span⟩ :: rest, last⟩ ≠
        .ident name := by
      rw [Stream.peekSecond_of_tokens rfl]
      exact not_exists.1 hnamed
    have hsecond' := h.of_peekSecond (P := fun t => ∀ name, t ≠ .ident name)
      (by simp [Stream.peek]) hsecond (by simp)
    rw [parseStatement_func rfl hsecond] at hok
    rw [parseStatement_func rfl hsecond']
    exact parseSimple_agrees ih hn h hok

theorem starts_ident (name : String) : w.Starts n (.ident name) := by
  intro span rest rest' last last' st r hr hn h hrest hok
  have hsize := Nat.lt_of_lt_of_le (Stream.size_tail rfl (some span)) hn
  by_cases hdeclare : Stream.peek ⟨rest, none⟩ = .mark .declare
  · obtain ⟨markSpan, after, rfl⟩ := Stream.tokens_of_peek hdeclare (by simp)
    have hsize' := Nat.lt_trans (Stream.size_tail rfl (some markSpan)) hsize
    have hskip := (Stream.skipNewlines ⟨after, some markSpan⟩).2
    obtain ⟨after', _, ⟨⟩, hafter⟩ := hrest.next rfl (by simp)
    rw [parseStatement] at hok ⊢
    dsimp only at hok ⊢
    split at hok
    · cases hok
    · rename_i value r₂ h₂ hvalue
      cases hok
      obtain ⟨r₂', h₂', hvalue', hlast⟩ := ih.binary_after 1 (by omega)
        (hafter (some markSpan) (some (w.move markSpan))) hvalue
      rw [hvalue']
      exact ⟨r₂', _, rfl, hlast⟩
  · have hsecond : Stream.peekSecond ⟨⟨.ident name, span⟩ :: rest, last⟩ ≠ .mark .declare := by
      rw [Stream.peekSecond_of_tokens rfl]
      exact hdeclare
    have hsecond' := h.of_peekSecond (P := (· ≠ .mark .declare)) (by simp [Stream.peek]) hsecond
      (by simp)
    rw [parseStatement_ident rfl hsecond] at hok
    rw [parseStatement_ident rfl hsecond']
    exact parseSimple_agrees ih hn h hok

theorem parseStatement_agrees {s s' : Stream} {st : Stmt} {r : Stream} {hr : r.size < s.size}
    (hn : s.size ≤ n) (h : w.Alike s s') (hok : parseStatement s = .ok ⟨st, r, hr⟩) :
    w.Reads (parseStatement s') (st.moved w.move) r := by
  obtain ⟨_ | ⟨⟨token, span⟩, rest⟩, last⟩ := s
  · rw [parseStatement] at hok
    exact absurd hok (parseSimple_end rfl)
  · have htoken : token ≠ .eof := by
      rintro rfl
      rw [parseStatement] at hok
      exact parseSimple_end rfl hok
    obtain ⟨rest', last', rfl, hnext⟩ := h.next rfl htoken
    have hrest := hnext (some span) (some (w.move span))
    cases token with
    | keyword k =>
      cases k with
      | var => exact starts_var ih hn h hrest hok
      | func => exact starts_func ih hn h hrest hok
      | «return» => exact starts_return ih hn h hrest hok
      | «if» => exact starts_if ih hn h hrest hok
      | «while» => exact starts_while ih hn h hrest hok
      | «break» => exact starts_break hn h hrest hok
      | «continue» => exact starts_continue hn h hrest hok
      | print => exact starts_print ih hn h hrest hok
      | del => exact starts_del ih hn h hrest hok
      | _ =>
        rw [parseStatement] at hok ⊢
        exact parseSimple_agrees ih hn h hok
    | ident name => exact starts_ident ih name hn h hrest hok
    | _ =>
      rw [parseStatement] at hok ⊢
      exact parseSimple_agrees ih hn h hok

end

/-- The readings agree, by induction on the number of tokens that are left. -/
theorem Fork.upto (w : Fork) (n : Nat) : w.Upto n := by
  induction n with
  | zero => exact ⟨nofun, nofun, nofun⟩
  | succ n ih =>
    refine ⟨?_, ?_, ?_⟩
    · intro s s' e r hr hn
      exact parseUnary_agrees ih (Nat.le_of_lt_succ hn)
    · intro least s s' e r hr hn
      exact parseBinary_agrees ih least (Nat.le_of_lt_succ hn)
    · intro s s' st r hr hn
      exact parseStatement_agrees ih (Nat.le_of_lt_succ hn)

/-! ## Programs -/

/-- The tokens that mean something. -/
def meaningful (ts : List Lexeme) : List Lexeme := ts.filter fun t => !t.token.isComment

theorem parseTokens_eq (ts : List Lexeme) :
    parseTokens ts = parseStatements ⟨meaningful ts, none⟩ [] := rfl

theorem parseStatements_end {s : Stream} (h : s.peek = .eof) (found : List Stmt) :
    parseStatements s found = .ok ⟨found.reverse⟩ := by
  have hpeek := (congrArg Stream.peek (Stream.skipSeparators_end h)).trans h
  rw [parseStatements]
  dsimp only
  rw [hpeek]

theorem parseStatements_step {s r₂ r₃ : Stream} {st : Stmt}
    {h₂ : r₂.size < s.skipSeparators.1.size} {h₃ : r₃.size ≤ r₂.size}
    (hpeek : s.skipSeparators.1.peek ≠ .eof)
    (hst : parseStatement s.skipSeparators.1 = .ok ⟨st, r₂, h₂⟩)
    (hend : r₂.endStatement = .ok ⟨r₃, h₃⟩) (found : List Stmt) :
    parseStatements s found = parseStatements r₃ (st :: found) := by
  conv => lhs; rw [parseStatements]
  dsimp only
  split
  · exact absurd ‹_› hpeek
  · rw [hst]
    dsimp only
    rw [hend]

/-- Reading statements is at an end, or it reads one and what divides it from the next. -/
theorem parseStatements_cases {s : Stream} {found : List Stmt} {p : Program}
    (h : parseStatements s found = .ok p) :
    s.skipSeparators.1.peek = .eof ∧ p = ⟨found.reverse⟩ ∨
    s.skipSeparators.1.peek ≠ .eof ∧ ∃ st r₂ h₂ r₃ h₃,
      parseStatement s.skipSeparators.1 = .ok ⟨st, r₂, h₂⟩ ∧
      r₂.endStatement = .ok ⟨r₃, h₃⟩ ∧ parseStatements r₃ (st :: found) = .ok p := by
  rw [parseStatements] at h
  dsimp only at h
  split at h
  · rename_i hpeek
    cases h
    exact .inl ⟨hpeek, rfl⟩
  · rename_i hpeek
    split at h
    · cases h
    · rename_i st r₂ h₂ hst
      split at h
      · cases h
      · rename_i r₃ h₃ hend
        exact .inr ⟨hpeek, st, r₂, h₂, r₃, h₃, hst, hend, h⟩

/-- Separators before the first statement mean nothing. -/
theorem parseStatements_congr {s t : Stream} (h : s.skipSeparators.1 = t.skipSeparators.1)
    (found : List Stmt) : parseStatements s found = parseStatements t found := by
  rw [parseStatements, parseStatements]
  dsimp only
  rw [h]

theorem parseStatements_newline (span : Span) (rest : List Lexeme) (last : Option Span)
    (found : List Stmt) : parseStatements ⟨⟨.newline, span⟩ :: rest, last⟩ found =
      parseStatements ⟨rest, some span⟩ found := by
  have hskip : (Stream.skipSeparators ⟨⟨.newline, span⟩ :: rest, last⟩).1 =
      (Stream.skipSeparators ⟨rest, some span⟩).1 := rfl
  exact parseStatements_congr hskip found

/-- It does not matter to the other tokens where the last shared one was read. -/
theorem Fork.parseStatements_other (w : Fork) (last : Option Span) (found : List Stmt) :
    parseStatements ⟨w.other, last⟩ found = parseStatements ⟨w.other, none⟩ found := by
  have hdivides := w.divides
  generalize w.other = ts at hdivides ⊢
  obtain _ | ⟨⟨token, span⟩, rest⟩ := ts
  · rw [parseStatements_end rfl, parseStatements_end rfl]
  · rcases hdivides with hend | hline
    · obtain rfl : token = .eof := hend
      rw [parseStatements_end rfl, parseStatements_end rfl]
    · obtain rfl : token = .newline := hline
      rw [parseStatements_newline, parseStatements_newline]

/-- What is read from a stream that ends is read from the other one too, which is then read on. -/
theorem Fork.parseStatements_agrees (w : Fork) {s s' : Stream} {found : List Stmt} {p : Program}
    (h : w.Alike s s' ∨ s.peek = .eof ∧ w.Past s') (hok : parseStatements s found = .ok p) :
    ∃ new, p.statements = found.reverse ++ new ∧ ∀ found', parseStatements s' found' =
      parseStatements ⟨w.other, none⟩ ((new.map (·.moved w.move)).reverse ++ found') := by
  rcases h with h | ⟨hend, span, hother, hlast⟩
  · rcases parseStatements_cases hok with
      ⟨hpeek, rfl⟩ | ⟨hpeek, st, r₂, h₂, r₃, h₃, hst, hend, hrest⟩
    · refine ⟨[], (List.append_nil _).symm, fun found' => ?_⟩
      obtain ⟨last, hskip⟩ := h.skipSeparators_end hpeek
      rw [parseStatements_congr hskip]
      exact w.parseStatements_other last _
    · have hnext := h.skipSeparators hpeek
      obtain ⟨r₂', h₂', hst', hafter⟩ := (w.upto _).statement (Nat.lt_succ_self _) hnext hst
      obtain ⟨r₃', h₃', hend', hmore⟩ := hafter.endStatement hend
      have hskip := s.skipSeparators.2
      obtain ⟨new, hp, hnew⟩ := w.parseStatements_agrees hmore hrest
      refine ⟨st :: new, by rw [hp, List.reverse_cons, List.append_assoc]; rfl, fun found' => ?_⟩
      have hpeek' := hnext.of_peek (P := (· ≠ .eof)) hpeek nofun
      rw [parseStatements_step hpeek' hst' hend', hnew, List.map_cons, List.reverse_cons,
        List.append_assoc]
      rfl
  · rw [parseStatements_end hend] at hok
    cases hok
    refine ⟨[], (List.append_nil _).symm, fun found' => ?_⟩
    rw [hother, parseStatements_newline, ← hlast]
    rfl
termination_by s.size
decreasing_by all_goals omega

theorem Fork.parseStatements_start (w : Fork) {p : Program}
    (hok : parseStatements ⟨w.shared ++ w.ending, none⟩ [] = .ok p) (last : Option Span)
    (found : List Stmt) :
    parseStatements ⟨w.shared.map (·.moved w.move) ++ w.other, last⟩ found =
      parseStatements ⟨w.other, none⟩ ((p.statements.map (·.moved w.move)).reverse ++ found) := by
  have hstart : w.Alike ⟨w.shared ++ w.ending, none⟩
      ⟨w.shared.map (·.moved w.move) ++ w.other, last⟩ := ⟨w.shared, List.suffix_rfl, rfl, rfl⟩
  obtain ⟨new, hp, hnew⟩ := w.parseStatements_agrees (.inl hstart) hok
  rw [hnew, hp]
  rfl

end Ember
