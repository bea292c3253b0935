import Ember.Proofs.Token.Readers

/-! Where the tokens of a text stand. A text is the texts of its tokens, in order, with nothing but
spacing between them; each token reports the place of its first character, which is counted from the
line breaks and characters before it. An error reports the place of a character that the reading of
its token has reached. -/
namespace Ember
set_option autoImplicit false

/-! ## Places -/

namespace Span

/-- Where the character after `cs` stands: one line further down for each line break in `cs`, and
one column further on for each character after the last of them. -/
def after (cs : List Char) : Span :=
  ⟨1 + cs.count '\n', 1 + (cs.reverse.takeWhile (· != '\n')).length⟩

/-- The place comes earlier in a text. -/
def Before (a b : Span) : Prop := a.line < b.line ∨ a.line = b.line ∧ a.col < b.col

theorem Before.trans {a b c : Span} (h : a.Before b) (h' : b.Before c) : a.Before c := by
  unfold Before at h h' ⊢
  omega

theorem after_newline (cs : List Char) : after (cs ++ ['\n']) = (after cs).nextLine := by
  rw [after, List.count_append, List.reverse_append]
  rfl

theorem after_append (cs : List Char) {ds : List Char} (h : '\n' ∉ ds) :
    after (cs ++ ds) = (after cs).along ds.length := by
  have hall : ∀ c ∈ ds.reverse, (c != '\n') = true := by
    intro c hc
    refine bne_iff_ne.2 ?_
    rintro rfl
    exact h (List.mem_reverse.1 hc)
  rw [after, List.count_append, List.count_eq_zero_of_not_mem h, List.reverse_append,
    List.takeWhile_append_of_pos hall, List.length_append, List.length_reverse, Nat.add_zero,
    Nat.add_comm ds.length, ← Nat.add_assoc]
  rfl

theorem before_after_cons (cs : List Char) (c : Char) :
    (after cs).Before (after (cs ++ [c])) := by
  by_cases hc : c = '\n'
  · subst hc
    rw [after_newline]
    exact .inl (Nat.lt_succ_self _)
  · rw [after_append cs (by simpa using Ne.symm hc)]
    exact .inr ⟨rfl, Nat.lt_succ_self _⟩

theorem before_after (cs : List Char) {ds : List Char} (h : ds ≠ []) :
    (after cs).Before (after (cs ++ ds)) := by
  induction ds generalizing cs with
  | nil => exact absurd rfl h
  | cons d ds ih =>
    have hfirst := before_after_cons cs d
    cases ds with
    | nil => exact hfirst
    | cons e ds =>
      have hmore := ih (cs ++ [d]) (List.cons_ne_nil e ds)
      rw [List.append_assoc] at hmore
      exact hfirst.trans hmore

end Span

/-! ## Tokens in a text -/

/-- The characters are those of one token, which is read from them alone. -/
structure Token.Covers (t : Token) (cs : List Char) : Prop where
  nonempty : cs ≠ []
  read : lex (String.ofList cs) = .ok [⟨t, .start⟩, ⟨.eof, .after cs⟩]
  ne_eof : t ≠ .eof

/-- After `before`, the characters are those of the tokens, in order, and of spacing between them,
and each token has the place of its first character. -/
inductive Tiles : List Char → List Char → List Lexeme → Prop
  | done (before : List Char) : Tiles before [] []
  | spacing {before : List Char} {c : Char} {rest : List Char} {ts : List Lexeme}
    (hc : isSpacing c = true) (h : Tiles (before ++ [c]) rest ts) : Tiles before (c :: rest) ts
  | token {before cs rest : List Char} {t : Token} {ts : List Lexeme} (ht : t.Covers cs)
    (h : Tiles (before ++ cs) rest ts) : Tiles before (cs ++ rest) (⟨t, .after before⟩ :: ts)

theorem covers_of_scan {c : Char} {rest : List Char} {t : Token} {n : Nat}
    (hspacing : isSpacing c = false) (hline : (c == '\n') = false)
    (h : scan c rest = .ok (t, n)) : t.Covers (c :: rest.take n) := by
  have htakes := scan_takes h
  have hc : c ≠ '\n' := fun hc => by rw [hc] at hline; cases hline
  have hplace : Span.after (c :: rest.take n) = Span.start.along (n + 1) := by
    have hbreak : '\n' ∉ c :: rest.take n := (htakes.onLine.cons hc).2
    have hafter := Span.after_append [] hbreak
    rw [List.length_cons, List.length_take_of_le htakes.onLine.1] at hafter
    exact hafter
  refine ⟨List.cons_ne_nil _ _, ?_, scan_ne_eof h⟩
  have hdrop : (rest.take n).drop n = [] := by
    rw [List.drop_eq_nil_iff]
    exact List.length_take_le n rest
  rw [hplace, lex, String.toList_ofList, lexFrom, if_neg (by rw [hspacing]; decide),
    if_neg (by rw [hline]; decide), htakes.alone]
  dsimp only
  rw [hdrop, lexFrom]
  rfl

theorem covers_newline : Token.newline.Covers ['\n'] := by
  refine ⟨List.cons_ne_nil _ _, ?_, nofun⟩
  rw [lex, String.toList_ofList, lexFrom, if_neg (by decide), if_pos (by decide), lexFrom]
  rfl

/-- Places that are not before the next one are after the last one. -/
theorem before_of_ahead {before ds : List Char} (hds : ds ≠ []) {ts : List Lexeme}
    (h : ∀ t ∈ ts, t.span = .after (before ++ ds) ∨ (Span.after (before ++ ds)).Before t.span) :
    ∀ t ∈ ts, (Span.after before).Before t.span := by
  intro t ht
  have hnext := Span.before_after before hds
  rcases h t ht with heq | hlt
  · exact heq ▸ hnext
  · exact hnext.trans hlt

theorem Tiles.ahead {before cs : List Char} {ts : List Lexeme} (h : Tiles before cs ts) :
    (∀ t ∈ ts ++ [Lexeme.mk .eof (.after (before ++ cs))],
      t.span = .after before ∨ (Span.after before).Before t.span) ∧
    (ts ++ [Lexeme.mk .eof (.after (before ++ cs))]).Pairwise
      fun a b => a.span.Before b.span := by
  induction h with
  | done before =>
    rw [List.append_nil, List.nil_append]
    exact ⟨List.forall_mem_singleton.2 (.inl rfl), List.pairwise_singleton _ _⟩
  | @spacing before c rest ts hc h ih =>
    rw [List.append_assoc, List.singleton_append] at ih
    exact ⟨fun t ht => .inr (before_of_ahead (List.cons_ne_nil c []) ih.1 t ht), ih.2⟩
  | @token before cs rest t ts ht h ih =>
    rw [List.append_assoc] at ih
    have hlater := before_of_ahead ht.nonempty ih.1
    refine ⟨?_, List.pairwise_cons.2 ⟨hlater, ih.2⟩⟩
    rw [List.cons_append, List.forall_mem_cons]
    exact ⟨.inl rfl, fun t ht => .inr (hlater t ht)⟩

/-! ## Whole texts -/

/-- What is known of the lexing of `cs`, which come after `before`: the tokens tile the characters,
and the end has its place; or some of them are tiled, and the token after those cannot be read, for
a reason that lies at its start or at a character further on in it. -/
def Lexed (before cs : List Char) (found : List Lexeme) : Except LexError (List Lexeme) → Prop
  | .ok lexemes => ∃ ts, Tiles before cs ts ∧
    lexemes = found.reverse ++ ts ++ [⟨.eof, .after (before ++ cs)⟩]
  | .error e => ∃ read c rest ts k, cs = read ++ c :: rest ∧ Tiles before read ts ∧
    isSpacing c = false ∧ c ≠ '\n' ∧ scan c rest = .error (e.fault, k) ∧
    k ≤ (c :: rest).length ∧ e.span = .after (before ++ read ++ (c :: rest).take k)

theorem Lexed.spacing {before rest : List Char} {c : Char} {found : List Lexeme}
    {r : Except LexError (List Lexeme)} (hc : isSpacing c = true)
    (h : Lexed (before ++ [c]) rest found r) : Lexed before (c :: rest) found r := by
  cases r with
  | ok lexemes =>
    obtain ⟨ts, htiles, rfl⟩ := h
    exact ⟨ts, htiles.spacing hc, by rw [List.append_assoc before, List.singleton_append]⟩
  | error e =>
    obtain ⟨read, d, more, ts, k, rfl, htiles, hd, hbreak, hscan, hk, hplace⟩ := h
    refine ⟨c :: read, d, more, ts, k, rfl, htiles.spacing hc, hd, hbreak, hscan, hk, ?_⟩
    rw [hplace, List.append_assoc before, List.singleton_append]

theorem Lexed.token {before cs rest : List Char} {t : Token} {found : List Lexeme}
    {r : Except LexError (List Lexeme)} (ht : t.Covers cs)
    (h : Lexed (before ++ cs) rest (⟨t, .after before⟩ :: found) r) :
    Lexed before (cs ++ rest) found r := by
  cases r with
  | ok lexemes =>
    obtain ⟨ts, htiles, rfl⟩ := h
    exact ⟨_, htiles.token ht, by simp⟩
  | error e =>
    obtain ⟨read, d, more, ts, k, rfl, htiles, hd, hbreak, hscan, hk, hplace⟩ := h
    refine ⟨cs ++ read, d, more, _, k, by rw [List.append_assoc], htiles.token ht, hd, hbreak,
      hscan, hk, ?_⟩
    rw [hplace, List.append_assoc before]

theorem lexFrom_lexed (before cs : List Char) (found : List Lexeme) :
    Lexed before cs found (lexFrom (.after before) cs found) := by
  generalize hspan : Span.after before = span
  fun_induction lexFrom span cs found generalizing before with
  | case1 span found =>
    subst hspan
    exact ⟨[], .done before, by simp⟩
  | case2 span found c rest hspacing ih =>
    have hc : c ≠ '\n' := by
      rintro rfl
      cases hspacing
    refine .spacing hspacing (ih (before ++ [c]) ?_)
    rw [Span.after_append before (by simpa using Ne.symm hc), hspan]
    rfl
  | case3 span found c rest hspacing hline ih =>
    obtain rfl : c = '\n' := eq_of_beq hline
    subst hspan
    exact .token covers_newline (ih (before ++ ['\n']) (Span.after_newline before))
  | case4 span found c rest hspacing hline token taken hscan ih =>
    subst hspan
    have hspacing : isSpacing c = false := Bool.eq_false_iff.2 hspacing
    have hline : (c == '\n') = false := Bool.eq_false_iff.2 hline
    have honline := (scan_takes hscan).onLine
    have hbreak : '\n' ∉ c :: rest.take taken := (honline.cons (ne_of_beq_false hline)).2
    have hnext := Span.after_append before hbreak
    rw [List.length_cons, List.length_take_of_le honline.1] at hnext
    have hrest := Lexed.token (covers_of_scan hspacing hline hscan) (ih _ hnext)
    rwa [List.cons_append, List.take_append_drop] at hrest
  | case5 span found c rest hspacing hline fault offset hscan =>
    subst hspan
    have hbreak : c ≠ '\n' := ne_of_beq_false (Bool.eq_false_iff.2 hline)
    have honline := scan_fault hbreak hscan
    refine ⟨[], c, rest, [], offset, rfl, .done before, Bool.eq_false_iff.2 hspacing, hbreak,
      hscan, honline.1, ?_⟩
    rw [List.append_nil, Span.after_append before honline.2, List.length_take_of_le honline.1]

/-- Every text is lexed. If that succeeds, the text is that of the tokens, in order, with nothing
but spacing between them, each token stands where its first character does, and so the places are
strictly in order; the end comes last. If it fails, this holds up to a token that cannot be read,
and the error is reported at a character that is not before this token, or at the end. -/
theorem lex_tiles (source : String) :
    match lex source with
    | .ok lexemes => ∃ ts, Tiles [] source.toList ts ∧
      lexemes = ts ++ [⟨.eof, .after source.toList⟩] ∧
      lexemes.Pairwise (fun a b => a.span.Before b.span)
    | .error e => ∃ read c rest ts k, source.toList = read ++ c :: rest ∧ Tiles [] read ts ∧
      isSpacing c = false ∧ c ≠ '\n' ∧ scan c rest = .error (e.fault, k) ∧
      k ≤ (c :: rest).length ∧ e.span = .after (read ++ (c :: rest).take k) := by
  have hlexed : Lexed [] source.toList [] (lex source) := lexFrom_lexed [] source.toList []
  split
  · rename_i lexemes hok
    rw [hok] at hlexed
    obtain ⟨ts, htiles, rfl⟩ := hlexed
    exact ⟨ts, htiles, rfl, htiles.ahead.2⟩
  · rename_i e herror
    rw [herror] at hlexed
    exact hlexed

end Ember
