import Ember.Proofs.Ast.Pieces

/-! Reading a program that was written as tokens gives the program back, whatever the positions.
Each kind of statement is read where it stands at the end of a line; programs follow by induction
over their trees. -/
namespace Ember
set_option autoImplicit false

/-! ## Tokens of written programs -/

/-- Programs are written without comments, and declare with a keyword. -/
def Token.written : Token → Bool
  | .comment _ | .mark .declare => false
  | _ => true

theorem isComment_eq_false {k : Token} (h : k.written = true) : k.isComment = false := by
  cases k <;> first | rfl | cases h

theorem all_enclosed (demand level : Nat) {ts : List Token} (h : ts.all Token.written = true) :
    (enclosed demand level ts).all Token.written = true := by
  rw [enclosed]
  split
  · simp [h, Token.written]
  · exact h

theorem written_params (params : List String) : (paramTokens params).all Token.written = true := by
  induction params with
  | nil => rfl
  | cons name more ih => cases more <;> simp_all [paramTokens, Token.written]

theorem written_mark_unary (op : UnaryOperator) : (Token.mark op.mark).written = true := by
  cases op <;> rfl

theorem written_mark_connective (op : Connective) : (Token.mark op.mark).written = true := by
  cases op <;> rfl

theorem written_mark_operation (op : Operation) : (Token.mark op.mark).written = true := by
  cases op with
  | arithmetic op => cases op <;> rfl
  | comparison op => cases op <;> rfl

theorem elseTokens_cases (body : List Stmt) :
    (∃ span cond thenBody elseBody, body = [.if span cond thenBody elseBody] ∧
      elseTokens (some body) = .keyword .else :: Stmt.tokens (.if span cond thenBody elseBody)) ∨
    elseTokens (some body) =
      .keyword .else :: .mark .lBrace :: bodyTokens body ++ [Token.mark .rBrace] := by
  unfold elseTokens
  split
  · rename_i h
    cases h
  · rename_i h
    cases h
    exact .inl ⟨_, _, _, _, rfl, rfl⟩
  · rename_i h
    cases h
    exact .inr rfl

mutual

theorem Expr.written_tokens : ∀ e : Expr, e.tokens.all Token.written = true
  | .int _ n => by rw [Expr.tokens]; split <;> rfl
  | .float .. | .str .. | .bool _ true | .bool _ false | .nil _ | .ident .. => rfl
  | .list _ items => by simp [Expr.tokens, Token.written, itemTokens_written items]
  | .map _ entries => by simp [Expr.tokens, Token.written, entryTokens_written entries]
  | .set _ items => by simp [Expr.tokens, Token.written, itemTokens_written items]
  | .unary _ op operand => by
    simp [Expr.tokens, written_mark_unary, all_enclosed _ _ operand.written_tokens]
  | .binary _ op left right => by
    simp [Expr.tokens, written_mark_operation, all_enclosed _ _ left.written_tokens,
      all_enclosed _ _ right.written_tokens]
  | .logical _ op left right => by
    simp [Expr.tokens, written_mark_connective, all_enclosed _ _ left.written_tokens,
      all_enclosed _ _ right.written_tokens]
  | .call _ callee args => by
    simp [Expr.tokens, Token.written, all_enclosed _ _ callee.written_tokens,
      itemTokens_written args]
  | .index _ object key => by
    simp [Expr.tokens, Token.written, all_enclosed _ _ object.written_tokens, key.written_tokens]
  | .attr _ object _ => by
    simp [Expr.tokens, Token.written, all_enclosed _ _ object.written_tokens]
  | .func _ params body => by
    simp [Expr.tokens, Token.written, written_params, bodyTokens_written body]

theorem itemTokens_written : ∀ items : List Expr, (itemTokens items).all Token.written = true
  | [] => rfl
  | e :: rest => by simp [itemTokens, e.written_tokens, moreTokens_written rest]

theorem moreTokens_written : ∀ items : List Expr, (moreTokens items).all Token.written = true
  | [] => rfl
  | e :: rest => by simp [moreTokens, Token.written, e.written_tokens, moreTokens_written rest]

theorem entryTokens_written :
    ∀ entries : List (Expr × Expr), (entryTokens entries).all Token.written = true
  | [] => rfl
  | (k, v) :: rest => by
    simp [entryTokens, Token.written, k.written_tokens, v.written_tokens,
      moreEntryTokens_written rest]

theorem moreEntryTokens_written :
    ∀ entries : List (Expr × Expr), (moreEntryTokens entries).all Token.written = true
  | [] => rfl
  | (k, v) :: rest => by
    simp [moreEntryTokens, Token.written, k.written_tokens, v.written_tokens,
      moreEntryTokens_written rest]

theorem Stmt.written_tokens : ∀ st : Stmt, st.tokens.all Token.written = true
  | .var _ _ value | .print _ value | .return _ (some value) | .expr _ value => by
    simp [Stmt.tokens, Token.written, value.written_tokens]
  | .assign _ target value => by
    simp [Stmt.tokens, Token.written, target.written_tokens, value.written_tokens]
  | .funcDef _ _ params body => by
    simp [Stmt.tokens, Token.written, written_params, bodyTokens_written body]
  | .return _ none | .break _ | .continue _ => rfl
  | .if _ cond thenBody elseBody => by
    simp [Stmt.tokens, Token.written, cond.written_tokens, bodyTokens_written thenBody,
      elseTokens_written elseBody]
  | .while _ cond body => by
    simp [Stmt.tokens, Token.written, cond.written_tokens, bodyTokens_written body]
  | .delete _ object key => by
    simp [Stmt.tokens, Token.written, all_enclosed _ _ object.written_tokens, key.written_tokens]

theorem bodyTokens_written : ∀ body : List Stmt, (bodyTokens body).all Token.written = true
  | [] => rfl
  | st :: rest => by simp [bodyTokens, Token.written, st.written_tokens, bodyTokens_written rest]

theorem elseTokens_written :
    ∀ body : Option (List Stmt), (elseTokens body).all Token.written = true
  | none => rfl
  | some body => by
    have hbody := bodyTokens_written body
    rcases elseTokens_cases body with ⟨span, cond, thenBody, elseBody, rfl, h⟩ | h
    · rw [h]
      simpa [bodyTokens, Token.written] using hbody
    · simp [h, Token.written, hbody]

end

/-! ## Statements -/

section

variable {s : Stream} {e : Expr} {rest : List Token}

theorem parseStatement_eq_parseSimple {k : Token} {ks : List Token} (hs : s.kinds = k :: ks)
    (hopens : Opens s.kinds) (hks : .mark .declare ∉ ks.head?) :
    parseStatement s = parseSimple s := by
  obtain ⟨_, _, hs', hk, hfunc⟩ := hopens
  obtain ⟨rfl, rfl⟩ := List.cons.inj (hs.symm.trans hs')
  obtain ⟨tokens, last⟩ := s
  obtain ⟨span, ts, rfl, hts⟩ := Stream.tokens_of_kinds hs
  cases k with
  | keyword kw =>
    cases kw with
    | func =>
      obtain ⟨ks', rfl⟩ := hfunc rfl
      obtain ⟨⟨k', span'⟩, ts', rfl, rfl, -⟩ := List.map_eq_cons_iff.1 hts
      rw [parseStatement]
    | true | false | nil => rw [parseStatement]
    | _ => cases hk
  | ident name =>
    rcases ts with _ | ⟨⟨k', span'⟩, ts'⟩
    · rw [parseStatement]
    · have hk' : k' ≠ .mark .declare := fun hk' => hks (by rw [← hts, hk']; rfl)
      cases k' with
      | mark m => cases m <;> first | exact absurd rfl hk' | rw [parseStatement]
      | _ => rw [parseStatement]
  | mark m => cases m <;> rw [parseStatement]
  | comment | newline | eof => cases hk
  | _ => rw [parseStatement]

theorem parseStatement_of_expr {k : Token} (hs : s.kinds = e.tokens ++ k :: rest)
    (hk : k ≠ .mark .declare) : parseStatement s = parseSimple s := by
  obtain ⟨k', ks, htokens, -⟩ := e.opens_tokens
  have hwritten := e.written_tokens
  rw [htokens] at hs hwritten
  refine parseStatement_eq_parseSimple hs ?_ ?_
  · rw [hs, ← htokens]
    exact e.opens_tokens.append _
  · cases ks with
    | nil => simpa using hk
    | cons k₂ ks =>
      rintro hhead
      obtain rfl : k₂ = .mark .declare := by simpa using hhead
      simp [Token.written] at hwritten

theorem readable_expr (span : Span) (h : Readable e) : ReadableStmt (.expr span e) := by
  intro s rest hs
  rw [parseStatement_of_expr hs nofun, parseSimple]
  obtain ⟨e', r, hr, hread, he, hkinds⟩ := h.whole hs rfl
  rw [hread]
  dsimp only
  rw [Stream.eat?_eq_none (by simp [hkinds])]
  exact ⟨_, r, _, rfl, by simp [Stmt.bare, he], hkinds⟩

theorem isAssignable_congr {e e' : Expr} (h : e'.bare = e.bare) :
    e'.isAssignable = e.isAssignable := by
  cases e <;> cases e' <;> first | rfl | simp [Expr.bare] at h

theorem readable_assign (span : Span) (htarget : e.isAssignable = true) (h : Readable e)
    {value : Expr} (hvalue : Readable value) : ReadableStmt (.assign span e value) := by
  intro s rest hs
  have hs : s.kinds = e.tokens ++ .mark .assign :: (value.tokens ++ .newline :: rest) := by
    rw [hs, Stmt.tokens]
    simp
  obtain ⟨e', r₁, hr₁, hread, he, hkinds₁⟩ := h.whole hs rfl
  obtain ⟨r₂, hr₂, heat, hkinds₂⟩ := Stream.eat?_of_kinds hkinds₁
  have hskip := (value.opens_tokens.append _).skipNewlines hkinds₂
  obtain ⟨value', r, hr, hread', hvalue', hkinds⟩ := hvalue.whole hskip rfl
  rw [parseStatement_of_expr hs nofun, parseSimple, hread]
  dsimp only
  rw [heat]
  dsimp only
  rw [if_pos ((isAssignable_congr he).trans htarget), hread']
  exact ⟨_, r, _, rfl, by simp [Stmt.bare, he, hvalue'], hkinds⟩

theorem readable_var (span : Span) (name : String) (h : Readable e) :
    ReadableStmt (.var span name e) := by
  intro s rest hs
  obtain ⟨tokens, last⟩ := s
  obtain ⟨span', ts, rfl, hts⟩ := Stream.tokens_of_kinds hs
  obtain ⟨r₁, hr₁, hident, hkinds₁⟩ :=
    Stream.expectIdent_of_kinds (s := ⟨ts, some span'⟩) "after 'var'" hts
  obtain ⟨r₂, hr₂, hassign, hkinds₂⟩ := Stream.expect_of_kinds "in variable declaration" hkinds₁
  have hskip := (e.opens_tokens.append _).skipNewlines hkinds₂
  obtain ⟨e', r, hr, hread, he, hkinds⟩ := h.whole hskip rfl
  rw [parseStatement]
  dsimp only
  rw [hident]
  dsimp only
  rw [hassign]
  dsimp only
  rw [hread]
  exact ⟨_, r, _, rfl, by simp [Stmt.bare, he], hkinds⟩

theorem readable_funcDef (span : Span) (name : String) {params : List String}
    (hparams : params.Nodup) {body : List Stmt} (hbody : ∀ st ∈ body, ReadableStmt st) :
    ReadableStmt (.funcDef span name params body) := by
  intro s rest hs
  have hs : s.kinds = .keyword .func :: .ident name :: .mark .lParen :: (paramTokens params ++
      .mark .rParen :: .mark .lBrace ::
        (bodyTokens body ++ .mark .rBrace :: .newline :: rest)) := by
    rw [hs, Stmt.tokens]
    simp
  obtain ⟨tokens, last⟩ := s
  obtain ⟨span', ts, rfl, hts⟩ := Stream.tokens_of_kinds hs
  obtain ⟨⟨k, nameSpan⟩, ts', rfl, rfl, hts'⟩ := List.map_eq_cons_iff.1 hts
  obtain ⟨params', r₁, hr₁, hread, rfl, hkinds₁⟩ :=
    parseParams_reads (s := ⟨ts', some nameSpan⟩) hparams hts'
  obtain ⟨body', r, hr, hread', hbody', hkinds⟩ := parseBlock_reads hbody hkinds₁
  rw [parseStatement]
  dsimp only
  rw [hread]
  dsimp only
  rw [hread']
  exact ⟨_, r, _, rfl, by simp [Stmt.bare, hbody'], hkinds⟩

theorem readable_return (span : Span) : ReadableStmt (.return span none) := by
  intro s rest hs
  obtain ⟨tokens, last⟩ := s
  obtain ⟨span', ts, rfl, hts⟩ := Stream.tokens_of_kinds hs
  have hpeek : Stream.peek ⟨ts, some span'⟩ = .newline := Stream.peek_of_kinds hts
  rw [parseStatement]
  simp only [hpeek, Stream.isTerminator, if_true]
  exact ⟨_, _, _, rfl, rfl, hts⟩

theorem readable_returnValue (span : Span) (h : Readable e) :
    ReadableStmt (.return span (some e)) := by
  intro s rest hs
  obtain ⟨tokens, last⟩ := s
  obtain ⟨span', ts, rfl, hts⟩ := Stream.tokens_of_kinds hs
  obtain ⟨k, ks, hks, hk⟩ := (e.opens_tokens.append (.newline :: rest)).begins
  have hpeek : Stream.peek ⟨ts, some span'⟩ = k := Stream.peek_of_kinds (hts.trans hks)
  obtain ⟨e', r, hr, hread, he, hkinds⟩ := h.whole (s := ⟨ts, some span'⟩) hts rfl
  rw [parseStatement]
  simp only [hpeek, hk, Bool.false_eq_true, if_false]
  rw [hread]
  exact ⟨_, r, _, rfl, by simp [Stmt.bare, he], hkinds⟩

theorem readable_break (span : Span) : ReadableStmt (.break span) := by
  intro s rest hs
  obtain ⟨tokens, last⟩ := s
  obtain ⟨span', ts, rfl, hts⟩ := Stream.tokens_of_kinds hs
  rw [parseStatement]
  exact ⟨_, _, _, rfl, rfl, hts⟩

theorem readable_continue (span : Span) : ReadableStmt (.continue span) := by
  intro s rest hs
  obtain ⟨tokens, last⟩ := s
  obtain ⟨span', ts, rfl, hts⟩ := Stream.tokens_of_kinds hs
  rw [parseStatement]
  exact ⟨_, _, _, rfl, rfl, hts⟩

theorem readable_print (span : Span) (h : Readable e) : ReadableStmt (.print span e) := by
  intro s rest hs
  obtain ⟨tokens, last⟩ := s
  obtain ⟨span', ts, rfl, hts⟩ := Stream.tokens_of_kinds hs
  obtain ⟨e', r, hr, hread, he, hkinds⟩ := h.whole (s := ⟨ts, some span'⟩) hts rfl
  rw [parseStatement]
  dsimp only
  rw [hread]
  exact ⟨_, r, _, rfl, by simp [Stmt.bare, he], hkinds⟩

theorem readable_delete (span : Span) (h : Readable e) {key : Expr} (hkey : Readable key) :
    ReadableStmt (.delete span e key) := by
  intro s rest hs
  have hs : s.kinds = .keyword .del :: ((Expr.index span e key).tokens ++ .newline :: rest) := by
    rw [hs, Stmt.tokens, Expr.tokens]
    simp
  obtain ⟨tokens, last⟩ := s
  obtain ⟨span', ts, rfl, hts⟩ := Stream.tokens_of_kinds hs
  obtain ⟨e', r, hr, hread, he, hkinds⟩ :=
    (readable_index span h hkey).whole (s := ⟨ts, some span'⟩) hts rfl
  rw [parseStatement]
  dsimp only
  rw [hread]
  cases e' <;> first | cases he | skip
  simp [Expr.bare] at he
  exact ⟨_, r, _, rfl, by simp [Stmt.bare, he], hkinds⟩

theorem readable_while (span : Span) (h : Readable e) {body : List Stmt}
    (hbody : ∀ st ∈ body, ReadableStmt st) : ReadableStmt (.while span e body) := by
  intro s rest hs
  have hs : s.kinds = .keyword .while :: (e.tokens ++ .mark .lBrace :: (bodyTokens body ++
      .mark .rBrace :: .newline :: rest)) := by
    rw [hs, Stmt.tokens]
    simp
  obtain ⟨tokens, last⟩ := s
  obtain ⟨span', ts, rfl, hts⟩ := Stream.tokens_of_kinds hs
  obtain ⟨e', r₁, hr₁, hread, he, hkinds₁⟩ := h.whole (s := ⟨ts, some span'⟩) hts rfl
  obtain ⟨body', r, hr, hread', hbody', hkinds⟩ := parseBlock_reads hbody hkinds₁
  rw [parseStatement]
  dsimp only
  rw [hread]
  dsimp only
  rw [hread']
  exact ⟨_, r, _, rfl, by simp [Stmt.bare, he, hbody'], hkinds⟩

/-! ## Conditionals -/

theorem parseStatement_if {P : Stmt → Prop} (span : Span) (ts : List Lexeme) (last : Option Span) :
    (parseStatement ⟨⟨.keyword .if, span⟩ :: ts, last⟩).Reads P rest ↔
      (parseIf span ⟨ts, some span⟩).Reads P rest := by
  rw [parseStatement]
  dsimp only
  constructor
  · rintro ⟨st, r, hr, hread, hst, hkinds⟩
    split at hread
    · cases hread
    · rename_i st' r' hr' heq
      cases hread
      exact ⟨st, r, hr', heq, hst, hkinds⟩
  · rintro ⟨st, r, hr, hread, hst, hkinds⟩
    rw [hread]
    exact ⟨st, r, _, rfl, hst, hkinds⟩

theorem bare_ifElse (span : Span) (thenBody elseBody : List Stmt) :
    (Stmt.if span e thenBody (some elseBody)).bare =
      .if .start e.bare (bareBody thenBody) (some (bareBody elseBody)) := by
  rw [Stmt.bare]

theorem parseIf_reads (span span' : Span) (h : Readable e) {thenBody : List Stmt}
    (hthen : ∀ st ∈ thenBody, ReadableStmt st) {elseBody : Option (List Stmt)}
    (helse : ∀ body ∈ elseBody, ∀ st ∈ body, ReadableStmt st)
    (hs : s.kinds = e.tokens ++ .mark .lBrace :: (bodyTokens thenBody ++ .mark .rBrace ::
      (elseTokens elseBody ++ .newline :: rest))) :
    (parseIf span s).Reads (·.bare = (Stmt.if span' e thenBody elseBody).bare)
      (.newline :: rest) := by
  obtain ⟨e', r₁, hr₁, hread, he, hkinds₁⟩ := h.whole hs rfl
  obtain ⟨thenBody', r₂, hr₂, hread', hthen', hkinds₂⟩ := parseBlock_reads hthen hkinds₁
  obtain ⟨tokens, last⟩ := r₂
  rw [parseIf, hread]
  dsimp only
  rw [hread']
  cases elseBody with
  | none =>
    obtain ⟨span₂, ts, rfl, hts⟩ := Stream.tokens_of_kinds hkinds₂
    exact ⟨_, _, _, rfl, by simp [Stmt.bare, he, hthen'], hkinds₂⟩
  | some body =>
    have hbody := helse body rfl
    rcases elseTokens_cases body with ⟨span₃, cond, thenBody₂, elseBody₂, rfl, htokens⟩ | htokens
    · rw [htokens] at hkinds₂
      obtain ⟨span₂, ts, rfl, hts⟩ := Stream.tokens_of_kinds hkinds₂
      obtain ⟨⟨k, ifSpan⟩, ts', rfl, rfl, hts'⟩ := List.map_eq_cons_iff.1 hts
      obtain ⟨st, r, hr, hchain, hst, hkinds⟩ := (parseStatement_if ifSpan ts' none).1
        (hbody _ List.mem_cons_self (s := ⟨_, none⟩) hts)
      dsimp only
      rw [hchain]
      exact ⟨_, r, _, rfl, by simp only [bare_ifElse, bareBody, he, hthen', hst], hkinds⟩
    · have hkinds₂ : Stream.kinds ⟨tokens, last⟩ = .keyword .else :: .mark .lBrace ::
          (bodyTokens body ++ .mark .rBrace :: .newline :: rest) := by
        rw [hkinds₂, htokens]
        simp
      obtain ⟨span₂, ts, rfl, hts⟩ := Stream.tokens_of_kinds hkinds₂
      obtain ⟨body', r, hr, hblock, hbody', hkinds⟩ :=
        parseBlock_reads (s := ⟨ts, some span₂⟩) hbody hts
      obtain ⟨⟨k, braceSpan⟩, ts', rfl, rfl, -⟩ := List.map_eq_cons_iff.1 hts
      dsimp only
      rw [hblock]
      exact ⟨_, r, _, rfl, by simp [Stmt.bare, he, hthen', hbody'], hkinds⟩

theorem readable_if (span : Span) (h : Readable e) {thenBody : List Stmt}
    (hthen : ∀ st ∈ thenBody, ReadableStmt st) {elseBody : Option (List Stmt)}
    (helse : ∀ body ∈ elseBody, ∀ st ∈ body, ReadableStmt st) :
    ReadableStmt (.if span e thenBody elseBody) := by
  intro s rest hs
  have hs : s.kinds = .keyword .if :: (e.tokens ++ .mark .lBrace :: (bodyTokens thenBody ++
      .mark .rBrace :: (elseTokens elseBody ++ .newline :: rest))) := by
    rw [hs, Stmt.tokens]
    simp
  obtain ⟨tokens, last⟩ := s
  obtain ⟨span', ts, rfl, hts⟩ := Stream.tokens_of_kinds hs
  exact (parseStatement_if span' ts last).2 (parseIf_reads span' span h hthen helse hts)

end

/-! ## All trees -/

mutual

theorem Expr.readable : ∀ e : Expr, e.Grammatical → Readable e
  | .int span n, h => by
    rcases h with h | rfl
    · exact readable_int span h
    · exact readable_least span
  | .float span x, _ => readable_float span x
  | .str span text, _ => readable_str span text
  | .bool span true, _ => readable_true span
  | .bool span false, _ => readable_false span
  | .nil span, _ => readable_nil span
  | .ident span name, _ => readable_ident span name
  | .list span items, h => readable_list span (readable_items items h)
  | .map span entries, h => readable_map span (readable_entries entries h)
  | .set span items, h => readable_set span h.1 (readable_items items h.2)
  | .unary span op operand, h => readable_unary span op (operand.readable h)
  | .binary span op left right, h =>
    readable_binary span op (left.readable h.1) (right.readable h.2)
  | .logical span op left right, h =>
    readable_logical span op (left.readable h.1) (right.readable h.2)
  | .call span callee args, h =>
    readable_call span (callee.readable h.1) (readable_items args h.2)
  | .index span object key, h => readable_index span (object.readable h.1) (key.readable h.2)
  | .attr span object name, h => readable_attr span (object.readable h) name
  | .func span params body, h => readable_func span h.1 (readable_body body h.2)

theorem readable_items : ∀ items : List Expr, ItemsGrammatical items → ∀ e ∈ items, Readable e
  | [], _ => nofun
  | e :: rest, h => List.forall_mem_cons.2 ⟨e.readable h.1, readable_items rest h.2⟩

theorem readable_entries : ∀ entries : List (Expr × Expr), EntriesGrammatical entries →
    ∀ entry ∈ entries, Readable entry.1 ∧ Readable entry.2
  | [], _ => nofun
  | (k, v) :: rest, h =>
    List.forall_mem_cons.2 ⟨⟨k.readable h.1, v.readable h.2.1⟩, readable_entries rest h.2.2⟩

theorem Stmt.readable : ∀ st : Stmt, st.Grammatical → ReadableStmt st
  | .var span name value, h => readable_var span name (value.readable h)
  | .assign span target value, h =>
    readable_assign span h.1 (target.readable h.2.1) (value.readable h.2.2)
  | .funcDef span name params body, h => readable_funcDef span name h.1 (readable_body body h.2)
  | .return span none, _ => readable_return span
  | .return span (some value), h => readable_returnValue span (value.readable h)
  | .if span cond thenBody none, h =>
    readable_if span (cond.readable h.1) (readable_body thenBody h.2) (by simp)
  | .if span cond thenBody (some elseBody), h => by
    refine readable_if span (cond.readable h.1) (readable_body thenBody h.2.1) ?_
    rintro _ ⟨⟩
    exact readable_body elseBody h.2.2
  | .while span cond body, h => readable_while span (cond.readable h.1) (readable_body body h.2)
  | .break span, _ => readable_break span
  | .continue span, _ => readable_continue span
  | .print span value, h => readable_print span (value.readable h)
  | .delete span object key, h => readable_delete span (object.readable h.1) (key.readable h.2)
  | .expr span value, h => readable_expr span (value.readable h)

theorem readable_body : ∀ body : List Stmt, BodyGrammatical body → ∀ st ∈ body, ReadableStmt st
  | [], _ => nofun
  | st :: rest, h => List.forall_mem_cons.2 ⟨st.readable h.1, readable_body rest h.2⟩

end

/-! ## Programs -/

theorem parseStatements_reads {body : List Stmt} (hbody : ∀ st ∈ body, ReadableStmt st)
    {s : Stream} (found : List Stmt) (hs : s.kinds = bodyTokens body ++ [Token.eof]) :
    ∃ q, parseStatements s found = .ok q ∧ q.bare = ⟨bareBody (found.reverse ++ body)⟩ := by
  induction body generalizing s found with
  | nil =>
    have hskip := Stream.kinds_skipSeparators hs rfl
    rw [parseStatements]
    simp only [Stream.peek_of_kinds hskip]
    exact ⟨_, rfl, by simp [Program.bare]⟩
  | cons st more ih =>
    have hs : s.kinds = st.tokens ++ Token.newline :: (bodyTokens more ++ [Token.eof]) := by
      rw [hs, bodyTokens]
      simp
    obtain ⟨k, ks, htokens, hk⟩ := st.begins
    have hskip : s.skipSeparators.1.kinds =
        st.tokens ++ Token.newline :: (bodyTokens more ++ [Token.eof]) := by
      rw [htokens] at hs ⊢
      exact Stream.kinds_skipSeparators hs (isSeparator_eq_false hk)
    have hpeek : s.skipSeparators.1.peek = k :=
      Stream.peek_of_kinds (hskip.trans (by rw [htokens]; rfl))
    obtain ⟨st', r₁, hr₁, hread, hst, hkinds₁⟩ := hbody st List.mem_cons_self hskip
    obtain ⟨r₂, hr₂, hend, hkinds₂⟩ := Stream.endStatement_of_kinds hkinds₁
    rw [parseStatements]
    dsimp only
    rw [hpeek]
    split
    · cases hk
    · rw [hread]
      dsimp only
      rw [hend]
      dsimp only
      obtain ⟨q, hq, hbare⟩ := ih (fun st h => hbody st (List.mem_cons_of_mem _ h))
        (st' :: found) hkinds₂
      exact ⟨q, hq, by simpa [bareBody_eq, hst] using hbare⟩

/-- A program written as tokens, at any positions, is read back as the same program up to
positions. -/
theorem programs_round_trip (p : Program) (hp : p.Grammatical) (ts : List Lexeme)
    (hts : ts.map (·.token) = p.tokens ++ [Token.eof]) :
    ∃ q, parseTokens ts = .ok q ∧ q.bare = p.bare := by
  have hfilter : (ts.filter fun t => !t.token.isComment) = ts := by
    refine List.filter_eq_self.2 fun t ht => ?_
    have hmem : t.token ∈ p.tokens ++ [Token.eof] := hts ▸ List.mem_map_of_mem ht
    have hwritten : t.token.written = true := by
      rcases List.mem_append.1 hmem with hmem | hmem
      · exact List.all_eq_true.1 (bodyTokens_written p.statements) _ hmem
      · rw [List.mem_singleton.1 hmem]
        rfl
    rw [isComment_eq_false hwritten]
    rfl
  rw [parseTokens, hfilter]
  exact parseStatements_reads (readable_body p.statements hp) [] hts

/-- A conditional with a chain in a function, with signs, powers and the least integer. -/
def signsAndPowers : Program :=
  let a : Expr := .ident .start "a"
  let b : Expr := .ident .start "b"
  let least : Expr := .int .start Int64.minValue
  ⟨[.funcDef .start "f" ["a", "b"]
      [.if .start (.logical .start .and a b)
        -- -a ** -b
        [.return .start (some (.unary .start .negate
          (.binary .start (.arithmetic .power) a (.unary .start .negate b))))]
        (some [.if .start (.unary .start .not a)
          -- (a - b) - (b - a) needs one pair of parentheses
          [.expr .start (.binary .start (.arithmetic .subtract)
            (.binary .start (.arithmetic .subtract) a b)
            (.binary .start (.arithmetic .subtract) b a))]
          (some [])])],
    -- (-2 ** 63) ** 2 and its subscripts need parentheses
    .assign .start (.index .start least (.set .start [.int .start 1]))
      (.binary .start (.arithmetic .power) least (.int .start 2))]⟩

def signsAndPowersTokens : List Token :=
  let a : Token := .ident "a"
  let b : Token := .ident "b"
  [.keyword .func, .ident "f", .mark .lParen, a, .mark .comma, b, .mark .rParen, .mark .lBrace,
    .keyword .if, a, .mark .andAnd, b, .mark .lBrace,
      .keyword .return, .mark .minus, a, .mark .starStar, .mark .minus, b, .newline,
    .mark .rBrace, .keyword .else, .keyword .if, .mark .bang, a, .mark .lBrace,
      a, .mark .minus, b, .mark .minus, .mark .lParen, b, .mark .minus, a, .mark .rParen, .newline,
    .mark .rBrace, .keyword .else, .mark .lBrace, .mark .rBrace, .newline,
    .mark .rBrace, .newline,
    .mark .lParen, .mark .minus, .integer 9223372036854775808, .mark .rParen,
      .mark .lBracket, .mark .lBrace, .integer 1, .mark .rBrace, .mark .rBracket, .mark .assign,
      .mark .lParen, .mark .minus, .integer 9223372036854775808, .mark .rParen, .mark .starStar,
      .integer 2, .newline, .eof]

theorem programs_round_trip_signs_and_powers :
    signsAndPowers.Grammatical ∧ signsAndPowers.tokens ++ [Token.eof] = signsAndPowersTokens ∧
      ∃ q, parseTokens (signsAndPowersTokens.map (⟨·, .start⟩)) = .ok q ∧
        q.bare = signsAndPowers.bare := by
  have hgrammar : signsAndPowers.Grammatical := by
    simp [signsAndPowers, Program.Grammatical, BodyGrammatical, Stmt.Grammatical, Expr.Grammatical,
      ItemsGrammatical, Expr.isAssignable]
  have htokens : signsAndPowers.tokens ++ [Token.eof] = signsAndPowersTokens := rfl
  refine ⟨hgrammar, htokens, programs_round_trip signsAndPowers hgrammar _ ?_⟩
  rw [htokens]
  rfl

end Ember
