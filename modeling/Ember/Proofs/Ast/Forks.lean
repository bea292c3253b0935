import Ember.Proofs.Ast.Moves
import Ember.Proofs.Ast.Readings

/-! Two streams of the same tokens, where the one ends and the other may go on with a line break.
As long as the first one has not ended, the elementary readers do the same with both. -/
namespace Ember
set_option autoImplicit false

/-! ## Streams -/

namespace Stream

variable {s : Stream}

theorem peek_of_tokens {t : Lexeme} {rest : List Lexeme} (h : s.tokens = t :: rest) :
    s.peek = t.token := by
  rw [peek, h]

theorem peek_of_nil (h : s.tokens = []) : s.peek = .eof := by
  rw [peek, h]

theorem tokens_of_peek {token : Token} (h : s.peek = token) (htoken : token ≠ .eof) :
    ∃ span rest, s.tokens = ⟨token, span⟩ :: rest := by
  obtain ⟨_ | ⟨⟨token, span⟩, rest⟩, last⟩ := s
  · exact absurd h.symm htoken
  · obtain rfl := h
    exact ⟨span, rest, rfl⟩

theorem peekSecond_of_tokens {t : Lexeme} {rest : List Lexeme} (h : s.tokens = t :: rest) :
    s.peekSecond = peek ⟨rest, none⟩ := by
  rw [peekSecond, h]
  cases rest <;> rfl

theorem eat?_eq_none_iff {m : Mark} : s.eat? m = none ↔ s.peek ≠ .mark m := by
  obtain ⟨_ | ⟨⟨k, span⟩, rest⟩, last⟩ := s
  · exact iff_of_true rfl nofun
  · cases k with
    | mark m' => simp [eat?, peek]
    | _ => exact iff_of_true rfl nofun

theorem tokens_of_eat? {m : Mark} {r : { r : Stream // r.size < s.size }}
    (h : s.eat? m = some r) :
    ∃ span rest, s.tokens = ⟨.mark m, span⟩ :: rest ∧ r.1 = ⟨rest, some span⟩ := by
  unfold eat? at h
  split at h
  · rename_i m' span rest htokens
    split at h
    · rename_i hm
      cases h
      exact ⟨span, rest, hm ▸ htokens, rfl⟩
    · cases h
  · cases h

theorem peek_of_eat? {m : Mark} {r : { r : Stream // r.size < s.size }}
    (h : s.eat? m = some r) : s.peek ≠ .eof := by
  obtain ⟨span, rest, htokens, -⟩ := tokens_of_eat? h
  rw [peek_of_tokens htokens]
  exact nofun

theorem eat?_of_expect {m : Mark} {context : String} {r : { r : Stream // r.size < s.size }}
    (h : s.expect m context = .ok r) : s.eat? m = some r := by
  unfold expect at h
  split at h
  · cases h
    assumption
  · cases h

theorem peek_of_expect {m : Mark} {context : String} {r : { r : Stream // r.size < s.size }}
    (h : s.expect m context = .ok r) : s.peek ≠ .eof :=
  peek_of_eat? (eat?_of_expect h)

theorem tokens_of_expectIdent {context name : String} {r : Stream} {hr : r.size < s.size}
    (h : s.expectIdent context = .ok ⟨name, r, hr⟩) :
    ∃ span rest, s.tokens = ⟨.ident name, span⟩ :: rest ∧ r = ⟨rest, some span⟩ := by
  unfold expectIdent at h
  split at h
  · rename_i name' span rest htokens
    cases h
    exact ⟨span, rest, htokens, rfl⟩
  · cases h

theorem endStatement_of_peek (h : s.peek = .eof ∨ s.peek = .mark .rBrace) :
    s.endStatement = .ok ⟨s, Nat.le_refl _⟩ := by
  obtain ⟨_ | ⟨⟨token, span⟩, rest⟩, last⟩ := s
  · rfl
  · rcases h with h | h <;> cases h <;> rfl

/-- Nothing is skipped at the end. -/
theorem skipWhile_end {p : Token → Bool} (hp : p .eof = false) {ts : List Lexeme}
    (h : peek ⟨ts, none⟩ = .eof) (last : Option Span) : skipWhile p ts last = ⟨ts, last⟩ := by
  cases ts with
  | nil => rfl
  | cons t rest =>
    rw [peek_of_tokens rfl] at h
    rw [skipWhile, h, hp, if_neg Bool.false_ne_true]

theorem skipSeparators_end (h : s.peek = .eof) : s.skipSeparators.1 = s :=
  skipWhile_end rfl h s.last

end Stream

/-! ## Forks -/

/-- Two lists of tokens that begin alike, except for the places of the tokens. The first one ends
with them; the other ends, or goes on with a line break. -/
structure Fork where
  move : Span → Span
  shared : List Lexeme
  ending : List Lexeme
  other : List Lexeme
  ne_eof : ∀ t ∈ shared, t.token ≠ .eof
  ends : Stream.peek ⟨ending, none⟩ = .eof
  divides : Stream.peek ⟨other, none⟩ = .eof ∨ Stream.peek ⟨other, none⟩ = .newline

namespace Fork

/-- The two streams have the same part of the shared tokens before them. -/
def Alike (w : Fork) (s s' : Stream) : Prop :=
  ∃ ts, ts <:+ w.shared ∧ s.tokens = ts ++ w.ending ∧
    s'.tokens = ts.map (·.moved w.move) ++ w.other

/-- The line break at which the first stream has ended is read from the second one. -/
def Past (w : Fork) (s' : Stream) : Prop :=
  ∃ span, w.other = ⟨.newline, span⟩ :: s'.tokens ∧ s'.last = some span

/-- The second reading gives `a`, and what it leaves is like `r`. -/
def Reads (w : Fork) {α : Type} {bound : Nat} (x : Parse α bound) (a : α) (r : Stream) : Prop :=
  ∃ r' hr', x = .ok ⟨a, r', hr'⟩ ∧ w.Alike r r'

variable {w : Fork} {s s' : Stream}

theorem Reads.ne_error {α : Type} {bound : Nat} {x : Parse α bound} {a : α} {r : Stream}
    (h : w.Reads x a r) (e : ParseError) : x ≠ .error e := by
  obtain ⟨r', hr', rfl, -⟩ := h
  exact nofun

theorem Reads.of_eq {α : Type} {bound : Nat} {x : Parse α bound} {a a' : α} {r r' : Stream}
    {hr : r'.size < bound} (h : w.Reads x a r) (hx : x = .ok ⟨a', r', hr⟩) :
    a' = a ∧ w.Alike r r' := by
  obtain ⟨r'', hr'', heq, hrest⟩ := h
  cases hx.symm.trans heq
  exact ⟨rfl, hrest⟩

/-! ### The next token -/

theorem Alike.peek (h : w.Alike s s') :
    s'.peek = s.peek ∨ s.peek = .eof ∧ s'.peek = .newline := by
  obtain ⟨ts, -, htokens, htokens'⟩ := h
  obtain _ | ⟨t, ts⟩ := ts
  · have hs : s.peek = .eof := by rw [Stream.peek, htokens]; exact w.ends
    have hs' : s'.peek = Stream.peek ⟨w.other, none⟩ := by rw [Stream.peek, htokens']; rfl
    rw [hs, hs']
    exact w.divides.imp_right fun hnewline => ⟨rfl, hnewline⟩
  · rw [Stream.peek_of_tokens htokens, Stream.peek_of_tokens htokens']
    exact .inl rfl

/-- What holds of the next token of the first stream and of a line break holds of the next token of
the second. -/
theorem Alike.of_peek (h : w.Alike s s') {P : Token → Prop} (hs : P s.peek)
    (hnewline : P .newline) : P s'.peek := by
  rcases h.peek with heq | ⟨-, heq⟩
  · exact heq ▸ hs
  · exact heq ▸ hnewline

theorem Alike.next (h : w.Alike s s') {t : Lexeme} {rest : List Lexeme}
    (htokens : s.tokens = t :: rest) (ht : t.token ≠ .eof) :
    ∃ rest' last', s' = ⟨⟨t.token, w.move t.span⟩ :: rest', last'⟩ ∧
      ∀ last last', w.Alike ⟨rest, last⟩ ⟨rest', last'⟩ := by
  obtain ⟨ts, hsuffix, htokens₁, htokens'⟩ := h
  obtain _ | ⟨t', ts⟩ := ts
  · refine absurd ?_ ht
    rw [← Stream.peek_of_tokens (s := ⟨t :: rest, none⟩) rfl, ← htokens, htokens₁]
    exact w.ends
  · obtain ⟨rfl, rfl⟩ := List.cons.inj (htokens.symm.trans htokens₁)
    obtain ⟨tokens', last'⟩ := s'
    obtain rfl := htokens'
    exact ⟨_, last', rfl, fun _ _ => ⟨ts, (List.suffix_cons t ts).trans hsuffix, rfl, rfl⟩⟩

theorem Alike.tokens_of_end (h : w.Alike s s') (hs : s.peek = .eof) : s'.tokens = w.other := by
  obtain ⟨ts, hsuffix, htokens, htokens'⟩ := h
  obtain _ | ⟨t, ts⟩ := ts
  · exact htokens'
  · exact absurd ((Stream.peek_of_tokens htokens).symm.trans hs)
      (w.ne_eof t (hsuffix.subset List.mem_cons_self))

theorem Alike.peekSecond (h : w.Alike s s') (hs : s.peek ≠ .eof) :
    s'.peekSecond = s.peekSecond ∨ s.peekSecond = .eof ∧ s'.peekSecond = .newline := by
  obtain ⟨_ | ⟨t, rest⟩, last⟩ := s
  · exact absurd rfl hs
  · obtain ⟨rest', last', rfl, hrest⟩ := h.next rfl hs
    rw [Stream.peekSecond_of_tokens rfl, Stream.peekSecond_of_tokens rfl]
    exact (hrest none none).peek

theorem Alike.of_peekSecond (h : w.Alike s s') (hs : s.peek ≠ .eof) {P : Token → Prop}
    (hsecond : P s.peekSecond) (hnewline : P .newline) : P s'.peekSecond := by
  rcases h.peekSecond hs with heq | ⟨-, heq⟩
  · exact heq ▸ hsecond
  · exact heq ▸ hnewline

theorem Alike.span (h : w.Alike s s') (hs : s.peek ≠ .eof) : s'.span = w.move s.span := by
  obtain ⟨_ | ⟨t, rest⟩, last⟩ := s
  · exact absurd rfl hs
  · obtain ⟨rest', last', rfl, -⟩ := h.next rfl hs
    rfl

theorem Alike.isTerminator (h : w.Alike s s') :
    Stream.isTerminator s'.peek = Stream.isTerminator s.peek := by
  rcases h.peek with heq | ⟨hend, hline⟩
  · rw [heq]
  · rw [hend, hline]
    rfl

/-! ### Elementary readers -/

theorem Alike.eat?_none (h : w.Alike s s') {m : Mark} (heat : s.eat? m = none) :
    s'.eat? m = none :=
  Stream.eat?_eq_none_iff.2
    (h.of_peek (P := (· ≠ .mark m)) (Stream.eat?_eq_none_iff.1 heat) nofun)

theorem Alike.eat?_some (h : w.Alike s s') {m : Mark} {r : Stream} {hr : r.size < s.size}
    (heat : s.eat? m = some ⟨r, hr⟩) :
    ∃ r' hr', s'.eat? m = some ⟨r', hr'⟩ ∧ w.Alike r r' := by
  obtain ⟨span, rest, htokens, rfl⟩ := Stream.tokens_of_eat? heat
  obtain ⟨rest', last', rfl, hrest⟩ := h.next htokens nofun
  exact ⟨⟨rest', some (w.move span)⟩, Nat.lt_succ_self _, by simp [Stream.eat?], hrest _ _⟩

theorem Alike.isNext (h : w.Alike s s') (m : Mark) : s'.isNext m = s.isNext m := by
  unfold Stream.isNext
  cases heat : s.eat? m with
  | none => rw [h.eat?_none heat]; rfl
  | some r =>
    obtain ⟨r', hr', heat', -⟩ := h.eat?_some heat
    rw [heat']
    rfl

theorem Alike.expect (h : w.Alike s s') {m : Mark} {context : String} {r : Stream}
    {hr : r.size < s.size} (hexpect : s.expect m context = .ok ⟨r, hr⟩) :
    ∃ r' hr', s'.expect m context = .ok ⟨r', hr'⟩ ∧ w.Alike r r' := by
  obtain ⟨r', hr', heat', hrest⟩ := h.eat?_some (Stream.eat?_of_expect hexpect)
  exact ⟨r', hr', by rw [Stream.expect, heat'], hrest⟩

theorem Alike.expectIdent (h : w.Alike s s') {context name : String} {r : Stream}
    {hr : r.size < s.size} (hident : s.expectIdent context = .ok ⟨name, r, hr⟩) :
    w.Reads (s'.expectIdent context) name r := by
  obtain ⟨span, rest, htokens, rfl⟩ := Stream.tokens_of_expectIdent hident
  obtain ⟨rest', last', rfl, hrest⟩ := h.next htokens nofun
  exact ⟨⟨rest', some (w.move span)⟩, Nat.lt_succ_self _, rfl, hrest _ _⟩

/-- Skipping stops before one of the shared tokens, or it passes all of them. -/
theorem Alike.skipWhile (h : w.Alike s s') {p : Token → Bool} (hp : p .eof = false) :
    (Stream.skipWhile p s.tokens s.last).peek ≠ .eof ∧
      w.Alike (Stream.skipWhile p s.tokens s.last) (Stream.skipWhile p s'.tokens s'.last) ∨
    (Stream.skipWhile p s.tokens s.last).peek = .eof ∧
      ∃ last, Stream.skipWhile p s'.tokens s'.last = Stream.skipWhile p w.other last := by
  obtain ⟨ts, hsuffix, htokens, htokens'⟩ := h
  obtain ⟨tokens, last⟩ := s
  obtain ⟨tokens', last'⟩ := s'
  dsimp only at htokens htokens'
  subst htokens htokens'
  dsimp only
  induction ts generalizing last last' with
  | nil =>
    refine .inr ⟨?_, last', rfl⟩
    rw [List.nil_append, Stream.skipWhile_end hp w.ends]
    exact w.ends
  | cons t ts ih =>
    by_cases ht : p t.token = true
    · have hshorter := ih ((List.suffix_cons t ts).trans hsuffix) (some t.span)
        (some (w.move t.span))
      rw [List.cons_append, List.map_cons, List.cons_append, Stream.skipWhile, if_pos ht,
        Stream.skipWhile, if_pos (show p (t.moved w.move).token = true from ht)]
      exact hshorter
    · rw [List.cons_append, List.map_cons, List.cons_append, Stream.skipWhile, if_neg ht,
        Stream.skipWhile, if_neg (show ¬p (t.moved w.move).token = true from ht)]
      exact .inl ⟨w.ne_eof t (hsuffix.subset List.mem_cons_self), t :: ts, hsuffix, rfl, rfl⟩

theorem Alike.skipNewlines (h : w.Alike s s') (hs : s.skipNewlines.1.peek ≠ .eof) :
    w.Alike s.skipNewlines.1 s'.skipNewlines.1 :=
  ((h.skipWhile rfl).resolve_right fun hend => hs hend.1).2

theorem Alike.skipNewlines_eat? (h : w.Alike s s') {m : Mark} {r : Stream}
    {hr : r.size < s.skipNewlines.1.size} (heat : s.skipNewlines.1.eat? m = some ⟨r, hr⟩) :
    ∃ r' hr', s'.skipNewlines.1.eat? m = some ⟨r', hr'⟩ ∧ w.Alike r r' :=
  (h.skipNewlines (Stream.peek_of_eat? heat)).eat?_some heat

theorem Alike.skipNewlines_expect (h : w.Alike s s') {m : Mark} {context : String} {r : Stream}
    {hr : r.size < s.skipNewlines.1.size}
    (hexpect : s.skipNewlines.1.expect m context = .ok ⟨r, hr⟩) :
    ∃ r' hr', s'.skipNewlines.1.expect m context = .ok ⟨r', hr'⟩ ∧ w.Alike r r' :=
  (h.skipNewlines (Stream.peek_of_expect hexpect)).expect hexpect

theorem Alike.skipSeparators (h : w.Alike s s') (hs : s.skipSeparators.1.peek ≠ .eof) :
    w.Alike s.skipSeparators.1 s'.skipSeparators.1 :=
  ((h.skipWhile rfl).resolve_right fun hend => hs hend.1).2

theorem Alike.skipSeparators_end (h : w.Alike s s') (hs : s.skipSeparators.1.peek = .eof) :
    ∃ last, s'.skipSeparators.1 = (Stream.skipSeparators ⟨w.other, last⟩).1 :=
  ((h.skipWhile rfl).resolve_left fun hnext => hnext.1 hs).2

/-- After a statement that ends with the first stream, a line break may be read from the second. -/
theorem Alike.endStatement (h : w.Alike s s') {r : Stream} {hr : r.size ≤ s.size}
    (hend : s.endStatement = .ok ⟨r, hr⟩) :
    ∃ r' hr', s'.endStatement = .ok ⟨r', hr'⟩ ∧ (w.Alike r r' ∨ r.peek = .eof ∧ w.Past r') := by
  by_cases hs : s.peek = .eof
  · have hstays := Stream.endStatement_of_peek (.inl hs)
    obtain rfl : s = r := congrArg Subtype.val (Except.ok.inj (hstays.symm.trans hend))
    rcases h.peek with hpeek | ⟨-, hpeek⟩
    · exact ⟨s', Nat.le_refl _, Stream.endStatement_of_peek (.inl (hpeek.trans hs)), .inl h⟩
    · have hother := h.tokens_of_end hs
      obtain ⟨_ | ⟨⟨token, span⟩, rest⟩, last⟩ := s'
      · cases hpeek
      · obtain rfl : token = .newline := hpeek
        exact ⟨⟨rest, some span⟩, Nat.le_succ _, rfl, .inr ⟨hs, span, hother.symm, rfl⟩⟩
  · obtain ⟨_ | ⟨⟨token, span⟩, rest⟩, last⟩ := s
    · exact absurd rfl hs
    · obtain ⟨rest', last', rfl, hrest⟩ := h.next rfl hs
      unfold Stream.endStatement at hend
      split at hend
      · rename_i htokens
        cases htokens
        cases hend
        exact ⟨_, Nat.le_succ _, rfl, .inl (hrest _ _)⟩
      · rename_i htokens
        cases htokens
        cases hend
        exact ⟨_, Nat.le_succ _, rfl, .inl (hrest _ _)⟩
      · rename_i htokens
        cases htokens
        cases hend
        exact ⟨_, Nat.le_refl _, rfl, .inl h⟩
      · rename_i htokens
        cases htokens
        exact absurd rfl hs
      · rename_i htokens
        cases htokens
      · cases hend

end Fork

end Ember
