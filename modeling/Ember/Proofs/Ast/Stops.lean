import Ember.Proofs.Ast.Forks

/-! Where reading stops. Nothing that has to be there is read at the end, and the loops over
operators and over calls, subscripts and attributes stop before any other token. -/
namespace Ember
set_option autoImplicit false

/-! ## Nothing is read at the end -/

theorem parsePrimary_end {s : Stream} (h : s.peek = .eof) {x : Parsed Expr s.size} :
    parsePrimary s ≠ .ok x := by
  intro hok
  rw [parsePrimary] at hok
  split at hok
  · cases hok
  · rename_i t rest htokens
    rw [Stream.peek_of_tokens htokens] at h
    rw [h] at hok
    cases hok

theorem parsePower_end {s : Stream} (h : s.peek = .eof) {x : Parsed Expr s.size} :
    parsePower s ≠ .ok x := by
  intro hok
  rw [parsePower] at hok
  split at hok
  · cases hok
  · rename_i heq
    rw [parsePostfix] at heq
    split at heq
    · cases heq
    · rename_i hprimary
      exact parsePrimary_end h hprimary

theorem parseUnary_end {s : Stream} (h : s.peek = .eof) {x : Parsed Expr s.size} :
    parseUnary s ≠ .ok x := by
  intro hok
  rw [parseUnary] at hok
  split at hok
  · exact parsePower_end h hok
  · rename_i t rest htokens
    rw [Stream.peek_of_tokens htokens] at h
    rw [h] at hok
    exact parsePower_end ((Stream.peek_of_tokens htokens).trans h) hok

theorem parseBinary_end {least : Nat} {s : Stream} (h : s.peek = .eof) {x : Parsed Expr s.size} :
    parseBinary least s ≠ .ok x := by
  intro hok
  rw [parseBinary] at hok
  split at hok
  · cases hok
  · rename_i hunary
    exact parseUnary_end h hunary

theorem parseParamsLoop_end {bound : Nat} {s : Stream} {hlt : s.size < bound}
    {found : List String} (h : s.peek = .eof) {x : Parsed (List String) bound} :
    parseParamsLoop bound s hlt found ≠ .ok x := by
  intro hok
  rw [parseParamsLoop] at hok
  split at hok
  · rename_i hnext
    obtain ⟨r, heat⟩ := Option.isSome_iff_exists.1 hnext
    exact Stream.peek_of_eat? heat h
  · split at hok
    · cases hok
    · rename_i hident
      obtain ⟨span, rest, htokens, -⟩ := Stream.tokens_of_expectIdent hident
      rw [Stream.peek_of_tokens htokens] at h
      cases h

theorem parseItems_end {close : Mark} {context : String} {bound : Nat} {s : Stream}
    {hlt : s.size < bound} {found : List Expr} (h : s.peek = .eof)
    {x : Parsed (List Expr) bound} : parseItems close context bound s hlt found ≠ .ok x := by
  intro hok
  rw [parseItems] at hok
  split at hok
  · rename_i heat
    exact Stream.peek_of_eat? heat h
  · split at hok
    · cases hok
    · rename_i hitem
      exact parseBinary_end h hitem

theorem parseEntries_end {bound : Nat} {s : Stream} {hlt : s.size < bound}
    {found : List (Expr × Expr)} (h : s.peek = .eof) {x : Parsed (List (Expr × Expr)) bound} :
    parseEntries bound s hlt found ≠ .ok x := by
  intro hok
  rw [parseEntries] at hok
  split at hok
  · split at hok
    · cases hok
    · rename_i hclose
      exact Stream.peek_of_expect hclose h
  · rename_i hcomma
    exact Stream.peek_of_eat? hcomma h

theorem parseSimple_end {s : Stream} (h : s.peek = .eof) {x : Parsed Stmt s.size} :
    parseSimple s ≠ .ok x := by
  intro hok
  rw [parseSimple] at hok
  split at hok
  · cases hok
  · rename_i htarget
    exact parseBinary_end h htarget

theorem parseBlockLoop_end {bound : Nat} {s : Stream} {hlt : s.size < bound} {found : List Stmt}
    (h : s.peek = .eof) {x : Parsed (List Stmt) bound} :
    parseBlockLoop bound s hlt found ≠ .ok x := by
  intro hok
  have hpeek := (congrArg Stream.peek (Stream.skipSeparators_end h)).trans h
  rw [parseBlockLoop] at hok
  dsimp only at hok
  split at hok
  · rename_i heat
    exact Stream.peek_of_eat? heat hpeek
  · rw [hpeek] at hok
    cases hok

/-! ## Where readers stop -/

variable {w : Fork} {s s' : Stream}

/-- An operator that binds too weakly, or none, ends an operand. -/
theorem parseBinaryLoop_stops {bound least : Nat} {left : Expr} {s : Stream} {hlt : s.size < bound}
    (h : ∀ strength joint, binding? s.peek = some (strength, joint) → strength < least) :
    parseBinaryLoop bound least left s hlt = .ok ⟨left, s, hlt⟩ := by
  rw [parseBinaryLoop]
  split
  · rfl
  · rename_i t rest htokens
    rw [Stream.peek_of_tokens htokens] at h
    split
    · rfl
    · rename_i strength joint hbinding
      rw [if_pos (h strength joint hbinding)]

theorem Joint.moved_node (j : Joint) (f : Span → Span) (span : Span) (left right : Expr) :
    (j.node span left right).moved f = j.node (f span) (left.moved f) (right.moved f) := by
  cases j <;> rfl

theorem Fork.Alike.stops_binary (h : w.Alike s s') {least bound : Nat} {left : Expr}
    {hlt : s'.size < bound}
    (hs : ∀ strength joint, binding? s.peek = some (strength, joint) → strength < least) :
    w.Reads (parseBinaryLoop bound least left s' hlt) left s :=
  ⟨s', hlt, parseBinaryLoop_stops (h.of_peek (P := fun t => ∀ strength joint,
    binding? t = some (strength, joint) → strength < least) hs nofun), h⟩

/-- Whatever begins no call, subscript or attribute ends an operand. -/
theorem parsePostfixLoop_stops {bound : Nat} {object : Expr} {s : Stream} {hlt : s.size < bound}
    (h : s.peek ≠ .mark .lParen ∧ s.peek ≠ .mark .lBracket ∧ s.peek ≠ .mark .dot) :
    parsePostfixLoop bound object s hlt = .ok ⟨object, s, hlt⟩ := by
  rw [parsePostfixLoop]
  split
  · rfl
  · rename_i t rest htokens
    rw [Stream.peek_of_tokens htokens] at h
    dsimp only
    split
    · exact absurd ‹_› h.1
    · exact absurd ‹_› h.2.1
    · exact absurd ‹_› h.2.2
    · rfl

theorem Fork.Alike.stops_postfix (h : w.Alike s s') {bound : Nat} {object : Expr}
    {hlt : s'.size < bound}
    (hs : s.peek ≠ .mark .lParen ∧ s.peek ≠ .mark .lBracket ∧ s.peek ≠ .mark .dot) :
    w.Reads (parsePostfixLoop bound object s' hlt) object s :=
  ⟨s', hlt, parsePostfixLoop_stops (h.of_peek (P := fun t => t ≠ .mark .lParen ∧
    t ≠ .mark .lBracket ∧ t ≠ .mark .dot) hs ⟨nofun, nofun, nofun⟩), h⟩

theorem isLeastLiteral_iff {op : UnaryOperator} {s : Stream} :
    isLeastLiteral op s = true ↔
      op = .negate ∧ s.peek = .integer leastMagnitude ∧ s.peekSecond ≠ .mark .starStar := by
  unfold isLeastLiteral
  split <;> simp_all

theorem Fork.Alike.isLeastLiteral (h : w.Alike s s') (op : UnaryOperator) :
    isLeastLiteral op s' = isLeastLiteral op s := by
  rw [Bool.eq_iff_iff, isLeastLiteral_iff, isLeastLiteral_iff]
  rcases h.peek with hpeek | ⟨hend, hline⟩
  · rw [hpeek]
    refine and_congr_right fun _ => and_congr_right fun hleast => ?_
    rcases h.peekSecond (by rw [hleast]; exact nofun) with hsecond | ⟨hend, hline⟩
    · rw [hsecond]
    · rw [hend, hline]
      exact iff_of_true nofun nofun
  · rw [hend, hline]
    exact iff_of_false nofun nofun

/-- A function without a name is an expression. -/
theorem parseStatement_func {s : Stream} (h : s.peek = .keyword .func)
    (hsecond : ∀ name, s.peekSecond ≠ .ident name) : parseStatement s = parseSimple s := by
  rw [parseStatement]
  split
  · rfl
  · rename_i t rest htokens
    obtain ⟨token, span⟩ := t
    obtain rfl : token = .keyword .func := (Stream.peek_of_tokens htokens).symm.trans h
    obtain _ | ⟨⟨token, nameSpan⟩, after⟩ := rest
    · rfl
    · cases token with
      | ident name => exact absurd (Stream.peekSecond_of_tokens htokens) (hsecond name)
      | _ => rfl

theorem parseStatement_ident {s : Stream} {name : String} (h : s.peek = .ident name)
    (hsecond : s.peekSecond ≠ .mark .declare) : parseStatement s = parseSimple s := by
  rw [parseStatement]
  split
  · rfl
  · rename_i t rest htokens
    obtain ⟨token, span⟩ := t
    obtain rfl : token = .ident name := (Stream.peek_of_tokens htokens).symm.trans h
    obtain _ | ⟨⟨token, markSpan⟩, after⟩ := rest
    · rfl
    · cases token with
      | mark m =>
        cases m with
        | declare => exact absurd (Stream.peekSecond_of_tokens htokens) hsecond
        | _ => rfl
      | _ => rfl

/-- A block begins with a brace. -/
theorem peek_of_parseBlock {s : Stream} {x : Parsed (List Stmt) s.size}
    (h : parseBlock s = .ok x) : s.peek = .mark .lBrace := by
  rw [parseBlock] at h
  split at h
  · cases h
  · rename_i hopen
    obtain ⟨span, rest, htokens, -⟩ := Stream.tokens_of_eat? (Stream.eat?_of_expect hopen)
    exact Stream.peek_of_tokens htokens

theorem Expr.isAssignable_moved (f : Span → Span) (e : Expr) :
    (e.moved f).isAssignable = e.isAssignable := by
  cases e <;> rfl

end Ember
