import Ember.Proofs.Ast.Printer
import Ember.Proofs.Ast.Streams

/-! Operands and operators are read back as they are written. An expression is found where its
tokens stand if what follows does not take a part of it as an operand: `pull` says how strongly it
takes, and the level of the expression how much it withstands. -/
namespace Ember
set_option autoImplicit false

/-! ## What follows an expression -/

/-- How strongly a token takes what stands before it as its operand. -/
def Token.pull : Token → Nat
  | .mark .lParen | .mark .lBracket | .mark .dot => 13
  | .mark .starStar => 12
  | t => ((binding? t).map (·.1)).getD 0

def pull : List Token → Nat
  | [] => 0
  | t :: _ => t.pull

theorem pull_of_binding {t : Token} {strength : Nat} {joint : Joint}
    (h : binding? t = some (strength, joint)) : t.pull = strength := by
  cases t with
  | mark m => cases m <;> first | cases h; rfl | cases h
  | _ => cases h

theorem pull_kinds {s : Stream} {t : Lexeme} {rest : List Lexeme} (h : s.tokens = t :: rest) :
    pull s.kinds = t.token.pull := by
  rw [Stream.kinds, h]
  rfl

section

variable {s : Stream} {e : Expr} {rest : List Token}

theorem parsePostfixLoop_stop {bound : Nat} {hs : s.size < bound} (h : pull s.kinds < 13) :
    parsePostfixLoop bound e s hs = .ok ⟨e, s, hs⟩ := by
  rw [parsePostfixLoop]
  split
  · rfl
  · rename_i t rest htokens
    rw [pull_kinds htokens] at h
    dsimp only
    split
    · rename_i htoken
      simp [htoken, Token.pull] at h
    · rename_i htoken
      simp [htoken, Token.pull] at h
    · rename_i htoken
      simp [htoken, Token.pull] at h
    · rfl

theorem parseBinaryLoop_stop {bound least : Nat} {hs : s.size < bound} (h : pull s.kinds < least) :
    parseBinaryLoop bound least e s hs = .ok ⟨e, s, hs⟩ := by
  rw [parseBinaryLoop]
  split
  · rfl
  · rename_i t rest htokens
    rw [pull_kinds htokens] at h
    split
    · rfl
    · rename_i strength joint hbinding
      rw [pull_of_binding hbinding] at h
      rw [if_pos h]

theorem eat?_starStar (h : pull s.kinds < 12) : s.eat? .starStar = none := by
  refine Stream.eat?_eq_none fun hhead => ?_
  obtain ⟨ks, hks⟩ := List.head?_eq_some_iff.1 hhead
  rw [hks] at h
  exact absurd h (Nat.lt_irrefl 12)

/-! ## Operands -/

/-- Reading an operand finds `e` first and goes on with the calls and subscripts in `rest`. -/
def StartsPostfix (s : Stream) (e : Expr) (rest : List Token) : Prop :=
  parseUnary s = parsePower s ∧
    ∃ e' r h, parsePostfix s = parsePostfixLoop s.size e' r h ∧ e'.bare = e.bare ∧ r.kinds = rest

/-- Reading operators that bind at least as strongly as `least` finds `e` first and goes on with
those in `rest`. -/
def StartsBinary (least : Nat) (s : Stream) (e : Expr) (rest : List Token) : Prop :=
  ∃ e' r h, parseBinary least s = parseBinaryLoop s.size least e' r h ∧ e'.bare = e.bare ∧
    r.kinds = rest

theorem StartsPostfix.reads_power (h : StartsPostfix s e rest) (hrest : pull rest < 12) :
    (parsePower s).Reads (·.bare = e.bare) rest := by
  obtain ⟨-, e', r, hr, hsuffix, he, rfl⟩ := h
  rw [parsePostfixLoop_stop (by omega)] at hsuffix
  rw [parsePower, hsuffix]
  dsimp only
  rw [eat?_starStar hrest]
  exact ⟨e', r, hr, rfl, he, rfl⟩

theorem StartsPostfix.reads (h : StartsPostfix s e rest) (hrest : pull rest < 12) :
    (parseUnary s).Reads (·.bare = e.bare) rest := by
  rw [h.1]
  exact h.reads_power hrest

theorem startsBinary_of_reads (least : Nat) (h : (parseUnary s).Reads (·.bare = e.bare) rest) :
    StartsBinary least s e rest := by
  obtain ⟨e', r, hr, hunary, he, hrest⟩ := h
  exact ⟨e', r, hr, by rw [parseBinary, hunary], he, hrest⟩

theorem StartsBinary.reads {least : Nat} (h : StartsBinary least s e rest)
    (hrest : pull rest < least) : (parseBinary least s).Reads (·.bare = e.bare) rest := by
  obtain ⟨e', r, hr, hbinary, he, rfl⟩ := h
  rw [hbinary, parseBinaryLoop_stop hrest]
  exact ⟨e', r, hr, rfl, he, rfl⟩

theorem parseUnary_eq_parsePower (h : ∀ k ∈ s.kinds.head?, unary? k = none) :
    parseUnary s = parsePower s := by
  rw [parseUnary]
  split
  · rfl
  · rename_i t rest htokens
    have ht : unary? t.token = none := h t.token (by simp [Stream.kinds, htokens])
    rw [ht]

theorem startsPostfix_of_primary (hhead : ∀ k ∈ s.kinds.head?, unary? k = none)
    (h : (parsePrimary s).Reads (·.bare = e.bare) rest) : StartsPostfix s e rest := by
  obtain ⟨e', r, hr, hprimary, he, hrest⟩ := h
  exact ⟨parseUnary_eq_parsePower hhead, e', r, hr, by rw [parsePostfix, hprimary], he, hrest⟩

/-! ## First tokens -/

/-- Tokens that an expression can begin with. -/
def Token.opens : Token → Bool
  | .integer n => n < leastMagnitude
  | .float _ | .string _ | .ident _ => true
  | .keyword k =>
    match k with
    | .true | .false | .nil | .func => true
    | _ => false
  | .mark m =>
    match m with
    | .lParen | .lBracket | .lBrace | .minus | .plus | .bang | .tilde => true
    | _ => false
  | .comment _ | .newline | .eof => false

/-- The tokens begin as those of an expression; a function in an expression has no name. -/
def Opens (ts : List Token) : Prop :=
  ∃ k ks, ts = k :: ks ∧ k.opens = true ∧
    (k = .keyword .func → ∃ ks', ks = .mark .lParen :: ks')

theorem Opens.append {ts : List Token} (h : Opens ts) (rest : List Token) : Opens (ts ++ rest) := by
  obtain ⟨k, ks, rfl, hk, hfunc⟩ := h
  refine ⟨k, ks ++ rest, rfl, hk, fun hk' => ?_⟩
  obtain ⟨ks', rfl⟩ := hfunc hk'
  exact ⟨ks' ++ rest, rfl⟩

theorem Opens.enclosed {ts : List Token} (h : Opens ts) (demand level : Nat) :
    Opens (enclosed demand level ts) := by
  rw [Ember.enclosed]
  split
  · exact ⟨.mark .lParen, _, rfl, rfl, nofun⟩
  · exact h

theorem natAbs_lt_leastMagnitude {n : Int64} (h : 0 ≤ n) : n.toInt.natAbs < leastMagnitude := by
  have hlow : (0 : Int) ≤ n.toInt := Int64.le_iff_toInt_le.1 h
  have hhigh := n.toInt_lt
  rw [leastMagnitude]
  omega

theorem Expr.opens_tokens : ∀ e : Expr, Opens e.tokens
  | .int _ n => by
    rw [Expr.tokens]
    split
    · exact ⟨_, _, rfl, rfl, nofun⟩
    · rename_i h
      exact ⟨_, _, rfl, decide_eq_true (natAbs_lt_leastMagnitude (Int64.not_lt.1 h)), nofun⟩
  | .float .. | .str .. | .bool _ true | .bool _ false | .nil _ | .ident .. | .list .. | .map ..
  | .set .. => ⟨_, _, rfl, rfl, nofun⟩
  | .func .. => ⟨_, _, rfl, rfl, fun _ => ⟨_, rfl⟩⟩
  | .unary _ op _ => by cases op <;> exact ⟨_, _, rfl, rfl, nofun⟩
  | .binary _ _ left _ => ((opens_tokens left).enclosed _ _).append _
  | .logical _ _ left _ => ((opens_tokens left).enclosed _ _).append _
  | .call _ callee _ => (((opens_tokens callee).enclosed _ _).append _).append _
  | .index _ object _ => (((opens_tokens object).enclosed _ _).append _).append _
  | .attr _ object _ => ((opens_tokens object).enclosed _ _).append _

theorem Opens.head {ts : List Token} (h : Opens ts) : ∀ k ∈ ts.head?, k.opens = true := by
  obtain ⟨k, ks, rfl, hk, -⟩ := h
  intro k' hk'
  cases hk'
  exact hk

theorem Opens.skipNewlines {ts : List Token} (h : Opens ts) (hs : s.kinds = ts) :
    s.skipNewlines.1.kinds = ts := by
  obtain ⟨k, ks, rfl, hk, -⟩ := h
  refine Stream.kinds_skipNewlines hs ?_
  cases k <;> first | rfl | cases hk

theorem Opens.eat? (h : Opens s.kinds) {m : Mark} (hm : (Token.mark m).opens = false) :
    s.eat? m = none := by
  refine Stream.eat?_eq_none fun hmem => ?_
  have hopens := h.head _ hmem
  rw [hm] at hopens
  cases hopens

/-! ## Readable expressions -/

/-- What is found where the expression stands, by the level at which it holds together. What follows
must not take a part of the expression as its operand. -/
structure Readable (e : Expr) : Prop where
  tight : 13 ≤ e.level → ∀ {s rest}, s.kinds = e.tokens ++ rest → StartsPostfix s e rest
  signed : 11 ≤ e.level → e.level < 13 → ∀ {s rest}, s.kinds = e.tokens ++ rest →
    pull rest < 11 → (parseUnary s).Reads (·.bare = e.bare) rest
  joined : e.level < 11 → ∀ {s rest}, s.kinds = e.tokens ++ rest → pull rest ≤ e.level →
    ∀ least ≤ e.level, StartsBinary least s e rest

theorem Operation.strength_pos (op : Operation) : 1 ≤ op.strength := by
  cases op with
  | arithmetic op => cases op <;> decide
  | comparison op => cases op <;> decide

theorem Connective.strength_pos (op : Connective) : 1 ≤ op.strength := by cases op <;> decide

theorem Expr.level_pos (e : Expr) : 1 ≤ e.level := by
  cases e with
  | int _ n => rw [Expr.level]; split <;> decide
  | binary _ op _ _ => exact op.strength_pos
  | logical _ op _ _ => exact op.strength_pos
  | _ => exact Nat.succ_pos _

namespace Readable

theorem of_tight (hlevel : 13 ≤ e.level)
    (h : ∀ {s rest}, s.kinds = e.tokens ++ rest → StartsPostfix s e rest) : Readable e :=
  ⟨fun _ => h, fun _ h' => by omega, fun h' => by omega⟩

theorem of_signed (hlevel : 11 ≤ e.level) (hlevel' : e.level < 13)
    (h : ∀ {s rest}, s.kinds = e.tokens ++ rest → pull rest < 11 →
      (parseUnary s).Reads (·.bare = e.bare) rest) : Readable e :=
  ⟨fun h' => by omega, fun _ _ => h, fun h' => by omega⟩

theorem of_joined (hlevel : e.level < 11)
    (h : ∀ {s rest}, s.kinds = e.tokens ++ rest → pull rest ≤ e.level →
      ∀ least ≤ e.level, StartsBinary least s e rest) : Readable e :=
  ⟨fun h' => by omega, fun h' _ => by omega, fun _ => h⟩

theorem starts (h : Readable e) (hs : s.kinds = e.tokens ++ rest) (hrest : pull rest < 11)
    (hpull : pull rest ≤ e.level) {least : Nat} (hleast : least ≤ e.level) :
    StartsBinary least s e rest := by
  by_cases hjoined : e.level < 11
  · exact h.joined hjoined hs hpull least hleast
  · by_cases htight : 13 ≤ e.level
    · exact startsBinary_of_reads least ((h.tight htight hs).reads (by omega))
    · exact startsBinary_of_reads least (h.signed (by omega) (by omega) hs hrest)

/-- An expression is read whole where nothing follows that could go on with it. -/
theorem whole (h : Readable e) (hs : s.kinds = e.tokens ++ rest) (hrest : pull rest = 0) :
    (parseBinary 1 s).Reads (·.bare = e.bare) rest :=
  (h.starts hs (by omega) (by omega) e.level_pos).reads (by omega)

theorem parenthesized (h : Readable e)
    (hs : s.kinds = .mark .lParen :: e.tokens ++ [Token.mark .rParen] ++ rest) :
    StartsPostfix s e rest := by
  refine startsPostfix_of_primary (by simp [hs, unary?]) ?_
  have hs : s.kinds = .mark .lParen :: (e.tokens ++ .mark .rParen :: rest) := by simpa using hs
  obtain ⟨tokens, last⟩ := s
  obtain ⟨span, ts, rfl, hts⟩ := Stream.tokens_of_kinds hs
  have hinside := (e.opens_tokens.append _).skipNewlines (s := ⟨ts, some span⟩) hts
  obtain ⟨e', r, hr, hread, he, hr'⟩ := h.whole hinside rfl
  obtain ⟨r', hr'', hexpect, hrest⟩ := Stream.expect_of_kinds "to close parenthesized expression"
    (Stream.kinds_skipNewlines hr' rfl)
  rw [parsePrimary]
  dsimp only
  rw [hread]
  dsimp only
  rw [hexpect]
  exact ⟨e', r', _, rfl, he, hrest⟩

theorem operand_tight (h : Readable e) (hs : s.kinds = e.operand 13 ++ rest) :
    StartsPostfix s e rest := by
  rw [Expr.operand, enclosed] at hs
  split at hs
  · exact h.parenthesized hs
  · exact h.tight (by omega) hs

theorem operand_signed (h : Readable e) (hs : s.kinds = e.operand 11 ++ rest)
    (hrest : pull rest < 11) : (parseUnary s).Reads (·.bare = e.bare) rest := by
  rw [Expr.operand, enclosed] at hs
  split at hs
  · exact (h.parenthesized hs).reads (by omega)
  · by_cases htight : 13 ≤ e.level
    · exact (h.tight htight hs).reads (by omega)
    · exact h.signed (by omega) (by omega) hs hrest

theorem operand_joined (h : Readable e) {demand least : Nat}
    (hs : s.kinds = e.operand demand ++ rest) (hrest : pull rest < 11) (hpull : pull rest ≤ demand)
    (hleast : least ≤ demand) : StartsBinary least s e rest := by
  rw [Expr.operand, enclosed] at hs
  split at hs
  · exact startsBinary_of_reads least ((h.parenthesized hs).reads (by omega))
  · exact h.starts hs hrest (by omega) (by omega)

end Readable

theorem Expr.opens_operand (e : Expr) (demand : Nat) : Opens (e.operand demand) :=
  e.opens_tokens.enclosed demand e.level

/-! ## Signs and operators -/

theorem isLeastLiteral_eq_false (op : UnaryOperator) (h : Opens s.kinds) :
    isLeastLiteral op s = false := by
  obtain ⟨k, ks, hks, hk, -⟩ := h
  unfold isLeastLiteral
  split
  · rfl
  · rename_i n hpeek _
    rw [Stream.peek_of_kinds hks] at hpeek
    subst hpeek
    exact beq_eq_false_iff_ne.2 (Nat.ne_of_lt (of_decide_eq_true hk))
  · rfl

theorem unary?_mark (op : UnaryOperator) : unary? (.mark op.mark) = some op := by
  cases op <;> rfl

theorem readable_unary (span : Span) (op : UnaryOperator) (h : Readable e) :
    Readable (.unary span op e) := by
  refine .of_signed (Nat.le_refl 11) (by decide : 11 < 13) fun {s rest} hs hrest => ?_
  obtain ⟨tokens, last⟩ := s
  obtain ⟨opSpan, ts, rfl, hts⟩ := Stream.tokens_of_kinds hs
  have hopens : Opens (Stream.kinds ⟨ts, some opSpan⟩) := by
    rw [Stream.kinds, hts]
    exact (e.opens_operand 11).append rest
  obtain ⟨e', r, hr, hread, he, hkinds⟩ := h.operand_signed (s := ⟨ts, some opSpan⟩) hts hrest
  rw [parseUnary]
  simp only [unary?_mark, isLeastLiteral_eq_false op hopens, Bool.false_eq_true, if_false]
  rw [hread]
  exact ⟨.unary opSpan op e', r, _, rfl, by simp [Expr.bare, he], hkinds⟩

theorem Expr.level_least (span : Span) : (Expr.int span Int64.minValue).level = 11 := by
  rw [Expr.level, if_pos (by decide)]

theorem Expr.tokens_least (span : Span) :
    (Expr.int span Int64.minValue).tokens = [.mark .minus, .integer leastMagnitude] := by
  rw [Expr.tokens, if_pos (by decide)]
  rfl

theorem isLeastLiteral_eq_true (hs : s.kinds = .integer leastMagnitude :: rest)
    (hrest : pull rest < 12) : isLeastLiteral .negate s = true := by
  have hsecond : s.peekSecond ≠ .mark .starStar := by
    rw [Stream.peekSecond_of_kinds hs]
    cases rest with
    | nil => exact nofun
    | cons k ks =>
      rintro rfl
      exact absurd hrest (Nat.lt_irrefl 12)
  unfold isLeastLiteral
  rw [Stream.peek_of_kinds hs]
  split
  · rename_i hpower
    exact absurd hpower hsecond
  · rename_i hinteger _
    cases hinteger
    rfl
  · rename_i hother _
    exact (hother _ rfl rfl).elim

/-- The least integer is one literal with its sign, unless a power takes the digits alone. -/
theorem readable_least (span : Span) : Readable (.int span Int64.minValue) := by
  have hlevel := Expr.level_least span
  refine .of_signed (by omega) (by omega) ?_
  intro s rest hs hrest
  rw [Expr.tokens_least] at hs
  obtain ⟨tokens, last⟩ := s
  obtain ⟨opSpan, ts, rfl, hts⟩ := Stream.tokens_of_kinds hs
  have hkinds : Stream.kinds ⟨ts, some opSpan⟩ = .integer leastMagnitude :: rest := hts
  have hleast := isLeastLiteral_eq_true hkinds (by omega)
  rw [parseUnary]
  simp only [unary?, hleast, if_true]
  refine ⟨_, _, _, rfl, rfl, ?_⟩
  rw [Stream.kinds, List.map_drop, hts]
  rfl

/-- Operators between operands are read from left to right. -/
theorem startsBinary_joint {m : Mark} {strength : Nat} {joint : Joint} {left right : Expr}
    (hm : binding? (.mark m) = some (strength, joint)) (span : Span)
    (hleft : Readable left) (hright : Readable right)
    (hs : s.kinds = left.operand strength ++ .mark m :: right.operand (strength + 1) ++ rest)
    (hrest : pull rest ≤ strength) (hstrength : strength < 11) {least : Nat}
    (hleast : least ≤ strength) :
    StartsBinary least s (joint.node span left right) rest := by
  have hmark : Token.pull (.mark m) = strength := pull_of_binding hm
  have hs : s.kinds =
      left.operand strength ++ (.mark m :: (right.operand (strength + 1) ++ rest)) := by
    simpa using hs
  obtain ⟨left', r, hr, hstart, hleft', hkinds⟩ :=
    hleft.operand_joined hs (by rw [pull]; omega) (by rw [pull]; omega) hleast
  obtain ⟨tokens, last⟩ := r
  obtain ⟨opSpan, ts, rfl, hts⟩ := Stream.tokens_of_kinds hkinds
  have hskip := ((right.opens_operand (strength + 1)).append rest).skipNewlines
    (s := ⟨ts, some opSpan⟩) hts
  have hbelow : pull rest < strength + 1 := by omega
  obtain ⟨right', r', hr', hread, hright', hkinds'⟩ :=
    (hright.operand_joined hskip (by omega) (by omega) (Nat.le_refl _)).reads hbelow
  have hsize := (Stream.skipNewlines ⟨ts, some opSpan⟩).2
  refine ⟨joint.node opSpan left' right', r', ?_, ?_, ?_, hkinds'⟩
  · simp only [Stream.size, List.length_cons] at hr hr' hsize ⊢
    omega
  · rw [hstart, parseBinaryLoop]
    simp only [hm, Nat.not_lt.2 hleast, if_false]
    rw [hread]
  · cases joint <;> simp [Joint.node, Expr.bare, hleft', hright']

theorem readable_logical (span : Span) (op : Connective) {left right : Expr}
    (hleft : Readable left) (hright : Readable right) : Readable (.logical span op left right) := by
  have hlevel : op.strength < 11 := by cases op <;> decide
  have hmark : binding? (.mark op.mark) = some (op.strength, .connective op) := by cases op <;> rfl
  refine .of_joined hlevel fun hs hrest least hleast => ?_
  exact startsBinary_joint hmark span hleft hright hs hrest hlevel hleast

/-- A power takes what stands before it without its sign, and an exponent with a sign. -/
theorem readable_power (span : Span) {left right : Expr} (hleft : Readable left)
    (hright : Readable right) : Readable (.binary span (.arithmetic .power) left right) := by
  refine .of_signed (by decide : 11 ≤ 12) (by decide : 12 < 13) fun {s rest} hs hrest => ?_
  have hs : s.kinds = left.operand 13 ++ .mark .starStar :: (right.operand 11 ++ rest) := by
    rw [hs, ← List.cons_append, ← List.append_assoc]
    rfl
  obtain ⟨hunary, left', r, hr, hsuffix, hleft', hkinds⟩ := hleft.operand_tight hs
  obtain ⟨r₁, hr₁, heat, hkinds₁⟩ := Stream.eat?_of_kinds hkinds
  have hskip := ((right.opens_operand 11).append rest).skipNewlines hkinds₁
  obtain ⟨right', r₂, hr₂, hread, hright', hkinds₂⟩ := hright.operand_signed hskip hrest
  have hstop : parsePostfix s = .ok ⟨left', r, hr⟩ := by
    rw [hsuffix, parsePostfixLoop_stop]
    rw [hkinds]
    exact (by decide : 12 < 13)
  rw [hunary, parsePower, hstop]
  dsimp only
  rw [heat]
  dsimp only
  rw [hread]
  exact ⟨_, r₂, _, rfl, by simp [Expr.bare, hleft', hright'], hkinds₂⟩

theorem readable_binary (span : Span) (op : Operation) {left right : Expr}
    (hleft : Readable left) (hright : Readable right) : Readable (.binary span op left right) := by
  by_cases hpower : op = .arithmetic .power
  · subst hpower
    exact readable_power span hleft hright
  · have hlevel : op.strength < 11 := by
      cases op with
      | comparison op => cases op <;> decide
      | arithmetic op => cases op <;> first | decide | exact absurd rfl hpower
    have hmark : binding? (.mark op.mark) = some (op.strength, .operation op) := by
      cases op with
      | comparison op => cases op <;> rfl
      | arithmetic op => cases op <;> first | rfl | exact absurd rfl hpower
    have hdemands : op.leftDemand = op.strength ∧ op.rightDemand = op.strength + 1 := by
      cases op with
      | comparison op => exact ⟨rfl, rfl⟩
      | arithmetic op => cases op <;> first | exact ⟨rfl, rfl⟩ | exact absurd rfl hpower
    refine .of_joined hlevel fun hs hrest least hleast => ?_
    rw [Expr.tokens, hdemands.1, hdemands.2] at hs
    exact startsBinary_joint hmark span hleft hright hs hrest hlevel hleast

end

end Ember
