import Ember.Token.Lexer

/-! Texts that are read as given tokens. A token is read from its spelling whatever follows, if that
cannot be taken as more of it; so the spellings of tokens can be put one after the other. Quoted
text is read as what was quoted, and a number from its decimal digits. -/
namespace Ember
set_option autoImplicit false

/-- In front of `rest`, the characters are read as the tokens. -/
def Spells (cs : List Char) (ts : List Token) (rest : List Char) : Prop :=
  ∀ span found, ∃ (lexemes : List Lexeme) (span' : Span), lexemes.map (·.token) = ts ∧
    lexFrom span (cs ++ rest) found = lexFrom span' rest (lexemes.reverse ++ found)

namespace Spells

variable {cs cs' : List Char} {ts ts' : List Token} {rest : List Char}

theorem nil (rest : List Char) : Spells [] [] rest := fun span _ => ⟨[], span, rfl, rfl⟩

theorem append (h : Spells cs ts (cs' ++ rest)) (h' : Spells cs' ts' rest) :
    Spells (cs ++ cs') (ts ++ ts') rest := by
  intro span found
  obtain ⟨lexemes, span₁, htokens, hread⟩ := h span found
  obtain ⟨lexemes', span₂, htokens', hread'⟩ := h' span₁ (lexemes.reverse ++ found)
  refine ⟨lexemes ++ lexemes', span₂, ?_, ?_⟩
  · rw [List.map_append, htokens, htokens']
  · rw [List.append_assoc, hread, hread', List.reverse_append, List.append_assoc]

/-- A whole text. -/
theorem lex_eq (h : Spells cs ts []) :
    ∃ lexemes, lex (String.ofList cs) = .ok lexemes ∧
      lexemes.map (·.token) = ts ++ [Token.eof] := by
  obtain ⟨lexemes, span, htokens, hread⟩ := h .start []
  rw [List.append_nil, List.append_nil, lexFrom] at hread
  refine ⟨lexemes ++ [⟨.eof, span⟩], ?_, ?_⟩
  · rw [lex, String.toList_ofList, hread, List.reverse_cons, List.reverse_reverse]
  · rw [List.map_append, htokens]
    rfl

/-- One token, of which all characters are taken. -/
theorem of_scan {c : Char} {t : Token} (hspacing : isSpacing c = false)
    (hline : (c == '\n') = false) (h : scan c (cs ++ rest) = .ok (t, cs.length)) :
    Spells (c :: cs) [t] rest := by
  intro span found
  refine ⟨[⟨t, span⟩], span.along (cs.length + 1), rfl, ?_⟩
  rw [List.cons_append, lexFrom, if_neg (by rw [hspacing]; decide), if_neg (by rw [hline]; decide),
    h]
  dsimp only
  rw [List.drop_left]
  rfl

theorem space (rest : List Char) : Spells [' '] [] rest := by
  intro span found
  refine ⟨[], span.along 1, rfl, ?_⟩
  rw [List.cons_append, lexFrom, if_pos (by decide)]
  rfl

end Spells

/-! ## Marks -/

theorem scanMark_eq {c : Char} {m : Mark} (hpair : ∀ d, pairMark? c d = none)
    (h : singleMark? c = some m) (rest : List Char) : scanMark c rest = .ok (.mark m, 0) := by
  have hnone : rest.head?.bind (pairMark? c) = none := by
    cases rest with
    | nil => rfl
    | cons d rest => exact hpair d
  rw [scanMark, hnone, h]

/-- The characters that are a mark by themselves, whatever follows. -/
def delimiters : List (Char × Mark) :=
  [('[', .lBracket), (']', .rBracket), ('\x7b', .lBrace), ('\x7d', .rBrace), (',', .comma),
    ('-', .minus)]

namespace Spells

theorem delimiter {c : Char} {m : Mark} (h : (c, m) ∈ delimiters) (rest : List Char) :
    Spells [c] [.mark m] rest := by
  simp only [delimiters, List.mem_cons, List.not_mem_nil, or_false, Prod.mk.injEq] at h
  obtain ⟨rfl, rfl⟩ | ⟨rfl, rfl⟩ | ⟨rfl, rfl⟩ | ⟨rfl, rfl⟩ | ⟨rfl, rfl⟩ | ⟨rfl, rfl⟩ := h <;>
    exact of_scan rfl rfl (scanMark_eq (fun _ => rfl) rfl rest)

/-- A comma and the space after it. -/
theorem comma (rest : List Char) : Spells [',', ' '] [.mark .comma] rest :=
  (delimiter (by simp [delimiters]) (' ' :: rest)).append (space rest)

/-- A colon and the space after it, which keeps it apart from what follows. -/
theorem colon (rest : List Char) : Spells [':', ' '] [.mark .colon] rest := by
  have hcolon : Spells [':'] [.mark .colon] (' ' :: rest) := of_scan rfl rfl rfl
  exact hcolon.append (space rest)

end Spells

/-! ## What ends a word or a number -/

/-- Nothing follows, or a character that is no part of a word or a number. -/
def Stops (rest : List Char) : Prop :=
  ∀ c ∈ rest.head?, c = ',' ∨ c = ':' ∨ c = ']' ∨ c = '\x7d'

theorem stops_nil : Stops [] := nofun

theorem Stops.takeWhile {rest : List Char} (h : Stops rest) {p : Char → Bool} {cs : List Char}
    (hcs : ∀ c ∈ cs, p c = true)
    (hp : p ',' = false ∧ p ':' = false ∧ p ']' = false ∧ p '\x7d' = false) :
    (cs ++ rest).takeWhile p = cs := by
  rw [List.takeWhile_append_of_pos hcs]
  cases rest with
  | nil => simp
  | cons c rest =>
    obtain ⟨hcomma, hcolon, hbracket, hbrace⟩ := hp
    have hc : p c = false := by
      rcases h c rfl with rfl | rfl | rfl | rfl
      · exact hcomma
      · exact hcolon
      · exact hbracket
      · exact hbrace
    rw [List.takeWhile_cons_of_neg (by rw [hc]; decide), List.append_nil]

/-! ## Words -/

/-- A keyword that is spelled with letters. -/
theorem Spells.word {c : Char} {cs rest : List Char} {k : Keyword} (hrest : Stops rest)
    (hcs : ∀ d ∈ cs, isNamePart d = true)
    (hscan : ∀ more, scan c more =
      .ok (wordToken (String.ofList (c :: more.takeWhile isNamePart)),
        (more.takeWhile isNamePart).length))
    (hspacing : isSpacing c = false) (hline : (c == '\n') = false)
    (hword : Keyword.ofText? (String.ofList (c :: cs)) = some k) :
    Spells (c :: cs) [.keyword k] rest := by
  refine .of_scan hspacing hline ?_
  have hparts : isNamePart ',' = false ∧ isNamePart ':' = false ∧ isNamePart ']' = false ∧
      isNamePart '\x7d' = false := by decide
  rw [hscan, hrest.takeWhile hcs hparts, wordToken, hword]

theorem Spells.nilWord {rest : List Char} (h : Stops rest) :
    Spells ['n', 'i', 'l'] [.keyword .nil] rest :=
  .word h (List.all_eq_true.1 (by decide)) (fun _ => rfl) rfl rfl (by decide)

theorem Spells.trueWord {rest : List Char} (h : Stops rest) :
    Spells ['t', 'r', 'u', 'e'] [.keyword .true] rest :=
  .word h (List.all_eq_true.1 (by decide)) (fun _ => rfl) rfl rfl (by decide)

theorem Spells.falseWord {rest : List Char} (h : Stops rest) :
    Spells ['f', 'a', 'l', 's', 'e'] [.keyword .false] rest :=
  .word h (List.all_eq_true.1 (by decide)) (fun _ => rfl) rfl rfl (by decide)

/-! ## Numbers -/

/-- Digits that stand for a number below the cap are all counted. -/
theorem Decimal.cappedValue_eq {cap : Nat} {ds : List Char} (h : Nat.ofDigitChars 10 ds 0 < cap) :
    cappedValue cap ds = Nat.ofDigitChars 10 ds 0 := by
  unfold cappedValue
  generalize 0 = acc at h ⊢
  induction ds generalizing acc with
  | nil => rfl
  | cons d ds ih =>
    rw [Nat.ofDigitChars_cons] at h ⊢
    have hacc : acc < cap := by
      rw [Nat.ofDigitChars_eq_ofDigitChars_zero] at h
      have hpos : 0 < 10 ^ ds.length := Nat.pow_pos (by decide)
      have hle := Nat.le_mul_of_pos_left (10 * acc + (d.toNat - '0'.toNat)) hpos
      omega
    have hnext : acc * 10 + digitValue d = 10 * acc + (d.toNat - '0'.toNat) := by
      rw [Nat.mul_comm]
      rfl
    rw [List.foldl_cons, if_pos hacc, hnext]
    exact ih _ h

theorem fractionDigits_eq_nil {rest : List Char} (h : Stops rest) : fractionDigits rest = [] := by
  cases rest with
  | nil => rfl
  | cons c rest =>
    rcases h c rfl with rfl | rfl | rfl | rfl
    · rfl
    · rfl
    · rfl
    · rfl

theorem scanDecimal_digits {n : Nat} (hn : n < wordSize) {rest : List Char} (h : Stops rest) :
    scanDecimal (Nat.toDigits 10 n ++ rest) = .ok (.integer n, (Nat.toDigits 10 n).length) := by
  have hdigits : ∀ c ∈ Nat.toDigits 10 n, c.isDigit = true :=
    fun c hc => Nat.isDigit_of_mem_toDigits (by decide) (by decide) hc
  have hwhole : (Nat.toDigits 10 n ++ rest).takeWhile Char.isDigit = Nat.toDigits 10 n :=
    h.takeWhile hdigits (by decide)
  have hvalue : Decimal.cappedValue wordSize (Nat.toDigits 10 n) = n := by
    rw [Decimal.cappedValue_eq (by rw [Nat.ofDigitChars_ten_toDigits]; exact hn),
      Nat.ofDigitChars_ten_toDigits]
  have hfits : fitsWord n = true := decide_eq_true hn
  unfold scanDecimal
  dsimp only
  rw [hwhole, List.drop_left, fractionDigits_eq_nil h, hvalue, hfits]
  rfl

/-- A number is read from its digits. -/
theorem Spells.digits {n : Nat} (hn : n < wordSize) {rest : List Char} (h : Stops rest) :
    Spells (Nat.toDigits 10 n) [.integer n] rest := by
  have hscan := scanDecimal_digits hn h
  have hdigits : ∀ c ∈ Nat.toDigits 10 n, c.isDigit = true :=
    fun c hc => Nat.isDigit_of_mem_toDigits (by decide) (by decide) hc
  obtain ⟨c, cs, hcs⟩ := List.exists_cons_of_ne_nil (Nat.toDigits_ne_nil (n := n) (b := 10))
  rw [hcs] at hscan hdigits ⊢
  have hother : ∀ {d e : Char}, d.isDigit = true → e.isDigit = false → (d == e) = false := by
    intro d e hd he
    refine beq_false_of_ne ?_
    rintro rfl
    rw [hd] at he
    cases he
  have hc : c.isDigit = true := hdigits c List.mem_cons_self
  -- neither another digit nor what ends the number marks it as hexadecimal
  have hhex : ((cs ++ rest).head? == some 'x' || (cs ++ rest).head? == some 'X') = false := by
    cases cs with
    | cons d cs =>
      have hd : d.isDigit = true := hdigits d (List.mem_cons_of_mem _ List.mem_cons_self)
      show (d == 'x' || d == 'X') = false
      rw [hother hd rfl, hother hd rfl]
      rfl
    | nil =>
      cases rest with
      | nil => rfl
      | cons d rest => rcases h d rfl with rfl | rfl | rfl | rfl <;> rfl
  refine .of_scan ?_ (hother hc rfl) ?_
  · unfold isSpacing
    rw [hother hc rfl, hother hc rfl, hother hc rfl]
    rfl
  · unfold scan
    rw [hother hc rfl, hother hc rfl, hhex, Bool.and_false, hc]
    dsimp only
    rw [List.cons_append] at hscan
    rw [hscan]
    rfl

/-! ## Quoted text -/

/-- No character of the text is written by its code point where the text is quoted. -/
def Text.isPlain (s : String) : Bool :=
  s.toList.all fun c => !(['\\', 'u'].isPrefixOf (escapeChar c))

/-- A character is escaped in a way that can be read, stands for itself, or is written by its code
point. -/
theorem Text.escapeChar_cases (c : Char) :
    (∃ d, escapeChar c = ['\\', d] ∧ escape? d = some c) ∨
      (escapeChar c = [c] ∧ c ≠ '"' ∧ c ≠ '\\' ∧ c ≠ '\n') ∨
      ['\\', 'u'].isPrefixOf (escapeChar c) = true := by
  unfold escapeChar
  split
  · rename_i hquote
    exact .inl ⟨'"', rfl, by rw [eq_of_beq hquote]; rfl⟩
  · rename_i hquote
    split
    · rename_i hslash
      exact .inl ⟨'\\', rfl, by rw [eq_of_beq hslash]; rfl⟩
    · rename_i hslash
      split
      · rename_i hline
        exact .inl ⟨'n', rfl, by rw [eq_of_beq hline]; rfl⟩
      · rename_i hline
        split
        · rename_i hreturn
          exact .inl ⟨'r', rfl, by rw [eq_of_beq hreturn]; rfl⟩
        · split
          · rename_i htab
            exact .inl ⟨'t', rfl, by rw [eq_of_beq htab]; rfl⟩
          · split
            · rename_i hzero
              refine .inl ⟨'0', rfl, ?_⟩
              rw [← Char.ofNat_toNat c, eq_of_beq hzero]
              rfl
            · split
              · refine .inr (.inl ⟨rfl, ?_, ?_, ?_⟩)
                · exact fun hc => hquote (by rw [hc]; rfl)
                · exact fun hc => hslash (by rw [hc]; rfl)
                · exact fun hc => hline (by rw [hc]; rfl)
              · exact .inr (.inr rfl)

/-- Reading quoted text gives back what was quoted. -/
theorem scanString_escaped {cs : List Char}
    (h : ∀ c ∈ cs, ['\\', 'u'].isPrefixOf (Text.escapeChar c) = false) (rest : List Char)
    (taken : Nat) (found : List Char) :
    scanString (cs.flatMap Text.escapeChar ++ '"' :: rest) taken found =
      .ok (String.ofList (found.reverse ++ cs),
        taken + (cs.flatMap Text.escapeChar).length + 1) := by
  induction cs generalizing taken found with
  | nil => rw [List.flatMap_nil, List.nil_append, scanString, List.append_nil, List.length_nil,
      Nat.add_zero]
  | cons c cs ih =>
    have hrest : ∀ d ∈ cs, ['\\', 'u'].isPrefixOf (Text.escapeChar d) = false :=
      fun d hd => h d (List.mem_cons_of_mem _ hd)
    rw [List.flatMap_cons, List.append_assoc]
    rcases Text.escapeChar_cases c with ⟨d, hescape, hread⟩ | ⟨hself, hquote, hslash, hline⟩ | hcode
    · rw [hescape, List.cons_append, List.cons_append, List.nil_append, scanString, hread]
      dsimp only
      rw [ih hrest, List.reverse_cons, List.append_assoc, List.length_append]
      simp only [List.singleton_append, List.length_cons, List.length_nil]
      congr 2
      omega
    · rw [hself, List.singleton_append, scanString]
      · rw [if_neg (by simpa using hline), ih hrest, List.reverse_cons, List.append_assoc,
          List.length_append, List.singleton_append, List.length_singleton]
        congr 2
        omega
      · exact hquote
      · exact fun hc _ => hslash hc
      · exact fun d more hc _ => hslash hc
    · rw [h c List.mem_cons_self] at hcode
      cases hcode

theorem Spells.quoted {s : String} (h : Text.isPlain s = true) (rest : List Char) :
    Spells (Text.quote s).toList [.string s] rest := by
  have hplain : ∀ c ∈ s.toList, ['\\', 'u'].isPrefixOf (Text.escapeChar c) = false := by
    intro c hc
    have := List.all_eq_true.1 h c hc
    rwa [Bool.not_eq_true'] at this
  rw [Text.quote, String.toList_ofList, List.cons_append]
  refine .of_scan rfl rfl ?_
  have hread := scanString_escaped hplain rest 0 []
  unfold scan
  rw [List.append_assoc, List.singleton_append, hread]
  simp [String.ofList_toList]

end Ember
