import Ember.Proofs.Ast.Operands

/-! Expressions of every kind and blocks of statements are read back as they are written, given that
their parts are. -/
namespace Ember
set_option autoImplicit false

section

variable {s : Stream} {e : Expr} {rest : List Token}

/-! ## Positions in lists -/

theorem bareItems_eq (items : List Expr) : bareItems items = items.map Expr.bare := by
  induction items with
  | nil => rfl
  | cons e more ih => rw [bareItems, ih, List.map_cons]

theorem bareBody_eq (body : List Stmt) : bareBody body = body.map Stmt.bare := by
  induction body with
  | nil => rfl
  | cons st more ih => rw [bareBody, ih, List.map_cons]

def bareEntry (entry : Expr × Expr) : Expr × Expr := (entry.1.bare, entry.2.bare)

theorem bareEntries_eq (entries : List (Expr × Expr)) :
    bareEntries entries = entries.map bareEntry := by
  induction entries with
  | nil => rfl
  | cons entry more ih => rw [bareEntries, ih, List.map_cons]; rfl

/-! ## Names and numbers -/

theorem readable_literal {k : Token} (node : Span → Expr) (span : Span)
    (hlevel : 13 ≤ (node span).level) (htokens : (node span).tokens = [k]) (hk : unary? k = none)
    (hprimary : ∀ span ts last, parsePrimary ⟨⟨k, span⟩ :: ts, last⟩ =
      .ok ⟨node span, ⟨ts, some span⟩, Nat.lt_succ_self _⟩)
    (hnode : ∀ span', (node span').bare = (node span).bare) : Readable (node span) := by
  refine .of_tight hlevel fun {s rest} hs => ?_
  rw [htokens] at hs
  refine startsPostfix_of_primary (by simpa [hs] using hk) ?_
  obtain ⟨tokens, last⟩ := s
  obtain ⟨span', ts, rfl, hts⟩ := Stream.tokens_of_kinds hs
  exact ⟨_, _, _, hprimary span' ts last, hnode span', hts⟩

theorem ofNat_natAbs {n : Int64} (h : 0 ≤ n) : Int64.ofNat n.toInt.natAbs = n := by
  have hlow : (0 : Int) ≤ n.toInt := Int64.le_iff_toInt_le.1 h
  rw [← Int64.ofInt_eq_ofNat, Int.natAbs_of_nonneg hlow, Int64.ofInt_toInt]

theorem readable_int (span : Span) {n : Int64} (h : 0 ≤ n) : Readable (.int span n) := by
  have hsign : ¬n < 0 := Int64.not_lt.2 h
  refine readable_literal (k := .integer n.toInt.natAbs) (.int · n) span ?_ ?_ rfl
    (fun span ts last => ?_) fun _ => rfl
  · exact Nat.le_of_eq (if_neg hsign).symm
  · rw [Expr.tokens, if_neg hsign]
  · rw [parsePrimary]
    simp only [natAbs_lt_leastMagnitude h, if_true, ofNat_natAbs h]

theorem readable_float (span : Span) (x : Float) : Readable (.float span x) :=
  readable_literal (.float · x) span (Nat.le_refl 13) rfl rfl (fun _ _ _ => by rw [parsePrimary])
    fun _ => rfl

theorem readable_str (span : Span) (text : String) : Readable (.str span text) :=
  readable_literal (.str · text) span (Nat.le_refl 13) rfl rfl (fun _ _ _ => by rw [parsePrimary])
    fun _ => rfl

theorem readable_true (span : Span) : Readable (.bool span true) :=
  readable_literal (.bool · true) span (Nat.le_refl 13) rfl rfl (fun _ _ _ => by rw [parsePrimary])
    fun _ => rfl

theorem readable_false (span : Span) : Readable (.bool span false) :=
  readable_literal (.bool · false) span (Nat.le_refl 13) rfl rfl
    (fun _ _ _ => by rw [parsePrimary]) fun _ => rfl

theorem readable_nil (span : Span) : Readable (.nil span) :=
  readable_literal .nil span (Nat.le_refl 13) rfl rfl (fun _ _ _ => by rw [parsePrimary])
    fun _ => rfl

theorem readable_ident (span : Span) (name : String) : Readable (.ident span name) :=
  readable_literal (.ident · name) span (Nat.le_refl 13) rfl rfl
    (fun _ _ _ => by rw [parsePrimary]) fun _ => rfl

/-! ## Lists of expressions -/

theorem pull_moreTokens (items : List Expr) (h : pull rest = 0) :
    pull (moreTokens items ++ rest) = 0 := by
  cases items with
  | nil => exact h
  | cons e more => rfl

/-- Marks that end a list of expressions. -/
def Mark.closes : Mark → Bool
  | rParen | rBracket | rBrace => true
  | _ => false

theorem parseItems_reads {close : Mark} (hclose : close.closes = true) (context : String)
    {items : List Expr} (hitems : ∀ e ∈ items, Readable e) {bound : Nat} {hlt : s.size < bound}
    (found : List Expr)
    (hs : s.kinds = itemTokens items ++ .mark close :: rest) :
    (parseItems close context bound s hlt found).Reads
      (bareItems · = bareItems (found.reverse ++ items)) rest := by
  have hpull : pull (.mark close :: rest) = 0 := by cases close <;> first | rfl | cases hclose
  have hopens : (Token.mark close).opens = false := by cases close <;> first | rfl | cases hclose
  have hcomma : close ≠ .comma := by rintro rfl; cases hclose
  induction items generalizing s found with
  | nil =>
    obtain ⟨r, hr, heat, hkinds⟩ := Stream.eat?_of_kinds hs
    rw [parseItems, heat]
    exact ⟨_, r, _, rfl, by rw [List.append_nil], hkinds⟩
  | cons e more ih =>
    have hs : s.kinds = e.tokens ++ (moreTokens more ++ .mark close :: rest) := by
      rw [hs, itemTokens, List.append_assoc]
    have hfirst : Opens s.kinds := hs ▸ e.opens_tokens.append _
    obtain ⟨e', r₁, hr₁, hread, he, hkinds₁⟩ :=
      (hitems e List.mem_cons_self).whole hs (pull_moreTokens more hpull)
    rw [parseItems, hfirst.eat? hopens]
    dsimp only
    rw [hread]
    dsimp only
    cases more with
    | nil =>
      have hskip := Stream.kinds_skipNewlines hkinds₁ rfl
      obtain ⟨r, hr, hexpect, hkinds⟩ := Stream.expect_of_kinds context hskip
      rw [Stream.eat?_eq_none (by simp [hskip, hcomma])]
      dsimp only
      rw [hexpect]
      exact ⟨_, r, _, rfl, by simp [bareItems_eq, he], hkinds⟩
    | cons e₂ more =>
      obtain ⟨r₂, hr₂, heat, hkinds₂⟩ :=
        Stream.eat?_of_kinds (Stream.kinds_skipNewlines hkinds₁ rfl)
      have hskip := (((e₂.opens_tokens).append _).append _).skipNewlines hkinds₂
      rw [heat]
      dsimp only
      obtain ⟨items, r, hr, hloop, hfound, hkinds⟩ :=
        ih (fun e he => hitems e (List.mem_cons_of_mem _ he)) (e' :: found) hskip
      exact ⟨items, r, _, hloop, by simpa [bareItems_eq, he] using hfound, hkinds⟩

/-! ## Entries of maps -/

theorem pull_moreEntryTokens (entries : List (Expr × Expr)) (h : pull rest = 0) :
    pull (moreEntryTokens entries ++ rest) = 0 := by
  cases entries with
  | nil => exact h
  | cons entry more => rfl

theorem isNewline_moreEntryTokens (entries : List (Expr × Expr)) (rest : List Token) :
    ∃ k ks, moreEntryTokens entries ++ .mark .rBrace :: rest = k :: ks ∧
      Stream.isNewline k = false := by
  cases entries with
  | nil => exact ⟨_, _, rfl, rfl⟩
  | cons entry more => exact ⟨_, _, rfl, rfl⟩

/-- The value of an entry and what follows it. -/
theorem parseEntries_reads {entries : List (Expr × Expr)}
    (hentries : ∀ entry ∈ entries, Readable entry.1 ∧ Readable entry.2) {bound : Nat}
    {hlt : s.size < bound} (found : List (Expr × Expr))
    (hs : s.kinds = moreEntryTokens entries ++ .mark .rBrace :: rest) :
    (parseEntries bound s hlt found).Reads
      (bareEntries · = bareEntries (found.reverse ++ entries)) rest := by
  induction entries generalizing s found with
  | nil =>
    obtain ⟨r, hr, hexpect, hkinds⟩ := Stream.expect_of_kinds "to close map literal" hs
    rw [parseEntries, Stream.eat?_eq_none (by simp [hs, moreEntryTokens])]
    dsimp only
    rw [hexpect]
    exact ⟨_, r, _, rfl, by rw [List.append_nil], hkinds⟩
  | cons entry more ih =>
    obtain ⟨key, value⟩ := entry
    obtain ⟨hkey, hvalue⟩ := hentries _ List.mem_cons_self
    have hs : s.kinds = .mark .comma :: (key.tokens ++ .mark .colon ::
        (value.tokens ++ (moreEntryTokens more ++ .mark .rBrace :: rest))) := by
      rw [hs, moreEntryTokens]
      simp
    obtain ⟨r₁, hr₁, hcomma, hkinds₁⟩ := Stream.eat?_of_kinds hs
    have hskip₁ := (key.opens_tokens.append _).skipNewlines hkinds₁
    have hfirst : Opens r₁.skipNewlines.1.kinds := hskip₁ ▸ key.opens_tokens.append _
    obtain ⟨key', r₂, hr₂, hread, hkey', hkinds₂⟩ := hkey.whole hskip₁ rfl
    obtain ⟨r₃, hr₃, hcolon, hkinds₃⟩ :=
      Stream.expect_of_kinds "between map key and value" (Stream.kinds_skipNewlines hkinds₂ rfl)
    have hskip₃ := (value.opens_tokens.append _).skipNewlines hkinds₃
    obtain ⟨value', r₄, hr₄, hread', hvalue', hkinds₄⟩ :=
      hvalue.whole hskip₃ (pull_moreEntryTokens more rfl)
    obtain ⟨k, ks, hks, hk⟩ := isNewline_moreEntryTokens more rest
    have hskip₄ := Stream.kinds_skipNewlines (hkinds₄.trans hks) hk
    rw [parseEntries, hcomma]
    dsimp only
    rw [hfirst.eat? rfl]
    dsimp only
    rw [hread]
    dsimp only
    rw [hcolon]
    dsimp only
    rw [hread']
    dsimp only
    obtain ⟨entries, r, hr, hloop, hfound, hkinds⟩ :=
      ih (fun entry h => hentries entry (List.mem_cons_of_mem _ h)) ((key', value') :: found)
        (hskip₄.trans hks.symm)
    refine ⟨entries, r, _, hloop, ?_, hkinds⟩
    simpa [bareEntries_eq, bareEntry, hkey', hvalue'] using hfound

/-! ## Parameters -/

theorem parseParamsLoop_reads {params : List String} (found : List String)
    (hnodup : (found.reverse ++ params).Nodup) {bound : Nat} {hlt : s.size < bound}
    (hs : s.kinds = paramTokens params ++ .mark .rParen :: rest) :
    (parseParamsLoop bound s hlt found).Reads (· = found.reverse ++ params) rest := by
  induction params generalizing s found with
  | nil =>
    obtain ⟨r, hr, hexpect, hkinds⟩ := Stream.expect_of_kinds "to close parameter list" hs
    obtain ⟨r', hr', heat, -⟩ := Stream.eat?_of_kinds hs
    rw [parseParamsLoop, if_pos (by rw [Stream.isNext, heat]; rfl)]
    dsimp only
    rw [hexpect]
    exact ⟨_, r, _, rfl, (List.append_nil _).symm, hkinds⟩
  | cons name more ih =>
    obtain ⟨ks, hks⟩ : ∃ ks, s.kinds = .ident name :: ks := by
      cases more <;> exact ⟨_, hs⟩
    have hnext : ¬s.isNext .rParen = true := by
      rw [Stream.isNext, Stream.eat?_eq_none (by simp [hks])]
      exact nofun
    obtain ⟨r₁, hr₁, hident, hkinds₁⟩ := Stream.expectIdent_of_kinds "in parameter list" hks
    have hfresh : found.contains name = false := by
      have hnot : name ∉ found := fun hmem =>
        (List.nodup_append.1 hnodup).2.2 name (List.mem_reverse.2 hmem) name List.mem_cons_self rfl
      simpa using hnot
    rw [parseParamsLoop, if_neg hnext, hident]
    simp only [hfresh, Bool.false_eq_true, if_false]
    cases more with
    | nil =>
      obtain rfl : ks = .mark .rParen :: rest := (List.cons.inj (hks.symm.trans hs)).2
      have hskip := Stream.kinds_skipNewlines hkinds₁ rfl
      obtain ⟨r, hr, hexpect, hkinds⟩ := Stream.expect_of_kinds "to close parameter list" hskip
      rw [Stream.eat?_eq_none (by simp [hskip])]
      dsimp only
      rw [hexpect]
      exact ⟨_, r, _, rfl, List.reverse_cons, hkinds⟩
    | cons name₂ more =>
      obtain rfl : ks = .mark .comma :: (paramTokens (name₂ :: more) ++ .mark .rParen :: rest) :=
        (List.cons.inj (hks.symm.trans hs)).2
      obtain ⟨r₂, hr₂, heat, hkinds₂⟩ :=
        Stream.eat?_of_kinds (Stream.kinds_skipNewlines hkinds₁ rfl)
      have hskip : r₂.skipNewlines.1.kinds =
          paramTokens (name₂ :: more) ++ .mark .rParen :: rest := by
        cases more <;> exact Stream.kinds_skipNewlines hkinds₂ rfl
      rw [heat]
      dsimp only
      obtain ⟨params, r, hr, hloop, hfound, hkinds⟩ :=
        ih (name :: found) (by simpa using hnodup) hskip
      exact ⟨params, r, _, hloop, by simpa using hfound, hkinds⟩

theorem parseParams_reads {params : List String} (hnodup : params.Nodup)
    (hs : s.kinds = .mark .lParen :: (paramTokens params ++ .mark .rParen :: rest)) :
    (parseParams s).Reads (· = params) rest := by
  obtain ⟨r₁, hr₁, hopen, hkinds₁⟩ := Stream.expect_of_kinds "to open parameter list" hs
  have hskip : r₁.skipNewlines.1.kinds = paramTokens params ++ .mark .rParen :: rest := by
    rcases params with _ | ⟨name, _ | ⟨name₂, more⟩⟩ <;>
      exact Stream.kinds_skipNewlines hkinds₁ rfl
  rw [parseParams, hopen]
  exact parseParamsLoop_reads [] hnodup hskip

/-! ## Blocks -/

/-- A statement is read where it stands at the end of a line. -/
def ReadableStmt (st : Stmt) : Prop :=
  ∀ {s rest}, s.kinds = st.tokens ++ .newline :: rest →
    (parseStatement s).Reads (·.bare = st.bare) (.newline :: rest)

theorem isTerminator_of_opens {k : Token} (h : k.opens = true) : Stream.isTerminator k = false := by
  cases k with
  | mark m => cases m <;> first | rfl | cases h
  | newline | eof => cases h
  | _ => rfl

theorem Opens.begins {ts : List Token} (h : Opens ts) :
    ∃ k ks, ts = k :: ks ∧ Stream.isTerminator k = false := by
  obtain ⟨k, ks, rfl, hk, -⟩ := h
  exact ⟨k, ks, rfl, isTerminator_of_opens hk⟩

theorem Stmt.begins : ∀ st : Stmt, ∃ k ks, st.tokens = k :: ks ∧ Stream.isTerminator k = false
  | .assign _ target _ => (target.opens_tokens.append _).begins
  | .expr _ value => value.opens_tokens.begins
  | .var .. | .funcDef .. | .return _ none | .return _ (some _) | .if .. | .while .. | .break _
  | .continue _ | .print .. | .delete .. => ⟨_, _, rfl, rfl⟩

theorem isSeparator_eq_false {k : Token} (h : Stream.isTerminator k = false) :
    Stream.isSeparator k = false := by
  cases k with
  | mark m => cases m <;> first | rfl | cases h
  | newline => cases h
  | _ => rfl

theorem parseBlockLoop_reads {body : List Stmt} (hbody : ∀ st ∈ body, ReadableStmt st)
    {bound : Nat} {hlt : s.size < bound} (found : List Stmt)
    (hs : s.kinds = bodyTokens body ++ .mark .rBrace :: rest) :
    (parseBlockLoop bound s hlt found).Reads
      (bareBody · = bareBody (found.reverse ++ body)) rest := by
  induction body generalizing s found with
  | nil =>
    obtain ⟨r, hr, heat, hkinds⟩ := Stream.eat?_of_kinds (Stream.kinds_skipSeparators hs rfl)
    rw [parseBlockLoop]
    dsimp only
    rw [heat]
    exact ⟨_, r, _, rfl, by rw [List.append_nil], hkinds⟩
  | cons st more ih =>
    have hs : s.kinds = st.tokens ++ .newline :: (bodyTokens more ++ .mark .rBrace :: rest) := by
      rw [hs, bodyTokens]
      simp
    obtain ⟨k, ks, htokens, hk⟩ := st.begins
    have hskip : s.skipSeparators.1.kinds =
        st.tokens ++ .newline :: (bodyTokens more ++ .mark .rBrace :: rest) := by
      rw [htokens] at hs ⊢
      exact Stream.kinds_skipSeparators hs (isSeparator_eq_false hk)
    obtain ⟨st', r₁, hr₁, hread, hst, hkinds₁⟩ := hbody st List.mem_cons_self hskip
    obtain ⟨r₂, hr₂, hend, hkinds₂⟩ := Stream.endStatement_of_kinds hkinds₁
    have hpeek : s.skipSeparators.1.peek = k :=
      Stream.peek_of_kinds (hskip.trans (by rw [htokens]; rfl))
    rw [parseBlockLoop]
    dsimp only
    rw [Stream.eat?_eq_none ?_]
    · dsimp only
      rw [hpeek]
      split
      · cases hk
      · rw [hread]
        dsimp only
        rw [hend]
        dsimp only
        obtain ⟨body, r, hr, hloop, hfound, hkinds⟩ :=
          ih (fun st h => hbody st (List.mem_cons_of_mem _ h)) (st' :: found) hkinds₂
        exact ⟨body, r, _, hloop, by simpa [bareBody_eq, hst] using hfound, hkinds⟩
    · rw [hskip, htokens]
      rintro hbrace
      cases hbrace
      cases hk

theorem parseBlock_reads {body : List Stmt} (hbody : ∀ st ∈ body, ReadableStmt st)
    (hs : s.kinds = .mark .lBrace :: (bodyTokens body ++ .mark .rBrace :: rest)) :
    (parseBlock s).Reads (bareBody · = bareBody body) rest := by
  obtain ⟨r, hr, hopen, hkinds⟩ := Stream.expect_of_kinds "to open block" hs
  rw [parseBlock, hopen]
  exact parseBlockLoop_reads hbody [] hkinds

/-! ## Lists, maps, sets and functions -/

theorem skipNewlines_itemTokens {close : Mark} (items : List Expr)
    (hs : s.kinds = itemTokens items ++ .mark close :: rest) :
    s.skipNewlines.1.kinds = itemTokens items ++ .mark close :: rest := by
  cases items with
  | nil => exact Stream.kinds_skipNewlines hs rfl
  | cons e more => exact ((e.opens_tokens.append _).append _).skipNewlines hs

theorem readable_list (span : Span) {items : List Expr} (hitems : ∀ e ∈ items, Readable e) :
    Readable (.list span items) := by
  refine .of_tight (Nat.le_refl 13) fun {s rest} hs => ?_
  have hs : s.kinds = .mark .lBracket :: (itemTokens items ++ .mark .rBracket :: rest) := by
    rw [hs, Expr.tokens]
    simp
  refine startsPostfix_of_primary (by simp [hs, unary?]) ?_
  obtain ⟨tokens, last⟩ := s
  obtain ⟨span', ts, rfl, hts⟩ := Stream.tokens_of_kinds hs
  have hskip := skipNewlines_itemTokens (s := ⟨ts, some span'⟩) items hts
  rw [parsePrimary]
  dsimp only
  obtain ⟨items', r, hr, hread, hitems', hkinds⟩ :=
    parseItems_reads rfl "to close list literal" hitems [] hskip
  rw [hread]
  exact ⟨_, r, _, rfl, by simpa [Expr.bare] using hitems', hkinds⟩

/-- What stands in braces is read by `parseBraces`. -/
theorem readable_braces (hlevel : 13 ≤ e.level) {inside : List Token}
    (htokens : e.tokens = .mark .lBrace :: inside ++ [Token.mark .rBrace])
    (hbraces : ∀ {s rest} span, s.kinds = inside ++ .mark .rBrace :: rest →
      (parseBraces span s).Reads (·.bare = e.bare) rest) : Readable e := by
  refine .of_tight hlevel fun {s rest} hs => ?_
  have hs : s.kinds = .mark .lBrace :: (inside ++ .mark .rBrace :: rest) := by
    rw [hs, htokens]
    simp
  refine startsPostfix_of_primary (by simp [hs, unary?]) ?_
  obtain ⟨tokens, last⟩ := s
  obtain ⟨span, ts, rfl, hts⟩ := Stream.tokens_of_kinds hs
  obtain ⟨e', r, hr, hread, he, hkinds⟩ := hbraces (s := ⟨ts, some span⟩) span hts
  rw [parsePrimary]
  dsimp only
  rw [hread]
  exact ⟨e', r, _, rfl, he, hkinds⟩

theorem readable_map (span : Span) {entries : List (Expr × Expr)}
    (hentries : ∀ entry ∈ entries, Readable entry.1 ∧ Readable entry.2) :
    Readable (.map span entries) := by
  refine readable_braces (Nat.le_refl 13) rfl fun {s rest} span hs => ?_
  rw [parseBraces]
  dsimp only
  cases entries with
  | nil =>
    obtain ⟨r, hr, heat, hkinds⟩ := Stream.eat?_of_kinds (Stream.kinds_skipNewlines hs rfl)
    rw [heat]
    exact ⟨_, r, _, rfl, rfl, hkinds⟩
  | cons entry more =>
    obtain ⟨key, value⟩ := entry
    obtain ⟨hkey, hvalue⟩ := hentries _ List.mem_cons_self
    have hs : s.kinds = key.tokens ++ .mark .colon ::
        (value.tokens ++ (moreEntryTokens more ++ .mark .rBrace :: rest)) := by
      rw [hs, entryTokens]
      simp
    have hskip := (key.opens_tokens.append _).skipNewlines hs
    have hfirst : Opens s.skipNewlines.1.kinds := hskip ▸ key.opens_tokens.append _
    obtain ⟨key', r₂, hr₂, hread, hkey', hkinds₂⟩ := hkey.whole hskip rfl
    obtain ⟨r₃, hr₃, hcolon, hkinds₃⟩ :=
      Stream.eat?_of_kinds (Stream.kinds_skipNewlines hkinds₂ rfl)
    have hskip₃ := (value.opens_tokens.append _).skipNewlines hkinds₃
    obtain ⟨value', r₄, hr₄, hread', hvalue', hkinds₄⟩ :=
      hvalue.whole hskip₃ (pull_moreEntryTokens more rfl)
    obtain ⟨k, ks, hks, hk⟩ := isNewline_moreEntryTokens more rest
    have hskip₄ := Stream.kinds_skipNewlines (hkinds₄.trans hks) hk
    rw [hfirst.eat? rfl]
    dsimp only
    rw [hread]
    dsimp only
    rw [hcolon]
    dsimp only
    rw [hread']
    dsimp only
    obtain ⟨entries, r, hr, hrest, hentries', hkinds⟩ :=
      parseEntries_reads (fun entry h => hentries entry (List.mem_cons_of_mem _ h))
        [(key', value')] (hskip₄.trans hks.symm)
    rw [hrest]
    exact ⟨_, r, _, rfl, by simpa [Expr.bare, bareEntries, hkey', hvalue'] using hentries', hkinds⟩

theorem readable_set (span : Span) {items : List Expr} (hne : items ≠ [])
    (hitems : ∀ e ∈ items, Readable e) : Readable (.set span items) := by
  refine readable_braces (Nat.le_refl 13) rfl fun {s rest} span hs => ?_
  obtain ⟨e, more, rfl⟩ := List.exists_cons_of_ne_nil hne
  have hs : s.kinds = e.tokens ++ (moreTokens more ++ .mark .rBrace :: rest) := by
    rw [hs, itemTokens]
    simp
  have hskip := (e.opens_tokens.append _).skipNewlines hs
  have hfirst : Opens s.skipNewlines.1.kinds := hskip ▸ e.opens_tokens.append _
  obtain ⟨e', r₂, hr₂, hread, he, hkinds₂⟩ :=
    (hitems e List.mem_cons_self).whole hskip (pull_moreTokens more rfl)
  rw [parseBraces]
  dsimp only
  rw [hfirst.eat? rfl]
  dsimp only
  rw [hread]
  dsimp only
  cases more with
  | nil =>
    have hskip₂ := Stream.kinds_skipNewlines hkinds₂ rfl
    obtain ⟨r, hr, hexpect, hkinds⟩ := Stream.expect_of_kinds "to close set literal" hskip₂
    rw [Stream.eat?_eq_none (by simp [hskip₂])]
    dsimp only
    rw [Stream.eat?_eq_none (by simp [hskip₂])]
    dsimp only
    rw [hexpect]
    exact ⟨_, r, _, rfl, by simp [Expr.bare, bareItems, he], hkinds⟩
  | cons e₂ more =>
    have hskip₂ := Stream.kinds_skipNewlines hkinds₂ rfl
    obtain ⟨r₃, hr₃, heat, hkinds₃⟩ := Stream.eat?_of_kinds hskip₂
    have hskip₃ := skipNewlines_itemTokens (e₂ :: more) hkinds₃
    rw [Stream.eat?_eq_none (by simp [hskip₂])]
    dsimp only
    rw [heat]
    dsimp only
    obtain ⟨items, r, hr, hloop, hitems', hkinds⟩ :=
      parseItems_reads rfl "to close set literal"
        (fun e h => hitems e (List.mem_cons_of_mem _ h)) [e'] hskip₃
    rw [hloop]
    exact ⟨_, r, _, rfl, by simpa [Expr.bare, bareItems, he] using hitems', hkinds⟩

theorem readable_func (span : Span) {params : List String} (hparams : params.Nodup)
    {body : List Stmt} (hbody : ∀ st ∈ body, ReadableStmt st) :
    Readable (.func span params body) := by
  refine .of_tight (Nat.le_refl 13) fun {s rest} hs => ?_
  have hs : s.kinds = .keyword .func :: .mark .lParen :: (paramTokens params ++ .mark .rParen ::
      .mark .lBrace :: (bodyTokens body ++ .mark .rBrace :: rest)) := by
    rw [hs, Expr.tokens]
    simp
  refine startsPostfix_of_primary (by simp [hs, unary?]) ?_
  obtain ⟨tokens, last⟩ := s
  obtain ⟨span', ts, rfl, hts⟩ := Stream.tokens_of_kinds hs
  obtain ⟨params', r₁, hr₁, hread, rfl, hkinds₁⟩ :=
    parseParams_reads (s := ⟨ts, some span'⟩) hparams hts
  obtain ⟨body', r, hr, hread', hbody', hkinds⟩ := parseBlock_reads hbody hkinds₁
  rw [parsePrimary]
  dsimp only
  rw [hread]
  dsimp only
  rw [hread']
  exact ⟨_, r, _, rfl, by simp [Expr.bare, hbody'], hkinds⟩

/-! ## Calls, subscripts and attributes -/

theorem readable_call (span : Span) (h : Readable e) {args : List Expr}
    (hargs : ∀ e ∈ args, Readable e) : Readable (.call span e args) := by
  refine .of_tight (Nat.le_refl 13) fun {s rest} hs => ?_
  have hs : s.kinds =
      e.operand 13 ++ .mark .lParen :: (itemTokens args ++ .mark .rParen :: rest) := by
    rw [hs, Expr.tokens, Expr.operand]
    simp
  obtain ⟨hunary, e', r, hr, hsuffix, he, hkinds⟩ := h.operand_tight hs
  obtain ⟨tokens, last⟩ := r
  obtain ⟨span', ts, rfl, hts⟩ := Stream.tokens_of_kinds hkinds
  have hskip := skipNewlines_itemTokens (s := ⟨ts, some span'⟩) args hts
  rw [parsePostfixLoop] at hsuffix
  dsimp only at hsuffix
  obtain ⟨args', r₁, hr₁, hread, hargs', hkinds₁⟩ :=
    parseItems_reads rfl "to close argument list" hargs [] hskip
  rw [hread] at hsuffix
  exact ⟨hunary, _, r₁, _, hsuffix, by simpa [Expr.bare, he] using hargs', hkinds₁⟩

theorem readable_index (span : Span) (h : Readable e) {key : Expr} (hkey : Readable key) :
    Readable (.index span e key) := by
  refine .of_tight (Nat.le_refl 13) fun {s rest} hs => ?_
  have hs : s.kinds =
      e.operand 13 ++ .mark .lBracket :: (key.tokens ++ .mark .rBracket :: rest) := by
    rw [hs, Expr.tokens, Expr.operand]
    simp
  obtain ⟨hunary, e', r, hr, hsuffix, he, hkinds⟩ := h.operand_tight hs
  obtain ⟨tokens, last⟩ := r
  obtain ⟨span', ts, rfl, hts⟩ := Stream.tokens_of_kinds hkinds
  have hskip := (key.opens_tokens.append _).skipNewlines (s := ⟨ts, some span'⟩) hts
  obtain ⟨key', r₁, hr₁, hread, hkey', hkinds₁⟩ := hkey.whole hskip rfl
  obtain ⟨r₂, hr₂, hexpect, hkinds₂⟩ :=
    Stream.expect_of_kinds "to close subscript" (Stream.kinds_skipNewlines hkinds₁ rfl)
  rw [parsePostfixLoop] at hsuffix
  dsimp only at hsuffix
  rw [hread] at hsuffix
  dsimp only at hsuffix
  rw [hexpect] at hsuffix
  exact ⟨hunary, _, r₂, _, hsuffix, by simp [Expr.bare, he, hkey'], hkinds₂⟩

theorem readable_attr (span : Span) (h : Readable e) (name : String) :
    Readable (.attr span e name) := by
  refine .of_tight (Nat.le_refl 13) fun {s rest} hs => ?_
  have hs : s.kinds = e.operand 13 ++ .mark .dot :: .ident name :: rest := by
    rw [hs, Expr.tokens, Expr.operand]
    simp
  obtain ⟨hunary, e', r, hr, hsuffix, he, hkinds⟩ := h.operand_tight hs
  obtain ⟨tokens, last⟩ := r
  obtain ⟨span', ts, rfl, hts⟩ := Stream.tokens_of_kinds hkinds
  obtain ⟨r₁, hr₁, hread, hkinds₁⟩ :=
    Stream.expectIdent_of_kinds (s := ⟨ts, some span'⟩) "after '.'" hts
  rw [parsePostfixLoop] at hsuffix
  dsimp only at hsuffix
  rw [hread] at hsuffix
  exact ⟨hunary, _, r₁, _, hsuffix, by simp [Expr.bare, he], hkinds₁⟩

end

end Ember
