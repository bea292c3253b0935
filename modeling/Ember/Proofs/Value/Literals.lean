import Ember.Proofs.Ast.RoundTrip
import Ember.Proofs.Token.Spelling
import Ember.Proofs.Value.Data

/-! Values as literals. A datum is written as a text that is read as one expression, which stands
for the same datum: nothing is lost of integers, texts, the nesting of lists and maps, or the order
of their entries. Texts must not have characters that are written by their code point, and sets must
have members, since there is no literal for the empty set. -/
namespace Ember
set_option autoImplicit false

/-! ## What literals stand for -/

def Datum.key? : Datum → Option Key
  | .nil => some .nil
  | .bool b => some (.bool b)
  | .int n => some (.int n)
  | .str s => some (.str s)
  | _ => none

mutual

/-- What a literal stands for. A sign before an integer negates it; of entries with one key the
first gives the place and the last gives the value. -/
def Expr.datum? : Expr → Option Datum
  | .nil _ => some .nil
  | .bool _ b => some (.bool b)
  | .int _ n => some (.int n)
  | .str _ s => some (.str s)
  | .unary _ .negate (.int _ n) => some (.int (-n))
  | .list _ items => (itemData? items).map .list
  | .map _ entries => (entryData? entries).map fun found => .map (OrderedMap.ofList found).toList
  | .set _ items => (itemData? items).bind fun found => (found.mapM Datum.key?).map fun keys =>
      .set (OrderedMap.ofList (keys.map (·, ()))).keys.toList
  | _ => none

def itemData? : List Expr → Option (List Datum)
  | [] => some []
  | e :: rest => e.datum?.bind fun d => (itemData? rest).map (d :: ·)

def entryData? : List (Expr × Expr) → Option (List (Key × Datum))
  | [] => some []
  | (k, v) :: rest => (k.datum?.bind Datum.key?).bind fun key => v.datum?.bind fun d =>
      (entryData? rest).map ((key, d) :: ·)

end

mutual

/-- Positions do not matter. -/
theorem Expr.datum?_bare : ∀ e : Expr, e.bare.datum? = e.datum?
  | .int .. | .float .. | .str .. | .bool .. | .nil _ | .ident .. | .binary .. | .logical ..
  | .call .. | .index .. | .attr .. | .func .. => rfl
  | .list _ items => by rw [Expr.bare, Expr.datum?, Expr.datum?, itemData?_bare items]
  | .map _ entries => by rw [Expr.bare, Expr.datum?, Expr.datum?, entryData?_bare entries]
  | .set _ items => by rw [Expr.bare, Expr.datum?, Expr.datum?, itemData?_bare items]
  | .unary _ op operand => by cases op <;> cases operand <;> rfl

theorem itemData?_bare : ∀ items : List Expr, itemData? (bareItems items) = itemData? items
  | [] => rfl
  | e :: rest => by
    rw [bareItems, itemData?, itemData?, Expr.datum?_bare e, itemData?_bare rest]

theorem entryData?_bare : ∀ entries : List (Expr × Expr),
    entryData? (bareEntries entries) = entryData? entries
  | [] => rfl
  | (k, v) :: rest => by
    rw [bareEntries, entryData?, entryData?, Expr.datum?_bare k, Expr.datum?_bare v,
      entryData?_bare rest]

end

/-! ## Data as literals -/

/-- An integer below zero has a sign, except that the least one is a literal by itself. -/
def intLiteral (n : Int64) : Expr :=
  if 0 ≤ n ∨ n = Int64.minValue then .int .start n else .unary .start .negate (.int .start (-n))

def Key.literal : Key → Expr
  | .nil => .nil .start
  | .bool b => .bool .start b
  | .int n => intLiteral n
  | .str s => .str .start s

mutual

def Datum.literal : Datum → Expr
  | .nil => .nil .start
  | .bool b => .bool .start b
  | .int n => intLiteral n
  | .str s => .str .start s
  | .list items => .list .start (itemLiterals items)
  | .map entries => .map .start (entryLiterals entries)
  | .set members => .set .start (members.map Key.literal)

def itemLiterals : List Datum → List Expr
  | [] => []
  | d :: rest => d.literal :: itemLiterals rest

def entryLiterals : List (Key × Datum) → List (Expr × Expr)
  | [] => []
  | (k, d) :: rest => (k.literal, d.literal) :: entryLiterals rest

end

/-! ### They stand for the data -/

theorem intLiteral_datum? (n : Int64) : (intLiteral n).datum? = some (.int n) := by
  unfold intLiteral
  split
  · rfl
  · rw [Expr.datum?, Int64.neg_neg]

theorem Key.literal_datum? (k : Key) : k.literal.datum?.bind Datum.key? = some k := by
  cases k with
  | int n => rw [Key.literal, intLiteral_datum?]; rfl
  | _ => rfl

section
variable {h : Heap}

theorem EntriesHeldBy.keys_eq {ds : List (Key × Datum)} {vs : List (Key × Value)}
    (hd : EntriesHeldBy h ds vs) : ds.map Prod.fst = vs.map Prod.fst := by
  induction ds generalizing vs with
  | nil =>
    cases vs with
    | nil => rfl
    | cons e vs => exact hd.elim
  | cons e ds ih =>
    cases vs with
    | nil => exact hd.elim
    | cons e' vs => rw [List.map_cons, List.map_cons, hd.1, ih hd.2.2]

theorem itemData?_keys (members : List Key) :
    ∃ ds, itemData? (members.map Key.literal) = some ds ∧ ds.mapM Datum.key? = some members := by
  induction members with
  | nil => exact ⟨[], rfl, rfl⟩
  | cons k rest ih =>
    obtain ⟨ds, hds, hkeys⟩ := ih
    obtain ⟨d, hd, hkey⟩ := Option.bind_eq_some_iff.1 k.literal_datum?
    refine ⟨d :: ds, ?_, ?_⟩
    · rw [List.map_cons, itemData?, hd, hds]
      rfl
    · rw [List.mapM_cons, hkey, hkeys]
      rfl

mutual

/-- The literal of a datum that a value holds stands for the datum. -/
theorem Datum.HeldBy.datum?_literal : ∀ {d : Datum} {v : Value}, d.HeldBy h v →
    d.literal.datum? = some d
  | .nil, _, _ | .bool _, _, _ | .str _, _, _ => rfl
  | .int n, _, _ => intLiteral_datum? n
  | .list items, .list r, hd => by
    rw [Datum.literal, Expr.datum?, ItemsHeldBy.data?_literals hd]
    rfl
  | .map entries, .map r, hd => by
    have hkeys : (entries.map Prod.fst).Nodup := by
      rw [EntriesHeldBy.keys_eq hd]
      exact (h.map r).distinct
    rw [Datum.literal, Expr.datum?, EntriesHeldBy.data?_literals hd, Option.map_some,
      OrderedMap.toList_ofList hkeys]
  | .set members, .set r, hd => by
    obtain ⟨ds, hds, hkeys⟩ := itemData?_keys members
    have hfst : (members.map fun k => (k, ())).map Prod.fst = members := by
      rw [List.map_map]
      exact List.map_id members
    have hnodup : ((members.map fun k => (k, ())).map Prod.fst).Nodup := by
      rw [hfst, show members = _ from hd]
      exact (h.set r).nodup_keys
    rw [Datum.literal, Expr.datum?, hds, Option.bind_some, hkeys, Option.map_some,
      OrderedMap.toList_keys]
    change some (Datum.set ((OrderedMap.ofList (members.map (·, ()))).toList.map Prod.fst)) = _
    rw [OrderedMap.toList_ofList hnodup, hfst]

theorem ItemsHeldBy.data?_literals : ∀ {ds : List Datum} {vs : List Value}, ItemsHeldBy h ds vs →
    itemData? (itemLiterals ds) = some ds
  | [], _, _ => rfl
  | d :: ds, v :: vs, hd => by
    rw [itemLiterals, itemData?, hd.1.datum?_literal, hd.2.data?_literals]
    rfl

theorem EntriesHeldBy.data?_literals : ∀ {ds : List (Key × Datum)} {vs : List (Key × Value)},
    EntriesHeldBy h ds vs → entryData? (entryLiterals ds) = some ds
  | [], _, _ => rfl
  | (k, d) :: ds, (k', v) :: vs, hd => by
    rw [entryLiterals, entryData?, k.literal_datum?, hd.2.1.datum?_literal, hd.2.2.data?_literals]
    rfl

end

end

/-! ### They are written as the data -/

/-- Characters that are read as the tokens before whatever ends a word or a number. -/
def Spelled (cs : List Char) (ts : List Token) : Prop := ∀ rest, Stops rest → Spells cs ts rest

/-- Tokens with commas between them. -/
def joinedTokens : List (List Token) → List Token
  | [] => []
  | ts :: rest => ts ++ rest.flatMap (.mark .comma :: ·)

def entryPiece (entry : Expr × Expr) : List Token :=
  entry.1.tokens ++ .mark .colon :: entry.2.tokens

theorem itemTokens_eq (items : List Expr) :
    itemTokens items = joinedTokens (items.map Expr.tokens) := by
  have hmore : ∀ items : List Expr,
      moreTokens items = (items.map Expr.tokens).flatMap (.mark .comma :: ·) := by
    intro items
    induction items with
    | nil => rfl
    | cons e rest ih => rw [moreTokens, List.map_cons, List.flatMap_cons, ih]
  cases items with
  | nil => rfl
  | cons e rest => rw [itemTokens, hmore, List.map_cons, joinedTokens]

theorem entryTokens_eq (entries : List (Expr × Expr)) :
    entryTokens entries = joinedTokens (entries.map entryPiece) := by
  have hmore : ∀ entries : List (Expr × Expr),
      moreEntryTokens entries = (entries.map entryPiece).flatMap (.mark .comma :: ·) := by
    intro entries
    induction entries with
    | nil => rfl
    | cons e rest ih =>
      rw [moreEntryTokens, List.map_cons, List.flatMap_cons, ih, entryPiece]
      rfl
  cases entries with
  | nil => rfl
  | cons e rest => rw [entryTokens, hmore, List.map_cons, joinedTokens, entryPiece]

theorem Stops.flatMap {rest : List Char} (h : Stops rest) (pieces : List (List Char)) :
    Stops (pieces.flatMap ([',', ' '] ++ ·) ++ rest) := by
  cases pieces with
  | nil => exact h
  | cons cs pieces =>
    intro c hc
    cases hc
    exact .inl rfl

/-- Pieces with commas between them. -/
theorem Spelled.joined {pieces : List (List Char)} {tss : List (List Token)}
    (h : List.Forall₂ Spelled pieces tss) : Spelled (joined pieces) (joinedTokens tss) := by
  intro rest hrest
  have hmore : ∀ {pieces : List (List Char)} {tss : List (List Token)},
      List.Forall₂ Spelled pieces tss →
      Spells (pieces.flatMap ([',', ' '] ++ ·)) (tss.flatMap (.mark .comma :: ·)) rest := by
    intro pieces tss h
    induction h with
    | nil => exact .nil rest
    | @cons cs ts pieces tss hcs _ ih =>
      rw [List.flatMap_cons, List.flatMap_cons, ← List.singleton_append (l := ts)]
      refine Spells.append (Spells.append (Spells.comma _) (hcs _ ?_)) ih
      exact hrest.flatMap pieces
  cases h with
  | nil => exact .nil rest
  | @cons cs ts pieces tss hcs hrest' =>
    exact (hcs _ (hrest.flatMap pieces)).append (hmore hrest')

/-- A sequence between its marks. -/
theorem Spelled.enclosed {first last : Char} {m m' : Mark} {cs : List Char} {ts : List Token}
    (h : Spelled cs ts) (hfirst : (first, m) ∈ delimiters) (hlast : (last, m') ∈ delimiters)
    (hends : last = ']' ∨ last = '\x7d') :
    Spelled (first :: cs ++ [last]) (.mark m :: ts ++ [.mark m']) := by
  intro rest _
  have hstops : Stops ([last] ++ rest) := by
    intro c hc
    cases hc
    exact .inr (.inr hends)
  have hinner := (h _ hstops).append (Spells.delimiter hlast rest)
  exact (Spells.delimiter hfirst (cs ++ [last] ++ rest)).append hinner

theorem Spelled.inBrackets {cs : List Char} {ts : List Token} (h : Spelled cs ts) :
    Spelled ('[' :: cs ++ [']']) (.mark .lBracket :: ts ++ [.mark .rBracket]) :=
  h.enclosed (by simp [delimiters]) (by simp [delimiters]) (.inl rfl)

theorem Spelled.inBraces {cs : List Char} {ts : List Token} (h : Spelled cs ts) :
    Spelled ('\x7b' :: cs ++ ['\x7d']) (.mark .lBrace :: ts ++ [.mark .rBrace]) :=
  h.enclosed (by simp [delimiters]) (by simp [delimiters]) (.inr rfl)

theorem natAbs_lt_wordSize (n : Int64) : n.toInt.natAbs < wordSize := by
  have hlow := n.minValue_le_toInt
  have hhigh := n.toInt_le
  rw [Int64.toInt_minValue] at hlow
  rw [Int64.toInt_maxValue] at hhigh
  unfold wordSize
  omega

/-- Where an integer below zero is not the least one, its negation is above zero. -/
theorem toInt_neg_of_neg {n : Int64} (hneg : n < 0) (hleast : n ≠ Int64.minValue) :
    (-n).toInt = -n.toInt := by
  have hlow := n.minValue_le_toInt
  have hlt : n.toInt < 0 := Int64.lt_iff_toInt_lt.1 hneg
  have hne : n.toInt ≠ Int64.minValue.toInt := fun heq => hleast (Int64.toInt_inj.1 heq)
  rw [Int64.toInt_minValue] at hlow hne
  rw [Int64.toInt_neg, Int.bmod_eq_of_le]
  · omega
  · omega

theorem intLiteral_tokens (n : Int64) : (intLiteral n).tokens =
    if n < 0 then [.mark .minus, .integer n.toInt.natAbs] else [.integer n.toInt.natAbs] := by
  unfold intLiteral
  split
  · rw [Expr.tokens]
  · rename_i hn
    obtain ⟨hneg, hleast⟩ := not_or.1 hn
    have hneg : n < 0 := Int64.not_le.1 hneg
    have hnegation := toInt_neg_of_neg hneg hleast
    have hpos : ¬-n < 0 := by
      rw [Int64.lt_iff_toInt_lt, hnegation]
      have hlt : n.toInt < 0 := Int64.lt_iff_toInt_lt.1 hneg
      show ¬-n.toInt < 0
      omega
    rw [if_pos hneg, Expr.tokens, Expr.level, if_neg hpos, Expr.tokens, if_neg hpos, hnegation,
      Int.natAbs_neg]
    rfl

theorem intLiteral_grammatical (n : Int64) : (intLiteral n).Grammatical := by
  unfold intLiteral
  split
  · rename_i hn
    exact hn
  · rename_i hn
    obtain ⟨hneg, hleast⟩ := not_or.1 hn
    have hneg : n < 0 := Int64.not_le.1 hneg
    have hnegation := toInt_neg_of_neg hneg hleast
    refine .inl (Int64.le_iff_toInt_le.2 ?_)
    have hlt : n.toInt < 0 := Int64.lt_iff_toInt_lt.1 hneg
    rw [hnegation]
    show (0 : Int) ≤ -n.toInt
    omega

theorem spelled_int (n : Int64) : Spelled (intChars n) (intLiteral n).tokens := by
  intro rest hrest
  have hdigits := Spells.digits (natAbs_lt_wordSize n) hrest
  rw [intLiteral_tokens]
  unfold intChars
  split
  · exact (Spells.delimiter (by simp [delimiters]) _).append hdigits
  · exact hdigits

theorem spelled_bool (b : Bool) : Spelled (boolChars b) (Expr.bool .start b).tokens := by
  intro rest hrest
  cases b with
  | true => exact .trueWord hrest
  | false => exact .falseWord hrest

theorem Key.literal_grammatical (k : Key) : k.literal.Grammatical := by
  cases k with
  | int n => exact intLiteral_grammatical n
  | _ => trivial

theorem itemsGrammatical_keys (members : List Key) :
    ItemsGrammatical (members.map Key.literal) := by
  induction members with
  | nil => trivial
  | cons k rest ih => exact ⟨k.literal_grammatical, ih⟩

/-! ### Data that can be written -/

/-- A text has no character that is written by its code point. -/
def Key.Plain : Key → Prop
  | .str s => Text.isPlain s = true
  | _ => True

mutual

/-- Sets have members, and no text has a character that is written by its code point. -/
def Datum.Plain : Datum → Prop
  | .nil | .bool _ | .int _ => True
  | .str s => Text.isPlain s = true
  | .list items => ItemsPlain items
  | .map entries => EntriesPlain entries
  | .set members => members ≠ [] ∧ ∀ k ∈ members, k.Plain

def ItemsPlain : List Datum → Prop
  | [] => True
  | d :: rest => d.Plain ∧ ItemsPlain rest

def EntriesPlain : List (Key × Datum) → Prop
  | [] => True
  | (k, d) :: rest => k.Plain ∧ d.Plain ∧ EntriesPlain rest

end

theorem Key.Plain.spelled {k : Key} (h : k.Plain) : Spelled k.chars k.literal.tokens := by
  cases k with
  | nil => exact fun _ => .nilWord
  | bool b => exact spelled_bool b
  | int n => exact spelled_int n
  | str s => exact fun rest _ => .quoted h rest

theorem spelled_keys {members : List Key} (h : ∀ k ∈ members, k.Plain) :
    List.Forall₂ Spelled (members.map Key.chars) ((members.map Key.literal).map Expr.tokens) := by
  rw [List.map_map, List.forall₂_map_left_iff, List.forall₂_map_right_iff]
  exact List.forall₂_same.2 fun k hk => (h k hk).spelled

mutual

/-- The text of a datum is read as the tokens of its literal. -/
theorem Datum.Plain.spelled : ∀ {d : Datum}, d.Plain → Spelled d.chars d.literal.tokens
  | .nil, _ => fun _ => .nilWord
  | .bool b, _ => spelled_bool b
  | .int n, _ => spelled_int n
  | .str _, h => fun rest _ => .quoted h rest
  | .list items, h => by
    rw [Datum.literal, Expr.tokens, itemTokens_eq]
    exact (Spelled.joined (ItemsPlain.spelled h)).inBrackets
  | .map entries, h => by
    rw [Datum.literal, Expr.tokens, entryTokens_eq]
    exact (Spelled.joined (EntriesPlain.spelled h)).inBraces
  | .set members, h => by
    rw [Datum.literal, Expr.tokens, itemTokens_eq]
    exact (Spelled.joined (spelled_keys h.2)).inBraces

theorem ItemsPlain.spelled : ∀ {ds : List Datum}, ItemsPlain ds →
    List.Forall₂ Spelled (itemChars ds) ((itemLiterals ds).map Expr.tokens)
  | [], _ => .nil
  | _ :: _, h => .cons h.1.spelled h.2.spelled

theorem EntriesPlain.spelled : ∀ {ds : List (Key × Datum)}, EntriesPlain ds →
    List.Forall₂ Spelled (entryChars ds) ((entryLiterals ds).map entryPiece)
  | [], _ => .nil
  | (k, d) :: _, h => by
    refine .cons (fun rest hrest => ?_) h.2.2.spelled
    have hcolon : Stops ([':', ' '] ++ d.chars ++ rest) := by
      intro c hc
      cases hc
      exact .inr (.inl rfl)
    have hvalue := (Spells.colon (d.chars ++ rest)).append (h.2.1.spelled rest hrest)
    have hentry := (h.1.spelled _ hcolon).append hvalue
    rwa [← List.append_assoc] at hentry

end

mutual

theorem Datum.Plain.grammatical : ∀ {d : Datum}, d.Plain → d.literal.Grammatical
  | .nil, _ | .bool _, _ | .str _, _ => trivial
  | .int n, _ => intLiteral_grammatical n
  | .list _, h => ItemsPlain.grammatical h
  | .map _, h => EntriesPlain.grammatical h
  | .set members, h => by
    exact ⟨fun hnil => h.1 (List.map_eq_nil_iff.1 hnil), itemsGrammatical_keys members⟩

theorem ItemsPlain.grammatical : ∀ {ds : List Datum}, ItemsPlain ds →
    ItemsGrammatical (itemLiterals ds)
  | [], _ => trivial
  | _ :: _, h => ⟨h.1.grammatical, h.2.grammatical⟩

theorem EntriesPlain.grammatical : ∀ {ds : List (Key × Datum)}, EntriesPlain ds →
    EntriesGrammatical (entryLiterals ds)
  | [], _ => trivial
  | (k, _) :: _, h => ⟨k.literal_grammatical, h.2.1.grammatical, h.2.2.grammatical⟩

end

/-! ## Reading one expression -/

theorem Stream.endStatement_of_eof {s : Stream} (h : s.kinds = [Token.eof]) :
    ∃ hr, s.endStatement = .ok ⟨s, hr⟩ := by
  obtain ⟨tokens, last⟩ := s
  obtain ⟨span, rest, rfl, hrest⟩ := tokens_of_kinds h
  exact ⟨Nat.le_refl _, rfl⟩

/-- The tokens of an expression alone are read as a statement. -/
theorem parseStatement_expr {e : Expr} (he : e.Grammatical) {s : Stream}
    (hs : s.kinds = e.tokens ++ [Token.eof]) :
    (parseStatement s).Reads (fun st => ∃ span e', st = .expr span e' ∧ e'.bare = e.bare)
      [Token.eof] := by
  obtain ⟨e', r, hr, hread, hbare, hkinds⟩ := e.readable he |>.whole hs rfl
  rw [parseStatement_of_expr hs nofun, parseSimple, hread]
  dsimp only
  rw [Stream.eat?_eq_none (by simp [hkinds])]
  exact ⟨_, r, hr, rfl, ⟨_, e', rfl, hbare⟩, hkinds⟩

/-- The tokens of an expression alone are read as a program that is this expression. -/
theorem parseTokens_expr {e : Expr} (he : e.Grammatical) {ts : List Lexeme}
    (hts : ts.map (·.token) = e.tokens ++ [Token.eof]) :
    ∃ span e', parseTokens ts = .ok ⟨[.expr span e']⟩ ∧ e'.bare = e.bare := by
  have hfilter : (ts.filter fun t => !t.token.isComment) = ts := by
    refine List.filter_eq_self.2 fun t ht => ?_
    have hmem : t.token ∈ e.tokens ++ [Token.eof] := hts ▸ List.mem_map_of_mem ht
    have hwritten : t.token.written = true := by
      rcases List.mem_append.1 hmem with hmem | hmem
      · exact List.all_eq_true.1 e.written_tokens _ hmem
      · rw [List.mem_singleton.1 hmem]
        rfl
    rw [isComment_eq_false hwritten]
    rfl
  obtain ⟨k, ks, htokens, hk⟩ := e.opens_tokens.begins
  have hs : (⟨ts, none⟩ : Stream).skipSeparators.1.kinds = e.tokens ++ [Token.eof] := by
    rw [htokens] at hts ⊢
    exact Stream.kinds_skipSeparators hts (isSeparator_eq_false hk)
  have hpeek : (⟨ts, none⟩ : Stream).skipSeparators.1.peek = k :=
    Stream.peek_of_kinds (hs.trans (by rw [htokens]; rfl))
  obtain ⟨st, r, hr, hread, ⟨span, e', rfl, hbare⟩, hkinds⟩ := parseStatement_expr he hs
  obtain ⟨hle, hend⟩ := Stream.endStatement_of_eof hkinds
  have hlast := Stream.kinds_skipSeparators hkinds rfl
  refine ⟨span, e', ?_, hbare⟩
  rw [parseTokens, hfilter, parseStatements]
  dsimp only
  rw [hpeek]
  split
  · cases hk
  · rw [hread]
    dsimp only
    rw [hend]
    dsimp only
    rw [parseStatements]
    simp only [Stream.peek_of_kinds hlast]
    rfl

/-! ## Literals -/

/-- The text for a programmer of a value that holds a datum, whose sets have members and whose texts
have no character that is written by its code point, is read as one expression, a literal that
stands for the datum. A value holds a datum if nothing is reached from itself. -/
theorem literal_texts_read_back (h : Heap) (v : Value) (d : Datum) (hheld : d.HeldBy h v)
    (hplain : d.Plain) :
    ∃ span e, parse (v.debugText h) = .ok ⟨[.expr span e]⟩ ∧ e.datum? = some d := by
  obtain ⟨ts, hlex, htokens⟩ := (hplain.spelled [] stops_nil).lex_eq
  obtain ⟨span, e, hparse, hbare⟩ := parseTokens_expr hplain.grammatical htokens
  refine ⟨span, e, ?_, ?_⟩
  · rw [hheld.debugText_eq, parse, hlex]
    dsimp only
    rw [hparse]
  · rw [← e.datum?_bare, hbare, Expr.datum?_bare, hheld.datum?_literal]

/-- A list of the least integer, a map and a set. The map holds a list under a text with escapes. -/
def nestedHeap : Heap where
  lists := #[#[.int Int64.minValue, .int (-5), .map ⟨0⟩, .set ⟨0⟩], #[.bool true, .list ⟨2⟩]]
  maps := #[.ofList [(.str "\"\\\n", .list ⟨1⟩), (.int (-1), .str "a b")]]
  sets := #[.ofList [(.str "\t", ()), (.nil, ())]]
  cells := #[]
  nextId := 1

def nestedDatum : Datum :=
  .list [.int Int64.minValue, .int (-5),
    .map [(.str "\"\\\n", .list [.bool true, .list []]), (.int (-1), .str "a b")],
    .set [.str "\t", .nil]]

theorem nestedDatum_heldBy : nestedDatum.HeldBy nestedHeap (.list ⟨0⟩) := by
  have hmap : (nestedHeap.map ⟨0⟩).toList =
      [(.str "\"\\\n", .list ⟨1⟩), (.int (-1), .str "a b")] :=
    OrderedMap.toList_ofList (by decide)
  have hset : (nestedHeap.set ⟨0⟩).toList = [(.str "\t", ()), (.nil, ())] :=
    OrderedMap.toList_ofList (by decide)
  have hkeys : (nestedHeap.set ⟨0⟩).keys.toList = [.str "\t", .nil] := by
    rw [OrderedMap.toList_keys]
    exact congrArg (List.map Prod.fst) hset
  refine ⟨rfl, rfl, ?_, hkeys.symm, trivial⟩
  show EntriesHeldBy nestedHeap _ (nestedHeap.map ⟨0⟩).toList
  rw [hmap]
  exact ⟨rfl, ⟨rfl, trivial, trivial⟩, rfl, rfl, trivial⟩

theorem nestedDatum_plain : nestedDatum.Plain := by
  have htexts : ["\"\\\n", "a b", "\t"].all Text.isPlain = true := by decide +kernel
  have hplain : ∀ s ∈ ["\"\\\n", "a b", "\t"], Text.isPlain s = true := List.all_eq_true.1 htexts
  have hmap : (Datum.map [(.str "\"\\\n", .list [.bool true, .list []]),
      (.int (-1), .str "a b")]).Plain :=
    ⟨hplain _ (by simp), ⟨trivial, trivial, trivial⟩, trivial, hplain _ (by simp), trivial⟩
  have hset : (Datum.set [.str "\t", .nil]).Plain := by
    refine ⟨nofun, fun k hk => ?_⟩
    rcases List.mem_pair.1 hk with rfl | rfl
    · exact hplain _ (by simp)
    · trivial
  exact ⟨trivial, trivial, hmap, hset, trivial⟩

theorem literal_texts_read_back_nested :
    nestedDatum.HeldBy nestedHeap (.list ⟨0⟩) ∧ nestedDatum.Plain ∧
    ∃ span e, parse ((Value.list ⟨0⟩).debugText nestedHeap) = .ok ⟨[.expr span e]⟩ ∧
      e.datum? = some nestedDatum :=
  ⟨nestedDatum_heldBy, nestedDatum_plain,
    literal_texts_read_back nestedHeap _ nestedDatum nestedDatum_heldBy nestedDatum_plain⟩

end Ember
