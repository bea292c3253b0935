import Mathlib.Data.List.TakeWhile
import Ember.Token.Lexer

/-! How single tokens are read. The first two characters say which reader reads a token; each reader
takes characters of one line only, reads the same token if the text ends where the token ends, and
is not misled by a line break where the text ended before. -/
namespace Ember
set_option autoImplicit false

/-! ## Characters of one line -/

/-- The first `n` characters are there, and no line break is among them. -/
def OnLine (cs : List Char) (n : Nat) : Prop := n ≤ cs.length ∧ '\n' ∉ cs.take n

namespace OnLine

variable {cs : List Char} {c : Char} {n k : Nat}

theorem zero (cs : List Char) : OnLine cs 0 := ⟨Nat.zero_le _, List.not_mem_nil⟩

theorem cons (hc : c ≠ '\n') (h : OnLine cs n) : OnLine (c :: cs) (n + 1) := by
  refine ⟨Nat.succ_le_succ h.1, fun hmem => ?_⟩
  rw [List.take_succ_cons, List.mem_cons] at hmem
  rcases hmem with rfl | hmem
  · exact hc rfl
  · exact h.2 hmem

theorem add (h : OnLine cs n) (h' : OnLine (cs.drop n) k) : OnLine cs (n + k) := by
  have hlength := h'.1
  rw [List.length_drop] at hlength
  refine ⟨by have := h.1; omega, fun hmem => ?_⟩
  rw [List.take_add, List.mem_append] at hmem
  exact hmem.elim h.2 h'.2

theorem tail (h : OnLine (c :: cs) (n + 1)) : OnLine cs n := by
  refine ⟨Nat.le_of_succ_le_succ h.1, fun hmem => h.2 ?_⟩
  rw [List.take_succ_cons]
  exact List.mem_cons_of_mem c hmem

theorem takeWhile {p : Char → Bool} (hp : p '\n' = false) (cs : List Char) :
    OnLine cs (cs.takeWhile p).length := by
  refine ⟨(List.takeWhile_sublist p).length_le, fun hmem => ?_⟩
  rw [← List.prefix_iff_eq_take.1 (List.takeWhile_prefix p)] at hmem
  rw [List.mem_takeWhile_imp hmem] at hp
  cases hp

end OnLine

theorem takeWhile_take {α : Type} {p : α → Bool} {cs : List α} {n : Nat}
    (h : (cs.takeWhile p).length ≤ n) : (cs.take n).takeWhile p = cs.takeWhile p := by
  induction cs generalizing n with
  | nil => rw [List.take_nil]
  | cons c cs ih =>
    by_cases hc : p c = true
    · rw [List.takeWhile_cons_of_pos hc, List.length_cons] at h
      obtain ⟨n, rfl⟩ : ∃ m, n = m + 1 := ⟨n - 1, by omega⟩
      rw [List.take_succ_cons, List.takeWhile_cons_of_pos hc, List.takeWhile_cons_of_pos hc,
        ih (Nat.le_of_succ_le_succ h)]
    · rw [List.takeWhile_cons_of_neg hc]
      cases n with
      | zero => rfl
      | succ n => rw [List.take_succ_cons, List.takeWhile_cons_of_neg hc]

theorem takeWhile_append_break {p : Char → Bool} (hp : p '\n' = false) (cs more : List Char) :
    (cs ++ '\n' :: more).takeWhile p = cs.takeWhile p := by
  induction cs with
  | nil => rw [List.nil_append, List.takeWhile_cons_of_neg (by rw [hp]; decide), List.takeWhile_nil]
  | cons c cs ih =>
    by_cases hc : p c = true
    · rw [List.cons_append, List.takeWhile_cons_of_pos hc, List.takeWhile_cons_of_pos hc, ih]
    · rw [List.cons_append, List.takeWhile_cons_of_neg hc, List.takeWhile_cons_of_neg hc]

/-! ## Readers -/

/-- The reader takes the first `n` characters, and it does so without those after them. -/
structure Takes {α : Type} (read : List Char → Scan α) (cs : List Char) (a : α) (n : Nat) :
    Prop where
  onLine : OnLine cs n
  alone : read (cs.take n) = .ok (a, n)
  followed : ∀ more, read (cs ++ '\n' :: more) = .ok (a, n)

/-! ### Texts -/

theorem ne_newline_of_escape {c d : Char} (h : escape? c = some d) : c ≠ '\n' := by
  rintro rfl
  cases h

theorem scanString_takes {cs : List Char} {taken n : Nat} {found : List Char} {s : String}
    (h : scanString cs taken found = .ok (s, n)) :
    ∃ m, n = taken + m ∧ OnLine cs m ∧ scanString (cs.take m) taken found = .ok (s, n) ∧
      ∀ more, scanString (cs ++ '\n' :: more) taken found = .ok (s, n) := by
  fun_induction scanString cs taken found with
  | case1 => cases h
  | case2 taken found rest =>
    cases h
    exact ⟨1, rfl, (OnLine.zero _).cons (by decide), rfl, fun more => rfl⟩
  | case3 => cases h
  | case4 taken found c rest d hescape ih =>
    obtain ⟨m, rfl, honline, halone, hfollowed⟩ := ih h
    refine ⟨m + 2, by omega, (honline.cons (ne_newline_of_escape hescape)).cons (by decide), ?_,
      fun more => ?_⟩
    · rw [List.take_succ_cons, List.take_succ_cons, scanString, hescape]
      exact halone
    · rw [List.cons_append, List.cons_append, scanString, hescape]
      exact hfollowed more
  | case5 => cases h
  | case6 => cases h
  | case7 c rest taken found hquote hlast hslash hline ih =>
    obtain ⟨m, rfl, honline, halone, hfollowed⟩ := ih h
    have hc : c ≠ '\\' := by
      rintro rfl
      cases rest with
      | nil => exact hlast rfl rfl
      | cons d rest => exact hslash d rest rfl rfl
    have hself : ∀ more, scanString (c :: more) taken found =
        scanString more (taken + 1) (c :: found) := by
      intro more
      rw [scanString, if_neg hline]
      · exact hquote
      · exact fun h _ => hc h
      · exact fun _ _ h _ => hc h
    refine ⟨m + 1, by omega, honline.cons (by simpa using hline), ?_, fun more => ?_⟩
    · rw [List.take_succ_cons, hself]
      exact halone
    · rw [List.cons_append, hself]
      exact hfollowed more

/-- A fault in a text is reported at its start, or at a character that was reached. -/
theorem scanString_fault {cs : List Char} {taken k : Nat} {found : List Char} {fault : LexFault}
    (h : scanString cs taken found = .error (fault, k)) :
    k = 0 ∨ ∃ m, k = taken + 1 + m ∧ OnLine cs m := by
  fun_induction scanString cs taken found with
  | case1 => cases h; exact .inl rfl
  | case2 => cases h
  | case3 taken found => cases h; exact .inr ⟨1, rfl, (OnLine.zero _).cons (by decide)⟩
  | case4 taken found c rest d hescape ih =>
    rcases ih h with hk | ⟨m, hk, honline⟩
    · exact .inl hk
    · exact .inr ⟨m + 2, by omega,
        (honline.cons (ne_newline_of_escape hescape)).cons (by decide)⟩
  | case5 => cases h; exact .inr ⟨1, rfl, (OnLine.zero _).cons (by decide)⟩
  | case6 => cases h; exact .inl rfl
  | case7 c rest taken found hquote hlast hslash hline ih =>
    rcases ih h with hk | ⟨m, hk, honline⟩
    · exact .inl hk
    · exact .inr ⟨m + 1, by omega, honline.cons (by simpa using hline)⟩

/-! ### Numbers -/

theorem scanHex_congr {cs ds : List Char} (h : cs.takeWhile isHexDigit = ds.takeWhile isHexDigit) :
    scanHex cs = scanHex ds := by
  unfold scanHex
  rw [h]

theorem scanHex_takes {cs : List Char} {t : Token} {n : Nat} (h : scanHex cs = .ok (t, n)) :
    Takes scanHex cs t n := by
  have hn : n = (cs.takeWhile isHexDigit).length := by
    unfold scanHex at h
    dsimp only at h
    split at h
    · cases h
    · split at h
      · cases h
        rfl
      · cases h
  subst hn
  exact ⟨.takeWhile rfl cs, (scanHex_congr (takeWhile_take (Nat.le_refl _))).trans h,
    fun more => (scanHex_congr (takeWhile_append_break rfl cs more)).trans h⟩

theorem scanDecimal_congr {cs ds : List Char}
    (h : cs.takeWhile Char.isDigit = ds.takeWhile Char.isDigit)
    (hfraction : fractionDigits (cs.drop (cs.takeWhile Char.isDigit).length) =
      fractionDigits (ds.drop (cs.takeWhile Char.isDigit).length)) :
    scanDecimal cs = scanDecimal ds := by
  unfold scanDecimal
  dsimp only
  rw [hfraction, h]

theorem fractionDigits_append_break (cs more : List Char) :
    fractionDigits (cs ++ '\n' :: more) = fractionDigits cs := by
  cases cs with
  | nil => rfl
  | cons c cs =>
    by_cases hc : c = '.'
    · subst hc
      exact takeWhile_append_break rfl cs more
    · rw [List.cons_append, fractionDigits, fractionDigits]
      · exact fun _ h => hc (List.cons.inj h).1
      · exact fun _ h => hc (List.cons.inj h).1

/-- A fraction is a point and digits. -/
theorem eq_of_fractionDigits {cs : List Char} (h : fractionDigits cs ≠ []) :
    ∃ rest, cs = '.' :: rest ∧ fractionDigits cs = rest.takeWhile Char.isDigit := by
  unfold fractionDigits at h ⊢
  split at h
  · rename_i rest
    exact ⟨rest, rfl, rfl⟩
  · exact absurd rfl h

theorem scanDecimal_length {cs : List Char} {t : Token} {n : Nat}
    (h : scanDecimal cs = .ok (t, n)) :
    let whole := cs.takeWhile Char.isDigit
    let fraction := fractionDigits (cs.drop whole.length)
    n = whole.length + if fraction = [] then 0 else fraction.length + 1 := by
  unfold scanDecimal at h
  dsimp only at h ⊢
  split at h
  · rename_i hfraction
    split at h
    · cases h
      rw [if_pos (List.isEmpty_iff.1 hfraction), Nat.add_zero]
    · cases h
  · rename_i hfraction
    cases h
    rw [if_neg (mt List.isEmpty_iff.2 hfraction), Nat.add_assoc, Nat.add_comm 1]

theorem scanDecimal_takes {cs : List Char} {t : Token} {n : Nat} (h : scanDecimal cs = .ok (t, n)) :
    Takes scanDecimal cs t n := by
  have hn := scanDecimal_length h
  dsimp only at hn
  have hwhole : OnLine cs (cs.takeWhile Char.isDigit).length := .takeWhile rfl cs
  refine ⟨?_, ?_, fun more => ?_⟩
  · rw [hn]
    refine hwhole.add ?_
    split
    · exact .zero _
    · rename_i hfraction
      obtain ⟨rest, hcs, hdigits⟩ := eq_of_fractionDigits hfraction
      rw [hdigits, hcs]
      exact (OnLine.takeWhile rfl rest).cons (by decide)
  · rw [← h]
    refine (scanDecimal_congr (takeWhile_take (by omega)).symm ?_).symm
    rw [List.drop_take]
    by_cases hfraction : fractionDigits (cs.drop (cs.takeWhile Char.isDigit).length) = []
    · rw [if_pos hfraction, Nat.add_zero] at hn
      rw [hfraction, hn, Nat.sub_self]
      rfl
    · rw [if_neg hfraction] at hn
      obtain ⟨rest, hcs, hdigits⟩ := eq_of_fractionDigits hfraction
      have hlength : n - (cs.takeWhile Char.isDigit).length =
          (rest.takeWhile Char.isDigit).length + 1 := by
        rw [hdigits] at hn
        omega
      rw [hlength, hcs, List.take_succ_cons]
      exact (takeWhile_take (Nat.le_refl _)).symm
  · rw [← h]
    refine (scanDecimal_congr (takeWhile_append_break rfl cs more).symm ?_).symm
    rw [List.drop_append_of_le_length hwhole.1, fractionDigits_append_break]

/-! ### Delimiters and operators -/

theorem pairMark?_newline (c : Char) : pairMark? c '\n' = none := by
  unfold pairMark?
  split <;> first | rfl | simp_all

theorem scanMark_takes {c : Char} {rest : List Char} {t : Token} {n : Nat}
    (h : scanMark c rest = .ok (t, n)) : Takes (scanMark c) rest t n := by
  cases hpair : rest.head?.bind (pairMark? c) with
  | some m =>
    obtain ⟨d, hd, hm⟩ := Option.bind_eq_some_iff.1 hpair
    obtain ⟨rest, rfl⟩ := List.head?_eq_some_iff.1 hd
    have hd : d ≠ '\n' := by
      rintro rfl
      rw [pairMark?_newline] at hm
      cases hm
    have hself : ∀ more, scanMark c (d :: more) = .ok (.mark m, 1) := by
      intro more
      rw [scanMark, List.head?_cons, Option.bind_some, hm]
    rw [hself] at h
    cases h
    exact ⟨(OnLine.zero rest).cons hd, hself _, fun more => hself _⟩
  | none =>
    have hself : ∀ more : List Char, more.head?.bind (pairMark? c) = none →
        scanMark c more = scanMark c rest := by
      intro more hmore
      rw [scanMark, scanMark, hpair, hmore]
    obtain rfl : n = 0 := by
      rw [scanMark, hpair] at h
      dsimp only at h
      split at h <;> cases h
      rfl
    refine ⟨.zero rest, (hself _ rfl).trans h, fun more => (hself _ ?_).trans h⟩
    cases rest with
    | nil => exact pairMark?_newline c
    | cons d rest => exact hpair

/-! ## The first two characters -/

/-- What may be read. -/
inductive Reader
  | comment | string | hex | decimal | name | mark

/-- The reader for a token, by its first character and the one after it. -/
def readerOf (c : Char) (next : Option Char) : Reader :=
  if c == '/' && next == some '/' then .comment
  else if c == '"' then .string
  else if c == '0' && (next == some 'x' || next == some 'X') then .hex
  else if c.isDigit then .decimal
  else if isNameStart c then .name
  else .mark

/-- What a reader reads after the first character. -/
def Reader.read (c : Char) : Reader → List Char → Scan Token
  | .comment, rest =>
    let body := (rest.drop 1).takeWhile (· != '\n')
    .ok (.comment (Text.trim (String.ofList body)), body.length + 1)
  | .string, rest =>
    match scanString rest 0 [] with
    | .ok (s, taken) => .ok (.string s, taken)
    | .error e => .error e
  | .hex, rest => (scanHex (rest.drop 1)).more 1
  | .decimal, rest =>
    match scanDecimal (c :: rest) with
    | .ok (t, taken) => .ok (t, taken - 1)
    | .error e => .error e
  | .name, rest =>
    let body := rest.takeWhile isNamePart
    .ok (wordToken (String.ofList (c :: body)), body.length)
  | .mark, rest => scanMark c rest

theorem scan_eq (c : Char) (rest : List Char) :
    scan c rest = (readerOf c rest.head?).read c rest := by
  unfold scan readerOf
  split
  · rfl
  · split
    · rfl
    · split
      · rfl
      · split
        · rfl
        · split <;> rfl

/-- Comments and hexadecimal numbers begin with two characters. -/
def Reader.isLong : Reader → Bool
  | .comment | .hex => true
  | _ => false

theorem exists_of_isLong {c : Char} {next : Option Char} (h : (readerOf c next).isLong = true) :
    ∃ d, next = some d ∧ d ≠ '\n' := by
  unfold readerOf at h
  split at h
  · rename_i hcomment
    exact ⟨'/', eq_of_beq (Bool.and_eq_true_iff.1 hcomment).2, by decide⟩
  · split at h
    · cases h
    · split at h
      · rename_i hhex
        rcases Bool.or_eq_true_iff.1 (Bool.and_eq_true_iff.1 hhex).2 with hx | hx
        · exact ⟨'x', eq_of_beq hx, by decide⟩
        · exact ⟨'X', eq_of_beq hx, by decide⟩
      · split at h
        · cases h
        · split at h <;> cases h

/-- A second character that starts no comment and marks no number is as good as none. -/
theorem readerOf_congr {c : Char} {next next' : Option Char} (h : (readerOf c next).isLong = false)
    (hnext' : next' ≠ some '/' ∧ next' ≠ some 'x' ∧ next' ≠ some 'X') :
    readerOf c next' = readerOf c next := by
  have hslash : (next' == some '/') = false := beq_false_of_ne hnext'.1
  have hx : (next' == some 'x') = false := beq_false_of_ne hnext'.2.1
  have hX : (next' == some 'X') = false := beq_false_of_ne hnext'.2.2
  unfold readerOf at h ⊢
  rw [hslash, hx, hX, Bool.or_false, Bool.and_false, Bool.and_false]
  split at h
  · cases h
  · rename_i hcomment
    rw [if_neg Bool.false_ne_true, if_neg hcomment]
    split at h
    · rename_i hquote
      rw [if_pos hquote, if_pos hquote]
    · split at h
      · cases h
      · rename_i hquote hhex
        rw [if_neg Bool.false_ne_true, if_neg hhex]

theorem more_eq_ok {α : Type} {x : Scan α} {a : α} {n k : Nat} (h : x.more k = .ok (a, n)) :
    ∃ m, x = .ok (a, m) ∧ n = m + k := by
  match x, h with
  | .ok (_, m), rfl => exact ⟨m, rfl, rfl⟩

theorem Reader.read_takes {k : Reader} {c : Char} {rest : List Char} {t : Token} {n : Nat}
    (hlong : k.isLong = true → ∃ d, rest.head? = some d ∧ d ≠ '\n')
    (hdigit : k = .decimal → c.isDigit = true)
    (h : k.read c rest = .ok (t, n)) : Takes (k.read c) rest t n := by
  cases k with
  | comment =>
    obtain ⟨d, hhead, hd⟩ := hlong rfl
    obtain ⟨rest, rfl⟩ := List.head?_eq_some_iff.1 hhead
    cases h
    refine ⟨(OnLine.takeWhile rfl rest).cons hd, ?_, fun more => ?_⟩
    · simp only [Reader.read, List.take_succ_cons, List.drop_succ_cons, List.drop_zero,
        takeWhile_take (Nat.le_refl _)]
    · simp only [Reader.read, List.cons_append, List.drop_succ_cons, List.drop_zero,
        takeWhile_append_break (p := (· != '\n')) rfl]
  | string =>
    rw [Reader.read] at h
    split at h
    · rename_i s taken hstring
      cases h
      obtain ⟨m, hm, honline, halone, hfollowed⟩ := scanString_takes hstring
      obtain rfl : m = n := (hm.trans (Nat.zero_add m)).symm
      refine ⟨honline, ?_, fun more => ?_⟩
      · rw [Reader.read, halone]
      · rw [Reader.read, hfollowed]
    · cases h
  | hex =>
    obtain ⟨d, hhead, hd⟩ := hlong rfl
    obtain ⟨rest, rfl⟩ := List.head?_eq_some_iff.1 hhead
    obtain ⟨m, hhex, rfl⟩ := more_eq_ok h
    obtain ⟨honline, halone, hfollowed⟩ := scanHex_takes hhex
    refine ⟨honline.cons hd, ?_, fun more => ?_⟩
    · exact congrArg (Scan.more 1) halone
    · exact congrArg (Scan.more 1) (hfollowed more)
  | decimal =>
    rw [Reader.read] at h
    split at h
    · rename_i t taken hdecimal
      cases h
      obtain ⟨honline, halone, hfollowed⟩ := scanDecimal_takes hdecimal
      have hn := scanDecimal_length hdecimal
      dsimp only at hn
      rw [List.takeWhile_cons_of_pos (hdigit rfl), List.length_cons] at hn
      obtain ⟨m, rfl⟩ : ∃ m, taken = m + 1 := ⟨taken - 1, by omega⟩
      refine ⟨honline.tail, ?_, fun more => ?_⟩
      · rw [List.take_succ_cons] at halone
        rw [Reader.read, Nat.add_sub_cancel, halone]
        rfl
      · have hread := hfollowed more
        rw [List.cons_append] at hread
        rw [Reader.read, hread]
    · cases h
  | name =>
    cases h
    refine ⟨.takeWhile (by decide) rest, ?_, fun more => ?_⟩
    · rw [Reader.read, takeWhile_take (Nat.le_refl _)]
    · rw [Reader.read, takeWhile_append_break (by decide)]
  | mark => exact scanMark_takes h

theorem isDigit_of_decimal {c : Char} {next : Option Char} (h : readerOf c next = .decimal) :
    c.isDigit = true := by
  unfold readerOf at h
  split at h
  · cases h
  · split at h
    · cases h
    · split at h
      · cases h
      · split at h
        · assumption
        · split at h <;> cases h

theorem Reader.read_nil {k : Reader} (hk : k.isLong = true) (c : Char) (t : Token) :
    k.read c [] ≠ .ok (t, 0) := by
  cases k with
  | comment | hex => exact nofun
  | string | decimal | name | mark => cases hk

/-- A token is read from its characters alone, and a line break after them changes nothing. -/
theorem scan_takes {c : Char} {rest : List Char} {t : Token} {n : Nat}
    (h : scan c rest = .ok (t, n)) : Takes (scan c) rest t n := by
  rw [scan_eq] at h
  obtain ⟨honline, halone, hfollowed⟩ := Reader.read_takes exists_of_isLong isDigit_of_decimal h
  refine ⟨honline, ?_, fun more => ?_⟩
  · have hreader : readerOf c (rest.take n).head? = readerOf c rest.head? := by
      cases n with
      | zero =>
        refine readerOf_congr ?_ ⟨nofun, nofun, nofun⟩
        exact Bool.eq_false_iff.2 fun hlong => Reader.read_nil hlong c t halone
      | succ n => rw [List.head?_take, if_neg (Nat.succ_ne_zero n)]
    rw [scan_eq, hreader, halone]
  · have hreader : readerOf c (rest ++ '\n' :: more).head? = readerOf c rest.head? := by
      cases rest with
      | nil =>
        show readerOf c (some '\n') = readerOf c none
        refine readerOf_congr ?_ ⟨by decide, by decide, by decide⟩
        exact Bool.eq_false_iff.2 fun hlong => nomatch (exists_of_isLong hlong).choose_spec.1
      | cons d rest => rfl
    rw [scan_eq, hreader, hfollowed]

theorem more_eq_error {α : Type} {x : Scan α} {e : LexFault × Nat} {k : Nat}
    (h : x.more k = .error e) : x = .error e := by
  match x, h with
  | .error _, rfl => rfl

/-- A fault is reported at the start of the token or at a character that was reached. -/
theorem scan_fault {c : Char} (hc : c ≠ '\n') {rest : List Char} {fault : LexFault} {k : Nat}
    (h : scan c rest = .error (fault, k)) : OnLine (c :: rest) k := by
  have hzero : k = 0 → OnLine (c :: rest) k := by
    rintro rfl
    exact .zero _
  rw [scan_eq] at h
  generalize readerOf c rest.head? = r at h
  cases r with
  | comment | name => cases h
  | string =>
    rw [Reader.read] at h
    split at h
    · cases h
    · rename_i e hstring
      cases h
      rcases scanString_fault hstring with hk | ⟨m, rfl, honline⟩
      · exact hzero hk
      · rw [Nat.zero_add, Nat.add_comm]
        exact honline.cons hc
  | hex =>
    have hhex : scanHex (rest.drop 1) = .error (fault, k) := more_eq_error h
    unfold scanHex at hhex
    dsimp only at hhex
    split at hhex
    · cases hhex
      exact hzero rfl
    · split at hhex
      · cases hhex
      · cases hhex
        exact hzero rfl
  | decimal =>
    rw [Reader.read] at h
    split at h
    · cases h
    · rename_i e hdecimal
      cases h
      unfold scanDecimal at hdecimal
      dsimp only at hdecimal
      split at hdecimal
      · split at hdecimal
        · cases hdecimal
        · cases hdecimal
          exact hzero rfl
      · cases hdecimal
  | mark =>
    rw [Reader.read, scanMark] at h
    split at h
    · cases h
    · split at h
      · cases h
      · cases h
        exact hzero rfl

/-- The end is not read as a token. -/
theorem scan_ne_eof {c : Char} {rest : List Char} {t : Token} {n : Nat}
    (h : scan c rest = .ok (t, n)) : t ≠ .eof := by
  rintro rfl
  rw [scan_eq] at h
  generalize readerOf c rest.head? = r at h
  cases r with
  | comment => cases h
  | string =>
    rw [Reader.read] at h
    split at h <;> cases h
  | hex =>
    obtain ⟨m, hhex, -⟩ := more_eq_ok h
    unfold scanHex at hhex
    dsimp only at hhex
    split at hhex
    · cases hhex
    · split at hhex <;> cases hhex
  | decimal =>
    rw [Reader.read] at h
    split at h
    · rename_i hdecimal
      cases h
      unfold scanDecimal at hdecimal
      dsimp only at hdecimal
      split at hdecimal
      · split at hdecimal <;> cases hdecimal
      · cases hdecimal
    · cases h
  | name =>
    have hword := congrArg Prod.fst (Except.ok.inj h)
    dsimp only [wordToken] at hword
    split at hword <;> cases hword
  | mark =>
    rw [Reader.read, scanMark] at h
    split at h
    · cases h
    · split at h <;> cases h

end Ember
