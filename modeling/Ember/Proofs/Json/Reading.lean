import Mathlib.Data.List.Forall2
import Ember.Json.Reader
import Ember.Proofs.Token.Spelling
import Ember.Proofs.Value.Data

/-! JSON documents are read back from their texts, if their numbers are 64-bit integers, no two
members of an object have the same name, and arrays and objects are not nested too deep. -/
namespace Ember
namespace Json
set_option autoImplicit false

variable {rest : List Char}

/-! ## Readers -/

/-- The reader reads a value from the front of the characters, and leaves the others. -/
def Reads {α : Type} (read : Reader α) (s : List Char) (a : α) (rest : List Char) : Prop :=
  ∃ h, read s = .ok ⟨a, rest, h⟩

theorem skipBlank_cons {c : Char} (hc : isBlank c = false) (s : List Char) :
    skipBlank (c :: s) = c :: s := by
  rw [skipBlank, List.dropWhile_cons_of_neg (by rw [hc]; decide)]

/-! ## Strings -/

/-- A character is escaped by one other character, stands for itself, or is written by its number.
-/
theorem escape_cases (c : Char) :
    (∃ d, escape c = ['\\', d] ∧ simpleEscape? d = some c) ∨
      (escape c = [c] ∧ c ≠ '"' ∧ c ≠ '\\' ∧ ¬ c.toNat < 0x20) ∨
      (c.toNat < 0x20 ∧ escape c =
        ['\\', 'u', '0', '0', Nat.digitChar (c.toNat / 16), Nat.digitChar (c.toNat % 16)]) := by
  unfold escape
  split
  · rename_i hc
    exact .inl ⟨'"', rfl, by rw [hc]; rfl⟩
  · rename_i hquote
    split
    · rename_i hc
      exact .inl ⟨'\\', rfl, by rw [hc]; rfl⟩
    · rename_i hslash
      split
      · rename_i hprinted
        exact .inr (.inl ⟨rfl, hquote, hslash, Nat.not_lt.2 hprinted⟩)
      · rename_i hcontrol
        split
        · rename_i hc
          exact .inl ⟨'n', rfl, by rw [hc]; rfl⟩
        · split
          · rename_i hc
            exact .inl ⟨'r', rfl, by rw [hc]; rfl⟩
          · split
            · rename_i hc
              exact .inl ⟨'t', rfl, by rw [hc]; rfl⟩
            · split
              · rename_i hc
                exact .inl ⟨'b', rfl, by rw [← Char.ofNat_toNat c, hc]; rfl⟩
              · split
                · rename_i hc
                  exact .inl ⟨'f', rfl, by rw [← Char.ofNat_toNat c, hc]; rfl⟩
                · exact .inr (.inr ⟨Nat.lt_of_not_le hcontrol, rfl⟩)

theorem hexNumber?_control : ∀ n < 0x20,
    hexNumber? '0' '0' (Nat.digitChar (n / 16)) (Nat.digitChar (n % 16)) = some n := by
  decide

theorem readEscape_simple {c d : Char} (hd : simpleEscape? d = some c) (s : List Char) :
    ∃ hlt, readEscape (d :: s) = .ok ⟨c, s, hlt⟩ := by
  rw [readEscape, hd]
  exact ⟨_, rfl⟩

theorem readEscape_control {c : Char} (hc : c.toNat < 0x20) (s : List Char) :
    ∃ hlt, readEscape ('u' :: '0' :: '0' :: Nat.digitChar (c.toNat / 16) ::
      Nat.digitChar (c.toNat % 16) :: s) = .ok ⟨c, s, hlt⟩ := by
  have hhex := hexNumber?_control c.toNat hc
  have htrailing : isTrailingSurrogate c.toNat = false := by
    rw [isTrailingSurrogate, decide_eq_false (by omega), Bool.false_and]
  have hleading : isLeadingSurrogate c.toNat = false := by
    rw [isLeadingSurrogate, decide_eq_false (by omega), Bool.false_and]
  have hunicode : ∃ hlt, readUnicode ('0' :: '0' :: Nat.digitChar (c.toNat / 16) ::
      Nat.digitChar (c.toNat % 16) :: s) = .ok ⟨c, s, hlt⟩ := by
    rw [readUnicode, readHex, hhex]
    dsimp only
    rw [htrailing, hleading, if_neg Bool.false_ne_true, if_neg Bool.false_ne_true, Char.ofNat_toNat]
    exact ⟨_, rfl⟩
  obtain ⟨hlt, hread⟩ := hunicode
  rw [readEscape, show simpleEscape? 'u' = none from rfl]
  dsimp only
  rw [if_pos rfl, hread]
  exact ⟨_, rfl⟩

section
variable {bound : Nat} {out : String} {c : Char} {s t : List Char}

theorem readTextAfter_quote (h : ('"' :: s).length < bound) :
    ∃ hlt, readTextAfter bound ('"' :: s) h out = .ok ⟨out, s, hlt⟩ := by
  rw [readTextAfter, if_pos rfl]
  exact ⟨Nat.lt_of_succ_lt h, rfl⟩

theorem readTextAfter_self (hquote : c ≠ '"') (hslash : c ≠ '\\') (hprinted : ¬ c.toNat < 0x20)
    (h : (c :: s).length < bound) :
    ∃ hlt, readTextAfter bound (c :: s) h out = readTextAfter bound s hlt (out.push c) := by
  rw [readTextAfter, if_neg hquote, if_neg hslash, if_neg hprinted]
  exact ⟨_, rfl⟩

theorem readTextAfter_escape (hread : ∃ hlt, readEscape s = .ok ⟨c, t, hlt⟩)
    (h : ('\\' :: s).length < bound) :
    ∃ hlt, readTextAfter bound ('\\' :: s) h out = readTextAfter bound t hlt (out.push c) := by
  obtain ⟨hlt, hread⟩ := hread
  rw [readTextAfter, if_neg (by decide), if_pos rfl, hread]
  exact ⟨_, rfl⟩

/-- A character is read back from its escape. -/
theorem readTextAfter_cons (out : String) (h : (escape c ++ s).length < bound) :
    ∃ hlt, readTextAfter bound (escape c ++ s) h out = readTextAfter bound s hlt (out.push c) := by
  rcases escape_cases c with
    ⟨d, hescape, hd⟩ | ⟨hself, hquote, hslash, hprinted⟩ | ⟨hcontrol, hescape⟩
  · simp only [hescape] at h ⊢
    exact readTextAfter_escape (readEscape_simple hd s) h
  · simp only [hself] at h ⊢
    exact readTextAfter_self hquote hslash hprinted h
  · simp only [hescape] at h ⊢
    exact readTextAfter_escape (readEscape_control hcontrol s) h

end

/-- The characters of a string are read back from their escapes, one by one. -/
theorem readTextAfter_escaped (cs : List Char) (rest : List Char) (bound : Nat) (out : String)
    (h : (cs.flatMap escape ++ '"' :: rest).length < bound) :
    ∃ hlt, readTextAfter bound (cs.flatMap escape ++ '"' :: rest) h out =
      .ok ⟨out ++ String.ofList cs, rest, hlt⟩ := by
  induction cs generalizing out with
  | nil =>
    rw [String.ofList_nil, String.append_empty]
    exact readTextAfter_quote h
  | cons c cs ih =>
    have hout : out ++ String.ofList (c :: cs) = out.push c ++ String.ofList cs := by
      rw [← List.singleton_append, String.ofList_append, ← String.append_assoc]
      rfl
    simp only [List.flatMap_cons, List.append_assoc] at h ⊢
    obtain ⟨hlt, hread⟩ := readTextAfter_cons out h
    rw [hread, hout]
    exact ih (out.push c) hlt

/-- What is written between the quotes of a string, and the second one. -/
def stringTail (s : String) : List Char := s.toList.flatMap escape ++ ['"']

theorem quoted_eq (s : String) : quoted s = String.ofList ('"' :: stringTail s) := by
  have hpushed : ∀ (cs : List Char) (out : String),
      cs.foldl String.push out = out ++ String.ofList cs := by
    intro cs
    induction cs with
    | nil => intro out; exact String.append_empty.symm
    | cons c cs ih =>
      intro out
      rw [List.foldl_cons, ih, ← List.singleton_append (x := c), String.ofList_append,
        ← String.append_assoc]
      rfl
  have hescaped : ∀ (cs : List Char) (out : String),
      cs.foldl (fun out c => (escape c).foldl String.push out) out =
        out ++ String.ofList (cs.flatMap escape) := by
    intro cs
    induction cs with
    | nil => intro out; exact String.append_empty.symm
    | cons c cs ih =>
      intro out
      rw [List.foldl_cons, ih, hpushed, List.flatMap_cons, String.ofList_append,
        String.append_assoc]
  rw [quoted, String.foldl_eq_foldl_toList, hescaped, String.empty_append, stringTail,
    ← List.singleton_append (x := '"'), String.ofList_append, String.ofList_append,
    ← String.append_assoc]

theorem reads_string (s : String) (rest : List Char) :
    ∃ hlt, readText (stringTail s ++ rest) = .ok ⟨s, rest, hlt⟩ := by
  rw [stringTail, List.append_assoc, List.singleton_append]
  obtain ⟨hlt, hread⟩ := readTextAfter_escaped s.toList rest _ "" (length_lt_length_succ _)
  rw [String.empty_append, String.ofList_toList] at hread
  exact ⟨hlt, hread⟩

/-! ## Numbers -/

section
variable {limit value used : Nat} {ds : List Char}

/-- Nothing that follows a number can be taken for a part of it. -/
theorem not_isDigit_of_stops (hrest : Stops rest) : ∀ c ∈ rest.head?, c.isDigit = false := by
  intro c hc
  rcases hrest c hc with rfl | rfl | rfl | rfl <;> rfl

/-- All digits of a number up to the limit are read. -/
theorem absorb_digits (hds : ∀ c ∈ ds, c.isDigit = true) (hrest : Stops rest)
    (hlimit : Nat.ofDigitChars 10 ds value ≤ limit) :
    absorb limit value used (ds ++ rest) =
      (Nat.ofDigitChars 10 ds value, used + ds.length, rest) := by
  induction ds generalizing value used with
  | nil =>
    cases rest with
    | nil => rfl
    | cons c rest =>
      rw [List.nil_append, absorb, not_isDigit_of_stops hrest c rfl, Bool.false_and,
        if_neg Bool.false_ne_true]
      rfl
  | cons c ds ih =>
    rw [Nat.ofDigitChars_cons] at hlimit ⊢
    have hnext : value * 10 + Decimal.digitValue c = 10 * value + (c.toNat - '0'.toNat) := by
      rw [Nat.mul_comm]
      rfl
    have hle : 10 * value + (c.toNat - '0'.toNat) ≤ limit := by
      rw [Nat.ofDigitChars_eq_ofDigitChars_zero] at hlimit
      have hpos : 0 < 10 ^ ds.length := Nat.pow_pos (by decide)
      have hmul := Nat.le_mul_of_pos_left (10 * value + (c.toNat - '0'.toNat)) hpos
      omega
    rw [List.cons_append, absorb, hds c List.mem_cons_self, hnext, decide_eq_true hle,
      Bool.and_self, if_pos rfl, ih (fun d hd => hds d (List.mem_cons_of_mem c hd)) hlimit,
      List.length_cons]
    congr 2
    omega

theorem readDigits_digits (hds : ∀ c ∈ ds, c.isDigit = true) (hrest : Stops rest)
    (hlimit : Nat.ofDigitChars 10 ds value ≤ limit) :
    readDigits limit value (ds ++ rest) = ⟨Nat.ofDigitChars 10 ds value, ds.length, 0, rest⟩ := by
  have hafter : rest.dropWhile Char.isDigit = rest := by
    cases rest with
    | nil => rfl
    | cons c rest =>
      rw [List.dropWhile_cons_of_neg (by rw [not_isDigit_of_stops hrest c rfl]; decide)]
  rw [readDigits, absorb_digits hds hrest hlimit]
  dsimp only
  rw [hafter, Nat.sub_self, Nat.zero_add]

/-- A number other than zero does not start with the digit zero. -/
theorem head_toDigits_ne_zero {n : Nat} (hn : n ≠ 0) : (Nat.toDigits 10 n).head? ≠ some '0' := by
  induction n using Nat.strong_induction_on with
  | _ n ih =>
    by_cases hlt : n < 10
    · rw [Nat.toDigits_of_lt_base hlt]
      have hall : ∀ m < 10, m ≠ 0 → [Nat.digitChar m].head? ≠ some '0' := by decide
      exact hall n hlt hn
    · rw [Nat.toDigits_of_base_le (by decide) (Nat.le_of_not_lt hlt)]
      have hdiv := ih (n / 10) (by omega) (by omega)
      rwa [List.head?_append_of_ne_nil _ Nat.toDigits_ne_nil]

theorem readAfterWhole_stops (value used : Nat) (hrest : Stops rest) (negative : Bool) :
    ∃ hlt, readAfterWhole negative ⟨value, used, 0, rest⟩ =
      .ok ⟨readAfterWhole.whole negative ⟨value, used, 0, rest⟩, rest, hlt⟩ := by
  cases rest with
  | nil => exact ⟨_, rfl⟩
  | cons c rest => rcases hrest c rfl with rfl | rfl | rfl | rfl <;> exact ⟨_, rfl⟩

theorem map_readAfterWhole {digits : Digits} (hdigits : digits = ⟨value, used, 0, rest⟩)
    (hrest : Stops rest) (negative : Bool) {bound : Nat} (hbound : digits.rest.length + 1 ≤ bound) :
    ∃ hlt, ((readAfterWhole negative digits).map fun x => x.widen hbound) =
      .ok ⟨readAfterWhole.whole negative ⟨value, used, 0, rest⟩, rest, hlt⟩ := by
  subst hdigits
  obtain ⟨hlt, hread⟩ := readAfterWhole_stops value used hrest negative
  rw [hread]
  exact ⟨_, rfl⟩

theorem readNumber_digits {n : Nat} (hn : n ≤ maxWhole) (hrest : Stops rest) (negative : Bool) :
    ∃ used hlt, readNumber negative (Nat.toDigits 10 n ++ rest) =
      .ok ⟨readAfterWhole.whole negative ⟨n, used, 0, rest⟩, rest, hlt⟩ := by
  by_cases hzero : n = 0
  · subst hzero
    obtain ⟨hlt, hread⟩ := readAfterWhole_stops 0 1 hrest negative
    have hnumber : readNumber negative ('0' :: rest) = readAfterWhole negative ⟨0, 1, 0, rest⟩ := by
      cases rest with
      | nil => rfl
      | cons c rest =>
        have hc : c.isDigit = false := not_isDigit_of_stops hrest c rfl
        show (if c.isDigit then _ else _) = _
        rw [hc, if_neg Bool.false_ne_true]
    exact ⟨1, hlt, hnumber.trans hread⟩
  · have hdigits : ∀ c ∈ Nat.toDigits 10 n, c.isDigit = true :=
      fun c hc => Nat.isDigit_of_mem_toDigits (by decide) (by decide) hc
    have hvalue : Nat.ofDigitChars 10 (Nat.toDigits 10 n) 0 = n := Nat.ofDigitChars_ten_toDigits
    have hhead := head_toDigits_ne_zero hzero
    obtain ⟨c, ds, hcs⟩ := List.exists_cons_of_ne_nil (Nat.toDigits_ne_nil (n := n) (b := 10))
    rw [hcs] at hdigits hvalue hhead ⊢
    rw [Nat.ofDigitChars_cons, Nat.mul_zero, Nat.zero_add] at hvalue
    have hread : readDigits maxWhole (Decimal.digitValue c) (ds ++ rest) =
        ⟨n, ds.length, 0, rest⟩ := by
      rw [readDigits_digits (fun d hd => hdigits d (List.mem_cons_of_mem c hd)) hrest]
      · exact congrArg (fun n => (⟨n, ds.length, 0, rest⟩ : Digits)) hvalue
      · exact hvalue ▸ hn
    have hc : c ≠ '0' := fun hc => hhead (congrArg some hc)
    unfold readNumber
    rw [List.cons_append]
    dsimp only
    rw [if_neg hc, if_pos (hdigits c List.mem_cons_self)]
    exact ⟨_, map_readAfterWhole hread hrest negative _⟩

end

/-! ## Documents -/

section
variable {inner? : Option (Reader Json)}

theorem readWith_null (rest : List Char) :
    Reads (readWith inner?) (['n', 'u', 'l', 'l'] ++ rest) .null rest :=
  ⟨_, rfl⟩

theorem readWith_bool (b : Bool) (rest : List Char) :
    Reads (readWith inner?) (boolChars b ++ rest) (.bool b) rest := by
  cases b <;> exact ⟨_, rfl⟩

theorem readWith_string (s : String) (rest : List Char) :
    Reads (readWith inner?) ('"' :: (stringTail s ++ rest)) (.string s) rest := by
  obtain ⟨hlt, hread⟩ := reads_string s rest
  have hquote : ∀ r, ∃ hle, readWith inner? ('"' :: r) =
      (readText r).map fun x => (x.map Json.string).widen hle := fun r => ⟨Nat.le_refl _, rfl⟩
  obtain ⟨hle, hquote⟩ := hquote (stringTail s ++ rest)
  rw [Reads, hquote, hread]
  exact ⟨_, rfl⟩

theorem ne_of_isDigit {c d : Char} (hc : c.isDigit = true) (hd : d.isDigit = false) : c ≠ d := by
  rintro rfl
  rw [hc] at hd
  cases hd

theorem isBlank_of_isDigit {c : Char} (hc : c.isDigit = true) : isBlank c = false := by
  unfold isBlank
  rw [beq_false_of_ne (ne_of_isDigit hc rfl), beq_false_of_ne (ne_of_isDigit hc rfl),
    beq_false_of_ne (ne_of_isDigit hc rfl), beq_false_of_ne (ne_of_isDigit hc rfl)]
  rfl

theorem readWith_digit {c : Char} (hc : c.isDigit = true) (r : List Char) :
    ∃ hle, readWith inner? (c :: r) =
      (readNumber false (c :: r)).map fun x => (x.map Json.number).widen hle := by
  have hblank := isBlank_of_isDigit hc
  unfold readWith
  split
  · rename_i hskip
    rw [skipBlank_cons hblank] at hskip
    cases hskip
  · rename_i d s hskip
    rw [skipBlank_cons hblank] at hskip
    cases hskip
    rw [if_neg (ne_of_isDigit hc rfl), if_neg (ne_of_isDigit hc rfl), if_neg (ne_of_isDigit hc rfl),
      if_neg (ne_of_isDigit hc rfl), if_pos hc]
    exact ⟨Nat.le_refl _, rfl⟩

theorem readWith_digits (inner? : Option (Reader Json)) {cs : List Char}
    (hcs : ∀ c ∈ cs, c.isDigit = true) (hne : cs ≠ [])
    (rest : List Char) : ∃ hle, readWith inner? (cs ++ rest) =
      (readNumber false (cs ++ rest)).map fun x => (x.map Json.number).widen hle := by
  obtain ⟨c, cs, rfl⟩ := List.exists_cons_of_ne_nil hne
  exact readWith_digit (hcs c List.mem_cons_self) (cs ++ rest)

theorem whole_negative {value used : Nat} (hpos : value ≠ 0) (hle : value ≤ 9223372036854775808) :
    readAfterWhole.whole true ⟨value, used, 0, rest⟩ = .whole (-(value : Int)) := by
  unfold readAfterWhole.whole
  dsimp only
  rw [if_neg (by decide), decide_eq_false hpos, decide_eq_false (Nat.not_lt.2 hle), Bool.or_self,
    if_neg Bool.false_ne_true]

theorem readWith_int (n : Int64) (hrest : Stops rest) :
    Reads (readWith inner?) (intChars n ++ rest) (.number (.whole n.toInt)) rest := by
  have hlow := n.minValue_le_toInt
  have hhigh := n.toInt_le
  rw [Int64.toInt_minValue] at hlow
  rw [Int64.toInt_maxValue] at hhigh
  have hle : n.toInt.natAbs ≤ maxWhole := by
    unfold maxWhole
    omega
  unfold intChars
  by_cases hsign : n < 0
  · have hneg : n.toInt < 0 := Int64.lt_iff_toInt_lt.1 hsign
    obtain ⟨used, _, hread⟩ := readNumber_digits hle hrest true
    rw [whole_negative (by omega) (by omega), Int.ofNat_natAbs_of_nonpos (Int.le_of_lt hneg),
      Int.neg_neg] at hread
    have hminus : ∀ r, ∃ hle, readWith inner? ('-' :: r) =
        (readNumber true r).map fun x => (x.map Json.number).widenLt hle :=
      fun r => ⟨Nat.lt_succ_self _, rfl⟩
    obtain ⟨_, hminus⟩ := hminus (Nat.toDigits 10 n.toInt.natAbs ++ rest)
    rw [if_pos hsign, Reads, List.cons_append, hminus, hread]
    exact ⟨_, rfl⟩
  · have hnonneg : 0 ≤ n.toInt := Int64.le_iff_toInt_le.1 (Int64.not_lt.1 hsign)
    obtain ⟨used, _, hread⟩ := readNumber_digits hle hrest false
    have hwhole : readAfterWhole.whole false ⟨n.toInt.natAbs, used, 0, rest⟩ = .whole n.toInt :=
      congrArg JsonNumber.whole (Int.natAbs_of_nonneg hnonneg)
    obtain ⟨_, hdigits⟩ := readWith_digits inner?
      (fun c hc => Nat.isDigit_of_mem_toDigits (b := 10) (n := n.toInt.natAbs) (by decide)
        (by decide) hc)
      Nat.toDigits_ne_nil rest
    rw [if_neg hsign, Reads, hdigits, hread, hwhole]
    exact ⟨_, rfl⟩

/-! ### Arrays and objects -/

/-- Texts with a comma before each. -/
def listed (pieces : List (List Char)) : List Char := pieces.flatMap (',' :: ·)

/-- Texts with commas in between. -/
def commaed : List (List Char) → List Char
  | [] => []
  | cs :: pieces => cs ++ listed pieces

theorem stops_listed (pieces : List (List Char)) {c : Char} (hc : c = ']' ∨ c = '\x7d') :
    Stops (listed pieces ++ c :: rest) := by
  intro d hd
  cases pieces with
  | nil =>
    obtain rfl := Option.some.inj hd
    exact .inr (.inr hc)
  | cons => exact .inl (Option.some.inj hd).symm

end

/-- The characters are the text of the document, which is read back from them at the given depth. -/
structure Legible (depth : Nat) (j : Json) (cs : List Char) : Prop where
  written : ∀ out, j.write out = out ++ String.ofList cs
  first : ∃ c r, cs = c :: r ∧ isBlank c = false ∧ c ≠ ']'
  reads : ∀ rest, Stops rest → Reads (readValue depth) (cs ++ rest) j rest

section
variable {depth : Nat} {j : Json} {js : List Json} {cs : List Char} {css : List (List Char)}

theorem readElements_last {item : Reader Json}
    (hread : Reads item (cs ++ ']' :: rest) j (']' :: rest)) (bound : Nat)
    (found : Array Json) (h : (cs ++ ']' :: rest).length ≤ bound) :
    ∃ hlt, readElements item bound (cs ++ ']' :: rest) h found = .ok ⟨found.push j, rest, hlt⟩ := by
  obtain ⟨_, hread⟩ := hread
  rw [readElements, hread]
  exact ⟨_, rfl⟩

theorem readElements_more {item : Reader Json} {c : Char} {s : List Char} (hc : isBlank c = false)
    (hne : c ≠ ']') (hread : Reads item (cs ++ ',' :: c :: s) j (',' :: c :: s)) (bound : Nat)
    (found : Array Json)
    (h : (cs ++ ',' :: c :: s).length ≤ bound) :
    ∃ hle, readElements item bound (cs ++ ',' :: c :: s) h found =
      readElements item bound (c :: s) hle (found.push j) := by
  obtain ⟨_, hread⟩ := hread
  rw [readElements, hread]
  dsimp only
  split
  · rename_i hskip
    cases hskip
  · rename_i d t hskip
    cases hskip
    rw [if_neg (by decide), if_pos rfl]
    split
    · rename_i hskip
      rw [skipBlank_cons hc] at hskip
      cases hskip
    · rename_i d u hskip
      rw [skipBlank_cons hc] at hskip
      cases hskip
      rw [if_neg hne]
      refine ⟨?_, rfl⟩
      simp only [List.length_append, List.length_cons] at h ⊢
      omega

/-- The items of an array are read one by one. -/
theorem readElements_listed (hj : Legible depth j cs) (hjs : List.Forall₂ (Legible depth) js css)
    (rest : List Char) (bound : Nat) (found : Array Json)
    (h : (cs ++ (listed css ++ ']' :: rest)).length ≤ bound) :
    ∃ hlt, readElements (readValue depth) bound (cs ++ (listed css ++ ']' :: rest)) h found =
      .ok ⟨found ++ (j :: js).toArray, rest, hlt⟩ := by
  induction hjs generalizing j cs found with
  | nil =>
    obtain ⟨hlt, hread⟩ := readElements_last (hj.reads _ (stops_listed [] (.inl rfl))) bound found h
    exact ⟨hlt, hread.trans (by rw [Array.push_eq_append])⟩
  | @cons j' cs' js css hj' _ ih =>
    obtain ⟨c, r, rfl, hblank, hne⟩ := hj'.first
    have hlisted : listed ((c :: r) :: css) ++ ']' :: rest =
        ',' :: c :: (r ++ (listed css ++ ']' :: rest)) := by
      rw [listed, List.flatMap_cons, List.cons_append, List.cons_append, List.append_assoc]
      rfl
    have hread := hj.reads _ (hlisted ▸ stops_listed _ (.inl rfl))
    simp only [hlisted] at h ⊢
    obtain ⟨hle, hmore⟩ := readElements_more hblank hne hread bound found h
    obtain ⟨hlt, hrest⟩ := ih hj' (found.push j) hle
    have hfound : found.push j ++ (j' :: js).toArray = found ++ (j :: j' :: js).toArray := by
      rw [Array.push_eq_append, Array.append_assoc]
      exact congrArg (found ++ ·) (List.append_toArray [j] (j' :: js))
    exact ⟨hlt, hmore.trans (hrest.trans (by rw [hfound]))⟩

/-! ### Members of objects -/

/-- Reads the value of a member after its name, and stores it under the name. -/
def readMember (inner : Reader Json) (members : OrderedMap String Json) (name : String) :
    Reader (OrderedMap String Json) := fun s =>
  match readColon s with
  | .error e => .error e
  | .ok ⟨_, t, ht⟩ => (inner t).map fun x => (x.map (members.insert name)).widenLt ht

/-- The text of a member whose value has the given text. -/
def memberChars (name : String) (cs : List Char) : List Char :=
  '"' :: (stringTail name ++ ':' :: cs)

section
variable {inner : Reader Json} {name : String} {members : OrderedMap String Json} {bound : Nat}

theorem reads_member (members : OrderedMap String Json) (name : String)
    (hread : Reads inner (cs ++ rest) j rest) :
    Reads (readMember inner members name) (':' :: (cs ++ rest)) (members.insert name j) rest := by
  obtain ⟨_, hread⟩ := hread
  unfold Reads readMember
  rw [show readColon (':' :: (cs ++ rest)) = .ok ⟨(), cs ++ rest, length_lt_length_succ _⟩ from rfl]
  dsimp only
  rw [hread]
  exact ⟨_, rfl⟩

theorem readMembers_last (hread : Reads inner (cs ++ '\x7d' :: rest) j ('\x7d' :: rest))
    (h : (memberChars name cs ++ '\x7d' :: rest).length ≤ bound) :
    ∃ hlt, readMembers (readMember inner) bound (memberChars name cs ++ '\x7d' :: rest) h members =
      .ok ⟨members.insert name j, rest, hlt⟩ := by
  obtain ⟨_, hname⟩ := reads_string name (':' :: (cs ++ '\x7d' :: rest))
  obtain ⟨_, hread⟩ := reads_member members name hread
  simp only [memberChars, List.cons_append, List.append_assoc] at h ⊢
  rw [readMembers, if_neg (by decide), hname]
  dsimp only
  rw [hread]
  refine ⟨?_, rfl⟩
  simp only [List.length_cons, List.length_append] at h
  omega

theorem readMembers_more {s : List Char} (members : OrderedMap String Json)
    (hread : Reads inner (cs ++ ',' :: '"' :: s) j (',' :: '"' :: s))
    (h : (memberChars name cs ++ ',' :: '"' :: s).length ≤ bound) :
    ∃ hle, readMembers (readMember inner) bound (memberChars name cs ++ ',' :: '"' :: s) h members =
      readMembers (readMember inner) bound ('"' :: s) hle (members.insert name j) := by
  obtain ⟨_, hname⟩ := reads_string name (':' :: (cs ++ ',' :: '"' :: s))
  obtain ⟨_, hread⟩ := reads_member members name hread
  simp only [memberChars, List.cons_append, List.append_assoc] at h ⊢
  rw [readMembers, if_neg (by decide), hname]
  dsimp only
  rw [hread]
  refine ⟨?_, rfl⟩
  simp only [List.length_cons, List.length_append] at h ⊢
  omega

end

/-- The texts of members whose values have the given texts. -/
def membersChars (members : List (String × Json)) (css : List (List Char)) : List (List Char) :=
  List.zipWith (fun m cs => memberChars m.1 cs) members css

theorem membersChars_cons (m : String × Json) (ms : List (String × Json)) (cs : List Char)
    (css : List (List Char)) :
    membersChars (m :: ms) (cs :: css) = memberChars m.1 cs :: membersChars ms css := rfl

theorem readMembers_listed {m : String × Json} {ms : List (String × Json)}
    (hm : Legible depth m.2 cs) (hms : List.Forall₂ (fun m cs => Legible depth m.2 cs) ms css)
    (rest : List Char) (bound : Nat) (found : OrderedMap String Json)
    (h : (memberChars m.1 cs ++ (listed (membersChars ms css) ++ '\x7d' :: rest)).length ≤ bound) :
    ∃ hlt, readMembers (readMember (readValue depth)) bound
      (memberChars m.1 cs ++ (listed (membersChars ms css) ++ '\x7d' :: rest)) h found =
      .ok ⟨(m :: ms).foldl (fun m e => m.insert e.1 e.2) found, rest, hlt⟩ := by
  induction hms generalizing m cs found with
  | nil => exact readMembers_last (hm.reads _ (stops_listed [] (.inr rfl))) h
  | @cons m' cs' ms css hm' _ ih =>
    have hlisted : listed (membersChars (m' :: ms) (cs' :: css)) ++ '\x7d' :: rest =
        ',' :: (memberChars m'.1 cs' ++ (listed (membersChars ms css) ++ '\x7d' :: rest)) := by
      rw [membersChars_cons, listed, List.flatMap_cons, List.cons_append, List.cons_append,
        List.append_assoc]
      rfl
    have hread := hm.reads _ (hlisted ▸ stops_listed _ (.inr rfl))
    simp only [hlisted] at h ⊢
    obtain ⟨hle, hmore⟩ := readMembers_more found hread h
    obtain ⟨hlt, hrest⟩ := ih hm' (found.insert m.1 m.2) hle
    exact ⟨hlt, hmore.trans hrest⟩

end

/-! ## Documents that are read back -/

section
variable {depth : Nat} {j : Json} {js : List Json} {cs : List Char} {css : List (List Char)}

theorem exists_readWith (depth : Nat) : ∃ inner?, readValue depth = readWith inner? := by
  cases depth <;> exact ⟨_, rfl⟩

theorem legible_null (depth : Nat) : Legible depth .null ['n', 'u', 'l', 'l'] := by
  obtain ⟨inner?, hread⟩ := exists_readWith depth
  exact ⟨fun _ => rfl, ⟨_, _, rfl, rfl, by decide⟩, fun rest _ => hread ▸ readWith_null rest⟩

theorem legible_bool (depth : Nat) (b : Bool) : Legible depth (.bool b) (boolChars b) := by
  obtain ⟨inner?, hread⟩ := exists_readWith depth
  refine ⟨fun out => ?_, ?_, fun rest _ => hread ▸ readWith_bool b rest⟩
  · rw [write, toString_bool]
  · cases b <;> exact ⟨_, _, rfl, rfl, by decide⟩

theorem legible_int (depth : Nat) (n : Int64) :
    Legible depth (.number (.whole n.toInt)) (intChars n) := by
  obtain ⟨inner?, hread⟩ := exists_readWith depth
  refine ⟨fun out => ?_, ?_, fun rest hrest => hread ▸ readWith_int n hrest⟩
  · rw [write, numberText, toString_int]
  · unfold intChars
    split
    · exact ⟨_, _, rfl, rfl, by decide⟩
    · obtain ⟨c, ds, hcs⟩ :=
        List.exists_cons_of_ne_nil (Nat.toDigits_ne_nil (n := n.toInt.natAbs) (b := 10))
      have hc : c.isDigit = true := Nat.isDigit_of_mem_toDigits (b := 10) (n := n.toInt.natAbs)
        (by decide) (by decide) (hcs ▸ List.mem_cons_self)
      exact ⟨c, ds, hcs, isBlank_of_isDigit hc, ne_of_isDigit hc rfl⟩

theorem legible_string (depth : Nat) (s : String) :
    Legible depth (.string s) ('"' :: stringTail s) := by
  obtain ⟨inner?, hread⟩ := exists_readWith depth
  refine ⟨fun out => ?_, ⟨_, _, rfl, rfl, by decide⟩, fun rest _ => hread ▸ readWith_string s rest⟩
  rw [write, quoted_eq]

theorem writeItems_listed (hjs : List.Forall₂ (Legible depth) js css) (out : String) :
    writeItems js false out = out ++ String.ofList (listed css) := by
  induction hjs generalizing out with
  | nil => exact String.append_empty.symm
  | @cons j cs js css hj _ ih =>
    rw [writeItems, ih, hj.written, if_neg Bool.false_ne_true, listed, listed, List.flatMap_cons,
      List.cons_append, ← List.singleton_append (x := ','), String.ofList_append,
      String.ofList_append, String.append_assoc, String.append_assoc]

theorem writeItems_commaed (hjs : List.Forall₂ (Legible depth) js css) (out : String) :
    writeItems js true out = out ++ String.ofList (commaed css) := by
  cases hjs with
  | nil => exact String.append_empty.symm
  | cons hj hjs =>
    rw [writeItems, writeItems_listed hjs, hj.written, if_pos rfl, commaed, String.ofList_append,
      String.append_assoc]

theorem readWith_array {inner : Reader Json} {s : List Char} {items : Array Json}
    (hread : Reads (readArray inner) s items rest) :
    Reads (readWith (some inner)) ('[' :: s) (.array items.toList) rest := by
  obtain ⟨_, hread⟩ := hread
  have hbracket : ∀ s, ∃ hlt, readWith (some inner) ('[' :: s) = (readArray inner s).map
      fun x => (x.map fun items => Json.array items.toList).widenLt hlt :=
    fun s => ⟨Nat.lt_succ_self _, rfl⟩
  obtain ⟨_, hbracket⟩ := hbracket s
  rw [Reads, hbracket, hread]
  exact ⟨_, rfl⟩

theorem readArray_first {item : Reader Json} {c : Char} (hblank : isBlank c = false) (hne : c ≠ ']')
    (s : List Char) :
    readArray item (c :: s) = readElements item (c :: s).length (c :: s) (Nat.le_refl _) #[] := by
  unfold readArray
  split
  · rename_i hskip
    rw [skipBlank_cons hblank] at hskip
    cases hskip
  · rename_i d t hskip
    rw [skipBlank_cons hblank] at hskip
    cases hskip
    rw [if_neg hne]

theorem readArray_commaed (hjs : List.Forall₂ (Legible depth) js css) (rest : List Char) :
    Reads (readArray (readValue depth)) (commaed css ++ ']' :: rest) js.toArray rest := by
  cases hjs with
  | nil => exact ⟨_, rfl⟩
  | @cons j cs js css hj hjs =>
    obtain ⟨c, r, rfl, hblank, hne⟩ := hj.first
    obtain ⟨hlt, hread⟩ := readElements_listed hj hjs rest _ #[] (Nat.le_refl _)
    rw [commaed, List.append_assoc]
    refine ⟨hlt, (readArray_first hblank hne _).trans (hread.trans ?_)⟩
    rw [Array.empty_append]

theorem legible_array (hjs : List.Forall₂ (Legible depth) js css) :
    Legible (depth + 1) (.array js) ('[' :: commaed css ++ [']']) := by
  refine ⟨fun out => ?_, ⟨_, _, rfl, rfl, by decide⟩, fun rest _ => ?_⟩
  · rw [write, writeItems_commaed hjs]
    exact Value.append_enclosed out '[' ']' _
  · rw [List.append_assoc, List.cons_append]
    exact readWith_array (readArray_commaed hjs rest)

/-! Objects are written and read in the same way, but for the names. -/

theorem writeMember (name : String) (hj : Legible depth j cs) (out : String) :
    write j (out ++ quoted name ++ ":") = out ++ String.ofList (memberChars name cs) := by
  rw [hj.written, quoted_eq, memberChars, ← List.cons_append, ← List.singleton_append (x := ':'),
    String.ofList_append, String.ofList_append, String.append_assoc, String.append_assoc]

section
variable {ms : List (String × Json)}

theorem writeMembers_listed (hms : List.Forall₂ (fun m cs => Legible depth m.2 cs) ms css)
    (out : String) :
    writeMembers ms false out = out ++ String.ofList (listed (membersChars ms css)) := by
  induction hms generalizing out with
  | nil => exact String.append_empty.symm
  | @cons m cs ms css hm _ ih =>
    rw [writeMembers, ih, if_neg Bool.false_ne_true, writeMember m.1 hm, membersChars_cons, listed,
      listed, List.flatMap_cons, List.cons_append, ← List.singleton_append (x := ','),
      String.ofList_append, String.ofList_append, String.append_assoc, String.append_assoc]

theorem writeMembers_commaed (hms : List.Forall₂ (fun m cs => Legible depth m.2 cs) ms css)
    (out : String) :
    writeMembers ms true out = out ++ String.ofList (commaed (membersChars ms css)) := by
  cases hms with
  | nil => exact String.append_empty.symm
  | cons hm hms =>
    rw [writeMembers, writeMembers_listed hms, if_pos rfl, writeMember _ hm, membersChars_cons,
      commaed, String.ofList_append, String.append_assoc]

theorem readWith_object {inner : Reader Json} {s : List Char} {members : OrderedMap String Json}
    (hread : Reads (readObject (readMember inner) .empty) s members rest) :
    Reads (readWith (some inner)) ('\x7b' :: s) (.object members.toList) rest := by
  obtain ⟨_, hread⟩ := hread
  have hbrace : ∀ s, ∃ hlt, readWith (some inner) ('\x7b' :: s) =
      (readObject (readMember inner) .empty s).map
        fun x => (x.map fun members => Json.object members.toList).widenLt hlt :=
    fun s => ⟨Nat.lt_succ_self _, rfl⟩
  obtain ⟨_, hbrace⟩ := hbrace s
  rw [Reads, hbrace, hread]
  exact ⟨_, rfl⟩

theorem readObject_commaed (hms : List.Forall₂ (fun m cs => Legible depth m.2 cs) ms css)
    (rest : List Char) : Reads (readObject (readMember (readValue depth)) .empty)
      (commaed (membersChars ms css) ++ '\x7d' :: rest) (.ofList ms) rest := by
  cases hms with
  | nil => exact ⟨_, rfl⟩
  | @cons m cs ms css hm hms =>
    rw [membersChars_cons, commaed, List.append_assoc]
    exact readMembers_listed hm hms rest _ .empty (Nat.le_refl _)

theorem legible_object (hnames : (ms.map Prod.fst).Nodup)
    (hms : List.Forall₂ (fun m cs => Legible depth m.2 cs) ms css) :
    Legible (depth + 1) (.object ms) ('\x7b' :: commaed (membersChars ms css) ++ ['\x7d']) := by
  refine ⟨fun out => ?_, ⟨_, _, rfl, rfl, by decide⟩, fun rest _ => ?_⟩
  · rw [write, writeMembers_commaed hms]
    exact Value.append_enclosed out '\x7b' '\x7d' _
  · have hread := readWith_object (readObject_commaed hms rest)
    rw [OrderedMap.toList_ofList hnames] at hread
    rwa [List.append_assoc, List.cons_append]

end

/-- A document is plain if its numbers are 64-bit integers, no two members of an object have the
same name, and arrays and objects are nested at most so deep. -/
inductive Plain : Nat → Json → Prop
  | null (depth : Nat) : Plain depth .null
  | bool (depth : Nat) (b : Bool) : Plain depth (.bool b)
  | int (depth : Nat) (n : Int64) : Plain depth (.number (.whole n.toInt))
  | string (depth : Nat) (s : String) : Plain depth (.string s)
  | array {depth : Nat} {items : List Json} (hitems : ∀ j ∈ items, Plain depth j) :
    Plain (depth + 1) (.array items)
  | object {depth : Nat} {members : List (String × Json)} (hnames : (members.map Prod.fst).Nodup)
    (hmembers : ∀ m ∈ members, Plain depth m.2) : Plain (depth + 1) (.object members)

theorem Plain.legible (hj : Plain depth j) : ∃ cs, Legible depth j cs := by
  induction hj with
  | null depth => exact ⟨_, legible_null depth⟩
  | bool depth b => exact ⟨_, legible_bool depth b⟩
  | int depth n => exact ⟨_, legible_int depth n⟩
  | string depth s => exact ⟨_, legible_string depth s⟩
  | array _ ih =>
    obtain ⟨css, hcss⟩ := exists_forall₂ (R := flip (Legible _)) ih
    exact ⟨_, legible_array hcss.flip⟩
  | object hnames _ ih =>
    obtain ⟨css, hcss⟩ :=
      exists_forall₂ (R := flip fun (m : String × Json) cs => Legible _ m.2 cs) ih
    exact ⟨_, legible_object hnames hcss.flip⟩

/-- A plain document is read back from its text. -/
theorem Plain.parse_text (hj : Plain maxDepth j) : parse j.text = .ok j := by
  obtain ⟨cs, hcs⟩ := hj.legible
  have htext : j.text.toList = cs := by
    rw [text, hcs.written, String.empty_append, String.toList_ofList]
  have hread := hcs.reads [] stops_nil
  rw [List.append_nil, ← htext] at hread
  obtain ⟨hlt, hread⟩ := hread
  rw [parse, hread]
  rfl

end

end Json
end Ember
