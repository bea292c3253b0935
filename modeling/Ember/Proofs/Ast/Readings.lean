import Ember.Ast.Parser

/-! What holds of the programs that are read. If something holds of all tokens of a text, and of
every expression and statement of whose parts it holds, then it holds of the program that is read
from the text. -/
namespace Ember
set_option autoImplicit false

/-- Expressions are as `E` says and statements as `S` says if their parts are, and numbers with a
fraction if their tokens are as `T` says. -/
structure Inherited (T : Token → Prop) (E : Expr → Prop) (S : Stmt → Prop) : Prop where
  int : ∀ span n, E (.int span n)
  float : ∀ span x, T (.float x) → E (.float span x)
  str : ∀ span s, E (.str span s)
  bool : ∀ span b, E (.bool span b)
  nil : ∀ span, E (.nil span)
  ident : ∀ span name, E (.ident span name)
  list : ∀ span items, (∀ e ∈ items, E e) → E (.list span items)
  map : ∀ span entries, (∀ e ∈ entries, E e.1 ∧ E e.2) → E (.map span entries)
  set : ∀ span items, (∀ e ∈ items, E e) → E (.set span items)
  unary : ∀ span op operand, E operand → E (.unary span op operand)
  binary : ∀ span op left right, E left → E right → E (.binary span op left right)
  logical : ∀ span op left right, E left → E right → E (.logical span op left right)
  call : ∀ span callee args, E callee → (∀ e ∈ args, E e) → E (.call span callee args)
  index : ∀ span object key, E object → E key → E (.index span object key)
  attr : ∀ span object name, E object → E (.attr span object name)
  func : ∀ span params body, (∀ st ∈ body, S st) → E (.func span params body)
  var : ∀ span name value, E value → S (.var span name value)
  assign : ∀ span target value, target.isAssignable = true → E target → E value →
    S (.assign span target value)
  funcDef : ∀ span name params body, (∀ st ∈ body, S st) → S (.funcDef span name params body)
  returnNone : ∀ span, S (.return span none)
  returnSome : ∀ span value, E value → S (.return span (some value))
  ifOnly : ∀ span cond thenBody, E cond → (∀ st ∈ thenBody, S st) →
    S (.if span cond thenBody none)
  ifElse : ∀ span cond thenBody elseBody, E cond → (∀ st ∈ thenBody, S st) →
    (∀ st ∈ elseBody, S st) → S (.if span cond thenBody (some elseBody))
  «while» : ∀ span cond body, E cond → (∀ st ∈ body, S st) → S (.while span cond body)
  «break» : ∀ span, S (.break span)
  «continue» : ∀ span, S (.continue span)
  print : ∀ span value, E value → S (.print span value)
  delete : ∀ span span' object key, E (.index span' object key) → S (.delete span object key)
  expr : ∀ span value, E value → S (.expr span value)

variable {T : Token → Prop}

theorem forall_mem_reverse {α : Type} {P : α → Prop} {found : List α} (h : ∀ a ∈ found, P a) :
    ∀ a ∈ found.reverse, P a :=
  fun a ha => h a (List.mem_reverse.1 ha)

/-! ## Streams -/

namespace Stream

/-- The tokens that are left are all as `T` says. -/
def All (T : Token → Prop) (s : Stream) : Prop := ∀ t ∈ s.tokens, T t.token

variable {s : Stream}

theorem All.tail {t : Lexeme} {rest : List Lexeme} (h : s.All T)
    (hs : s.tokens = t :: rest) (last : Option Span) : All T ⟨rest, last⟩ := by
  intro u hu
  refine h u ?_
  rw [hs]
  exact List.mem_cons_of_mem t hu

theorem size_tail {t : Lexeme} {rest : List Lexeme} (hs : s.tokens = t :: rest)
    (last : Option Span) : Stream.size ⟨rest, last⟩ < s.size := by
  rw [size, size, hs]
  exact Nat.lt_succ_self rest.length

theorem all_skipWhile (p : Token → Bool) {ts : List Lexeme} (last : Option Span)
    (h : ∀ t ∈ ts, T t.token) : (skipWhile p ts last).All T := by
  induction ts generalizing last with
  | nil => exact h
  | cons t rest ih =>
    rw [skipWhile]
    split
    · exact ih _ fun u hu => h u (List.mem_cons_of_mem t hu)
    · exact h

theorem All.skipNewlines (h : s.All T) : s.skipNewlines.1.All T :=
  all_skipWhile _ _ h

theorem All.skipSeparators (h : s.All T) : s.skipSeparators.1.All T :=
  all_skipWhile _ _ h

theorem All.eat? (h : s.All T) {m : Mark} {r : { r : Stream // r.size < s.size }}
    (hr : s.eat? m = some r) : r.1.All T := by
  unfold Stream.eat? at hr
  split at hr
  · rename_i hs
    split at hr
    · cases hr
      exact h.tail hs _
    · cases hr
  · cases hr

theorem All.expect (h : s.All T) {m : Mark} {context : String}
    {r : { r : Stream // r.size < s.size }} (hr : s.expect m context = .ok r) : r.1.All T := by
  unfold Stream.expect at hr
  split at hr
  · rename_i heat
    cases hr
    exact h.eat? heat
  · cases hr

theorem All.endStatement (h : s.All T) {r : { r : Stream // r.size ≤ s.size }}
    (hr : s.endStatement = .ok r) : r.1.All T := by
  unfold Stream.endStatement at hr
  split at hr
  · rename_i hs
    cases hr
    exact h.tail hs _
  · rename_i hs
    cases hr
    exact h.tail hs _
  · cases hr
    exact h
  · cases hr
    exact h
  · cases hr
    exact h
  · cases hr

end Stream

/-! ## Parsers -/

/-- What is read is as `P` says, and the tokens that are left are as `T` says. -/
def Parse.Fine {α : Type} {bound : Nat} (T : Token → Prop) (P : α → Prop) : Parse α bound → Prop
  | .error _ => True
  | .ok ⟨value, rest, _⟩ => P value ∧ rest.All T

theorem Parse.Fine.of_eq {α : Type} {bound : Nat} {P : α → Prop} {r : Parse α bound} {value : α}
    {rest : Stream} {h : rest.size < bound} (hr : r = .ok ⟨value, rest, h⟩) (hfine : r.Fine T P) :
    P value ∧ rest.All T := by
  rw [hr] at hfine
  exact hfine

theorem expectIdent_fine {s : Stream} (hs : s.All T) (context : String) :
    Parse.Fine T (fun _ => True) (s.expectIdent context) := by
  unfold Stream.expectIdent
  split
  · rename_i htokens
    exact ⟨trivial, hs.tail htokens _⟩
  · trivial

theorem closeParams_fine {bound : Nat} {s : Stream} (h : s.size < bound) (found : List String)
    (hs : s.All T) :
    Parse.Fine T (fun _ : List String => True)
      (match s.expect .rParen "to close parameter list" with
      | .ok ⟨r, hr⟩ => Except.ok (Parsed.mk found.reverse r (Nat.lt_trans hr h))
      | .error e => .error e) := by
  split
  · rename_i r hr hexpect
    exact ⟨trivial, hs.expect hexpect⟩
  · trivial

theorem parseParamsLoop_fine {bound : Nat} {s : Stream} {hlt : s.size < bound}
    {found : List String} (hs : s.All T) :
    Parse.Fine T (fun _ => True) (parseParamsLoop bound s hlt found) := by
  fun_induction parseParamsLoop bound s hlt found with
  | case1 s hlt found close hnext => exact closeParams_fine hlt found hs
  | case2 | case3 => trivial
  | case4 s hlt found close hnext name r₁ h₁ hident hdouble r₂ h₂ hskip hcomma =>
    have hname := expectIdent_fine hs "in parameter list"
    rw [hident] at hname
    have hrest := hname.2.skipNewlines
    rw [hskip] at hrest
    exact closeParams_fine (by omega) _ hrest
  | case5 s hlt found hnext name r₁ h₁ hident hdouble r₂ h₂ hskip r₃ h₃ hcomma r₄ h₄ hskip' ih =>
    have hname := expectIdent_fine hs "in parameter list"
    rw [hident] at hname
    have hrest := hname.2.skipNewlines
    rw [hskip] at hrest
    have hrest' := (hrest.eat? hcomma).skipNewlines
    rw [hskip'] at hrest'
    exact ih hrest'

theorem parseParams_fine {s : Stream} (hs : s.All T) :
    Parse.Fine T (fun _ => True) (parseParams s) := by
  unfold parseParams
  split
  · trivial
  · rename_i r₁ h₁ hopen
    exact parseParamsLoop_fine (hs.expect hopen).skipNewlines

section
variable {E : Expr → Prop} {S : Stmt → Prop}

mutual

theorem parseBinary_fine (hi : Inherited T E S) (least : Nat) {s : Stream} (hs : s.All T) :
    Parse.Fine T E (parseBinary least s) := by
  have hleft := parseUnary_fine hi hs
  rw [parseBinary]
  split
  · trivial
  · rename_i left r h heq
    rw [heq] at hleft
    exact parseBinaryLoop_fine hi least hleft.1 hleft.2
termination_by s.size * 8 + 4
decreasing_by all_goals omega

theorem parseBinaryLoop_fine (hi : Inherited T E S) {bound : Nat} (least : Nat) {left : Expr}
    {s : Stream} {hlt : s.size < bound} (hleft : E left) (hs : s.All T) :
    Parse.Fine T E (parseBinaryLoop bound least left s hlt) := by
  rw [parseBinaryLoop]
  split
  · exact ⟨hleft, hs⟩
  · rename_i t rest htokens
    split
    · exact ⟨hleft, hs⟩
    · rename_i strength joint hbinding
      split
      · exact ⟨hleft, hs⟩
      · have hrest := (hs.tail htokens (some t.span)).skipNewlines
        have hsize := s.size_tail htokens (some t.span)
        have hskip := (Stream.skipNewlines ⟨rest, some t.span⟩).2
        have hright := parseBinary_fine hi (strength + 1) hrest
        dsimp only
        split
        · trivial
        · rename_i right r₂ h₂ heq
          rw [heq] at hright
          refine parseBinaryLoop_fine hi least ?_ hright.2
          cases joint with
          | operation op => exact hi.binary _ op _ _ hleft hright.1
          | connective op => exact hi.logical _ op _ _ hleft hright.1
termination_by s.size * 8
decreasing_by all_goals omega

theorem parseUnary_fine (hi : Inherited T E S) {s : Stream} (hs : s.All T) :
    Parse.Fine T E (parseUnary s) := by
  rw [parseUnary]
  split
  · exact parsePower_fine hi hs
  · rename_i t rest htokens
    split
    · exact parsePower_fine hi hs
    · rename_i op hop
      have hrest := hs.tail htokens (some t.span)
      have hsize := s.size_tail htokens (some t.span)
      dsimp only
      split
      · exact ⟨hi.int _ _, fun u hu => hrest u (List.mem_of_mem_drop hu)⟩
      · have hoperand := parseUnary_fine hi hrest
        split
        · trivial
        · rename_i operand r₂ h₂ heq
          rw [heq] at hoperand
          exact ⟨hi.unary _ op _ hoperand.1, hoperand.2⟩
termination_by s.size * 8 + 3
decreasing_by all_goals omega

theorem parsePower_fine (hi : Inherited T E S) {s : Stream} (hs : s.All T) :
    Parse.Fine T E (parsePower s) := by
  have hbase := parsePostfix_fine hi hs
  rw [parsePower]
  split
  · trivial
  · rename_i base r₁ h₁ heq
    rw [heq] at hbase
    split
    · exact hbase
    · rename_i r₂ h₂ heat
      have hskip := r₂.skipNewlines.2
      have hexponent := parseUnary_fine hi (hbase.2.eat? heat).skipNewlines
      dsimp only
      split
      · trivial
      · rename_i exponent r₄ h₄ heq'
        rw [heq'] at hexponent
        exact ⟨hi.binary _ _ _ _ hbase.1 hexponent.1, hexponent.2⟩
termination_by s.size * 8 + 2
decreasing_by all_goals omega

theorem parsePostfix_fine (hi : Inherited T E S) {s : Stream} (hs : s.All T) :
    Parse.Fine T E (parsePostfix s) := by
  have hobject := parsePrimary_fine hi hs
  rw [parsePostfix]
  split
  · trivial
  · rename_i e r h heq
    rw [heq] at hobject
    exact parsePostfixLoop_fine hi hobject.1 hobject.2
termination_by s.size * 8 + 1
decreasing_by all_goals omega

theorem parsePostfixLoop_fine (hi : Inherited T E S) {bound : Nat} {object : Expr} {s : Stream}
    {hlt : s.size < bound} (hobject : E object) (hs : s.All T) :
    Parse.Fine T E (parsePostfixLoop bound object s hlt) := by
  rw [parsePostfixLoop]
  split
  · exact ⟨hobject, hs⟩
  · rename_i t rest htokens
    have hrest := hs.tail htokens (some t.span)
    have hsize := s.size_tail htokens (some t.span)
    have hskip := (Stream.skipNewlines ⟨rest, some t.span⟩).2
    dsimp only
    split
    · split
      · trivial
      · rename_i args r₂ h₂ heq
        have hargs := Parse.Fine.of_eq heq
          (parseItems_fine hi (List.forall_mem_nil E) hrest.skipNewlines)
        exact parsePostfixLoop_fine hi (hi.call _ _ _ hobject hargs.1) hargs.2
    · have hkey := parseBinary_fine hi 1 hrest.skipNewlines
      split
      · trivial
      · rename_i key r₂ h₂ heq
        rw [heq] at hkey
        have hskip' := r₂.skipNewlines.2
        split
        · trivial
        · rename_i r₄ h₄ hclose
          exact parsePostfixLoop_fine hi (hi.index _ _ _ hobject hkey.1)
            (hkey.2.skipNewlines.expect hclose)
    · have hname := expectIdent_fine hrest "after '.'"
      split
      · trivial
      · rename_i name r₁ h₁ heq
        rw [heq] at hname
        exact parsePostfixLoop_fine hi (hi.attr _ _ _ hobject) hname.2
    · exact ⟨hobject, hs⟩
termination_by s.size * 8
decreasing_by all_goals omega

theorem parseItems_fine (hi : Inherited T E S) {close : Mark} {context : String} {bound : Nat}
    {s : Stream} {hlt : s.size < bound} {found : List Expr} (hfound : ∀ e ∈ found, E e)
    (hs : s.All T) :
    Parse.Fine T (fun items => ∀ e ∈ items, E e) (parseItems close context bound s hlt found) := by
  rw [parseItems]
  split
  · rename_i r hr heat
    exact ⟨forall_mem_reverse hfound, hs.eat? heat⟩
  · have hitem := parseBinary_fine hi 1 hs
    split
    · trivial
    · rename_i item r₁ h₁ heq
      rw [heq] at hitem
      have hfound' : ∀ e ∈ item :: found, E e :=
        List.forall_mem_cons.2 ⟨hitem.1, hfound⟩
      have hskip := r₁.skipNewlines.2
      dsimp only
      split
      · rename_i r₃ h₃ heat
        have hskip' := r₃.skipNewlines.2
        exact parseItems_fine hi hfound' (hitem.2.skipNewlines.eat? heat).skipNewlines
      · split
        · trivial
        · rename_i r₃ h₃ hclose
          exact ⟨forall_mem_reverse hfound', hitem.2.skipNewlines.expect hclose⟩
termination_by s.size * 8 + 5
decreasing_by all_goals omega

theorem parsePrimary_fine (hi : Inherited T E S) {s : Stream} (hs : s.All T) :
    Parse.Fine T E (parsePrimary s) := by
  rw [parsePrimary]
  split
  · trivial
  · rename_i t rest htokens
    have hrest := hs.tail htokens (some t.span)
    have hsize := s.size_tail htokens (some t.span)
    have htoken : T t.token := hs t (by rw [htokens]; exact List.mem_cons_self)
    have hskip := (Stream.skipNewlines ⟨rest, some t.span⟩).2
    dsimp only
    split
    · split
      · exact ⟨hi.int _ _, hrest⟩
      · trivial
    · rename_i x hx
      exact ⟨hi.float _ x (hx ▸ htoken), hrest⟩
    · exact ⟨hi.str _ _, hrest⟩
    · exact ⟨hi.bool _ _, hrest⟩
    · exact ⟨hi.bool _ _, hrest⟩
    · exact ⟨hi.nil _, hrest⟩
    · exact ⟨hi.ident _ _, hrest⟩
    · have hinner := parseBinary_fine hi 1 hrest.skipNewlines
      split
      · trivial
      · rename_i inner r₂ h₃ heq
        rw [heq] at hinner
        split
        · trivial
        · rename_i r₄ h₅ hclose
          exact ⟨hinner.1, hinner.2.skipNewlines.expect hclose⟩
    · split
      · trivial
      · rename_i items r₂ h₃ heq
        have hitems := Parse.Fine.of_eq heq
          (parseItems_fine hi (List.forall_mem_nil E) hrest.skipNewlines)
        exact ⟨hi.list _ _ hitems.1, hitems.2⟩
    · have hbraces := parseBraces_fine hi t.span hrest
      split
      · trivial
      · rename_i e r₁ h₂ heq
        rw [heq] at hbraces
        exact hbraces
    · have hparams := parseParams_fine hrest
      split
      · trivial
      · rename_i params r₁ h₂ heq
        rw [heq] at hparams
        have hbody := parseBlock_fine hi hparams.2
        split
        · trivial
        · rename_i body r₂ h₃ heq'
          rw [heq'] at hbody
          exact ⟨hi.func _ _ _ hbody.1, hbody.2⟩
    · trivial
termination_by s.size * 8
decreasing_by all_goals omega

theorem parseBraces_fine (hi : Inherited T E S) (span : Span) {s : Stream} (hs : s.All T) :
    Parse.Fine T E (parseBraces span s) := by
  rw [parseBraces]
  have hskip := s.skipNewlines.2
  dsimp only
  split
  · rename_i r₂ h₂ heat
    exact ⟨hi.map _ _ (List.forall_mem_nil _), hs.skipNewlines.eat? heat⟩
  · have hfirst := parseBinary_fine hi 1 hs.skipNewlines
    split
    · trivial
    · rename_i first r₂ h₂ heq
      rw [heq] at hfirst
      have hskip' := r₂.skipNewlines.2
      split
      · rename_i r₄ h₄ hcolon
        have hskip'' := r₄.skipNewlines.2
        have hvalue := parseBinary_fine hi 1 (hfirst.2.skipNewlines.eat? hcolon).skipNewlines
        split
        · trivial
        · rename_i value r₆ h₆ heq'
          rw [heq'] at hvalue
          have hlast := r₆.skipNewlines.2
          split
          · trivial
          · rename_i entries r₈ h₈ heq''
            have hentries := Parse.Fine.of_eq heq'' (parseEntries_fine hi
              (List.forall_mem_singleton.2 ⟨hfirst.1, hvalue.1⟩) hvalue.2.skipNewlines)
            exact ⟨hi.map _ _ hentries.1, hentries.2⟩
      · split
        · rename_i r₄ h₄ hcomma
          have hskip'' := r₄.skipNewlines.2
          split
          · trivial
          · rename_i items r₆ h₆ heq'
            have hitems := Parse.Fine.of_eq heq' (parseItems_fine hi
              (List.forall_mem_singleton.2 hfirst.1)
              (hfirst.2.skipNewlines.eat? hcomma).skipNewlines)
            exact ⟨hi.set _ _ hitems.1, hitems.2⟩
        · split
          · trivial
          · rename_i r₄ h₄ hclose
            exact ⟨hi.set _ _ (List.forall_mem_singleton.2 hfirst.1),
              hfirst.2.skipNewlines.expect hclose⟩
termination_by s.size * 8 + 5
decreasing_by all_goals omega

theorem parseEntries_fine (hi : Inherited T E S) {bound : Nat} {s : Stream} {hlt : s.size < bound}
    {found : List (Expr × Expr)} (hfound : ∀ e ∈ found, E e.1 ∧ E e.2) (hs : s.All T) :
    Parse.Fine T (fun entries => ∀ e ∈ entries, E e.1 ∧ E e.2)
      (parseEntries bound s hlt found) := by
  rw [parseEntries]
  split
  · split
    · trivial
    · rename_i r hr hclose
      exact ⟨forall_mem_reverse hfound, hs.expect hclose⟩
  · rename_i r₁ h₁ hcomma
    have hrest := (hs.eat? hcomma).skipNewlines
    have hskip := r₁.skipNewlines.2
    dsimp only
    split
    · rename_i r₃ h₃ hclose
      exact ⟨forall_mem_reverse hfound, hrest.eat? hclose⟩
    · have hkey := parseBinary_fine hi 1 hrest
      split
      · trivial
      · rename_i key r₃ h₃ heq
        rw [heq] at hkey
        have hskip' := r₃.skipNewlines.2
        split
        · trivial
        · rename_i r₅ h₅ hcolon
          have hskip'' := r₅.skipNewlines.2
          have hvalue := parseBinary_fine hi 1 (hkey.2.skipNewlines.expect hcolon).skipNewlines
          split
          · trivial
          · rename_i value r₇ h₇ heq'
            rw [heq'] at hvalue
            have hlast := r₇.skipNewlines.2
            exact parseEntries_fine hi (List.forall_mem_cons.2 ⟨⟨hkey.1, hvalue.1⟩, hfound⟩)
              hvalue.2.skipNewlines
termination_by s.size * 8
decreasing_by all_goals omega

theorem parseBlock_fine (hi : Inherited T E S) {s : Stream} (hs : s.All T) :
    Parse.Fine T (fun body => ∀ st ∈ body, S st) (parseBlock s) := by
  rw [parseBlock]
  split
  · trivial
  · rename_i r hr hopen
    exact parseBlockLoop_fine hi (List.forall_mem_nil S) (hs.expect hopen)
termination_by s.size * 8
decreasing_by all_goals omega

theorem parseBlockLoop_fine (hi : Inherited T E S) {bound : Nat} {s : Stream} {hlt : s.size < bound}
    {found : List Stmt} (hfound : ∀ st ∈ found, S st) (hs : s.All T) :
    Parse.Fine T (fun body => ∀ st ∈ body, S st) (parseBlockLoop bound s hlt found) := by
  rw [parseBlockLoop]
  have hskip := s.skipSeparators.2
  dsimp only
  split
  · rename_i r₂ h₂ hclose
    exact ⟨forall_mem_reverse hfound, hs.skipSeparators.eat? hclose⟩
  · split
    · trivial
    · have hst := parseStatement_fine hi hs.skipSeparators
      split
      · trivial
      · rename_i st r₂ h₂ heq
        rw [heq] at hst
        split
        · trivial
        · rename_i r₃ h₃ hend
          exact parseBlockLoop_fine hi (List.forall_mem_cons.2 ⟨hst.1, hfound⟩)
            (hst.2.endStatement hend)
termination_by s.size * 8 + 7
decreasing_by all_goals omega

theorem parseStatement_fine (hi : Inherited T E S) {s : Stream} (hs : s.All T) :
    Parse.Fine T S (parseStatement s) := by
  rw [parseStatement]
  split
  · exact parseSimple_fine hi hs
  · rename_i t rest htokens
    have hrest := hs.tail htokens (some t.span)
    have hsize := s.size_tail htokens (some t.span)
    dsimp only
    split
    · have hname := expectIdent_fine hrest "after 'var'"
      split
      · trivial
      · rename_i name r₁ h₁ heq
        rw [heq] at hname
        split
        · trivial
        · rename_i r₂ h₂ hassign
          have hskip := r₂.skipNewlines.2
          have hvalue := parseBinary_fine hi 1 (hname.2.expect hassign).skipNewlines
          split
          · trivial
          · rename_i value r₄ h₄ heq'
            rw [heq'] at hvalue
            exact ⟨hi.var _ _ _ hvalue.1, hvalue.2⟩
    · obtain _ | ⟨⟨token, nameSpan⟩, after⟩ := rest
      · exact parseSimple_fine hi hs
      · cases token with
        | ident name =>
          have hsize' := Nat.lt_trans (Stream.size_tail rfl (some nameSpan)) hsize
          have hparams := parseParams_fine (hrest.tail rfl (some nameSpan))
          dsimp only
          split
          · trivial
          · rename_i params r₁ h₃ heq
            rw [heq] at hparams
            have hbody := parseBlock_fine hi hparams.2
            split
            · trivial
            · rename_i body r₂ h₄ heq'
              rw [heq'] at hbody
              exact ⟨hi.funcDef _ _ _ _ hbody.1, hbody.2⟩
        | _ => exact parseSimple_fine hi hs
    · split
      · exact ⟨hi.returnNone _, hrest⟩
      · have hvalue := parseBinary_fine hi 1 hrest
        split
        · trivial
        · rename_i value r₁ h₁ heq
          rw [heq] at hvalue
          exact ⟨hi.returnSome _ _ hvalue.1, hvalue.2⟩
    · have hif := parseIf_fine hi t.span hrest
      split
      · trivial
      · rename_i st r₁ h₁ heq
        rw [heq] at hif
        exact hif
    · have hcond := parseBinary_fine hi 1 hrest
      split
      · trivial
      · rename_i cond r₁ h₁ heq
        rw [heq] at hcond
        have hbody := parseBlock_fine hi hcond.2
        split
        · trivial
        · rename_i body r₂ h₂ heq'
          rw [heq'] at hbody
          exact ⟨hi.while _ _ _ hcond.1 hbody.1, hbody.2⟩
    · exact ⟨hi.break _, hrest⟩
    · exact ⟨hi.continue _, hrest⟩
    · have hvalue := parseBinary_fine hi 1 hrest
      split
      · trivial
      · rename_i value r₁ h₁ heq
        rw [heq] at hvalue
        exact ⟨hi.print _ _ hvalue.1, hvalue.2⟩
    · have hobject := parseBinary_fine hi 1 hrest
      split
      · trivial
      · rename_i span object key r₁ h₁ heq
        rw [heq] at hobject
        exact ⟨hi.delete _ _ _ _ hobject.1, hobject.2⟩
      · trivial
    · obtain _ | ⟨⟨token, markSpan⟩, after⟩ := rest
      · exact parseSimple_fine hi hs
      · cases token with
        | mark m =>
          cases m with
          | declare =>
            have hsize' := Nat.lt_trans (Stream.size_tail rfl (some markSpan)) hsize
            have hskip := (Stream.skipNewlines ⟨after, some markSpan⟩).2
            have hvalue := parseBinary_fine hi 1 (hrest.tail rfl (some markSpan)).skipNewlines
            dsimp only
            split
            · trivial
            · rename_i value r₂ h₄ heq
              rw [heq] at hvalue
              exact ⟨hi.var _ _ _ hvalue.1, hvalue.2⟩
          | _ => exact parseSimple_fine hi hs
        | _ => exact parseSimple_fine hi hs
    · exact parseSimple_fine hi hs
termination_by s.size * 8 + 6
decreasing_by all_goals omega

theorem parseSimple_fine (hi : Inherited T E S) {s : Stream} (hs : s.All T) :
    Parse.Fine T S (parseSimple s) := by
  have htarget := parseBinary_fine hi 1 hs
  rw [parseSimple]
  split
  · trivial
  · rename_i target r₁ h₁ heq
    rw [heq] at htarget
    split
    · exact ⟨hi.expr _ _ htarget.1, htarget.2⟩
    · rename_i r₂ h₂ hassign
      split
      · rename_i htargets
        have hskip := r₂.skipNewlines.2
        have hvalue := parseBinary_fine hi 1 (htarget.2.eat? hassign).skipNewlines
        dsimp only
        split
        · trivial
        · rename_i value r₄ h₄ heq'
          rw [heq'] at hvalue
          exact ⟨hi.assign _ _ _ htargets htarget.1 hvalue.1, hvalue.2⟩
      · trivial
termination_by s.size * 8 + 5
decreasing_by all_goals omega

theorem parseIf_fine (hi : Inherited T E S) (span : Span) {s : Stream} (hs : s.All T) :
    Parse.Fine T S (parseIf span s) := by
  have hcond := parseBinary_fine hi 1 hs
  rw [parseIf]
  split
  · trivial
  · rename_i cond r₁ h₁ heq
    rw [heq] at hcond
    have hthen := parseBlock_fine hi hcond.2
    split
    · trivial
    · rename_i thenBody r₂ h₂ heq'
      rw [heq'] at hthen
      split
      · rename_i ifSpan rest htokens
        have hrest : Stream.All T ⟨rest, some ifSpan⟩ :=
          (hthen.2.tail htokens none).tail rfl _
        have hsize := Nat.lt_trans (Stream.size_tail rfl (some ifSpan)) (r₂.size_tail htokens none)
        have hinner := parseIf_fine hi ifSpan hrest
        split
        · trivial
        · rename_i inner r₃ h₄ heq''
          rw [heq''] at hinner
          exact ⟨hi.ifElse _ _ _ _ hcond.1 hthen.1 (List.forall_mem_singleton.2 hinner.1),
            hinner.2⟩
      · rename_i elseSpan rest _ htokens
        have hsize := r₂.size_tail htokens (some elseSpan)
        have helse := parseBlock_fine hi (hthen.2.tail htokens (some elseSpan))
        split
        · trivial
        · rename_i elseBody r₃ h₄ heq''
          rw [heq''] at helse
          exact ⟨hi.ifElse _ _ _ _ hcond.1 hthen.1 helse.1, helse.2⟩
      · exact ⟨hi.ifOnly _ _ _ hcond.1 hthen.1, hthen.2⟩
termination_by s.size * 8 + 5
decreasing_by all_goals omega

end

/-! ## Programs -/

theorem parseStatements_inherits (hi : Inherited T E S) {s : Stream} {found : List Stmt}
    {p : Program} (hs : s.All T) (hfound : ∀ st ∈ found, S st)
    (h : parseStatements s found = .ok p) : ∀ st ∈ p.statements, S st := by
  rw [parseStatements] at h
  have hskip := s.skipSeparators.2
  dsimp only at h
  split at h
  · cases h
    exact forall_mem_reverse hfound
  · split at h
    · cases h
    · rename_i st r₂ h₂ hst
      have hstatement := Parse.Fine.of_eq hst (parseStatement_fine hi hs.skipSeparators)
      split at h
      · cases h
      · rename_i r₃ h₃ hend
        exact parseStatements_inherits hi (hstatement.2.endStatement hend)
          (List.forall_mem_cons.2 ⟨hstatement.1, hfound⟩) h
termination_by s.size
decreasing_by all_goals omega

/-- The statements of a program that has been read are as `S` says, if its tokens are as `T`
says. -/
theorem parse_inherits (hi : Inherited T E S) {source : String} {p : Program}
    (hlex : ∀ ts, lex source = .ok ts → ∀ t ∈ ts, T t.token) (h : parse source = .ok p) :
    ∀ st ∈ p.statements, S st := by
  unfold parse at h
  split at h
  · cases h
  · rename_i ts hts
    split at h
    · cases h
    · rename_i p' hp
      cases h
      exact parseStatements_inherits hi (fun t ht => hlex ts hts t (List.mem_filter.1 ht).1)
        (List.forall_mem_nil S) hp

end

end Ember
