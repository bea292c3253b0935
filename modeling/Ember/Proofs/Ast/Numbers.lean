import Ember.Proofs.Ast.Readings
import Ember.Proofs.Decimal.Sign

/-! Programs that are read have no number with a sign: a sign before a number is an operator. -/
namespace Ember
set_option autoImplicit false

/-! ## Numbers in programs -/

mutual

/-- No number in the expression has a sign. -/
def Expr.Unsigned : Expr → Prop
  | .float _ x => Ember.Unsigned x
  | .int .. | .str .. | .bool .. | .nil _ | .ident .. => True
  | .list _ items | .set _ items => AllUnsigned items
  | .map _ entries => EntriesUnsigned entries
  | .unary _ _ operand => operand.Unsigned
  | .binary _ _ left right | .logical _ _ left right => left.Unsigned ∧ right.Unsigned
  | .call _ callee args => callee.Unsigned ∧ AllUnsigned args
  | .index _ object key => object.Unsigned ∧ key.Unsigned
  | .attr _ object _ => object.Unsigned
  | .func _ _ body => BodyUnsigned body

def AllUnsigned : List Expr → Prop
  | [] => True
  | e :: rest => e.Unsigned ∧ AllUnsigned rest

def EntriesUnsigned : List (Expr × Expr) → Prop
  | [] => True
  | (k, v) :: rest => k.Unsigned ∧ v.Unsigned ∧ EntriesUnsigned rest

def Stmt.Unsigned : Stmt → Prop
  | .var _ _ value | .print _ value | .expr _ value | .return _ (some value) => value.Unsigned
  | .assign _ target value => target.Unsigned ∧ value.Unsigned
  | .delete _ object key => object.Unsigned ∧ key.Unsigned
  | .funcDef _ _ _ body => BodyUnsigned body
  | .return _ none | .break _ | .continue _ => True
  | .if _ cond thenBody none => cond.Unsigned ∧ BodyUnsigned thenBody
  | .if _ cond thenBody (some elseBody) =>
    cond.Unsigned ∧ BodyUnsigned thenBody ∧ BodyUnsigned elseBody
  | .while _ cond body => cond.Unsigned ∧ BodyUnsigned body

def BodyUnsigned : List Stmt → Prop
  | [] => True
  | st :: rest => st.Unsigned ∧ BodyUnsigned rest

end

def Program.Unsigned (p : Program) : Prop := BodyUnsigned p.statements

theorem allUnsigned_iff {items : List Expr} : AllUnsigned items ↔ ∀ e ∈ items, e.Unsigned := by
  induction items with
  | nil => simp [AllUnsigned]
  | cons e rest ih => simp [AllUnsigned, ih]

theorem entriesUnsigned_iff {entries : List (Expr × Expr)} :
    EntriesUnsigned entries ↔ ∀ e ∈ entries, e.1.Unsigned ∧ e.2.Unsigned := by
  induction entries with
  | nil => simp [EntriesUnsigned]
  | cons e rest ih => simp [EntriesUnsigned, ih, and_assoc]

theorem bodyUnsigned_iff {body : List Stmt} : BodyUnsigned body ↔ ∀ st ∈ body, st.Unsigned := by
  induction body with
  | nil => simp [BodyUnsigned]
  | cons st rest ih => simp [BodyUnsigned, ih]

/-! ## Numbers in texts -/

def Token.Unsigned (t : Token) : Prop := ∀ x, t = .float x → Ember.Unsigned x

theorem scan_unsigned {c : Char} {rest : List Char} {token : Token} {taken : Nat}
    (h : scan c rest = .ok (token, taken)) : token.Unsigned := by
  rintro x rfl
  unfold scan at h
  dsimp only at h
  split at h
  · cases h
  · split at h
    · split at h <;> cases h
    · split at h
      · unfold scanHex at h
        dsimp only at h
        split at h
        · cases h
        · split at h <;> cases h
      · split at h
        · split at h
          · rename_i t n hscan
            cases h
            unfold scanDecimal at hscan
            dsimp only at hscan
            split at hscan
            · split at hscan <;> cases hscan
            · cases hscan
              exact unsigned_nearestTo _ _
          · cases h
        · split at h
          · simp only [wordToken] at h
            split at h <;> cases h
          · unfold scanMark at h
            split at h
            · cases h
            · split at h <;> cases h

theorem lexFrom_unsigned {span : Span} {cs : List Char} {found ts : List Lexeme}
    (hfound : ∀ t ∈ found, t.token.Unsigned) (h : lexFrom span cs found = .ok ts) :
    ∀ t ∈ ts, t.token.Unsigned := by
  fun_induction lexFrom span cs found with
  | case1 span found =>
    cases h
    intro t ht
    rcases List.mem_cons.1 (List.mem_reverse.1 ht) with rfl | ht
    · exact nofun
    · exact hfound t ht
  | case2 span found c rest hspacing ih => exact ih hfound h
  | case3 span found c rest hspacing hnewline ih =>
    refine ih (fun t ht => ?_) h
    rcases List.mem_cons.1 ht with rfl | ht
    · exact nofun
    · exact hfound t ht
  | case4 span found c rest hspacing hnewline token taken hscan ih =>
    refine ih (fun t ht => ?_) h
    rcases List.mem_cons.1 ht with rfl | ht
    · exact scan_unsigned hscan
    · exact hfound t ht
  | case5 span found c rest hspacing hnewline fault offset hscan => cases h

/-! ## Programs -/

theorem inherited_unsigned : Inherited Token.Unsigned Expr.Unsigned Stmt.Unsigned where
  int _ _ := trivial
  float _ x h := h x rfl
  str _ _ := trivial
  bool _ _ := trivial
  nil _ := trivial
  ident _ _ := trivial
  list _ _ h := allUnsigned_iff.2 h
  map _ _ h := entriesUnsigned_iff.2 h
  set _ _ h := allUnsigned_iff.2 h
  unary _ _ _ h := h
  binary _ _ _ _ hleft hright := ⟨hleft, hright⟩
  logical _ _ _ _ hleft hright := ⟨hleft, hright⟩
  call _ _ _ hcallee hargs := ⟨hcallee, allUnsigned_iff.2 hargs⟩
  index _ _ _ hobject hkey := ⟨hobject, hkey⟩
  attr _ _ _ h := h
  func _ _ _ h := bodyUnsigned_iff.2 h
  var _ _ _ h := h
  assign _ _ _ _ htarget hvalue := ⟨htarget, hvalue⟩
  funcDef _ _ _ _ h := bodyUnsigned_iff.2 h
  returnNone _ := trivial
  returnSome _ _ h := h
  ifOnly _ _ _ hcond hthen := ⟨hcond, bodyUnsigned_iff.2 hthen⟩
  ifElse _ _ _ _ hcond hthen helse :=
    ⟨hcond, bodyUnsigned_iff.2 hthen, bodyUnsigned_iff.2 helse⟩
  «while» _ _ _ hcond hbody := ⟨hcond, bodyUnsigned_iff.2 hbody⟩
  «break» _ := trivial
  «continue» _ := trivial
  print _ _ h := h
  delete _ _ _ _ h := h
  expr _ _ h := h

/-- No number of a program that has been read has a sign. -/
theorem parse_unsigned {source : String} {p : Program} (h : parse source = .ok p) :
    p.Unsigned :=
  bodyUnsigned_iff.2 (parse_inherits inherited_unsigned
    (fun _ hts => lexFrom_unsigned (List.forall_mem_nil _) hts) h)

/-- Nor has one of the programs that can be read among some texts. -/
theorem filterMap_parse_unsigned (texts : List String) :
    ∀ p ∈ texts.filterMap fun text => (parse text).toOption, p.Unsigned := by
  intro p hp
  obtain ⟨text, -, htext⟩ := List.mem_filterMap.1 hp
  cases hparse : parse text with
  | error e =>
    rw [hparse] at htext
    cases htext
  | ok q =>
    rw [hparse] at htext
    cases htext
    exact parse_unsigned hparse

end Ember
