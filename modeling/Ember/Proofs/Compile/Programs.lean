import Ember.Proofs.Compile.Functions

/-! Compiling expressions, statements and chunks. The code of an expression pushes one value, from
any height of the stack; that of a statement leaves the stack empty, as it has found it. The
theorems follow the trees; each construct has a lemma about its parts. -/
namespace Ember
set_option autoImplicit false

open CompileM

/-! ## What parts of the compiler promise -/

/-- The code pushes one value. -/
def Pushes (x : CompileM Fragment) : Prop :=
  ∀ ⦃s s' : CompileState⦄ ⦃code : Fragment⦄, Ready s → x s = .ok (code, s') →
    ∀ n, Yields s s' false code.toList (.values n) (.values (n + 1))

/-- The code that is added pushes `k` values. -/
def PushesMany (x : Fragment → CompileM Fragment) (k : Nat) : Prop :=
  ∀ ⦃s s' : CompileState⦄ ⦃code code' : Fragment⦄, Ready s → x code s = .ok (code', s') →
    ∃ more, code'.toList = code.toList ++ more ∧
      ∀ n, Yields s s' false more (.values n) (.values (n + k))

/-- The code leaves the stack empty. -/
def Runs (inLoop : Bool) (x : CompileM Fragment) : Prop :=
  ∀ ⦃s s' : CompileState⦄ ⦃code : Fragment⦄, Ready s → x s = .ok (code, s') →
    Yields s s' inLoop code.toList (.values 0) (.values 0)

/-- The code that is added leaves the stack empty. -/
def RunsMany (inLoop : Bool) (x : Fragment → CompileM Fragment) : Prop :=
  ∀ ⦃s s' : CompileState⦄ ⦃code code' : Fragment⦄, Ready s → x code s = .ok (code', s') →
    ∃ more, code'.toList = code.toList ++ more ∧
      Yields s s' inLoop more (.values 0) (.values 0)

section
variable {s s' : CompileState} {builtins : Std.HashSet String}

/-! ## Expressions -/

theorem pushes_literal {v : Value} (span : Span) (hv : v.isConstant = true)
    (hf : ∀ g, v ≠ .function g) : Pushes (loadConstant v span) :=
  fun _ _ _ hs h n => loadConstant_yields n hs hv hf h

/-- One instruction that pushes a value and may stand anywhere. -/
theorem pushes_op (ins : Instruction) (hw : ins.WellFormed) (hop : ins.op.isOrdinary = true)
    (hjump : ins.op.isJump = false) (hpops : ins.pops = 0) (hpushes : ins.pushes = 1) :
    Pushes (pure #[.op ins]) := by
  intro s s' code hs h n
  obtain ⟨rfl, rfl⟩ := pure_eq_ok.1 h
  have := yields_ordinary (n := n) hs false hw hop hjump (by omega)
  rwa [show ins.heightAfter n = n + 1 by rw [Instruction.heightAfter]; omega] at this

theorem pushes_ident (span : Span) (name : String) :
    Pushes (do return #[← loadSymbol (← resolve name) span]) := by
  intro s s' code hs h n
  obtain ⟨symbol, s₁, hresolve, h₁⟩ := bind_eq_ok.1 h
  obtain ⟨item, hitem, rfl⟩ := bind_pure_eq_ok.1 h₁
  obtain ⟨hs₁, hgrows, hsymbol⟩ := resolve_spec hs hresolve
  exact (loadSymbol_yields n hs₁ hsymbol hitem).after hgrows

/-- Values that are gathered by an instruction whose operand counts them. -/
theorem yields_gather {op : Opcode} {count k n : Nat} {span : Span} {item : Item} (hs : Ready s)
    (hop : op.isOrdinary = true) (hjump : op.isJump = false)
    (hwidth : op.widths.length = 1) (hoperator : Instruction.hasOperator ⟨op, [count]⟩ = true)
    (hpops : Instruction.pops ⟨op, [count]⟩ = k) (hpushes : Instruction.pushes ⟨op, [count]⟩ = 1)
    (h : emit op [count] span s = .ok (item, s')) :
    s' = s ∧ Yields s s false [item] (.values (n + k)) (.values (n + 1)) := by
  obtain ⟨rfl, rfl, hfit⟩ := emit_eq_ok h
  refine ⟨rfl, ?_⟩
  have := yields_ordinary (n := n + k) hs false (wellFormed_of_fits hfit hwidth.symm hoperator)
    hop hjump (by omega)
  rwa [show Instruction.heightAfter ⟨op, [count]⟩ (n + k) = n + 1 by
    rw [Instruction.heightAfter]; omega] at this

/-- A container of values that are pushed one after the other. -/
theorem pushes_gather {x : Fragment → CompileM Fragment} {op : Opcode} {count k : Nat}
    {span : Span} (hx : PushesMany x k)
    (hop : op.isOrdinary = true) (hjump : op.isJump = false)
    (hwidth : op.widths.length = 1) (hoperator : Instruction.hasOperator ⟨op, [count]⟩ = true)
    (hpops : Instruction.pops ⟨op, [count]⟩ = k) (hpushes : Instruction.pushes ⟨op, [count]⟩ = 1) :
    Pushes (do return (← x #[]).push (← emit op [count] span)) := by
  intro s s' code hs h n
  obtain ⟨values, s₁, hvalues, h₁⟩ := bind_eq_ok.1 h
  obtain ⟨item, hitem, rfl⟩ := bind_pure_eq_ok.1 h₁
  obtain ⟨more, hmore, hyields⟩ := hx hs hvalues
  obtain ⟨rfl, hlast⟩ := yields_gather (n := n) (hyields n).ready hop hjump hwidth hoperator hpops
    hpushes hitem
  rw [Array.toList_push, hmore]
  exact (hyields n).append hlast

theorem pushes_checked {x : CompileM Fragment} {count limit : Nat} {what : String} {span : Span}
    (hx : Pushes x) : Pushes (do checkCount count what limit span; x) := by
  intro s s' code hs h n
  obtain ⟨u, s₁, hcount, h₁⟩ := bind_eq_ok.1 h
  obtain ⟨-, rfl⟩ := checkCount_eq_ok hcount
  exact hx hs h₁ n

/-- An operator on the value of one operand. -/
theorem pushes_unary {x : CompileM Fragment} (hx : Pushes x) (op : UnaryOperator) :
    Pushes (do return (← x).push (.op ⟨op.opcode, []⟩)) := by
  intro s s' code hs h n
  obtain ⟨first, hfirst, rfl⟩ := bind_pure_eq_ok.1 h
  have hyields := hx hs hfirst n
  have hlast : Yields s' s' false [.op ⟨op.opcode, []⟩] (.values (n + 1)) (.values (n + 1)) := by
    cases op <;>
      exact yields_ordinary (n := n + 1) hyields.ready false ⟨trivial, rfl⟩ rfl rfl
        (Nat.le_add_left 1 n)
  rw [Array.toList_push]
  exact hyields.append hlast

/-- An instruction that takes the values of two operands. -/
theorem pushes_binary {x y : CompileM Fragment} (ins : Instruction) (hx : Pushes x)
    (hy : Pushes y) (hw : ins.WellFormed) (hop : ins.op.isOrdinary = true)
    (hjump : ins.op.isJump = false) (hpops : ins.pops = 2) (hpushes : ins.pushes = 1) :
    Pushes (do
      let first ← x
      let second ← y
      return (first ++ second).push (.op ins)) := by
  intro s s' code hs h n
  obtain ⟨first, s₁, hfirst, h₁⟩ := bind_eq_ok.1 h
  obtain ⟨second, hsecond, rfl⟩ := bind_pure_eq_ok.1 h₁
  have hyields := hx hs hfirst n
  have hyields' := hy hyields.ready hsecond (n + 1)
  have hlast := yields_ordinary (n := n + 1 + 1) hyields'.ready false hw hop hjump (by omega)
  rw [show ins.heightAfter (n + 1 + 1) = n + 1 by rw [Instruction.heightAfter]; omega] at hlast
  rw [Array.toList_push, Array.toList_append]
  exact (hyields.append hyields').append hlast

theorem wellFormed_operation (op : Operation) : op.instruction.WellFormed := by
  cases op with
  | arithmetic op =>
    refine ⟨⟨?_, trivial⟩, ?_⟩
    · cases op <;> decide
    · cases op <;> rfl
  | comparison op =>
    refine ⟨⟨?_, trivial⟩, ?_⟩
    · cases op <;> decide
    · cases op <;> rfl

namespace Connective

/-- The jump that an operand takes where it decides the connective. -/
def jump : Connective → Opcode
  | and => .popJumpForwardIfFalse
  | or => .popJumpForwardIfTrue

/-- The instruction for the value of the connective where an operand decides it. -/
def decided : Connective → Opcode
  | and => .pushFalse
  | or => .pushTrue

def undecided : Connective → Opcode
  | and => .pushTrue
  | or => .pushFalse

/-- The items of a connective, from those of its operands. -/
def items (op : Connective) (first second : List Item) : List Item :=
  first ++ jumpOver op.jump (itemsSize second + 7) :: (second ++
    [jumpOver op.jump 4, .op ⟨op.undecided, []⟩, jumpOver .jumpForward 1, .op ⟨op.decided, []⟩])

end Connective

theorem joinConnective_eq_ok {op : Connective} {first second code : Fragment} {span : Span}
    (h : joinConnective op first second span s = .ok (code, s')) :
    s' = s ∧ itemsSize second.toList + 7 ≤ maxJump ∧
      code.toList = op.items first.toList second.toList := by
  unfold joinConnective at h
  cases op <;>
  · obtain ⟨i, s₁, hi, h₁⟩ := bind_eq_ok.1 h
    obtain ⟨rfl, rfl, hfit⟩ := emitJump_eq_ok hi
    obtain ⟨j, s₂, hj, h₂⟩ := bind_eq_ok.1 h₁
    obtain ⟨rfl, rfl, -⟩ := emitJump_eq_ok hj
    obtain ⟨k, s₃, hk, h₃⟩ := bind_eq_ok.1 h₂
    obtain ⟨rfl, rfl, -⟩ := emitJump_eq_ok hk
    obtain ⟨rfl, rfl⟩ := pure_eq_ok.1 h₃
    rw [Fragment.byteSize_eq] at hfit ⊢
    refine ⟨rfl, hfit, ?_⟩
    simp [Connective.items, Connective.jump, Connective.decided, Connective.undecided]

theorem pushes_logical {x y : CompileM Fragment} (hx : Pushes x) (hy : Pushes y) (op : Connective)
    (span : Span) :
    Pushes (do
      let first ← x
      let second ← y
      joinConnective op first second span) := by
  intro s s' code hs h n
  obtain ⟨first, s₁, hfirst, h₁⟩ := bind_eq_ok.1 h
  obtain ⟨second, s₂, hsecond, h₂⟩ := bind_eq_ok.1 h₁
  have hyields := hx hs hfirst n
  have hyields' := hy hyields.ready hsecond n
  obtain ⟨rfl, hfit, hcode⟩ := joinConnective_eq_ok h₂
  have hclosed : Closed (op.items first.toList second.toList) := by
    intro item hitem
    simp only [Connective.items, List.mem_append, List.mem_cons, List.not_mem_nil,
      or_false] at hitem
    rcases hitem with hitem | rfl | hitem | rfl | rfl | rfl | rfl
    · exact hyields.closed rfl item hitem
    · exact ⟨_, rfl⟩
    · exact hyields'.closed rfl item hitem
    all_goals exact ⟨_, rfl⟩
  have hlasting : Lasting (op.items first.toList second.toList) := by
    refine lasting_append hyields.lasting (lasting_cons ?_ (lasting_append hyields'.lasting
      (lasting_cons ?_ (lasting_cons ?_ (lasting_cons ?_ (lasting_cons ?_ lasting_nil))))))
    all_goals cases op <;> nofun
  rw [hcode]
  refine ⟨hyields.grows.trans hyields'.grows, hyields'.ready, ?_, fun _ => hclosed, hlasting⟩
  refine Flowing.connective ?_ ?_ ?_ (hyields.flowing.mono hyields'.grows.draft) hyields'.flowing
    hfit
  all_goals cases op <;> first | exact .inl rfl | exact .inr rfl

/-- A call: the function, then its arguments. -/
theorem pushes_call {x : CompileM Fragment} {xs : Fragment → CompileM Fragment} {k : Nat}
    {span : Span} (hx : Pushes x) (hxs : PushesMany xs k) :
    Pushes (do
      let code ← x
      let code ← xs code
      return code.push (← emit .call [k] span)) := by
  intro s s' code hs h n
  obtain ⟨callee, s₁, hcallee, h₁⟩ := bind_eq_ok.1 h
  obtain ⟨args, s₂, hargs, h₂⟩ := bind_eq_ok.1 h₁
  obtain ⟨item, hitem, rfl⟩ := bind_pure_eq_ok.1 h₂
  have hyields := hx hs hcallee n
  obtain ⟨more, hmore, hyields'⟩ := hxs hyields.ready hargs
  obtain ⟨rfl, hlast⟩ := yields_gather (n := n) (k := k + 1) (hyields' (n + 1)).ready rfl rfl rfl
    rfl rfl rfl hitem
  rw [show n + (k + 1) = n + 1 + k by omega] at hlast
  rw [Array.toList_push, hmore]
  exact (hyields.append (hyields' (n + 1))).append hlast

/-- Access to an attribute, which is named in the table of names. -/
theorem yields_attribute {op : Opcode} {name : String} {span : Span} {item : Item} {n m : Nat}
    (hs : Ready s) (hop : op = .loadAttr ∨ op = .storeAttr)
    (hpops : Instruction.pops ⟨op, []⟩ ≤ n) (hm : Instruction.heightAfter ⟨op, []⟩ n = m)
    (h : (do emit op [← addName name span] span : CompileM Item) s = .ok (item, s')) :
    Yields s s' false [item] (.values n) (.values m) := by
  obtain ⟨i, s₁, hname, hemit⟩ := bind_eq_ok.1 h
  obtain ⟨hs₁, hgrows, -, hi⟩ := addName_spec hs hname
  obtain ⟨rfl, rfl, hfit⟩ := emit_eq_ok hemit
  have hlt : i < s'.draft.names.size := (Array.getElem?_eq_some_iff.1 hi).1
  subst hm
  rcases hop with rfl | rfl
  all_goals
    exact .op hgrows hs₁ false (wellFormed_of_fits hfit rfl rfl) rfl nofun
      ⟨if_pos hlt, by cases s'.draft.scope.kind <;> rfl, rfl, hpops, rfl⟩

theorem pushes_attr {x : CompileM Fragment} (hx : Pushes x) (name : String) (span : Span) :
    Pushes (do
      let code ← x
      return code.push (← emit .loadAttr [← addName name span] span)) := by
  intro s s' code hs h n
  obtain ⟨object, s₁, hobject, h₁⟩ := bind_eq_ok.1 h
  rw [← bind_assoc] at h₁
  obtain ⟨item, hitem, rfl⟩ := bind_pure_eq_ok.1 h₁
  have hyields := hx hs hobject n
  rw [Array.toList_push]
  exact hyields.append (yields_attribute hyields.ready (.inl rfl) (Nat.le_add_left 1 n) rfl hitem)

/-- Expressions one after the other. -/
theorem pushesMany_cons {x : CompileM Fragment} {xs : Fragment → CompileM Fragment} {k : Nat}
    (hx : Pushes x) (hxs : PushesMany xs k) :
    PushesMany (fun code => do
      let more ← x
      xs (code ++ more)) (k + 1) := by
  intro s s' code code' hs h
  obtain ⟨first, s₁, hfirst, h₁⟩ := bind_eq_ok.1 h
  have hyields := hx hs hfirst
  obtain ⟨more, hmore, hyields'⟩ := hxs (hyields 0).ready h₁
  refine ⟨first.toList ++ more, ?_, fun n => ?_⟩
  · rw [hmore, Array.toList_append, List.append_assoc]
  · rw [show n + (k + 1) = n + 1 + k by omega]
    exact (hyields n).append (hyields' (n + 1))

theorem pushesMany_nil : PushesMany (fun code => pure code) 0 := by
  intro s s' code code' hs h
  obtain ⟨rfl, rfl⟩ := pure_eq_ok.1 h
  exact ⟨[], (List.append_nil _).symm, fun n => .nil hs _ _⟩

/-- Keys and values in turn. -/
theorem pushesMany_entry {x y : CompileM Fragment} {xs : Fragment → CompileM Fragment} {k : Nat}
    (hx : Pushes x) (hy : Pushes y) (hxs : PushesMany xs k) :
    PushesMany (fun code => do
      let first ← x
      let second ← y
      xs (code ++ first ++ second)) (k + 2) := by
  intro s s' code code' hs h
  obtain ⟨first, s₁, hfirst, h₁⟩ := bind_eq_ok.1 h
  have hyields := hx hs hfirst
  obtain ⟨second, s₂, hsecond, h₂⟩ := bind_eq_ok.1 h₁
  have hyields' := hy (hyields 0).ready hsecond
  obtain ⟨more, hmore, hyields''⟩ := hxs (hyields' 0).ready h₂
  refine ⟨first.toList ++ second.toList ++ more, ?_, fun n => ?_⟩
  · rw [hmore]
    simp
  · rw [show n + (k + 2) = n + 1 + 1 + k by omega]
    exact ((hyields n).append (hyields' (n + 1))).append (hyields'' (n + 1 + 1))

/-! ## Statements -/

/-- The symbol says where the name is that is to be stored. -/
def Finds (y : CompileM Symbol) (name : String) : Prop :=
  ∀ ⦃s s' : CompileState⦄ ⦃symbol : Symbol⦄, Ready s → y s = .ok (symbol, s') →
    Ready s' ∧ Grows s s' ∧ SymbolAt s' name symbol

/-- A value is computed and stored under a name that is declared after that. -/
theorem runs_store {x : CompileM Fragment} {y : CompileM Symbol} {name : String} (inLoop : Bool)
    (hx : Pushes x) (hy : Finds y name) (span : Span) :
    Runs inLoop (do
      let code ← x
      let symbol ← y
      return code.push (← storeSymbol symbol span)) := by
  intro s s' code hs h
  obtain ⟨value, s₁, hvalue, h₁⟩ := bind_eq_ok.1 h
  obtain ⟨symbol, s₂, hsymbol, h₂⟩ := bind_eq_ok.1 h₁
  obtain ⟨item, hitem, rfl⟩ := bind_pure_eq_ok.1 h₂
  have hyields := hx hs hvalue 0
  obtain ⟨hs₂, hgrows, hat⟩ := hy hyields.ready hsymbol
  have hstore := (storeSymbol_yields 0 hs₂ hat hitem).after hgrows
  rw [Array.toList_push]
  exact (hyields.append hstore).inside inLoop

/-- A value is stored under a name that is found before the value is computed. -/
theorem runs_storeTo {x : CompileM Fragment} {y : CompileM Symbol} {name : String} (inLoop : Bool)
    (hx : Pushes x) (hy : Finds y name) (span : Span) :
    Runs inLoop (do
      let symbol ← y
      let code ← x
      return code.push (← storeSymbol symbol span)) := by
  intro s s' code hs h
  obtain ⟨symbol, s₁, hsymbol, h₁⟩ := bind_eq_ok.1 h
  obtain ⟨value, s₂, hvalue, h₂⟩ := bind_eq_ok.1 h₁
  obtain ⟨item, hitem, rfl⟩ := bind_pure_eq_ok.1 h₂
  obtain ⟨hs₁, hgrows, hat⟩ := hy hs hsymbol
  have hyields := hx hs₁ hvalue 0
  have hstore := storeSymbol_yields 0 hyields.ready (hat.mono hyields.grows) hitem
  rw [Array.toList_push]
  exact ((hyields.append hstore).after hgrows).inside inLoop

/-- An instruction that takes one value and gives none. -/
theorem runs_unary {x : CompileM Fragment} {op : Opcode} (inLoop : Bool) (hx : Pushes x)
    (hop : op = .print ∨ op = .popTop) :
    Runs inLoop (do return (← x).push (.op ⟨op, []⟩)) := by
  intro s s' code hs h
  obtain ⟨value, hvalue, rfl⟩ := bind_pure_eq_ok.1 h
  have hyields := hx hs hvalue 0
  have hlast : Yields s' s' false [.op ⟨op, []⟩] (.values 1) (.values 0) := by
    rcases hop with rfl | rfl <;>
      exact yields_ordinary (n := 1) hyields.ready false ⟨trivial, rfl⟩ rfl rfl (Nat.le_refl 1)
  rw [Array.toList_push]
  exact (hyields.append hlast).inside inLoop

theorem runs_delete {x y : CompileM Fragment} (inLoop : Bool) (hx : Pushes x) (hy : Pushes y) :
    Runs inLoop (do
      let first ← x
      let second ← y
      return (first ++ second).push (.op ⟨.deleteSubscr, []⟩)) := by
  intro s s' code hs h
  obtain ⟨first, s₁, hfirst, h₁⟩ := bind_eq_ok.1 h
  obtain ⟨second, hsecond, rfl⟩ := bind_pure_eq_ok.1 h₁
  have hyields := hx hs hfirst 0
  have hyields' := hy hyields.ready hsecond 1
  have hlast : Yields s' s' false [.op ⟨.deleteSubscr, []⟩] (.values 2) (.values 0) :=
    yields_ordinary (n := 2) hyields'.ready false ⟨trivial, rfl⟩ rfl rfl (Nat.le_refl 2)
  rw [Array.toList_push, Array.toList_append]
  exact ((hyields.append hyields').append hlast).inside inLoop

theorem runs_storeSubscr {x y z : CompileM Fragment} (inLoop : Bool) (hx : Pushes x)
    (hy : Pushes y) (hz : Pushes z) :
    Runs inLoop (do
      let first ← x
      let second ← y
      let third ← z
      return (first ++ second ++ third).push (.op ⟨.storeSubscr, []⟩)) := by
  intro s s' code hs h
  obtain ⟨first, s₁, hfirst, h₁⟩ := bind_eq_ok.1 h
  obtain ⟨second, s₂, hsecond, h₂⟩ := bind_eq_ok.1 h₁
  obtain ⟨third, hthird, rfl⟩ := bind_pure_eq_ok.1 h₂
  have hvalue := hx hs hfirst 0
  have hobject := hy hvalue.ready hsecond 1
  have hkey := hz hobject.ready hthird 2
  have hlast : Yields s' s' false [.op ⟨.storeSubscr, []⟩] (.values 3) (.values 0) :=
    yields_ordinary (n := 3) hkey.ready false ⟨trivial, rfl⟩ rfl rfl (Nat.le_refl 3)
  rw [Array.toList_push, Array.toList_append, Array.toList_append]
  exact (((hvalue.append hobject).append hkey).append hlast).inside inLoop

theorem runs_storeAttr {x y : CompileM Fragment} (inLoop : Bool) (hx : Pushes x) (hy : Pushes y)
    (name : String) (span : Span) :
    Runs inLoop (do
      let first ← x
      let second ← y
      return (first ++ second).push (← emit .storeAttr [← addName name span] span)) := by
  intro s s' code hs h
  obtain ⟨first, s₁, hfirst, h₁⟩ := bind_eq_ok.1 h
  obtain ⟨second, s₂, hsecond, h₂⟩ := bind_eq_ok.1 h₁
  rw [← bind_assoc] at h₂
  obtain ⟨item, hitem, rfl⟩ := bind_pure_eq_ok.1 h₂
  have hvalue := hx hs hfirst 0
  have hobject := hy hvalue.ready hsecond 1
  have hlast := yields_attribute (n := 2) hobject.ready (.inr rfl) (Nat.le_refl 2) rfl hitem
  rw [Array.toList_push, Array.toList_append]
  exact ((hvalue.append hobject).append hlast).inside inLoop

theorem runs_fail (inLoop : Bool) (fault : CompileFault) (span : Span) :
    Runs inLoop (fail fault span) := by
  intro s s' code hs h
  exact absurd h fail_ne_ok

/-- A return, with or without the value on top of the stack. -/
theorem yields_return {flag : Nat} (hs : Ready s) (hkind : s.draft.scope.kind = .function)
    (hflag : flag ≤ 1) :
    Yields s s false [.op ⟨.returnValue, [flag]⟩] (.values flag) (.values 0) := by
  have hw : Instruction.WellFormed ⟨.returnValue, [flag]⟩ :=
    ⟨⟨Nat.lt_of_le_of_lt hflag (by decide), trivial⟩, rfl⟩
  refine .op (.refl s) hs false hw rfl nofun
    ⟨if_pos hflag, by rw [hkind]; rfl, rfl, Nat.le_refl flag, ?_⟩
  change Shape.values 0 = .values (flag - flag + 0)
  rw [Nat.sub_self]

/-- A statement that only a function may contain. -/
theorem kind_of_inFunction {b : Bool} (h : inFunction s = .ok (b, s')) (hb : b = true) :
    s' = s ∧ s.draft.scope.kind = .function := by
  obtain ⟨rfl, hhead⟩ := inFunction_eq_ok h
  refine ⟨rfl, ?_⟩
  cases hscopes : s'.scopes with
  | nil =>
    rw [hscopes, hb] at hhead
    cases hhead
  | cons scope outer =>
    rw [hscopes, hb] at hhead
    rw [draft_kind hscopes]
    exact eq_of_beq hhead.symm

theorem runs_return (inLoop : Bool) (span : Span) :
    Runs inLoop (do
      if ← inFunction then return #[.op ⟨.returnValue, [0]⟩]
      else fail .returnOutsideFunction span) := by
  intro s s' code hs h
  obtain ⟨b, s₁, hb, h₁⟩ := bind_eq_ok.1 h
  split at h₁
  · rename_i htrue
    obtain ⟨rfl, hkind⟩ := kind_of_inFunction hb htrue
    obtain ⟨rfl, rfl⟩ := pure_eq_ok.1 h₁
    exact (yields_return hs hkind (Nat.zero_le 1)).inside inLoop
  · exact absurd h₁ fail_ne_ok

theorem runs_returnValue {x : CompileM Fragment} (inLoop : Bool) (hx : Pushes x) (span : Span) :
    Runs inLoop (do
      if ← inFunction then
        let code ← x
        return code.push (.op ⟨.returnValue, [1]⟩)
      else fail .returnOutsideFunction span) := by
  intro s s' code hs h
  obtain ⟨b, s₁, hb, h₁⟩ := bind_eq_ok.1 h
  split at h₁
  · rename_i htrue
    obtain ⟨rfl, hkind⟩ := kind_of_inFunction hb htrue
    obtain ⟨value, hvalue, rfl⟩ := bind_pure_eq_ok.1 h₁
    have hyields := hx hs hvalue 0
    have hlast := yields_return hyields.ready (hyields.grows.draft.kind.trans hkind) (Nat.le_refl 1)
    rw [Array.toList_push]
    exact (hyields.append hlast).inside inLoop
  · exact absurd h₁ fail_ne_ok

/-- A way out of a loop, which is still open. -/
theorem runs_hole {inLoop : Bool} (exit : LoopExit) (fault : CompileFault) (span : Span) :
    Runs inLoop (if inLoop then pure #[.hole exit] else fail fault span) := by
  intro s s' code hs h
  split at h
  · rename_i hloop
    obtain ⟨rfl, rfl⟩ := pure_eq_ok.1 h
    refine ⟨.refl s, hs, ⟨[(.hole exit, .values 0)], rfl, ⟨rfl, trivial⟩, rfl⟩, fun hfalse => ?_,
      fun ins hins => ?_⟩
    · rw [hloop] at hfalse
      cases hfalse
    · cases List.mem_singleton.1 hins
  · exact absurd h fail_ne_ok

/-- The statements of a block, taken by themselves. -/
theorem RunsMany.runs {inLoop : Bool} {xs : Fragment → CompileM Fragment}
    (hxs : RunsMany inLoop xs) : Runs inLoop (xs #[]) := by
  intro s s' code hs h
  obtain ⟨more, hmore, hyields⟩ := hxs hs h
  rw [hmore]
  exact hyields

theorem closed_cons {ins : Instruction} {items : List Item} (h : Closed items) :
    Closed (.op ins :: items) := by
  intro item hitem
  rcases List.mem_cons.1 hitem with rfl | hitem
  · exact ⟨ins, rfl⟩
  · exact h item hitem

theorem closed_append {a b : List Item} (ha : Closed a) (hb : Closed b) : Closed (a ++ b) := by
  intro item hitem
  rcases List.mem_append.1 hitem with hitem | hitem
  · exact ha item hitem
  · exact hb item hitem

theorem runs_if {x y : CompileM Fragment} {inLoop : Bool} (hx : Pushes x) (hy : Runs inLoop y)
    (span : Span) :
    Runs inLoop (do
      let test ← x
      let first ← y
      let skip ← emitJump .popJumpForwardIfFalse first.byteSize span
      return test.push skip ++ first) := by
  intro s s' code hs h
  obtain ⟨test, s₁, htest, h₁⟩ := bind_eq_ok.1 h
  obtain ⟨first, s₂, hfirst, h₂⟩ := bind_eq_ok.1 h₁
  obtain ⟨skip, hskip, rfl⟩ := bind_pure_eq_ok.1 h₂
  obtain ⟨rfl, rfl, hfit⟩ := emitJump_eq_ok hskip
  have hcond := hx hs htest 0
  have hbody := hy hcond.ready hfirst
  rw [Fragment.byteSize_eq] at hfit ⊢
  rw [Array.toList_append, Array.toList_push, List.append_assoc, List.singleton_append]
  refine ⟨hcond.grows.trans hbody.grows, hbody.ready, ?_, fun hloop => ?_,
    lasting_append hcond.lasting (lasting_cons nofun hbody.lasting)⟩
  · exact (hcond.flowing.mono hbody.grows.draft).conditional hbody.flowing hfit
  · exact closed_append (hcond.closed rfl) (closed_cons (hbody.closed hloop))

theorem runs_ifElse {x y z : CompileM Fragment} {inLoop : Bool} (hx : Pushes x)
    (hy : Runs inLoop y) (hz : Runs inLoop z) (span : Span) :
    Runs inLoop (do
      let test ← x
      let first ← y
      let toElse ← emitJump .popJumpForwardIfFalse (first.byteSize + 3) span
      let second ← z
      let toEnd ← emitJump .jumpForward second.byteSize span
      return (test.push toElse ++ first).push toEnd ++ second) := by
  intro s s' code hs h
  obtain ⟨test, s₁, htest, h₁⟩ := bind_eq_ok.1 h
  obtain ⟨first, s₂, hfirst, h₂⟩ := bind_eq_ok.1 h₁
  obtain ⟨toElse, s₃, htoElse, h₃⟩ := bind_eq_ok.1 h₂
  obtain ⟨rfl, rfl, hfit⟩ := emitJump_eq_ok htoElse
  obtain ⟨second, s₄, hsecond, h₄⟩ := bind_eq_ok.1 h₃
  obtain ⟨toEnd, htoEnd, rfl⟩ := bind_pure_eq_ok.1 h₄
  obtain ⟨rfl, rfl, hfit'⟩ := emitJump_eq_ok htoEnd
  have hcond := hx hs htest 0
  have hthen := hy hcond.ready hfirst
  have helse := hz hthen.ready hsecond
  rw [Fragment.byteSize_eq] at hfit hfit' ⊢
  rw [Fragment.byteSize_eq, show ((test.push (jumpOver .popJumpForwardIfFalse
      (itemsSize first.toList + 3)) ++ first).push (jumpOver .jumpForward
      (itemsSize second.toList)) ++ second).toList = test.toList ++ jumpOver .popJumpForwardIfFalse
      (itemsSize first.toList + 3) :: (first.toList ++ jumpOver .jumpForward
      (itemsSize second.toList) :: second.toList) by simp]
  refine ⟨(hcond.grows.trans hthen.grows).trans helse.grows, helse.ready, ?_, fun hloop => ?_,
    lasting_append hcond.lasting (lasting_cons nofun
      (lasting_append hthen.lasting (lasting_cons nofun helse.lasting)))⟩
  · have hcond' := hcond.flowing.mono (hthen.grows.trans helse.grows).draft
    exact hcond'.alternative (hthen.flowing.mono helse.grows.draft) helse.flowing hfit hfit'
  · exact closed_append (hcond.closed rfl) (closed_cons
      (closed_append (hthen.closed hloop) (closed_cons (helse.closed hloop))))

theorem closed_closeItems (body tail pos : Nat) (items : List Item) :
    Closed (closeItems body tail pos items) := by
  induction items generalizing pos with
  | nil => simp [closeItems, Closed]
  | cons item items ih =>
    rw [closeItems]
    rcases item with ins | exit
    · exact closed_cons (ih _)
    · cases exit <;> exact closed_cons (ih _)

theorem lasting_closeItems {items : List Item} (h : Lasting items) (body tail pos : Nat) :
    Lasting (closeItems body tail pos items) := by
  induction items generalizing pos with
  | nil => exact h
  | cons item items ih =>
    have hrest := ih (fun ins hins => h ins (List.mem_cons_of_mem _ hins)) (pos + item.size)
    rw [closeItems]
    rcases item with ins | exit
    · exact lasting_cons (h ins List.mem_cons_self) hrest
    · cases exit <;> exact lasting_cons (by simp) hrest

theorem runs_while {x y : CompileM Fragment} {inLoop : Bool} (hx : Pushes x) (hy : Runs true y)
    (span : Span) :
    Runs inLoop (do
      let inner ← y
      let bodySize := inner.byteSize
      let toTest ← emitJump .jumpForward bodySize span
      let test ← x
      let tail := test.byteSize + 3
      let again ← emit .popJumpBackwardIfTrue [bodySize + tail] span
      return (#[toTest] ++ inner.closeLoop bodySize tail ++ test).push again) := by
  intro s s' code hs h
  obtain ⟨inner, s₁, hinner, h₁⟩ := bind_eq_ok.1 h
  obtain ⟨toTest, s₂, htoTest, h₂⟩ := bind_eq_ok.1 h₁
  obtain ⟨rfl, rfl, -⟩ := emitJump_eq_ok htoTest
  obtain ⟨test, s₃, htest, h₃⟩ := bind_eq_ok.1 h₂
  obtain ⟨again, hagain, rfl⟩ := bind_pure_eq_ok.1 h₃
  obtain ⟨rfl, rfl, hfit⟩ := emit_eq_ok hagain
  have hbody := hy hs hinner
  have hcond := hx hbody.ready htest 0
  have hlt := (operandsFit_of_misfit? hfit rfl).1
  have hitems : ((#[jumpOver .jumpForward inner.byteSize] ++
      Fragment.closeLoop inner inner.byteSize (Fragment.byteSize test + 3) ++ test).push
        (.op ⟨.popJumpBackwardIfTrue,
          [Fragment.byteSize inner + (Fragment.byteSize test + 3)]⟩)).toList =
      jumpOver .jumpForward (itemsSize inner.toList) :: (closeItems (itemsSize inner.toList)
        (itemsSize test.toList + 3) 0 inner.toList ++ (test.toList ++
        [jumpOver .popJumpBackwardIfTrue (itemsSize inner.toList +
          (itemsSize test.toList + 3))])) := by
    rw [Fragment.byteSize_eq, Fragment.byteSize_eq]
    simp [Fragment.toList_closeLoop, jumpOver]
  rw [hitems]
  refine ⟨hbody.grows.trans hcond.grows, hcond.ready, ?_, fun _ => ?_,
    lasting_cons nofun (lasting_append (lasting_closeItems hbody.lasting _ _ _)
      (lasting_append hcond.lasting (lasting_cons nofun lasting_nil)))⟩
  · refine (hbody.flowing.mono hcond.grows.draft).loop hcond.flowing ?_
    rw [Fragment.byteSize_eq, Fragment.byteSize_eq] at hlt
    exact Nat.le_of_lt_succ hlt
  · exact closed_cons (closed_append (closed_closeItems _ _ _ _)
      (closed_append (hcond.closed rfl) (closed_cons (by simp [Closed]))))

/-- Statements one after the other. -/
theorem runsMany_cons {x : CompileM Fragment} {xs : Fragment → CompileM Fragment} {inLoop : Bool}
    (hx : Runs inLoop x) (hxs : RunsMany inLoop xs) :
    RunsMany inLoop (fun code => do
      let more ← x
      xs (code ++ more)) := by
  intro s s' code code' hs h
  obtain ⟨first, s₁, hfirst, h₁⟩ := bind_eq_ok.1 h
  have hyields := hx hs hfirst
  obtain ⟨more, hmore, hyields'⟩ := hxs hyields.ready h₁
  refine ⟨first.toList ++ more, ?_, hyields.append hyields'⟩
  rw [hmore, Array.toList_append, List.append_assoc]

theorem runsMany_nil (inLoop : Bool) : RunsMany inLoop (fun code => pure code) := by
  intro s s' code code' hs h
  obtain ⟨rfl, rfl⟩ := pure_eq_ok.1 h
  exact ⟨[], (List.append_nil _).symm, .nil hs _ _⟩

theorem pushes_function {x : Fragment → CompileM Fragment} (name : String) (params : List String)
    (span : Span) (hx : RunsMany false x) :
    Pushes (compileFunction name params span (x #[])) :=
  fun _ _ _ hs h n => compileFunction_yields n hs (fun _ _ _ hs₁ h₁ => hx.runs hs₁ h₁) h

/-! ## All of the syntax -/

mutual

/-- The code of every expression pushes one value. -/
theorem compileExpr_pushes : ∀ e : Expr, Pushes (compileExpr builtins e)
  | .int span n => pushes_literal span rfl (fun g h => by cases h)
  | .float span x => pushes_literal span rfl (fun g h => by cases h)
  | .str span s => pushes_literal span rfl (fun g h => by cases h)
  | .bool _ true => pushes_op ⟨.pushTrue, []⟩ ⟨trivial, rfl⟩ rfl rfl rfl rfl
  | .bool _ false => pushes_op ⟨.pushFalse, []⟩ ⟨trivial, rfl⟩ rfl rfl rfl rfl
  | .nil _ => pushes_op ⟨.pushNil, []⟩ ⟨trivial, rfl⟩ rfl rfl rfl rfl
  | .ident span name => pushes_ident span name
  | .list span items =>
    pushes_checked (pushes_gather (compileExprs_pushes items) rfl rfl rfl rfl rfl rfl)
  | .set span items =>
    pushes_checked (pushes_gather (compileExprs_pushes items) rfl rfl rfl rfl rfl rfl)
  | .map span entries =>
    pushes_checked (pushes_gather (compileEntries_pushes entries) rfl rfl rfl rfl rfl rfl)
  | .unary _ op operand => pushes_unary (compileExpr_pushes operand) op
  | .binary _ op left right => by
    rw [compileExpr]
    refine pushes_binary op.instruction (compileExpr_pushes left) (compileExpr_pushes right)
      (wellFormed_operation op) ?_ ?_ ?_ ?_
    all_goals cases op <;> rfl
  | .logical span op left right =>
    pushes_logical (compileExpr_pushes left) (compileExpr_pushes right) op span
  | .call span callee args =>
    pushes_checked (pushes_call (compileExpr_pushes callee) (compileExprs_pushes args))
  | .index _ object key =>
    pushes_binary ⟨.binarySubscr, []⟩ (compileExpr_pushes object) (compileExpr_pushes key)
      ⟨trivial, rfl⟩ rfl rfl rfl rfl
  | .attr span object name => pushes_attr (compileExpr_pushes object) name span
  | .func span params body => pushes_function anonymous params span (compileStmts_runs false body)

theorem compileExprs_pushes :
    ∀ items : List Expr, PushesMany (compileExprs builtins items) items.length
  | [] => pushesMany_nil
  | e :: rest => pushesMany_cons (compileExpr_pushes e) (compileExprs_pushes rest)

theorem compileEntries_pushes :
    ∀ entries : List (Expr × Expr),
      PushesMany (compileEntries builtins entries) (2 * entries.length)
  | [] => pushesMany_nil
  | (k, v) :: rest =>
    pushesMany_entry (compileExpr_pushes k) (compileExpr_pushes v) (compileEntries_pushes rest)

/-- The code of every statement leaves the stack empty. -/
theorem compileStmt_runs (inLoop : Bool) : ∀ st : Stmt, Runs inLoop (compileStmt builtins inLoop st)
  | .var span name value => by
    have hvalue := compileExpr_pushes value
    cases value with
    | func funcSpan params body =>
      exact runs_storeTo inLoop
        (pushes_function name params funcSpan (compileStmts_runs false body))
        (fun _ _ _ hs h => declare_spec hs h) span
    | _ => exact runs_store inLoop hvalue (fun _ _ _ hs h => declare_spec hs h) span
  | .assign span (.ident targetSpan name) value => by
    have hvalue := compileExpr_pushes value
    cases value with
    | func funcSpan params body =>
      exact runs_storeTo inLoop
        (pushes_function name params funcSpan (compileStmts_runs false body))
        (fun _ _ _ hs h => assignmentTarget_spec hs h) span
    | _ => exact runs_storeTo inLoop hvalue (fun _ _ _ hs h => assignmentTarget_spec hs h) span
  | .assign _ (.index _ object key) value =>
    runs_storeSubscr inLoop (compileExpr_pushes value) (compileExpr_pushes object)
      (compileExpr_pushes key)
  | .assign span (.attr _ object name) value =>
    runs_storeAttr inLoop (compileExpr_pushes value) (compileExpr_pushes object) name span
  | .assign _ (.int ..) _ | .assign _ (.float ..) _ | .assign _ (.str ..) _
  | .assign _ (.bool ..) _ | .assign _ (.nil ..) _ | .assign _ (.list ..) _
  | .assign _ (.map ..) _ | .assign _ (.set ..) _ | .assign _ (.unary ..) _
  | .assign _ (.binary ..) _ | .assign _ (.logical ..) _ | .assign _ (.call ..) _
  | .assign _ (.func ..) _ => runs_fail inLoop .invalidTarget _
  | .funcDef span name params body =>
    runs_storeTo inLoop (pushes_function name params span (compileStmts_runs false body))
      (fun _ _ _ hs h => declare_spec hs h) span
  | .return span none => runs_return inLoop span
  | .return span (some value) => runs_returnValue inLoop (compileExpr_pushes value) span
  | .if span cond thenBody none =>
    runs_if (compileExpr_pushes cond) (compileStmts_runs inLoop thenBody).runs span
  | .if span cond thenBody (some elseBody) =>
    runs_ifElse (compileExpr_pushes cond) (compileStmts_runs inLoop thenBody).runs
      (compileStmts_runs inLoop elseBody).runs span
  | .while span cond body =>
    runs_while (compileExpr_pushes cond) (compileStmts_runs true body).runs span
  | .break span => runs_hole .break _ span
  | .continue span => runs_hole .continue _ span
  | .print _ value => runs_unary inLoop (compileExpr_pushes value) (.inl rfl)
  | .delete _ object key => runs_delete inLoop (compileExpr_pushes object) (compileExpr_pushes key)
  | .expr _ value => runs_unary inLoop (compileExpr_pushes value) (.inr rfl)

theorem compileStmts_runs (inLoop : Bool) :
    ∀ body : List Stmt, RunsMany inLoop (compileStmts builtins inLoop body)
  | [] => runsMany_nil inLoop
  | st :: rest => runsMany_cons (compileStmt_runs inLoop st) (compileStmts_runs inLoop rest)

end

end

end Ember
