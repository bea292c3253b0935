import Ember.Proofs.Compile.Drafts

/-! What the parts of the compiler do. Each takes a state that is ready to one that is ready and has
only grown, and gives code that flows in the draft of the state that it leaves. -/
namespace Ember
set_option autoImplicit false

/-! ## Running parts of the compiler -/

namespace CompileM

variable {α β : Type} {s s' : CompileState}

theorem bind_eq_ok {x : CompileM α} {k : α → CompileM β} {r : β × CompileState} :
    (x >>= k) s = .ok r ↔ ∃ a s₁, x s = .ok (a, s₁) ∧ k a s₁ = .ok r := by
  change (x s >>= fun p => k p.1 p.2) = .ok r ↔ _
  cases hx : x s with
  | error e =>
    constructor
    · intro h
      cases h
    · rintro ⟨a, s₁, ha, -⟩
      cases ha
  | ok p =>
    constructor
    · intro h
      exact ⟨p.1, p.2, rfl, h⟩
    · rintro ⟨a, s₁, ha, hk⟩
      cases ha
      exact hk

theorem pure_eq_ok {a b : α} : (pure a : CompileM α) s = .ok (b, s') ↔ a = b ∧ s = s' := by
  change Except.ok (a, s) = Except.ok (b, s') ↔ _
  constructor
  · intro h
    cases h
    exact ⟨rfl, rfl⟩
  · rintro ⟨rfl, rfl⟩
    rfl

theorem fail_ne_ok {fault : CompileFault} {span : Span} {r : α × CompileState} :
    (fail fault span : CompileM α) s ≠ .ok r := by
  intro h
  cases h

theorem get_eq_ok {a : CompileState} : (get : CompileM CompileState) s = .ok (a, s') ↔
    s = a ∧ s = s' := pure_eq_ok

theorem compileBody_eq_ok {outer : Pools} {body : CompileM Fragment} {r : Fragment × CompileState} :
    compileBody outer body s = .ok r ↔ body s = .ok r := by
  unfold compileBody
  cases body s with
  | ok result => exact Iff.rfl
  | error e =>
    constructor
    · intro h
      cases h
    · intro h
      cases h

theorem checkCount_eq_ok {count limit : Nat} {what : String} {span : Span} {u : Unit}
    (h : checkCount count what limit span s = .ok (u, s')) : count ≤ limit ∧ s' = s := by
  unfold checkCount at h
  split at h
  · rename_i hle
    exact ⟨hle, (pure_eq_ok.1 h).2.symm⟩
  · exact absurd h fail_ne_ok

/-! ## Instructions -/

theorem operandsFit_of_misfit? {values widths : List Nat} (h : misfit? values widths = none)
    (hlen : values.length = widths.length) : OperandsFit widths values := by
  induction values generalizing widths with
  | nil =>
    cases widths with
    | nil => trivial
    | cons width widths => cases hlen
  | cons value values ih =>
    cases widths with
    | nil => cases hlen
    | cons width widths =>
      rw [misfit?] at h
      split at h
      · rename_i hlt
        exact ⟨hlt, ih h (Nat.succ.inj hlen)⟩
      · cases h

/-- An instruction is given only if its operands fit, and changes nothing. -/
theorem emit_eq_ok {op : Opcode} {operands : List Nat} {span : Span} {item : Item}
    (h : emit op operands span s = .ok (item, s')) :
    item = .op ⟨op, operands⟩ ∧ s' = s ∧ misfit? operands op.widths = none := by
  unfold emit at h
  cases hfit : misfit? operands op.widths with
  | some p =>
    rw [hfit] at h
    exact absurd h fail_ne_ok
  | none =>
    rw [hfit] at h
    obtain ⟨hitem, hs⟩ := pure_eq_ok.1 h
    exact ⟨hitem.symm, hs.symm, rfl⟩

theorem emitJump_eq_ok {op : Opcode} {distance : Nat} {span : Span} {item : Item}
    (h : emitJump op distance span s = .ok (item, s')) :
    item = jumpOver op distance ∧ s' = s ∧ distance ≤ maxJump := by
  unfold emitJump at h
  split at h
  · rename_i hle
    obtain ⟨hitem, hs⟩ := pure_eq_ok.1 h
    exact ⟨hitem.symm, hs.symm, hle⟩
  · exact absurd h fail_ne_ok

/-! ## Constants and names -/

theorem known_addConstant (p : Pools) (v : Value) : (p.addConstant v).known =
    match ConstantKey.ofValue? v with
    | some key => p.known.insert key p.constants.size
    | none => p.known := rfl

theorem addConstant_eq (v : Value) (span : Span) (s : CompileState) :
    addConstant v span s = match (ConstantKey.ofValue? v).bind fun key => s.pools.known[key]? with
      | some i => .ok (i, s)
      | none =>
        if s.pools.constants.size < poolLimit then
          .ok (s.pools.constants.size, { s with pools := s.pools.addConstant v })
        else .error (⟨.tooMany "constants" poolLimit, span⟩, s) := by
  unfold addConstant
  change (match (ConstantKey.ofValue? v).bind fun key => s.pools.known[key]? with
    | some i => (pure i : CompileM Nat)
    | none => _) s = _
  cases (ConstantKey.ofValue? v).bind fun key => s.pools.known[key]? with
  | some i => rfl
  | none =>
    change (if s.pools.constants.size < poolLimit then _ else _ : CompileM Nat) s = _
    split
    · rfl
    · rfl

theorem addName_eq (n : String) (span : Span) (s : CompileState) :
    addName n span s = match s.pools.names.position? n with
      | some i => .ok (i, s)
      | none =>
        if s.pools.names.size < poolLimit then
          .ok (s.pools.names.size, { s with pools := s.pools.addName n })
        else .error (⟨.tooMany "names" poolLimit, span⟩, s) := by
  unfold addName
  change (match s.pools.names.position? n with
    | some i => (pure i : CompileM Nat)
    | none => _) s = _
  cases s.pools.names.position? n with
  | some i => rfl
  | none =>
    change (if s.pools.names.size < poolLimit then _ else _ : CompileM Nat) s = _
    split
    · rfl
    · rfl

theorem addConstant_first (g : Routine Value) (span : Span) (hs : s.pools.constants = #[]) :
    addConstant (.function g) span s =
      .ok (0, { s with pools := s.pools.addConstant (.function g) }) := by
  rw [addConstant_eq, hs]
  rfl

theorem addName_first (name : String) (span : Span) (hs : s.pools.names = .empty) :
    addName name span s = .ok (0, { s with pools := s.pools.addName name }) := by
  have hnone : s.pools.names.position? name = none := by
    rw [hs]
    exact OrderedMap.position?_empty name
  rw [addName_eq, hnone, hs]
  rfl

theorem keys_addName_first {p : Pools} (hp : p.names = .empty) (name : String) :
    (p.addName name).names.keys = #[name] := by
  have hnone : p.names.position? name = none := by
    rw [hp]
    exact OrderedMap.position?_empty name
  refine (OrderedMap.keys_insert_of_none hnone ()).trans ?_
  rw [hp, show (OrderedMap.empty : OrderedMap String Unit).keys = #[] from OrderedMap.keys_empty]
  rfl

/-- A constant is added, or stands for a number or text that is known by the same key. -/
theorem addConstant_spec {v : Value} {span : Span} {i : Nat} (hs : Ready s)
    (hv : v.isConstant = true) (hg : ∀ g, v = .function g → Compiled g ∧ s.draft.Feeds g)
    (h : addConstant v span s = .ok (i, s')) :
    Ready s' ∧ Grows s s' ∧ s'.scopes = s.scopes ∧ ∃ w, s'.pools.constants[i]? = some w ∧
      (w = v ∨ ∃ key, ConstantKey.ofValue? v = some key ∧ ConstantKey.ofValue? w = some key) := by
  unfold addConstant at h
  obtain ⟨a, s₁, hget, h⟩ := bind_eq_ok.1 h
  obtain ⟨rfl, rfl⟩ := get_eq_ok.1 hget
  cases hfound : (ConstantKey.ofValue? v).bind fun key => s.pools.known[key]? with
  | some j =>
    rw [hfound] at h
    obtain ⟨rfl, rfl⟩ := pure_eq_ok.1 h
    obtain ⟨key, hkey, hj⟩ := Option.bind_eq_some_iff.1 hfound
    obtain ⟨w, hw, hwkey⟩ := hs.known key j hj
    exact ⟨hs, .refl s, rfl, w, hw, .inr ⟨key, hkey, hwkey⟩⟩
  | none =>
    rw [hfound] at h
    obtain ⟨a, s₁, hget, h⟩ := bind_eq_ok.1 h
    obtain ⟨rfl, rfl⟩ := get_eq_ok.1 hget
    split at h
    · obtain ⟨u, s₁, hmodify, h⟩ := bind_eq_ok.1 h
      cases hmodify
      obtain ⟨rfl, rfl⟩ := pure_eq_ok.1 h
      have hgrows : Grows s { s with pools := s.pools.addConstant v } :=
        ⟨Scope.forall₂_extends_refl _, fun j w hw => getElem?_push_of_some hw v, fun _ _ h => h⟩
      have hlast : (s.pools.constants.push v)[s.pools.constants.size]? = some v :=
        Array.getElem?_push_size
      refine ⟨⟨hs.nested, fun w hw => ?_, fun g hg' => ?_, fun g hg' => ?_, fun key j hj => ?_⟩,
        hgrows, rfl, v, hlast, .inl rfl⟩
      · rcases Array.mem_push.1 hw with hw | rfl
        · exact hs.constant w hw
        · exact hv
      · rcases Array.mem_push.1 hg' with hg' | hg'
        · exact (hs.feeds g hg').mono hgrows.draft
        · exact (hg g hg'.symm).2.mono hgrows.draft
      · rcases Array.mem_push.1 hg' with hg' | hg'
        · exact hs.compiled g hg'
        · exact (hg g hg'.symm).1
      · -- a key is known of the old constants, or is that of the new one
        have hold : s.pools.known[key]? = some j → ∃ w,
            (s.pools.constants.push v)[j]? = some w ∧ ConstantKey.ofValue? w = some key := by
          intro hj
          obtain ⟨w, hw, hwkey⟩ := hs.known key j hj
          exact ⟨w, getElem?_push_of_some hw v, hwkey⟩
        rw [known_addConstant] at hj
        cases hkey : ConstantKey.ofValue? v with
        | none =>
          rw [hkey] at hj
          exact hold hj
        | some key' =>
          rw [hkey] at hj
          dsimp only at hj
          rw [Std.HashMap.getElem?_insert] at hj
          split at hj
          · rename_i heq
            cases hj
            exact ⟨v, hlast, by rw [hkey, eq_of_beq heq]⟩
          · exact hold hj
    · exact absurd h fail_ne_ok

/-- A name is added unless it is known. -/
theorem addName_spec {name : String} {span : Span} {i : Nat} (hs : Ready s)
    (h : addName name span s = .ok (i, s')) :
    Ready s' ∧ Grows s s' ∧ s'.scopes = s.scopes ∧ s'.pools.names.keys[i]? = some name := by
  unfold addName at h
  obtain ⟨a, s₁, hget, h⟩ := bind_eq_ok.1 h
  obtain ⟨rfl, rfl⟩ := get_eq_ok.1 hget
  cases hfound : s.pools.names.position? name with
  | some j =>
    rw [hfound] at h
    obtain ⟨rfl, rfl⟩ := pure_eq_ok.1 h
    exact ⟨hs, .refl s, rfl, OrderedMap.position?_eq_some_iff.1 hfound⟩
  | none =>
    rw [hfound] at h
    obtain ⟨a, s₁, hget, h⟩ := bind_eq_ok.1 h
    obtain ⟨rfl, rfl⟩ := get_eq_ok.1 hget
    split at h
    · obtain ⟨u, s₁, hmodify, h⟩ := bind_eq_ok.1 h
      cases hmodify
      obtain ⟨rfl, rfl⟩ := pure_eq_ok.1 h
      have hkeys := OrderedMap.keys_insert_of_none hfound ()
      have hgrows : Grows s { s with pools := s.pools.addName name } := by
        refine ⟨Scope.forall₂_extends_refl _, fun _ _ h => h, fun j n hn => ?_⟩
        change (s.pools.names.insert name ()).keys[j]? = some n
        rw [hkeys]
        exact getElem?_push_of_some hn name
      refine ⟨⟨hs.nested, hs.constant, fun g hg => (hs.feeds g hg).mono hgrows.draft, hs.compiled,
        hs.known⟩, hgrows, rfl, ?_⟩
      change (s.pools.names.insert name ()).keys[s.pools.names.size]? = some name
      rw [hkeys, ← OrderedMap.size_keys, Array.getElem?_push_size]
    · exact absurd h fail_ne_ok

/-! ## Symbols -/

/-- What a symbol says of a name in the scope that is being compiled. -/
def SymbolAt (s : CompileState) (name : String) (symbol : Symbol) : Prop :=
  ∃ scope outer, s.scopes = scope :: outer ∧ scope.Means name symbol

theorem SymbolAt.mono {name : String} {symbol : Symbol} (h : SymbolAt s name symbol)
    (hgrows : Grows s s') : SymbolAt s' name symbol := by
  obtain ⟨scope, outer, hs, hmeans⟩ := h
  have hall := hgrows.scopes
  rw [hs] at hall
  obtain ⟨scope', outer', hext, -, hs'⟩ := List.forall₂_cons_left_iff.1 hall
  exact ⟨scope', outer', hs', hmeans.mono hext⟩

/-- Where only the scopes have grown, functions are fed as before. -/
theorem ready_of_scopes {scopes : List Scope} (hs : Ready s) (hnested : Scope.Nested scopes)
    (hall : List.Forall₂ Scope.Extends s.scopes scopes) : Ready { s with scopes } :=
  ⟨hnested, hs.constant, fun g hg => (hs.feeds g hg).mono (Grows.of_scopes hall).draft,
    hs.compiled, hs.known⟩

theorem resolve_spec {name : String} {symbol : Symbol} (hs : Ready s)
    (h : resolve name s = .ok (symbol, s')) :
    Ready s' ∧ Grows s s' ∧ SymbolAt s' name symbol := by
  obtain ⟨hnested, hall, hmeans⟩ := Scope.resolve_spec name hs.nested
  cases h
  exact ⟨ready_of_scopes hs hnested hall, .of_scopes hall, hmeans⟩

theorem declareHere_spec {name : String} {span : Span} {symbol : Symbol} (hs : Ready s)
    (h : declareHere name span s = .ok (symbol, s')) :
    Ready s' ∧ Grows s s' ∧ SymbolAt s' name symbol := by
  obtain ⟨pools, scopes, nextId⟩ := s
  cases scopes with
  | nil => cases h
  | cons scope outer =>
    unfold declareHere at h
    dsimp only at h
    split at h
    · rename_i symbol' scope' hdeclare
      cases h
      obtain ⟨hext, hmeans, -⟩ := Scope.declare_spec hdeclare
      have hall : List.Forall₂ Scope.Extends (scope :: outer) (scope' :: outer) :=
        .cons hext (Scope.forall₂_extends_refl outer)
      exact ⟨ready_of_scopes hs (hs.nested.declare hdeclare) hall, .of_scopes hall,
        scope', outer, rfl, hmeans⟩
    · cases h

theorem inFunction_eq_ok {b : Bool} (h : inFunction s = .ok (b, s')) :
    s' = s ∧ b = (s.scopes.head?.map Scope.isFunction).getD false := by
  cases h
  exact ⟨rfl, rfl⟩

end CompileM

open CompileM

variable {s s' : CompileState} {builtins : Std.HashSet String}

theorem declare_spec {name : String} {span : Span} {symbol : Symbol} (hs : Ready s)
    (h : declare builtins name span s = .ok (symbol, s')) :
    Ready s' ∧ Grows s s' ∧ SymbolAt s' name symbol := by
  unfold declare at h
  obtain ⟨b, s₁, hb, hrest⟩ := bind_eq_ok.1 h
  obtain ⟨rfl, -⟩ := inFunction_eq_ok hb
  split at hrest
  · exact absurd hrest fail_ne_ok
  · exact declareHere_spec hs hrest

theorem assignmentTarget_spec {name : String} {span : Span} {symbol : Symbol} (hs : Ready s)
    (h : assignmentTarget builtins name span s = .ok (symbol, s')) :
    Ready s' ∧ Grows s s' ∧ SymbolAt s' name symbol := by
  unfold assignmentTarget at h
  obtain ⟨b, s₁, hb, hrest⟩ := bind_eq_ok.1 h
  obtain ⟨rfl, -⟩ := inFunction_eq_ok hb
  split at hrest
  · exact declare_spec hs hrest
  · obtain ⟨symbol', s₂, hresolve, hfound⟩ := bind_eq_ok.1 hrest
    have hspec := resolve_spec hs hresolve
    split at hfound
    · obtain ⟨declared, s₃, hdeclared, hlast⟩ := bind_eq_ok.1 hfound
      cases hdeclared
      split at hlast
      · obtain ⟨rfl, rfl⟩ := pure_eq_ok.1 hlast
        exact hspec
      · split at hlast
        · exact absurd hlast fail_ne_ok
        · exact absurd hlast fail_ne_ok
    · obtain ⟨rfl, rfl⟩ := pure_eq_ok.1 hfound
      exact hspec

/-! ## Code -/

/-- No loop is left open. -/
def Closed (items : List Item) : Prop := ∀ item ∈ items, ∃ ins, item = .op ins

/-- No item ends the run. -/
def Lasting (items : List Item) : Prop := ∀ ins : Instruction, .op ins ∈ items → ins.op ≠ .halt

theorem lasting_nil : Lasting [] := fun _ h => absurd h List.not_mem_nil

theorem lasting_append {a b : List Item} (ha : Lasting a) (hb : Lasting b) : Lasting (a ++ b) :=
  fun ins h => (List.mem_append.1 h).elim (ha ins) (hb ins)

theorem lasting_cons {ins : Instruction} {items : List Item} (hins : ins.op ≠ .halt)
    (h : Lasting items) : Lasting (.op ins :: items) := by
  intro ins' hmem
  rcases List.mem_cons.1 hmem with heq | hmem
  · cases heq
    exact hins
  · exact h ins' hmem

/-- A part of the compiler has gone from one state to another and has given code that flows; only
in a loop may the code have holes, and only a whole chunk ends the run. -/
structure Yields (s s' : CompileState) (inLoop : Bool) (items : List Item) (entry exit : Shape) :
    Prop where
  grows : Grows s s'
  ready : Ready s'
  flowing : Flowing s'.draft items entry exit
  closed : inLoop = false → Closed items
  lasting : Lasting items

namespace Yields

variable {s₁ s₂ : CompileState} {inLoop : Bool} {a b : List Item} {entry mid exit : Shape}

theorem nil (hs : Ready s) (inLoop : Bool) (shape : Shape) : Yields s s inLoop [] shape shape :=
  ⟨.refl s, hs, .nil _ _, fun _ => by simp [Closed], lasting_nil⟩

theorem append (ha : Yields s s₁ inLoop a entry mid) (hb : Yields s₁ s₂ inLoop b mid exit) :
    Yields s s₂ inLoop (a ++ b) entry exit where
  grows := ha.grows.trans hb.grows
  ready := hb.ready
  flowing := (ha.flowing.mono hb.grows.draft).append hb.flowing
  closed h item hitem := by
    rcases List.mem_append.1 hitem with hitem | hitem
    · exact ha.closed h item hitem
    · exact hb.closed h item hitem
  lasting := lasting_append ha.lasting hb.lasting

/-- Growth before the code is written. -/
theorem after (hgrows : Grows s s₁) (ha : Yields s₁ s₂ inLoop a entry exit) :
    Yields s s₂ inLoop a entry exit :=
  ⟨hgrows.trans ha.grows, ha.ready, ha.flowing, ha.closed, ha.lasting⟩

theorem op {ins : Instruction} (hgrows : Grows s s') (hs : Ready s') (inLoop : Bool)
    (hw : ins.WellFormed) (hjump : ins.op.isJump = false) (hhalt : ins.op ≠ .halt)
    (h : Admits s'.draft ins entry exit) : Yields s s' inLoop [.op ins] entry exit :=
  ⟨hgrows, hs, .op hw hjump h, fun _ _ hitem => ⟨ins, List.mem_singleton.1 hitem⟩,
    lasting_cons hhalt lasting_nil⟩

/-- Code without holes may also stand in a loop. -/
theorem inside (ha : Yields s s' false a entry exit) (inLoop : Bool) :
    Yields s s' inLoop a entry exit :=
  ⟨ha.grows, ha.ready, ha.flowing, fun _ => ha.closed rfl, ha.lasting⟩

end Yields

theorem wellFormed_of_fits {op : Opcode} {operands : List Nat}
    (hfit : misfit? operands op.widths = none) (hlen : operands.length = op.widths.length)
    (hop : Instruction.hasOperator ⟨op, operands⟩ = true) :
    Instruction.WellFormed ⟨op, operands⟩ :=
  ⟨operandsFit_of_misfit? hfit hlen, hop⟩

/-- One value is pushed by an instruction that may stand anywhere. -/
theorem yields_ordinary {ins : Instruction} {n : Nat} (hs : Ready s) (inLoop : Bool)
    (hw : ins.WellFormed) (hop : ins.op.isOrdinary = true) (hjump : ins.op.isJump = false)
    (hpops : ins.pops ≤ n) :
    Yields s s inLoop [.op ins] (.values n) (.values (ins.heightAfter n)) := by
  refine .op (.refl s) hs inLoop hw hjump (fun hhalt => ?_) (admits_ordinary _ ins hop hpops)
  rw [hhalt] at hop
  cases hop

/-- The kind of the draft is that of the scope that is being compiled. -/
theorem draft_kind {scope : Scope} {outer : List Scope} (h : s.scopes = scope :: outer) :
    s.draft.scope.kind = scope.kind := by
  change (s.scopes.headD default).kind = scope.kind
  rw [h, List.headD_cons]

/-! ## Access to variables -/

/-- Only a function has variables. -/
theorem kind_of_variable (hs : Ready s)
    (h : 0 < s.draft.localCount ∨ 0 < s.draft.freeVariables.size) :
    s.draft.scope.kind = .function := by
  have hnested := hs.nested
  cases hscopes : s.scopes with
  | nil =>
    rw [hscopes] at hnested
    cases hnested
  | cons scope outer =>
    rw [hscopes] at hnested
    cases hnested with
    | top hkind hlocals hcaptured =>
      change 0 < (s.scopes.headD default).locals.size ∨
        0 < (s.scopes.headD default).freeVariables.size at h
      rw [hscopes, List.headD_cons, Scope.freeVariables, hlocals, hcaptured] at h
      simp at h
    | function hkind => rw [draft_kind hscopes, hkind]

def Capture.index : Capture → Nat
  | .slot i | .free i => i

/-- How many variables the function has of the sort that the capture names. -/
def Routine.variableCount (f : Routine Value) : Capture → Nat
  | .slot _ => f.localCount
  | .free _ => f.freeVariables.size

/-- A variable of the draft is in range, and the draft is that of a function. -/
theorem Routine.Holds.bound {name : String} {c : Capture} (hs : Ready s)
    (h : s.draft.Holds name c) :
    c.index < s.draft.variableCount c ∧ s.draft.scope.kind = .function := by
  cases c with
  | slot i =>
    have hlt : i < s.draft.localCount := by
      have := (Array.getElem?_eq_some_iff.1 h).1
      rwa [show s.draft.scope.slots = (s.scopes.headD default).locals.keys from rfl,
        OrderedMap.size_keys] at this
    exact ⟨hlt, kind_of_variable hs (.inl (Nat.zero_lt_of_lt hlt))⟩
  | free i => exact ⟨h.1, kind_of_variable hs (.inr (Nat.zero_lt_of_lt h.1))⟩

/-- Access to a variable: the symbol selects one of four opcodes. -/
def accessSymbol (slot free global top : Opcode) (symbol : Symbol) (span : Span) :
    CompileM Item := do
  match symbol with
  | .slot i => emit slot [i] span
  | .free i => emit free [i] span
  | .global name => emit global [← addName name span] span
  | .name name => emit top [← addName name span] span

theorem loadSymbol_eq (symbol : Symbol) (span : Span) :
    loadSymbol symbol span = accessSymbol .loadFast .loadFree .loadGlobal .loadName symbol
      span := by
  cases symbol <;> rfl

theorem storeSymbol_eq (symbol : Symbol) (span : Span) :
    storeSymbol symbol span =
      accessSymbol .storeFast .storeFree .storeGlobal .storeName symbol span := by
  cases symbol <;> rfl

theorem accessSymbol_spec {name : String} {symbol : Symbol} {span : Span} {item : Item}
    {slot free global top : Opcode} (hs : Ready s) (hsymbol : SymbolAt s name symbol)
    (h : accessSymbol slot free global top symbol span s = .ok (item, s')) :
    Ready s' ∧ Grows s s' ∧ ∃ op i, item = .op ⟨op, [i]⟩ ∧ misfit? [i] op.widths = none ∧
      ((op = slot ∧ i < s'.draft.localCount ∧ s'.draft.scope.kind = .function) ∨
       (op = free ∧ i < s'.draft.freeVariables.size ∧ s'.draft.scope.kind = .function) ∨
       (op = global ∧ i < s'.draft.names.size ∧ s'.draft.scope.kind = .function) ∨
       (op = top ∧ i < s'.draft.names.size ∧ s'.draft.scope.kind = .topLevel)) := by
  have hadded : ∀ {n : String} {op : Opcode},
      (do emit op [← addName n span] span : CompileM Item) s = .ok (item, s') →
      Ready s' ∧ Grows s s' ∧ s'.scopes = s.scopes ∧ ∃ i, item = .op ⟨op, [i]⟩ ∧
        misfit? [i] op.widths = none ∧ i < s'.draft.names.size := by
    intro n op h
    obtain ⟨i, s₁, hname, hemit⟩ := bind_eq_ok.1 h
    obtain ⟨hs₁, hgrows, hscopes, hi⟩ := addName_spec hs hname
    obtain ⟨rfl, rfl, hfit⟩ := emit_eq_ok hemit
    exact ⟨hs₁, hgrows, hscopes, i, rfl, hfit, (Array.getElem?_eq_some_iff.1 hi).1⟩
  cases symbol with
  | slot i =>
    obtain ⟨rfl, rfl, hfit⟩ := emit_eq_ok h
    obtain ⟨scope, outer, hscope, hholds⟩ := hsymbol
    have hbound := Routine.Holds.bound hs (Scope.Holds.draft (c := .slot i) hscope hholds)
    exact ⟨hs, .refl _, slot, i, rfl, hfit, .inl ⟨rfl, hbound⟩⟩
  | free i =>
    obtain ⟨rfl, rfl, hfit⟩ := emit_eq_ok h
    obtain ⟨scope, outer, hscope, hholds⟩ := hsymbol
    have hbound := Routine.Holds.bound hs (Scope.Holds.draft (c := .free i) hscope hholds)
    exact ⟨hs, .refl _, free, i, rfl, hfit, .inr (.inl ⟨rfl, hbound⟩)⟩
  | global n =>
    obtain ⟨hs', hgrows, hscopes, i, hitem, hfit, hlt⟩ := hadded h
    obtain ⟨scope, outer, hscope, -, hkind⟩ := hsymbol
    refine ⟨hs', hgrows, global, i, hitem, hfit, .inr (.inr (.inl ⟨rfl, hlt, ?_⟩))⟩
    rw [draft_kind (hscopes.trans hscope), hkind]
  | name n =>
    obtain ⟨hs', hgrows, hscopes, i, hitem, hfit, hlt⟩ := hadded h
    obtain ⟨scope, outer, hscope, -, hkind⟩ := hsymbol
    refine ⟨hs', hgrows, top, i, hitem, hfit, .inr (.inr (.inr ⟨rfl, hlt, ?_⟩))⟩
    rw [draft_kind (hscopes.trans hscope), hkind]

theorem loadSymbol_yields {name : String} {symbol : Symbol} {span : Span} {item : Item} (n : Nat)
    (hs : Ready s) (hsymbol : SymbolAt s name symbol)
    (h : loadSymbol symbol span s = .ok (item, s')) :
    Yields s s' false [item] (.values n) (.values (n + 1)) := by
  rw [loadSymbol_eq] at h
  obtain ⟨hs', hgrows, op, i, rfl, hfit, hcases⟩ := accessSymbol_spec hs hsymbol h
  rcases hcases with ⟨rfl, hlt, hkind⟩ | ⟨rfl, hlt, hkind⟩ | ⟨rfl, hlt, hkind⟩ | ⟨rfl, hlt, hkind⟩
  all_goals
    exact .op hgrows hs' false (wellFormed_of_fits hfit rfl rfl) rfl nofun
      ⟨if_pos hlt, by rw [hkind]; rfl, rfl, Nat.zero_le n, rfl⟩

theorem storeSymbol_yields {name : String} {symbol : Symbol} {span : Span} {item : Item} (n : Nat)
    (hs : Ready s) (hsymbol : SymbolAt s name symbol)
    (h : storeSymbol symbol span s = .ok (item, s')) :
    Yields s s' false [item] (.values (n + 1)) (.values n) := by
  rw [storeSymbol_eq] at h
  obtain ⟨hs', hgrows, op, i, rfl, hfit, hcases⟩ := accessSymbol_spec hs hsymbol h
  rcases hcases with ⟨rfl, hlt, hkind⟩ | ⟨rfl, hlt, hkind⟩ | ⟨rfl, hlt, hkind⟩ | ⟨rfl, hlt, hkind⟩
  all_goals
    exact .op hgrows hs' false (wellFormed_of_fits hfit rfl rfl) rfl nofun
      ⟨if_pos hlt, by rw [hkind]; rfl, rfl, Nat.le_add_left 1 n, rfl⟩

end Ember
