import Ember.Proofs.Compile.Pieces

/-! Compiling functions. The body of a function is compiled in a state of its own, whose draft is
the function; what it captures is gathered cell by cell in the code around it, as its list of free
variables says. -/
namespace Ember
set_option autoImplicit false

open CompileM

variable {s s' : CompileState} {builtins : Std.HashSet String}

/-! ## Code as bytes -/

theorem Fragment.toList_encode (a : Fragment) (code : Array UInt8) :
    (a.encode code).toList = code.toList ++ a.toList.flatMap Item.encode := by
  have key : ∀ (items : List Item) (code : Array UInt8),
      (items.foldl (fun code item => item.encode.foldl Array.push code) code).toList =
        code.toList ++ items.flatMap Item.encode := by
    intro items
    induction items with
    | nil => simp
    | cons item items ih =>
      intro code
      rw [List.foldl_cons, ih, List.flatMap_cons, ← List.append_assoc]
      simp
  rw [Fragment.encode, ← Array.foldl_toList]
  exact key a.toList code

theorem rowBytes_eq (row : List Instruction) :
    (row.map Item.op).flatMap Item.encode = rowBytes row := by
  rw [List.flatMap_map]
  rfl

theorem Closed.exists_row {items : List Item} (h : Closed items) :
    ∃ row : List Instruction, items = row.map Item.op := by
  induction items with
  | nil => exact ⟨[], rfl⟩
  | cons item items ih =>
    obtain ⟨ins, rfl⟩ := h item List.mem_cons_self
    obtain ⟨row, rfl⟩ := ih fun i hi => h i (List.mem_cons_of_mem _ hi)
    exact ⟨ins :: row, rfl⟩

/-- Code that flows is ended by an instruction that leads nowhere. -/
theorem Flowing.finish {f : Routine Value} {items : List Item} {entry mid exit : Shape}
    {ins : Instruction} (h : Flowing f items entry mid) (hw : ins.WellFormed)
    (hfalls : ins.fallsThrough = false) (hjump : ins.op.isJump = false)
    (hadm : Admits f ins mid exit) :
    ∃ p : Plan, p.items = items ++ [.op ins] ∧ p.Flows f none ∧ p.shapeAt none 0 = some entry ∧
      p.shapeAt none (itemsSize items) = some mid := by
  obtain ⟨p, rfl, hp, hentry⟩ := h
  have hlast : Plan.Flows f [(.op ins, mid)] none := by
    refine ⟨⟨hw, exit, hadm, fun hf => ?_, fun hj => ?_⟩, trivial⟩
    · rw [hfalls] at hf
      cases hf
    · rw [hjump] at hj
      cases hj
  refine ⟨p ++ [(.op ins, mid)], Plan.items_append _ _, hp.append hlast rfl, ?_, ?_⟩
  · exact Plan.shapeAt_append_of_eq hentry fun m hm => by cases hm; rfl
  · rw [Plan.itemsSize_items]
    exact Plan.shapeAt_append_add p _ none 0

/-- Code without holes that ends in such an instruction is a planned stretch of code. -/
theorem Flowing.planned {f : Routine Value} {code : Fragment} {before : Array UInt8}
    {mid exit : Shape} {ins : Instruction} (h : Flowing f code.toList (.values 0) mid)
    (hclosed : Closed code.toList) (hw : ins.WellFormed) (hfalls : ins.fallsThrough = false)
    (hjump : ins.op.isJump = false) (hadm : Admits f ins mid exit)
    (hcode : f.code = Fragment.encode (code.push (.op ins)) before) :
    ∃ row p, Planned f before.size (row ++ [ins]) p ∧
      f.code.size = before.size + rowSize (row ++ [ins]) ∧
      (row ++ [ins]).map Item.op = code.toList ++ [.op ins] ∧
      p.shapeAt none (rowSize row) = some mid := by
  obtain ⟨p, hitems, hflows, hentry, hexit⟩ := h.finish hw hfalls hjump hadm
  obtain ⟨row, hrow⟩ := hclosed.exists_row
  have hmap : (row ++ [ins]).map Item.op = code.toList ++ [.op ins] := by
    rw [hrow, List.map_append]
    rfl
  have hbytes : f.code = before ++ (rowBytes (row ++ [ins])).toArray := by
    rw [hcode]
    apply Array.toList_inj.1
    rw [Fragment.toList_encode, Array.toList_append, Array.toList_push, ← hmap, rowBytes_eq]
  refine ⟨row, p, ⟨?_, hitems.trans hmap.symm, hflows, hentry⟩, ?_, hmap, ?_⟩
  · rw [hbytes]
    exact HasBytes.append_self before _
  · rw [hbytes]
    simp
  · rwa [hrow, itemsSize, List.map_map] at hexit

/-! ## Cells -/

theorem bind_pure_eq_ok {α β : Type} {x : CompileM α} {k : α → β} {b : β} :
    (x >>= fun a => pure (k a)) s = .ok (b, s') ↔ ∃ a, x s = .ok (a, s') ∧ k a = b := by
  rw [bind_eq_ok]
  constructor
  · rintro ⟨a, s₁, hx, hk⟩
    obtain ⟨rfl, rfl⟩ := pure_eq_ok.1 hk
    exact ⟨a, hx, rfl⟩
  · rintro ⟨a, hx, rfl⟩
    exact ⟨a, s', hx, rfl⟩

theorem mapM_eq_ok {α β : Type} {k : α → CompileM β} {a : Array α} {b : Array β} :
    a.mapM k s = .ok (b, s') ↔ a.toList.mapM k s = .ok (b.toList, s') := by
  rw [Array.mapM_eq_mapM_toList, map_eq_pure_bind, bind_pure_eq_ok]
  constructor
  · rintro ⟨l, hl, rfl⟩
    exact hl
  · intro h
    exact ⟨b.toList, h, rfl⟩

/-- Gathering the cells of variables that the draft has, in order. -/
theorem makeCells_yields {captured : List FreeVariable} {span : Span} {items : List Item} (n : Nat)
    (gathered : List Capture) (hs : Ready s)
    (hholds : ∀ v ∈ captured, s.draft.Holds v.name v.capture)
    (h : captured.mapM (fun v => makeCell v span) s = .ok (items, s')) :
    s' = s ∧ Yields s s false items ⟨n, gathered⟩
      ⟨n, gathered ++ captured.map FreeVariable.capture⟩ := by
  induction captured generalizing items gathered with
  | nil =>
    obtain ⟨rfl, rfl⟩ := pure_eq_ok.1 h
    refine ⟨rfl, ?_⟩
    rw [List.map_nil, List.append_nil]
    exact .nil hs _ _
  | cons v captured ih =>
    rw [List.mapM_cons] at h
    obtain ⟨item, s₁, hitem, hrest⟩ := bind_eq_ok.1 h
    obtain ⟨more, hmore, rfl⟩ := bind_pure_eq_ok.1 hrest
    obtain ⟨hlt, hkind⟩ := Routine.Holds.bound hs (hholds v List.mem_cons_self)
    have hfirst : s₁ = s ∧ Yields s s false [item] ⟨n, gathered⟩
        ⟨n, gathered ++ [v.capture]⟩ := by
      unfold makeCell at hitem
      cases hc : v.capture with
      | slot i =>
        rw [hc] at hitem hlt
        obtain ⟨rfl, rfl, hfit⟩ := emit_eq_ok hitem
        exact ⟨rfl, .op (.refl _) hs false (wellFormed_of_fits hfit rfl rfl) rfl nofun
          ⟨if_pos hlt, by rw [hkind]; rfl, rfl⟩⟩
      | free i =>
        rw [hc] at hitem hlt
        obtain ⟨rfl, rfl, hfit⟩ := emit_eq_ok hitem
        exact ⟨rfl, .op (.refl _) hs false (wellFormed_of_fits hfit rfl rfl) rfl nofun
          ⟨if_pos hlt, by rw [hkind]; rfl, rfl⟩⟩
    obtain ⟨rfl, hfirst⟩ := hfirst
    obtain ⟨hs', hyields⟩ := ih (gathered ++ [v.capture])
      (fun w hw => hholds w (List.mem_cons_of_mem _ hw)) hmore
    refine ⟨hs', ?_⟩
    have := hfirst.append hyields
    rwa [List.append_assoc] at this

/-! ## Constants on the stack -/

/-- Loading a constant that is not a function with captured variables. -/
theorem yields_loadConst {i n : Nat} {span : Span} {item : Item} {v : Value} (hs : Ready s)
    (hv : s.pools.constants[i]? = some v) (hf : ∀ g, v = .function g → g.freeVariables.size = 0)
    (h : emit .loadConst [i] span s = .ok (item, s')) :
    s' = s ∧ Yields s s false [item] (.values n) (.values (n + 1)) := by
  obtain ⟨rfl, rfl, hfit⟩ := emit_eq_ok h
  have hlt : i < s'.draft.constants.size := (Array.getElem?_eq_some_iff.1 hv).1
  refine ⟨rfl, .op (.refl _) hs false (wellFormed_of_fits hfit rfl rfl) rfl nofun
    ⟨if_pos hlt, ?_, ?_⟩⟩
  · cases s'.draft.scope.kind <;> rfl
  · refine ⟨fun g hg => ?_, rfl, rfl⟩
    have : some v = some (Value.function g) := hv.symm.trans hg
    cases this
    exact hf g rfl

theorem loadConstant_yields {v : Value} {span : Span} {code : Fragment} (n : Nat) (hs : Ready s)
    (hv : v.isConstant = true) (hf : ∀ g, v ≠ .function g)
    (h : loadConstant v span s = .ok (code, s')) :
    Yields s s' false code.toList (.values n) (.values (n + 1)) := by
  unfold loadConstant at h
  obtain ⟨i, s₁, hadd, hemit⟩ := bind_eq_ok.1 h
  obtain ⟨item, hitem, rfl⟩ := bind_pure_eq_ok.1 hemit
  obtain ⟨hs₁, hgrows, -, w, hw, hkey⟩ := addConstant_spec hs hv (fun g hg => absurd hg (hf g)) hadd
  have hnot : ∀ g, w = .function g → g.freeVariables.size = 0 := by
    rintro g rfl
    rcases hkey with hkey | ⟨key, -, hkey⟩
    · exact absurd hkey.symm (hf g)
    · cases hkey
  obtain ⟨rfl, hyields⟩ := yields_loadConst (n := n) hs₁ hw hnot hitem
  exact hyields.after hgrows

theorem checkOperands_loadClosure {f g : Routine Value} {i : Nat}
    (h : f.constants[i]? = some (.function g)) :
    checkOperands f ⟨.loadClosure, [i, g.freeVariables.size]⟩ = .ok () := by
  dsimp only [checkOperands]
  rw [show Instruction.operand ⟨.loadClosure, [i, g.freeVariables.size]⟩ 0 = i from rfl, h]
  exact if_pos rfl

/-- A function becomes a value only if its captured variables can be counted. -/
theorem freeVariables_lt_of_loadFunction {g : Routine Value} {span : Span} {code : Fragment}
    (h : loadFunction g span s = .ok (code, s')) : g.freeVariables.size < Scope.slotLimit := by
  unfold loadFunction at h
  obtain ⟨i, s₁, -, hrest⟩ := bind_eq_ok.1 h
  split at hrest
  · rename_i hempty
    rw [Array.isEmpty_iff_size_eq_zero] at hempty
    rw [hempty]
    decide
  · obtain ⟨cells, s₂, -, hclosure⟩ := bind_eq_ok.1 hrest
    obtain ⟨item, hitem, -⟩ := bind_pure_eq_ok.1 hclosure
    obtain ⟨-, -, hfit⟩ := emit_eq_ok hitem
    exact (operandsFit_of_misfit? hfit rfl).2.1

theorem loadFunction_yields {g : Routine Value} {span : Span} {code : Fragment} (n : Nat)
    (hs : Ready s) (hg : Compiled g) (hfeeds : s.draft.Feeds g)
    (h : loadFunction g span s = .ok (code, s')) :
    Yields s s' false code.toList (.values n) (.values (n + 1)) := by
  unfold loadFunction at h
  obtain ⟨i, s₁, hadd, hrest⟩ := bind_eq_ok.1 h
  obtain ⟨hs₁, hgrows, -, w, hw, hkey⟩ := addConstant_spec hs rfl
    (fun g' hg' => by cases hg'; exact ⟨hg, hfeeds⟩) hadd
  have hwg : s₁.pools.constants[i]? = some (.function g) := by
    rcases hkey with rfl | ⟨key, hkey, -⟩
    · exact hw
    · cases hkey
  split at hrest
  · rename_i hempty
    obtain ⟨item, hitem, rfl⟩ := bind_pure_eq_ok.1 hrest
    obtain ⟨rfl, hyields⟩ := yields_loadConst (n := n) hs₁ hwg
      (fun g' hg' => by cases hg'; exact Array.isEmpty_iff_size_eq_zero.1 hempty) hitem
    exact hyields.after hgrows
  · obtain ⟨cells, s₂, hcells, hclosure⟩ := bind_eq_ok.1 hrest
    obtain ⟨item, hitem, rfl⟩ := bind_pure_eq_ok.1 hclosure
    have hholds : ∀ v ∈ g.freeVariables.toList, s₁.draft.Holds v.name v.capture :=
      fun v hv => (hfeeds v (Array.mem_toList_iff.1 hv)).mono hgrows.draft
    obtain ⟨rfl, hgathered⟩ := makeCells_yields n [] hs₁ hholds (mapM_eq_ok.1 hcells)
    obtain ⟨rfl, rfl, hfit⟩ := emit_eq_ok hitem
    rw [Array.toList_push]
    refine (hgathered.append (.op (.refl _) hs₁ false (wellFormed_of_fits hfit rfl rfl) rfl nofun
      ⟨?_, ?_, ?_⟩)).after hgrows
    · exact checkOperands_loadClosure hwg
    · cases s'.draft.scope.kind <;> rfl
    · exact ⟨g, hwg, rfl, rfl⟩

/-! ## Functions -/

/-- The scope of a function with its parameters has captured nothing yet. -/
theorem parameterScope_spec {name : String} {params : List String} {span : Span} {scope : Scope}
    (h : parameterScope name params span s = .ok (scope, s')) :
    s' = s ∧ scope.kind = .function ∧ scope.captured = .empty := by
  unfold parameterScope at h
  have hkind : (Scope.function name).kind = .function := rfl
  have hcaptured : (Scope.function name).captured = .empty := rfl
  generalize Scope.function name = start at h hkind hcaptured
  induction params generalizing start with
  | nil =>
    obtain ⟨rfl, rfl⟩ := pure_eq_ok.1 h
    exact ⟨rfl, hkind, hcaptured⟩
  | cons param params ih =>
    rw [List.foldlM_cons] at h
    obtain ⟨next, s₁, hfirst, hrest⟩ := bind_eq_ok.1 h
    rcases hdeclare : start.declare param with ⟨symbol?, next'⟩
    rw [hdeclare] at hfirst
    cases symbol? with
    | none => exact absurd hfirst fail_ne_ok
    | some symbol =>
      obtain ⟨rfl, rfl⟩ := pure_eq_ok.1 hfirst
      obtain ⟨hext, -, hsame, -⟩ := Scope.declare_spec hdeclare
      exact ih next' hrest (hext.kind.trans hkind) (hsame.trans hcaptured)

/-- The state in which the body of a function is compiled. -/
theorem ready_enter {scope : Scope} (hs : Ready s) (hkind : scope.kind = .function)
    (hcaptured : scope.captured = .empty) :
    Ready { s with pools := .empty, scopes := scope :: s.scopes } := by
  have hnone : ∀ v : Value, v ∉ (#[] : Array Value) := fun v => Array.not_mem_empty v
  refine ⟨?_, fun v hv => absurd hv (hnone v), fun g hg => absurd hg (hnone _),
    fun g hg => absurd hg (hnone _), fun key i hi => ?_⟩
  · have hnested := hs.nested
    change Scope.Nested (scope :: s.scopes)
    cases hscopes : s.scopes with
    | nil =>
      rw [hscopes] at hnested
      cases hnested
    | cons outer rest =>
      rw [hscopes] at hnested
      refine .function hkind (fun e he => ?_) hnested
      rw [hcaptured, OrderedMap.entries_empty] at he
      exact absurd he (Array.not_mem_empty e)
  · simp [Pools.empty] at hi

/-- The function that the draft of a state has become, with the code of its body. -/
def CompileState.routine (s : CompileState) (name : String) (params : List String)
    (body : Fragment) : Routine Value :=
  { s.draft with
    id := s.nextId
    name
    params := params.toArray
    code := Fragment.encode (body.push (.op ⟨.returnValue, [0]⟩)) #[] }

theorem extends_routine (s : CompileState) (name : String) (params : List String)
    (body : Fragment) : Routine.Extends s.draft (s.routine name params body) :=
  ⟨rfl, fun _ _ h => h, Nat.le_refl _, Nat.le_refl _, fun _ _ h => h, fun _ _ h => h⟩

/-- The code of a function is that of its body, with a return at its end. -/
theorem planned_routine (name : String) (params : List String) {body : Fragment}
    (hkind : s.draft.scope.kind = .function)
    (hflowing : Flowing s.draft body.toList (.values 0) (.values 0))
    (hclosed : Closed body.toList) :
    ∃ row p, Planned (s.routine name params body) 0 row p ∧
      (s.routine name params body).code.size = rowSize row ∧
      row.map Item.op = body.toList ++ [.op ⟨.returnValue, [0]⟩] := by
  have hext := extends_routine s name params body
  have hreturn : Admits (s.routine name params body) ⟨.returnValue, [0]⟩ (.values 0) (.values 0) :=
    ⟨rfl, by rw [hext.kind, hkind]; rfl, rfl, Nat.le_refl 0, rfl⟩
  have hw : Instruction.WellFormed ⟨.returnValue, [0]⟩ := ⟨⟨by decide, trivial⟩, rfl⟩
  obtain ⟨row, p, hplanned, hsize, hitems, -⟩ :=
    (hflowing.mono hext).planned hclosed hw rfl rfl hreturn rfl
  exact ⟨_, p, hplanned, hsize.trans (Nat.zero_add _), hitems⟩

/-- How a function is compiled: its body in a state of its own, whose draft becomes the function,
and then its value in the code around it. -/
theorem compileFunction_eq_ok {name : String} {params : List String} {span : Span}
    {body : CompileM Fragment} {code : Fragment} (hs : Ready s)
    (hbody : ∀ s₁ s₂ inner, Ready s₁ → body s₁ = .ok (inner, s₂) →
      Yields s₁ s₂ false inner.toList (.values 0) (.values 0))
    (h : compileFunction name params span body s = .ok (code, s')) :
    ∃ scope inner s₁ s₂,
      Ready { s with pools := .empty, scopes := scope :: s.scopes } ∧
      body { s with pools := .empty, scopes := scope :: s.scopes } = .ok (inner, s₁) ∧
      s₁.draft.scope.kind = .function ∧
      Ready s₂ ∧ Grows s s₂ ∧ s₂.pools = s.pools ∧ s₂.scopes = s₁.scopes.drop 1 ∧
      Compiled (s₁.routine name params inner) ∧ s₂.draft.Feeds (s₁.routine name params inner) ∧
      loadFunction (s₁.routine name params inner) span s₂ = .ok (code, s') := by
  unfold compileFunction at h
  obtain ⟨u, s₀, hcount, h₀⟩ := bind_eq_ok.1 h
  obtain ⟨-, rfl⟩ := checkCount_eq_ok hcount
  obtain ⟨scope, s₀, hparams, h₁⟩ := bind_eq_ok.1 h₀
  obtain ⟨rfl, hkind, hcaptured⟩ := parameterScope_spec hparams
  obtain ⟨outer, s₂, henter, h₂⟩ := bind_eq_ok.1 h₁
  cases henter
  obtain ⟨inner, s₁, hinner, h₃⟩ := bind_eq_ok.1 h₂
  obtain ⟨g, s₂, hleave, h₄⟩ := bind_eq_ok.1 h₃
  have hready := ready_enter hs hkind hcaptured
  have hrun := compileBody_eq_ok.1 hinner
  have hyields := hbody _ _ inner hready hrun
  have hs₁ := hyields.ready
  obtain ⟨scope', around, hext, haround, hscopes⟩ :=
    List.forall₂_cons_left_iff.1 hyields.grows.scopes
  obtain ⟨pools, scopes, nextId⟩ := s₁
  subst hscopes
  have hkind' : (CompileState.mk pools (scope' :: around) nextId).draft.scope.kind = .function :=
    hext.kind.trans hkind
  cases hleave
  obtain ⟨row, p, hplanned, hsize, -⟩ := planned_routine name params hkind' hyields.flowing
    (hyields.closed rfl)
  have hcompiled : Compiled
      ((CompileState.mk pools (scope' :: around) nextId).routine name params inner) :=
    .intro hkind' (OrderedMap.size_keys _) (freeVariables_lt_of_loadFunction h₄) hplanned hsize
      hs₁.constant (fun k hk => (hs₁.feeds k hk).mono (extends_routine _ _ _ _)) hs₁.compiled
  rcases hs₁.nested.head with ⟨htop, -⟩ | ⟨-, o, rest, rfl, hfeeds, hnested⟩
  · rw [hext.kind, hkind] at htop
    cases htop
  -- the code around goes on in a state whose scopes have grown
  have hs₂ : Ready ⟨s₀.pools, o :: rest, nextId + 1⟩ := by
    have := ready_of_scopes hs hnested haround
    exact ⟨this.nested, this.constant, this.feeds, this.compiled, this.known⟩
  have hgrows : Grows s₀ ⟨s₀.pools, o :: rest, nextId + 1⟩ :=
    ⟨haround, fun _ _ h => h, fun _ _ h => h⟩
  refine ⟨scope, inner, _, _, hready, hrun, hkind', hs₂, hgrows, rfl, rfl, hcompiled,
    fun v hv => ?_, h₄⟩
  obtain ⟨e, he, rfl⟩ := Array.mem_map.1 hv
  exact (hfeeds e he).draft rfl

/-- A function is compiled if its body is, and the code around it goes on with its value. -/
theorem compileFunction_yields {name : String} {params : List String} {span : Span}
    {body : CompileM Fragment} {code : Fragment} (n : Nat) (hs : Ready s)
    (hbody : ∀ s₁ s₂ inner, Ready s₁ → body s₁ = .ok (inner, s₂) →
      Yields s₁ s₂ false inner.toList (.values 0) (.values 0))
    (h : compileFunction name params span body s = .ok (code, s')) :
    Yields s s' false code.toList (.values n) (.values (n + 1)) := by
  obtain ⟨_, _, _, _, -, -, -, hs₂, hgrows, -, -, hcompiled, hfeeds, hload⟩ :=
    compileFunction_eq_ok hs hbody h
  exact (loadFunction_yields n hs₂ hcompiled hfeeds hload).after hgrows

/-! ## A captured parameter -/

/-- The scope of a function with one parameter. -/
def Scope.withParameter (name param : String) : Scope :=
  { Scope.function name with locals := OrderedMap.empty.insert param () }

/-- The scope of a function inside that has captured it. -/
def Scope.withCapture (name param : String) : Scope :=
  { Scope.function name with captured := OrderedMap.empty.insert param (.slot 0) }

section
variable (name inner param : String)

theorem Scope.size_withParameter : (withParameter name param).locals.size = 1 :=
  OrderedMap.size_insert_of_none (OrderedMap.position?_empty param) _

theorem Scope.position?_withParameter :
    (withParameter name param).locals.position? param = some 0 := by
  refine OrderedMap.position?_eq_some_iff.2 ?_
  unfold withParameter
  rw [OrderedMap.keys_insert_of_none (OrderedMap.position?_empty param), OrderedMap.keys_empty]
  rfl

theorem Scope.freeVariables_withCapture :
    (withCapture name param).freeVariables = #[⟨param, .slot 0⟩] := by
  unfold freeVariables withCapture
  rw [OrderedMap.entries_insert_of_none (OrderedMap.position?_empty param)]
  simp [OrderedMap.empty]

theorem Scope.declare_parameter :
    (Scope.function name).declare param = (some (.slot 0), withParameter name param) := by
  unfold declare
  have hnone : (Scope.function name).locals.position? param = none :=
    OrderedMap.position?_empty param
  rw [hnone]
  rfl

theorem Scope.resolve_parameter (outer : List Scope) :
    resolve param (withParameter name param :: outer) =
      (.slot 0, withParameter name param :: outer) := by
  have hkind : (withParameter name param).kind = .function := rfl
  rw [resolve, hkind, position?_withParameter]

theorem Scope.resolve_captured (outer : List Scope) :
    resolve param (Scope.function inner :: withParameter name param :: outer) =
      (.free 0, withCapture inner param :: withParameter name param :: outer) := by
  have hsize : (OrderedMap.empty.insert param (Capture.slot 0)).size = 1 :=
    OrderedMap.size_insert_of_none (OrderedMap.position?_empty param) _
  have hkind : (withParameter name param).kind = .function := rfl
  simp [resolve, position?_withParameter, Scope.function, OrderedMap.position?_empty, isFunction,
    hkind, capture, hsize, withCapture]

theorem resolve_eq_ok {symbol : Symbol} {scopes : List Scope}
    (h : Scope.resolve name s.scopes = (symbol, scopes)) :
    resolve name s = .ok (symbol, { s with scopes }) := by
  change Except.ok ((Scope.resolve name s.scopes).1,
    { s with scopes := (Scope.resolve name s.scopes).2 }) = _
  rw [h]

variable (builtins : Std.HashSet String) (scopes : List Scope) (nextId : Nat) (a b c d : Span)

theorem loadFunction_bare {g : Routine Value} (hfree : g.freeVariables = #[])
    (hs : s.pools.constants = #[]) : loadFunction g a s =
      .ok (#[.op ⟨.loadConst, [0]⟩], { s with pools := s.pools.addConstant (.function g) }) := by
  refine bind_eq_ok.2 ⟨0, _, addConstant_first g a hs, ?_⟩
  rw [hfree]
  rfl

theorem loadFunction_capturing {g : Routine Value} {x : String}
    (hfree : g.freeVariables = #[⟨x, .slot 0⟩]) (hs : s.pools.constants = #[]) :
    loadFunction g a s =
      .ok (#[.op ⟨.makeCell, [0, 0]⟩, .op ⟨.loadClosure, [0, 1]⟩],
        { s with pools := s.pools.addConstant (.function g) }) := by
  refine bind_eq_ok.2 ⟨0, _, addConstant_first g a hs, ?_⟩
  rw [hfree, Array.mapM_eq_mapM_toList]
  rfl

/-- A function that returns a variable of the function around it. -/
theorem compileExpr_capturing : ∃ g : Routine Value, g.freeVariables = #[⟨param, .slot 0⟩] ∧
    compileExpr builtins (.func a [] [.return b (some (.ident c param))])
        ⟨.empty, Scope.withParameter name param :: scopes, nextId⟩ =
      .ok (#[.op ⟨.makeCell, [0, 0]⟩, .op ⟨.loadClosure, [0, 1]⟩],
        ⟨Pools.empty.addConstant (.function g), Scope.withParameter name param :: scopes,
          nextId + 1⟩) := by
  have hbody : compileStmts builtins false [.return b (some (.ident c param))] #[]
      ⟨.empty, Scope.function anonymous :: Scope.withParameter name param :: scopes, nextId⟩ =
      .ok (#[.op ⟨.loadFree, [0]⟩, .op ⟨.returnValue, [1]⟩],
        ⟨.empty, Scope.withCapture anonymous param :: Scope.withParameter name param :: scopes,
          nextId⟩) := by
    rw [compileStmts]
    refine bind_pure_eq_ok.2 ⟨#[.op ⟨.loadFree, [0]⟩, .op ⟨.returnValue, [1]⟩], ?_, rfl⟩
    rw [compileStmt]
    refine bind_eq_ok.2 ⟨true, _, rfl, bind_pure_eq_ok.2 ⟨#[.op ⟨.loadFree, [0]⟩], ?_, rfl⟩⟩
    rw [compileExpr]
    exact bind_eq_ok.2 ⟨.free 0, _,
      resolve_eq_ok param (Scope.resolve_captured name anonymous param scopes), rfl⟩
  have hfree := Scope.freeVariables_withCapture anonymous param
  rw [compileExpr]
  exact ⟨_, hfree, bind_eq_ok.2 ⟨(), _, rfl, bind_eq_ok.2 ⟨_, _, rfl, bind_eq_ok.2 ⟨.empty, _, rfl,
    bind_eq_ok.2 ⟨_, _, compileBody_eq_ok.2 hbody, bind_eq_ok.2 ⟨_, _, rfl,
      loadFunction_capturing a hfree rfl⟩⟩⟩⟩⟩⟩

/-- The code that returns it as a closure. -/
def returnsClosure : Fragment :=
  #[.op ⟨.makeCell, [0, 0]⟩, .op ⟨.loadClosure, [0, 1]⟩, .op ⟨.returnValue, [1]⟩]

theorem compileStmt_capturing : ∃ g : Routine Value, g.freeVariables = #[⟨param, .slot 0⟩] ∧
    compileStmt builtins false (.return d (some (.func a [] [.return b (some (.ident c param))])))
        ⟨.empty, Scope.withParameter name param :: scopes, nextId⟩ =
      .ok (returnsClosure, ⟨Pools.empty.addConstant (.function g),
        Scope.withParameter name param :: scopes, nextId + 1⟩) := by
  obtain ⟨g, hfree, hg⟩ := compileExpr_capturing name param builtins scopes nextId a b c
  rw [compileStmt]
  exact ⟨g, hfree, bind_eq_ok.2 ⟨true, _, rfl, bind_pure_eq_ok.2 ⟨_, hg, rfl⟩⟩⟩

/-- A function with one parameter that captures nothing, where no function has been compiled
before. -/
theorem compileFunction_withParameter {body : List Stmt} {code : Fragment} {pools : Pools}
    {id : Nat} (hbody : compileStmts builtins false body #[]
      ⟨.empty, Scope.withParameter name param :: s.scopes, s.nextId⟩ =
        .ok (code, ⟨pools, Scope.withParameter name param :: s.scopes, id⟩))
    (hs : s.pools.constants = #[]) : ∃ f : Routine Value,
    compileFunction name [param] a (compileStmts builtins false body #[]) s =
      .ok (#[.op ⟨.loadConst, [0]⟩],
        ⟨s.pools.addConstant (.function f), s.scopes, id + 1⟩) ∧
      f.code = Fragment.encode (code.push (.op ⟨.returnValue, [0]⟩)) #[] ∧
      f.constants = pools.constants ∧ f.localCount = 1 ∧ f.params = #[param] := by
  have hscope : parameterScope name [param] a s = .ok (Scope.withParameter name param, s) := by
    unfold parameterScope
    rw [List.foldlM_cons, Scope.declare_parameter]
    rfl
  exact ⟨_, bind_eq_ok.2 ⟨(), _, rfl, bind_eq_ok.2 ⟨_, _, hscope, bind_eq_ok.2 ⟨s.pools, _, rfl,
    bind_eq_ok.2 ⟨_, _, compileBody_eq_ok.2 hbody, bind_eq_ok.2 ⟨_, _, rfl,
      loadFunction_bare a Array.map_empty hs⟩⟩⟩⟩⟩, rfl, rfl, Scope.size_withParameter name param,
    rfl⟩

end

end Ember
