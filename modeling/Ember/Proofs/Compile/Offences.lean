import Ember.Proofs.Compile.Demands

/-! What in a program is against the rules, wherever it stands and whether or not it is ever
reached: a return outside every function, an exit outside every loop of the same function, the name
of a builtin that is declared at the top level, and an assignment in a function to a name that
nothing around it has declared so far. What has been declared is read off the program in the order
in which it is compiled. The scopes of the compiler come to the same. -/
namespace Ember
set_option autoImplicit false

/-! ## Names declared so far -/

/-- The names that have been declared at the top level, and in each of the functions around a piece
of code, from the inside out. -/
structure Declared where
  session : List String
  functions : List (List String)

namespace Declared

/-- Names are declared in the innermost function, or at the top level if there is none. -/
def declare (known : Declared) (names : List String) : Declared :=
  match known.functions with
  | [] => ⟨known.session ++ names, []⟩
  | inner :: outer => ⟨known.session, (inner ++ names) :: outer⟩

/-- In a function its parameters are declared first. -/
def enter (known : Declared) (params : List String) : Declared :=
  ⟨known.session, params :: known.functions⟩

/-- The name has been declared in one of the functions around. -/
def Binds (known : Declared) (name : String) : Prop := ∃ names ∈ known.functions, name ∈ names

instance (known : Declared) (name : String) : Decidable (known.Binds name) :=
  inferInstanceAs (Decidable (∃ names ∈ known.functions, name ∈ names))

/-- Whether names are declared in a function. -/
def inFunction (known : Declared) : Bool := !known.functions.isEmpty

@[simp] theorem declare_nil (known : Declared) : known.declare [] = known := by
  obtain ⟨session, functions⟩ := known
  cases functions <;> simp [declare]

@[simp] theorem declare_append (known : Declared) (names more : List String) :
    known.declare (names ++ more) = (known.declare names).declare more := by
  obtain ⟨session, functions⟩ := known
  cases functions <;> simp [declare]

@[simp] theorem inFunction_declare (known : Declared) (names : List String) :
    (known.declare names).inFunction = known.inFunction := by
  obtain ⟨session, functions⟩ := known
  cases functions <;> rfl

end Declared

mutual

/-- The names that a statement declares where it stands. In a function an assignment declares
nothing. -/
def Stmt.declares (inFunction : Bool) : Stmt → List String
  | .var _ name _ | .funcDef _ name _ _ => [name]
  | .assign _ (.ident _ name) _ => if inFunction then [] else [name]
  | .if _ _ thenBody none => bodyDeclares inFunction thenBody
  | .if _ _ thenBody (some elseBody) =>
    bodyDeclares inFunction thenBody ++ bodyDeclares inFunction elseBody
  | .while _ _ body => bodyDeclares inFunction body
  | .assign .. | .return .. | .break _ | .continue _ | .print .. | .delete .. | .expr .. => []

def bodyDeclares (inFunction : Bool) : List Stmt → List String
  | [] => []
  | st :: rest => st.declares inFunction ++ bodyDeclares inFunction rest

end

/-! ## Offences -/

section
variable (reserved : String → Bool)

/-- A name that is reserved may not be declared at the top level. -/
def Declared.declaring (known : Declared) (name : String) : List CompileFault :=
  if known.inFunction = false ∧ reserved name = true then [.assignToBuiltin name] else []

/-- At the top level an assignment declares a name; in a function the name has to be declared. -/
def Declared.assigning (known : Declared) (name : String) : List CompileFault :=
  if known.inFunction = false then known.declaring reserved name
  else if known.Binds name ∨ name ∈ known.session then []
  else if reserved name = true then [.assignToBuiltin name] else [.undeclaredAssignment name]

def Declared.returning (known : Declared) : List CompileFault :=
  if known.inFunction = true then [] else [.returnOutsideFunction]

def leaving (inLoop : Bool) (keyword : Keyword) : List CompileFault :=
  if inLoop then [] else [.outsideLoop keyword]

mutual

/-- The offences in an expression, among the names declared so far. -/
def Expr.offences (known : Declared) : Expr → List CompileFault
  | .int .. | .float .. | .str .. | .bool .. | .nil _ | .ident .. => []
  | .list _ items | .set _ items => itemsOffences known items
  | .map _ entries => entriesOffences known entries
  | .unary _ _ operand => operand.offences known
  | .binary _ _ left right | .logical _ _ left right => left.offences known ++ right.offences known
  | .call _ callee args => callee.offences known ++ itemsOffences known args
  | .index _ object key => object.offences known ++ key.offences known
  | .attr _ object _ => object.offences known
  | .func _ params body => bodyOffences (known.enter params) false body

def itemsOffences (known : Declared) : List Expr → List CompileFault
  | [] => []
  | e :: rest => e.offences known ++ itemsOffences known rest

def entriesOffences (known : Declared) : List (Expr × Expr) → List CompileFault
  | [] => []
  | (k, v) :: rest => k.offences known ++ (v.offences known ++ entriesOffences known rest)

/-- The offences in a statement, in the order in which it is compiled: a function is declared before
its body, another variable after its value, and a name is looked for before what is assigned to it.
Of a loop the condition comes last. -/
def Stmt.offences (known : Declared) (inLoop : Bool) : Stmt → List CompileFault
  | .var _ name (.func _ params body) | .funcDef _ name params body =>
    known.declaring reserved name ++
      bodyOffences ((known.declare [name]).enter params) false body
  | .var _ name value => value.offences known ++ known.declaring reserved name
  | .assign _ (.ident _ name) value =>
    known.assigning reserved name ++
      value.offences (known.declare (if known.inFunction then [] else [name]))
  | .assign _ (.index _ object key) value =>
    value.offences known ++ (object.offences known ++ key.offences known)
  | .assign _ (.attr _ object _) value => value.offences known ++ object.offences known
  | .assign .. => [.invalidTarget]
  | .return _ none => known.returning
  | .return _ (some value) => known.returning ++ value.offences known
  | .if _ cond thenBody none => cond.offences known ++ bodyOffences known inLoop thenBody
  | .if _ cond thenBody (some elseBody) =>
    cond.offences known ++ (bodyOffences known inLoop thenBody ++
      bodyOffences (known.declare (bodyDeclares known.inFunction thenBody)) inLoop elseBody)
  | .while _ cond body =>
    bodyOffences known true body ++
      cond.offences (known.declare (bodyDeclares known.inFunction body))
  | .break _ => leaving inLoop .break
  | .continue _ => leaving inLoop .continue
  | .print _ value | .expr _ value => value.offences known
  | .delete _ object key => object.offences known ++ key.offences known

def bodyOffences (known : Declared) (inLoop : Bool) : List Stmt → List CompileFault
  | [] => []
  | st :: rest =>
    st.offences known inLoop ++
      bodyOffences (known.declare (st.declares known.inFunction)) inLoop rest

end

end

/-- The names that a program declares at the top level. -/
def Program.declares (p : Program) : List String := bodyDeclares false p.statements

/-- The offences in a program, with the names that are reserved and those that earlier programs have
declared at the top level. -/
def Program.offences (reserved : String → Bool) (session : List String) (p : Program) :
    List CompileFault := bodyOffences reserved ⟨session, []⟩ false p.statements

/-! Only an assignment can have a target that is invalid. -/

section
variable {reserved : String → Bool} {known : Declared} {name : String}

@[simp] theorem invalidTarget_not_mem_declaring :
    CompileFault.invalidTarget ∉ known.declaring reserved name := by
  unfold Declared.declaring
  split <;> simp

@[simp] theorem invalidTarget_not_mem_assigning :
    CompileFault.invalidTarget ∉ known.assigning reserved name := by
  unfold Declared.assigning
  split
  · exact invalidTarget_not_mem_declaring
  · split
    · simp
    · split <;> simp

@[simp] theorem invalidTarget_not_mem_returning : CompileFault.invalidTarget ∉ known.returning := by
  unfold Declared.returning
  split <;> simp

@[simp] theorem invalidTarget_not_mem_leaving {inLoop : Bool} {keyword : Keyword} :
    CompileFault.invalidTarget ∉ leaving inLoop keyword := by
  cases inLoop <;> simp [leaving]

theorem not_mem_itemsOffences {fault : CompileFault} {items : List Expr}
    (h : ∀ e ∈ items, ∀ known, fault ∉ e.offences reserved known) :
    fault ∉ itemsOffences reserved known items := by
  induction items with
  | nil => exact List.not_mem_nil
  | cons e rest ih =>
    obtain ⟨he, hrest⟩ := List.forall_mem_cons.1 h
    rw [itemsOffences, List.mem_append]
    exact not_or.2 ⟨he known, ih hrest⟩

theorem not_mem_entriesOffences {fault : CompileFault} {entries : List (Expr × Expr)}
    (h : ∀ e ∈ entries, (∀ known, fault ∉ e.1.offences reserved known) ∧
      ∀ known, fault ∉ e.2.offences reserved known) :
    fault ∉ entriesOffences reserved known entries := by
  induction entries with
  | nil => exact List.not_mem_nil
  | cons e rest ih =>
    obtain ⟨⟨hkey, hvalue⟩, hrest⟩ := List.forall_mem_cons.1 h
    rw [entriesOffences, List.mem_append, List.mem_append]
    exact not_or.2 ⟨hkey known, not_or.2 ⟨hvalue known, ih hrest⟩⟩

theorem not_mem_bodyOffences {fault : CompileFault} {inLoop : Bool} {body : List Stmt}
    (h : ∀ st ∈ body, ∀ known inLoop, fault ∉ st.offences reserved known inLoop) :
    fault ∉ bodyOffences reserved known inLoop body := by
  induction body generalizing known with
  | nil => exact List.not_mem_nil
  | cons st rest ih =>
    obtain ⟨hst, hrest⟩ := List.forall_mem_cons.1 h
    rw [bodyOffences, List.mem_append]
    exact not_or.2 ⟨hst known inLoop, ih hrest⟩

end

/-! ## Scopes -/

/-- Where a name can be declared, it does not matter how many slots there are. -/
theorem Scope.widen_of_declare {s s' : Scope} {name : String} {symbol : Symbol}
    (h : s.declare name = (some symbol, s')) : s.widen name = (symbol, s') := by
  unfold declare at h
  unfold widen
  cases hkind : s.kind with
  | topLevel =>
    rw [hkind] at h
    cases h
    rfl
  | function =>
    rw [hkind] at h
    dsimp only at h ⊢
    cases hslot : s.locals.position? name with
    | some slot =>
      rw [hslot] at h
      cases h
      rfl
    | none =>
      rw [hslot] at h
      dsimp only at h
      split at h
      · cases h
        rfl
      · cases h

namespace Declared

variable {known : Declared} {name : String} {scopes : List Scope}

/-- The scopes have just the names that have been declared, and a function captures only what
functions around it have declared. -/
inductive HeldBy : Declared → List Scope → Prop
  | top {s : Scope} {session : List String} (hkind : s.kind = .topLevel)
      (hdeclared : ∀ n, n ∈ s.declared.keys ↔ n ∈ session) : HeldBy ⟨session, []⟩ [s]
  | function {s : Scope} {outer : List Scope} {session names : List String}
      {functions : List (List String)} (hkind : s.kind = .function)
      (hlocals : ∀ n, n ∈ s.locals.keys ↔ n ∈ names)
      (hcaptured : ∀ n ∈ s.captured.keys, Binds ⟨session, functions⟩ n)
      (hrest : HeldBy ⟨session, functions⟩ outer) :
      HeldBy ⟨session, names :: functions⟩ (s :: outer)

theorem binds_cons {session names : List String} {functions : List (List String)} :
    Binds ⟨session, names :: functions⟩ name ↔ name ∈ names ∨ Binds ⟨session, functions⟩ name := by
  simp [Binds]

theorem not_binds_of_outside (h : known.inFunction = false) : ¬ known.Binds name := by
  obtain ⟨session, functions⟩ := known
  cases functions with
  | nil => exact fun hbinds => List.not_mem_nil hbinds.choose_spec.1
  | cons => cases h

theorem HeldBy.inFunction_eq (h : known.HeldBy scopes) :
    (scopes.head?.map Scope.isFunction).getD false = known.inFunction := by
  cases h with
  | top hkind => simp [Scope.isFunction, hkind, inFunction]
  | function hkind => simp [Scope.isFunction, hkind, inFunction]

theorem HeldBy.isTopLevelName_iff (h : known.HeldBy scopes) :
    (scopes.getLast?.map (·.isDeclared name)).getD false = true ↔ name ∈ known.session := by
  induction h with
  | @top s session hkind hdeclared =>
    rw [← hdeclared, ← OrderedMap.contains_iff_mem_keys]
    simp [Scope.isDeclared, hkind]
  | @function s outer session names functions hkind hlocals hcaptured hrest ih =>
    have hlast : (s :: outer).getLast? = outer.getLast? := by
      cases hrest <;> rfl
    rw [hlast]
    exact ih

/-- What a symbol says about where a name has been declared. -/
def Finds (known : Declared) (name : String) : Symbol → Prop
  | .slot _ | .free _ => known.Binds name
  | .global n => n = name ∧ ¬ known.Binds name
  | .name _ => known.inFunction = false

/-- A function captures a name that a function around it has declared. -/
theorem HeldBy.capture {s : Scope} {outer : List Scope} {session names : List String}
    {functions : List (List String)} (hkind : s.kind = .function)
    (hlocals : ∀ n, n ∈ s.locals.keys ↔ n ∈ names)
    (hcaptured : ∀ n ∈ s.captured.keys, Binds ⟨session, functions⟩ n)
    (hrest : HeldBy ⟨session, functions⟩ outer) (hbinds : Binds ⟨session, functions⟩ name)
    (source : Capture) :
    HeldBy ⟨session, names :: functions⟩ ((s.capture name source).2 :: outer) := by
  refine .function hkind hlocals (fun n hn => ?_) hrest
  rcases OrderedMap.mem_keys_insert.1 hn with hn | rfl
  · exact hcaptured n hn
  · exact hbinds

/-- A name is resolved as it has been declared. -/
theorem HeldBy.resolve (h : known.HeldBy scopes) (name : String) :
    known.HeldBy (Scope.resolve name scopes).2 ∧
      known.Finds name (Scope.resolve name scopes).1 := by
  induction h with
  | @top s session hkind hdeclared =>
    rw [Scope.resolve, hkind]
    exact ⟨.top hkind hdeclared, rfl⟩
  | @function s outer session names functions hkind hlocals hcaptured hrest ih =>
    have hheld : HeldBy ⟨session, names :: functions⟩ (s :: outer) :=
      .function hkind hlocals hcaptured hrest
    obtain ⟨hheld', hfinds⟩ := ih
    rw [Scope.resolve, hkind]
    dsimp only
    split
    · rename_i slot hslot
      have hmem := Array.mem_of_getElem? (OrderedMap.position?_eq_some_iff.1 hslot)
      exact ⟨hheld, binds_cons.2 (.inl ((hlocals name).1 hmem))⟩
    · rename_i hlocal
      have hnew : name ∉ names := fun hmem =>
        OrderedMap.position?_eq_none_iff.1 hlocal ((hlocals name).2 hmem)
      -- The name is global if the functions around do not bind it, whether or not they are asked.
      have hglobal : ∀ {o : List Scope}, HeldBy ⟨session, functions⟩ o →
          ¬ Binds ⟨session, functions⟩ name → HeldBy ⟨session, names :: functions⟩ (s :: o) ∧
            Finds ⟨session, names :: functions⟩ name (.global name) :=
        fun ho hnone => ⟨.function hkind hlocals hcaptured ho, rfl, fun hbinds =>
          (binds_cons.1 hbinds).elim hnew hnone⟩
      split
      · rename_i i hi
        have hmem := Array.mem_of_getElem? (OrderedMap.position?_eq_some_iff.1 hi)
        exact ⟨hheld, binds_cons.2 (.inr (hcaptured name hmem))⟩
      · split
        · split
          · rename_i i outer' heq
            rw [heq] at hheld' hfinds
            exact ⟨.capture hkind hlocals hcaptured hheld' hfinds _, binds_cons.2 (.inr hfinds)⟩
          · rename_i i outer' heq
            rw [heq] at hheld' hfinds
            exact ⟨.capture hkind hlocals hcaptured hheld' hfinds _, binds_cons.2 (.inr hfinds)⟩
          · rename_i symbol outer' hslot hfree heq
            rw [heq] at hheld' hfinds
            refine hglobal hheld' ?_
            cases symbol with
            | slot i => exact absurd rfl (hslot i)
            | free i => exact absurd rfl (hfree i)
            | global n => exact hfinds.2
            | name n => exact not_binds_of_outside hfinds
        · rename_i houter
          refine hglobal hrest (not_binds_of_outside ?_)
          rw [← hrest.inFunction_eq]
          exact Bool.eq_false_iff.2 houter

/-- A name that is declared is one of the innermost scope. -/
theorem HeldBy.widen {s : Scope} {outer : List Scope} (h : known.HeldBy (s :: outer))
    (name : String) : (known.declare [name]).HeldBy ((s.widen name).2 :: outer) := by
  unfold Scope.widen
  cases h with
  | @top _ session hkind hdeclared =>
    rw [hkind]
    refine .top rfl fun n => ?_
    rw [OrderedMap.mem_keys_insert, hdeclared, List.mem_append, List.mem_singleton]
  | @function _ _ session names functions hkind hlocals hcaptured hrest =>
    rw [hkind]
    dsimp only
    split
    · rename_i slot hslot
      have hmem := Array.mem_of_getElem? (OrderedMap.position?_eq_some_iff.1 hslot)
      refine .function hkind (fun n => ?_) hcaptured hrest
      rw [hlocals, List.mem_append, List.mem_singleton]
      exact ⟨.inl, fun hn => hn.elim id fun heq => heq ▸ (hlocals name).1 hmem⟩
    · refine .function rfl (fun n => ?_) hcaptured hrest
      rw [OrderedMap.mem_keys_insert, hlocals, List.mem_append, List.mem_singleton]

theorem HeldBy.declare {s s' : Scope} {outer : List Scope} {symbol : Symbol}
    (h : known.HeldBy (s :: outer)) (hdeclare : s.declare name = (some symbol, s')) :
    (known.declare [name]).HeldBy (s' :: outer) := by
  have hheld := h.widen name
  rw [Scope.widen_of_declare hdeclare] at hheld
  exact hheld

theorem HeldBy.foldl_widen {s : Scope} {outer : List Scope} (h : known.HeldBy (s :: outer))
    (names : List String) :
    (known.declare names).HeldBy
      (names.foldl (fun scope name => (scope.widen name).2) s :: outer) := by
  induction names generalizing known s with
  | nil =>
    rw [declare_nil]
    exact h
  | cons name names ih =>
    rw [← List.singleton_append, declare_append]
    exact ih (h.widen name)

/-- A function whose parameters have been declared. -/
theorem HeldBy.enter (h : known.HeldBy scopes) (name : String) (params : List String) :
    (known.enter params).HeldBy
      (params.foldl (fun scope param => (scope.widen param).2) (Scope.function name) ::
        scopes) := by
  have hstart : (known.enter []).HeldBy (Scope.function name :: scopes) :=
    .function rfl (fun n => by simp [Scope.function]) (fun n hn => by simp [Scope.function] at hn) h
  exact hstart.foldl_widen params

theorem HeldBy.leave {params names : List String}
    (h : ((known.enter params).declare names).HeldBy scopes) : known.HeldBy (scopes.drop 1) := by
  change HeldBy ⟨known.session, (params ++ names) :: known.functions⟩ scopes at h
  cases h with
  | function _ _ _ hrest => exact hrest

end Declared

end Ember
