import Ember.Proofs.Compile.Chunks

/-! Programs that are compiled in two parts. The statements of both parts go through the same states
of the compiler as those of the whole, so both ways are refused or accepted together and leave the
same tables. The code differs in one place only: where the first part would halt, the whole goes on,
and drops the value that the first part would have left. -/
namespace Ember
set_option autoImplicit false

open CompileM

/-! ## Statements -/

section
variable {builtins : Std.HashSet String} {s s' : CompileState} {code code' : Fragment}

/-- What drops the values that a chunk leaves on the stack. -/
def drops (statements : List Stmt) : List Instruction :=
  List.replicate (valuesLeft statements) ⟨.popTop, []⟩

/-- Statements go through the same states as the chunk that they make up. -/
theorem compileStmts_eq_ok_iff {statements : List Stmt} :
    compileStmts builtins false statements code s = .ok (code', s') ↔
      ∃ body : Fragment, code' = body ++ ((drops statements).map Item.op).toArray ∧
        compileChunk builtins statements code s = .ok (body.push (.op ⟨.halt, []⟩), s') := by
  fun_induction compileChunk builtins statements code generalizing s with
  | case1 code =>
    rw [compileStmts, pure_eq_ok]
    simp only [pure_eq_ok, drops, valuesLeft, List.replicate_zero, List.map_nil, Array.append_empty]
    constructor
    · rintro ⟨rfl, rfl⟩
      exact ⟨code, rfl, rfl, rfl⟩
    · rintro ⟨body, rfl, hbody, rfl⟩
      exact ⟨(Array.push_eq_push.1 hbody).2, rfl⟩
  | case2 span value code =>
    simp only [compileStmts, compileStmt, bind_assoc, pure_bind, bind_pure_eq_ok, drops, valuesLeft,
      List.replicate_one, List.map_cons, List.map_nil]
    constructor
    · rintro ⟨more, hmore, rfl⟩
      exact ⟨code ++ more, by simp, more, hmore, rfl⟩
    · rintro ⟨body, rfl, more, hmore, hbody⟩
      obtain rfl := (Array.push_eq_push.1 hbody).2
      exact ⟨more, hmore, by simp⟩
  | case3 st rest code hne ih =>
    have hdrops : drops (st :: rest) = drops rest := by
      rw [drops, valuesLeft]
      · rfl
      · exact hne
    rw [compileStmts, bind_eq_ok, hdrops]
    simp only [bind_eq_ok, ih]
    constructor
    · rintro ⟨more, s₁, hmore, body, rfl, hbody⟩
      exact ⟨body, rfl, more, s₁, hmore, hbody⟩
    · rintro ⟨body, rfl, more, s₁, hmore, hbody⟩
      exact ⟨more, s₁, hmore, body, rfl, hbody⟩

/-- The code before a chunk has no part in how it is compiled. -/
theorem compileChunk_after (statements : List Stmt) (code : Fragment) :
    compileChunk builtins statements code = (do
      let more ← compileChunk builtins statements #[]
      return code ++ more) := by
  induction statements generalizing code with
  | nil => simp [compileChunk]
  | cons st rest ih =>
    by_cases hlast : ∃ span value, st = .expr span value ∧ rest = []
    · obtain ⟨span, value, rfl, rfl⟩ := hlast
      simp [compileChunk]
    · have hne : ∀ span value, st = .expr span value → rest = [] → False :=
        fun span value hst hrest => hlast ⟨span, value, hst, hrest⟩
      rw [compileChunk, compileChunk]
      · simp only [bind_assoc]
        refine bind_congr fun more => ?_
        rw [ih (code ++ more), ih (#[] ++ more)]
        simp
      · exact hne
      · exact hne

/-- Two lists of statements one after the other. -/
theorem compileChunk_append (first : List Stmt) {second : List Stmt} (hne : second ≠ [])
    (code : Fragment) :
    compileChunk builtins (first ++ second) code = (do
      let code ← compileStmts builtins false first code
      compileChunk builtins second code) := by
  induction first generalizing code with
  | nil => simp [compileStmts]
  | cons st rest ih =>
    rw [List.cons_append, compileChunk, compileStmts, bind_assoc]
    · exact bind_congr fun more => ih (code ++ more)
    · intro span value _ hrest
      exact hne (List.append_eq_nil_iff.1 hrest).2

/-- Two chunks are compiled exactly if both of them in one are, in the same states. -/
theorem compileChunk_append_eq_ok_iff {first second : List Stmt} (hne : second ≠ []) :
    compileChunk builtins (first ++ second) #[] s = .ok (code', s') ↔
      ∃ (body more : Fragment) (s₁ : CompileState),
        compileChunk builtins first #[] s = .ok (body.push (.op ⟨.halt, []⟩), s₁) ∧
        compileChunk builtins second #[] s₁ = .ok (more, s') ∧
        code' = body ++ ((drops first).map Item.op).toArray ++ more := by
  simp only [compileChunk_append first hne, bind_eq_ok, compileStmts_eq_ok_iff]
  constructor
  · rintro ⟨mid, s₁, ⟨body, rfl, hfirst⟩, hsecond⟩
    rw [compileChunk_after, bind_pure_eq_ok] at hsecond
    obtain ⟨more, hmore, rfl⟩ := hsecond
    exact ⟨body, more, s₁, hfirst, hmore, rfl⟩
  · rintro ⟨body, more, s₁, hfirst, hmore, rfl⟩
    refine ⟨_, s₁, ⟨body, rfl, hfirst⟩, ?_⟩
    rw [compileChunk_after, bind_pure_eq_ok]
    exact ⟨more, hmore, rfl⟩

end

/-! ## Sessions -/

namespace Compiler

variable {c c₁ c₂ c' : Compiler} {r₁ r₂ r : CodeRange} {first second : List Stmt}

theorem exists_compile_iff {p : Program} : (∃ r c', c.compile p = .ok (r, c')) ↔
    ∃ fragment s, compileChunk c.builtins p.statements #[] c.state = .ok (fragment, s) := by
  constructor
  · rintro ⟨r, c', h⟩
    obtain ⟨fragment, s, hchunk, -⟩ := compile_eq_ok h
    exact ⟨fragment, s, hchunk⟩
  · rintro ⟨fragment, s, hchunk⟩
    obtain ⟨c', hcompile, -⟩ := compile_of_chunk hchunk
    exact ⟨_, c', hcompile⟩

/-- What is the same after every program. -/
theorem compile_same {p : Program} (h : c.compile p = .ok (r, c')) :
    r = ⟨c.code.size, c'.code.size⟩ ∧ c'.name = c.name ∧ c'.builtins = c.builtins := by
  obtain ⟨fragment, s, -, hr, hc'⟩ := compile_eq_ok h
  exact ⟨hr, by rw [hc'], by rw [hc']⟩

/-- Two programs are accepted one after the other exactly if both in one are. -/
theorem compile_append_iff (hc : c.Sound) (hne : second ≠ []) :
    (∃ r₁ c₁ r₂ c₂, c.compile ⟨first⟩ = .ok (r₁, c₁) ∧ c₁.compile ⟨second⟩ = .ok (r₂, c₂)) ↔
      ∃ r c', c.compile ⟨first ++ second⟩ = .ok (r, c') := by
  rw [exists_compile_iff]
  simp only [compileChunk_append_eq_ok_iff hne]
  constructor
  · rintro ⟨r₁, c₁, r₂, c₂, h₁, h₂⟩
    obtain ⟨fragment, -, -, hchunk, -⟩ := compile_planned hc h₁
    obtain ⟨body, hbody, -⟩ := compileChunk_spec hc hchunk
    rw [Array.empty_append] at hbody
    subst hbody
    obtain ⟨more, s', hmore⟩ := exists_compile_iff.1 ⟨r₂, c₂, h₂⟩
    rw [(compile_same h₁).2.2] at hmore
    exact ⟨_, s', body, more, c₁.state, hchunk, hmore, rfl⟩
  · rintro ⟨-, s', body, more, s₁, hfirst, hsecond, -⟩
    obtain ⟨r₁, c₁, h₁⟩ := (exists_compile_iff (p := ⟨first⟩)).2 ⟨_, s₁, hfirst⟩
    obtain ⟨fragment, -, -, hchunk, -⟩ := compile_planned hc h₁
    cases hchunk.symm.trans hfirst
    rw [← (compile_same h₁).2.2] at hsecond
    obtain ⟨r₂, c₂, h₂⟩ := (exists_compile_iff (p := ⟨second⟩)).2 ⟨more, s', hsecond⟩
    exact ⟨r₁, c₁, r₂, c₂, h₁, h₂⟩

/-- How the code of two chunks lies, and how that of both in one does. -/
structure Split (first : List Stmt) (main₁ main₂ main : Routine Value) (r₁ r₂ r : CodeRange)
    (row₁ row₂ : List Instruction) (plan₁ plan₂ : Plan) : Prop where
  planned₁ : Planned main₁ r₁.start (row₁ ++ [⟨.halt, []⟩]) plan₁
  stop₁ : r₁.stop = r₁.start + rowSize (row₁ ++ [⟨.halt, []⟩])
  lasting : ∀ ins ∈ row₁, ins.op ≠ .halt
  left : plan₁.shapeFrom r₁.start (r₁.start + rowSize row₁) = some (.values (valuesLeft first))
  planned₂ : Planned main₂ r₂.start (row₂ ++ [⟨.halt, []⟩]) plan₂
  behind : r₂.start = r₁.stop
  start : r.start = r₁.start
  decodes : Decodes main.code r.start (row₁ ++ (drops first ++ (row₂ ++ [⟨.halt, []⟩])))

/-- Two programs leave the compiler as both in one do, apart from the code. -/
theorem compile_split (hc : c.Sound) (hne : second ≠ []) (h₁ : c.compile ⟨first⟩ = .ok (r₁, c₁))
    (h₂ : c₁.compile ⟨second⟩ = .ok (r₂, c₂)) (h : c.compile ⟨first ++ second⟩ = .ok (r, c')) :
    c' = { c₂ with code := c'.code } ∧ ∃ row₁ row₂ plan₁ plan₂,
      Split first c₁.main c₂.main c'.main r₁ r₂ r row₁ row₂ plan₁ plan₂ := by
  obtain ⟨f₁, row₁, plan₁, hchunk₁, hc₁, -, -, hitems₁, hplanned₁, hsize₁, hlasting, hleft⟩ :=
    compile_planned hc h₁
  obtain ⟨f₂, row₂, plan₂, hchunk₂, -, -, -, hitems₂, hplanned₂, -⟩ :=
    compile_planned hc₁ h₂
  obtain ⟨f, row, plan, hchunk, -, -, -, hitems, hplanned, -⟩ := compile_planned hc h
  obtain ⟨rfl, hname₁, hbuiltins₁⟩ := compile_same h₁
  obtain ⟨rfl, hname₂, hbuiltins₂⟩ := compile_same h₂
  obtain ⟨rfl, hname, hbuiltins⟩ := compile_same h
  -- both parts have been compiled in the same states
  obtain ⟨body, more, s₁, hfirst, hsecond, hf⟩ := (compileChunk_append_eq_ok_iff hne).1 hchunk
  obtain ⟨hbody, hs₁⟩ := Prod.mk.inj (Except.ok.inj (hchunk₁.symm.trans hfirst))
  rw [← hs₁, ← hbuiltins₁] at hsecond
  obtain ⟨hmore, hstate⟩ := Prod.mk.inj (Except.ok.inj (hsecond.symm.trans hchunk₂))
  refine ⟨?_, row₁, row₂, plan₁, plan₂, hplanned₁, hsize₁, hlasting, ?_, hplanned₂, rfl, rfl,
    ?_⟩
  · obtain ⟨hpools, hscopes, hid⟩ := CompileState.mk.inj hstate
    obtain ⟨name, builtins, code, pools, scope, nextId⟩ := c'
    cases c₂
    cases hscopes
    cases hpools
    cases hid
    cases hname.trans (hname₂.trans hname₁).symm
    cases hbuiltins.trans (hbuiltins₂.trans hbuiltins₁).symm
    rfl
  · rw [Plan.shapeFrom_add]
    exact hleft
  · have hrow₁ : body.toList = row₁.map Item.op := by
      rw [hbody, Array.toList_push, List.map_append] at hitems₁
      exact List.append_cancel_right hitems₁
    have hrow : row ++ [⟨.halt, []⟩] = row₁ ++ (drops first ++ (row₂ ++ [⟨.halt, []⟩])) := by
      refine List.map_injective_iff.2 (fun _ _ heq => Item.op.inj heq) ?_
      rw [← hitems, hf, hmore, List.map_append, List.map_append, ← hitems₂, ← hrow₁]
      simp
    rw [← hrow]
    exact hplanned.decodes

end Compiler

end Ember
