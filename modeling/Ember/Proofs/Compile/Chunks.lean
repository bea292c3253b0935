import Ember.Disassembly
import Ember.Proofs.Compile.Verified

/-! Programs that are added to the code of a session. Whatever was compiled before, the code of a
program is a planned stretch that ends in `HALT`: it is accepted by the verifier, read back from
front to back, and written out as text. -/
namespace Ember
set_option autoImplicit false

open CompileM

/-! ## Chunks -/

/-- How many values a chunk leaves on the stack: that of the expression that comes last, if there is
one. -/
def valuesLeft : List Stmt → Nat
  | [] => 0
  | [.expr _ _] => 1
  | _ :: rest => valuesLeft rest

/-- The code of a chunk leaves at most the value of its last expression, and halts. -/
theorem compileChunk_spec {builtins : Std.HashSet String} {s s' : CompileState}
    {statements : List Stmt} {code code' : Fragment} (hs : Ready s)
    (h : compileChunk builtins statements code s = .ok (code', s')) :
    ∃ more : Fragment, code' = (code ++ more).push (.op ⟨.halt, []⟩) ∧
      Yields s s' false more.toList (.values 0) (.values (valuesLeft statements)) := by
  fun_induction compileChunk builtins statements code generalizing s with
  | case1 code =>
    obtain ⟨rfl, rfl⟩ := pure_eq_ok.1 h
    exact ⟨#[], by rw [Array.append_empty], .nil hs _ _⟩
  | case2 span value code =>
    obtain ⟨more, hmore, rfl⟩ := bind_pure_eq_ok.1 h
    exact ⟨more, rfl, compileExpr_pushes value hs hmore 0⟩
  | case3 st rest code hne ih =>
    obtain ⟨first, s₁, hfirst, hrest⟩ := bind_eq_ok.1 h
    have hyields := compileStmt_runs false st hs hfirst
    obtain ⟨more, rfl, hyields'⟩ := ih first hyields.ready hrest
    refine ⟨first ++ more, by rw [Array.append_assoc], ?_⟩
    rw [Array.toList_append, valuesLeft]
    · exact hyields.append hyields'
    · exact hne

/-! ## The compiler of a session -/

namespace Compiler

/-- The invariant of a session. -/
def Sound (c : Compiler) : Prop := Ember.Ready c.state

/-- The compiler after programs have been compiled one after the other; those that are refused
leave no trace. -/
def after (c : Compiler) : List Program → Compiler
  | [] => c
  | p :: rest =>
    match c.compile p with
    | .ok (_, c') => c'.after rest
    | .error _ => c.after rest

variable {c c' : Compiler} {p : Program} {range : CodeRange}

/-- The compiler knows the names that it is started with. -/
theorem contains_start {names : Array String} {firstId : Nat} {name : String} :
    (start names firstId).builtins.contains name = true ↔ name ∈ names := by
  have hfold : ∀ (l : List String) (acc : Std.HashSet String),
      (l.foldl (fun s n => s.insert n) acc).contains name = true ↔
        acc.contains name = true ∨ name ∈ l := by
    intro l
    induction l with
    | nil => simp
    | cons n rest ih =>
      intro acc
      rw [List.foldl_cons, ih, Std.HashSet.contains_insert, List.mem_cons]
      grind
  unfold start
  dsimp only
  rw [← Array.foldl_toList, hfold, Array.mem_toList_iff]
  simp

theorem sound_start (builtins : Array String) (firstId : Nat) : (start builtins firstId).Sound := by
  have hnone : ∀ v : Value, v ∉ (#[] : Array Value) := fun v => Array.not_mem_empty v
  refine ⟨.top rfl rfl rfl, fun v hv => absurd hv (hnone v), fun g hg => absurd hg (hnone _),
    fun g hg => absurd hg (hnone _), fun key i hi => ?_⟩
  simp [start, state, Pools.empty] at hi

/-- The whole code of a session has the tables of the state that it was compiled in. -/
theorem extends_main (hc : c.Sound) : Routine.Extends c.state.draft c.main := by
  have hnested := hc.nested
  cases hnested with
  | top hkind hlocals hcaptured =>
    refine ⟨rfl, fun _ _ h => h, Nat.le_refl _, ?_, fun _ _ h => h, fun i v hv => ?_⟩
    · change c.scope.locals.size ≤ 0
      rw [hlocals]
      exact Nat.le_refl 0
    · change c.scope.freeVariables[i]? = some v at hv
      rw [Scope.freeVariables, hcaptured] at hv
      simp at hv

theorem kind_main (hc : c.Sound) : c.main.scope.kind = .topLevel := by
  cases hc.nested with
  | top hkind => exact hkind

/-- The code of a program is written behind the code of the session. -/
theorem compile_eq_ok (h : c.compile p = .ok (range, c')) :
    ∃ fragment s, compileChunk c.builtins p.statements #[] c.state = .ok (fragment, s) ∧
      range = ⟨c.code.size, c'.code.size⟩ ∧
      c' = ⟨c.name, c.builtins, fragment.encode c.code, s.pools, s.scopes.headD c.scope,
        s.nextId⟩ := by
  unfold compile submit at h
  cases hchunk : compileChunk c.builtins p.statements #[] c.state with
  | error e =>
    rw [hchunk] at h
    cases h
  | ok found =>
    rw [hchunk] at h
    cases h
    exact ⟨found.1, found.2, rfl, rfl, rfl⟩

theorem compile_of_chunk {fragment : Fragment} {s : CompileState}
    (h : compileChunk c.builtins p.statements #[] c.state = .ok (fragment, s)) :
    ∃ c' : Compiler, c.compile p = .ok (⟨c.code.size, c'.code.size⟩, c') ∧
      c'.code = fragment.encode c.code ∧ c'.pools = s.pools := by
  unfold compile submit
  rw [h]
  exact ⟨⟨c.name, c.builtins, fragment.encode c.code, s.pools, s.scopes.headD c.scope, s.nextId⟩,
    rfl, rfl, rfl⟩

/-- The compiler has compiled nothing yet. -/
def Fresh (c : Compiler) : Prop :=
  c.state = ⟨.empty, [.topLevel "main"], c.nextId⟩ ∧ c.code = #[]

theorem fresh_start (builtins : Array String) (firstId : Nat) : (start builtins firstId).Fresh :=
  ⟨rfl, rfl⟩

theorem compile_first (hc : c.Fresh) {fragment : Fragment} {s : CompileState}
    (h : compileChunk c.builtins p.statements #[] ⟨.empty, [.topLevel "main"], c.nextId⟩ =
      .ok (fragment, s)) :
    ∃ c' : Compiler, c.compile p = .ok (⟨0, c'.code.size⟩, c') ∧
      c'.main.code = fragment.encode #[] ∧ c'.main.constants = s.pools.constants ∧
      c'.main.names = s.pools.names.keys := by
  obtain ⟨hstate, hcode⟩ := hc
  rw [← hstate] at h
  obtain ⟨c', hcompile, hcode', hpools⟩ := compile_of_chunk h
  rw [hcode] at hcompile hcode'
  refine ⟨c', hcompile, hcode', ?_⟩
  rw [← hpools]
  exact ⟨rfl, rfl⟩

/-- The code that a program is compiled to. -/
theorem compile_planned (hc : c.Sound) (h : c.compile p = .ok (range, c')) :
    ∃ fragment row plan,
      compileChunk c.builtins p.statements #[] c.state = .ok (fragment, c'.state) ∧
      c'.Sound ∧ Grows c.state c'.state ∧ c'.code = fragment.encode c.code ∧
      fragment.toList = (row ++ [⟨.halt, []⟩]).map Item.op ∧
      Planned c'.main c.code.size (row ++ [⟨.halt, []⟩]) plan ∧
      c'.code.size = c.code.size + rowSize (row ++ [⟨.halt, []⟩]) ∧
      (∀ ins ∈ row, ins.op ≠ .halt) ∧
      plan.shapeAt none (rowSize row) = some (.values (valuesLeft p.statements)) := by
  obtain ⟨fragment, s, hchunk, -, rfl⟩ := compile_eq_ok h
  obtain ⟨code, hcode, hyields⟩ := compileChunk_spec hc hchunk
  rw [Array.empty_append] at hcode
  have hgrows := hyields.grows
  obtain ⟨scope, rest, hext, hrest, hscopes⟩ := List.forall₂_cons_left_iff.1 hgrows.scopes
  rw [List.forall₂_nil_left_iff.1 hrest] at hscopes
  obtain ⟨pools, scopes, nextId⟩ := s
  subst hscopes
  let c' : Compiler := ⟨c.name, c.builtins, Fragment.encode fragment c.code, pools, scope, nextId⟩
  have hsound : c'.Sound := hyields.ready
  have hmain := extends_main hsound
  have hkind := kind_main hsound
  have hhalt : Admits c'.main ⟨.halt, []⟩ (.values (valuesLeft p.statements))
      (.values (valuesLeft p.statements)) :=
    ⟨rfl, by rw [hkind]; rfl, rfl, Nat.zero_le _, rfl⟩
  have hw : Instruction.WellFormed ⟨.halt, []⟩ := ⟨trivial, rfl⟩
  have hbytes : c'.main.code = Fragment.encode (code.push (.op ⟨.halt, []⟩)) c.code := by
    rw [← hcode]
    rfl
  obtain ⟨row, plan, hplanned, hsize, hitems, hexit⟩ := (hyields.flowing.mono hmain).planned
    (hyields.closed rfl) hw rfl rfl hhalt hbytes
  refine ⟨fragment, row, plan, hchunk, hsound, hgrows, rfl, ?_, hplanned, hsize, fun ins hins => ?_,
    hexit⟩
  · rw [hitems, hcode, Array.toList_push]
  · refine hyields.lasting ins ?_
    rw [List.map_append] at hitems
    rw [← List.append_cancel_right hitems]
    exact List.mem_map_of_mem hins

/-- What compiling a program does to a session. -/
theorem compile_spec (hc : c.Sound) (h : c.compile p = .ok (range, c')) :
    c'.Sound ∧ Grows c.state c'.state ∧ range.start = c.code.size ∧ range.stop = c'.code.size ∧
      ∃ row plan, Planned c'.main range.start (row ++ [⟨.halt, []⟩]) plan ∧
        range.stop = range.start + rowSize (row ++ [⟨.halt, []⟩]) := by
  obtain ⟨-, -, -, rfl, -⟩ := compile_eq_ok h
  obtain ⟨fragment, row, plan, -, hsound, hgrows, -, -, hplanned, hsize, -⟩ := compile_planned hc h
  exact ⟨hsound, hgrows, rfl, rfl, row, plan, hplanned, hsize⟩

/-- What was compiled earlier stays as it is. -/
theorem compile_keeps (hc : c.Sound) (h : c.compile p = .ok (range, c')) :
    Routine.Extends c.main c'.main ∧ ∃ more, c'.main.code = c.main.code ++ more := by
  obtain ⟨-, hgrows, -⟩ := compile_spec hc h
  obtain ⟨scope, rest, hext, -, hscopes⟩ := List.forall₂_cons_left_iff.1 hgrows.scopes
  cases hscopes
  refine ⟨⟨hext.kind, hgrows.constants, size_le_of_getElem? hgrows.names, Nat.le_refl 0,
    hext.locals, fun _ _ h => h⟩, ?_⟩
  obtain ⟨fragment, s, -, -, rfl⟩ := compile_eq_ok h
  refine ⟨(fragment.toList.flatMap Item.encode).toArray, ?_⟩
  apply Array.toList_inj.1
  rw [Array.toList_append]
  exact Fragment.toList_encode fragment c.code

theorem sound_after (hc : c.Sound) (programs : List Program) : (c.after programs).Sound := by
  induction programs generalizing c with
  | nil => exact hc
  | cons p rest ih =>
    rw [after]
    split
    · rename_i range c' hok
      exact ih (compile_spec hc hok).1
    · exact ih hc

/-- Every function among the constants of a session was compiled. -/
theorem Sound.compiled (hc : c.Sound) {g : Routine Value} (hg : .function g ∈ c.main.constants) :
    Compiled g := Ready.compiled hc g hg

end Compiler

/-! ## Reading chunks back -/

/-- Planned code stays so when code and tables grow. -/
theorem Planned.mono {f g : Routine Value} {start : Nat} {row : List Instruction} {p : Plan}
    (h : Planned f start row p) (hext : Routine.Extends f g) {more : Array UInt8}
    (hcode : g.code = f.code ++ more) : Planned g start row p :=
  ⟨hcode ▸ h.bytes.append more, h.items, Plan.FlowsAt.mono hext h.flows, h.entry⟩

theorem HasBytes.extract {code : Array UInt8} {start : Nat} {bytes : List UInt8}
    (h : HasBytes code start bytes) :
    HasBytes (code.extract start (start + bytes.length)) 0 bytes := by
  intro k hk
  rw [Nat.zero_add, Array.getElem?_extract, if_pos, h k hk]
  have := h.le_size (fun hnil => by rw [hnil] at hk; cases hk)
  omega

/-- Reading a planned stretch of code from front to back finds its row of instructions. -/
theorem Planned.sweep_eq {f : Routine Value} {start : Nat} {row : List Instruction} {p : Plan}
    (h : Planned f start row p) (hrow : row ≠ []) :
    f.sweep ⟨start, start + rowSize row⟩ = .ok (offsets start row).toArray := by
  have hbytes := h.bytes.extract
  rw [length_rowBytes] at hbytes
  have hw : ∀ ins ∈ row, ins.WellFormed := by
    intro ins hins
    apply h.flows.wellFormed
    rw [h.items]
    exact List.mem_map_of_mem hins
  have hsize : rowSize row = (f.code.extract start (start + rowSize row)).size := by
    have hne : rowBytes row ≠ [] := by
      obtain ⟨ins, rest, rfl⟩ := List.exists_cons_of_ne_nil hrow
      simp [Instruction.encode]
    have := h.bytes.le_size hne
    rw [length_rowBytes] at this
    rw [Array.size_extract]
    omega
  have hfound := sweep_of_eq (decodes_of_hasBytes hbytes hw) hsize
  unfold Routine.sweep
  dsimp only
  rw [hfound]
  dsimp only
  rw [List.map_toArray, offsets_shift, Nat.add_zero]

namespace Routine

theorem constantsText_eq_ok (h : Heap) {f : Routine Value} {depth : Nat}
    (hf : ∀ g, Value.function g ∈ f.constants → ∃ text, nestedText h g (depth + 1) = .ok text)
    (places : List Nat) (out : String) : ∃ text, constantsText h f depth places out = .ok text := by
  induction places generalizing out with
  | nil => exact ⟨out, by rw [constantsText]⟩
  | cons i rest ih =>
    rw [constantsText]
    split
    · rename_i g hg
      obtain ⟨text, htext⟩ := hf g (Array.mem_of_getElem? hg)
      rw [htext]
      exact ih _
    · exact ih _

end Routine

theorem Compiled.nestedText_eq_ok (h : Heap) {g : Routine Value} (hg : Compiled g) (depth : Nat) :
    ∃ text, Routine.nestedText h g depth = .ok text := by
  induction hg generalizing depth with
  | @intro g row p _ _ _ hplan hsize _ _ _ ih =>
    have hrow : row ≠ [] := by
      rintro rfl
      have := hplan.entry
      have hitems := hplan.items
      cases p with
      | nil => cases this
      | cons e p => cases hitems
    have hsweep := hplan.sweep_eq hrow
    rw [Nat.zero_add, ← hsize] at hsweep
    rw [Routine.nestedText, Routine.range, hsweep]
    exact Routine.constantsText_eq_ok h (fun k hk => ih k hk (depth + 1)) _ _

/-! ## Chunks are accepted -/

namespace Compiler

variable {c c' : Compiler} {p : Program} {range : CodeRange}

/-- The verifier accepts what has been compiled. -/
theorem verifyChunk_eq_ok (hc : c.Sound) (h : c.compile p = .ok (range, c')) :
    verifyChunk c'.main range = .ok () := by
  obtain ⟨hc', -, -, hsize, row, plan, hplanned, hstop⟩ := compile_spec hc h
  have hlast : c'.main.code[range.stop - 1]? = some (Opcode.byte .halt) := by
    have hbytes := hplanned.bytes
    rw [rowBytes_append] at hbytes
    have hhead := HasBytes.head hbytes.right
    rw [length_rowBytes] at hhead
    rw [hstop, rowSize_append]
    exact hhead
  have hcode := hplanned.verifyCode_eq_ok fun g hg => (hc'.compiled hg).verifyCode_eq_ok
  rw [← hstop] at hcode
  unfold verifyChunk
  rw [if_neg, if_pos hlast, hcode]
  rw [rowSize_append] at hstop
  have hone : rowSize [⟨.halt, []⟩] = 1 := rfl
  have hmain : c'.main.code.size = range.stop := hsize.symm
  simp only [hmain, Bool.or_eq_true, decide_eq_true_eq]
  omega

/-- Reading a chunk from front to back finds instructions that tile it; the last one is `HALT`. -/
theorem sweep_tiles (hc : c.Sound) (h : c.compile p = .ok (range, c')) :
    ∃ code front, c'.main.sweep range = .ok code ∧ Tiling range.start range.stop code.toList ∧
      code.toList = front ++ [(range.stop - 1, ⟨.halt, []⟩)] := by
  obtain ⟨-, -, -, -, row, plan, hplanned, hstop⟩ := compile_spec hc h
  have hsweep := hplanned.sweep_eq (by simp)
  rw [← hstop] at hsweep
  refine ⟨_, offsets range.start row, hsweep, ?_, ?_⟩
  · rw [hstop]
    exact tiling_offsets range.start (row ++ [⟨.halt, []⟩])
  · rw [offsets_append, hstop, rowSize_append]
    rfl

/-- A chunk can be written out as text. -/
theorem disassembleRange_eq_ok (hc : c.Sound) (h : c.compile p = .ok (range, c')) (heap : Heap) :
    ∃ text, c'.main.disassembleRange heap range = .ok text := by
  obtain ⟨hc', -, -, -, row, plan, hplanned, hstop⟩ := compile_spec hc h
  have hsweep := hplanned.sweep_eq (by simp)
  rw [← hstop] at hsweep
  rw [Routine.disassembleRange, hsweep]
  exact Routine.constantsText_eq_ok heap
    (fun g hg => (hc'.compiled hg).nestedText_eq_ok heap 1) _ _

end Compiler

end Ember
