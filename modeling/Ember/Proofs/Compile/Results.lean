import Ember.Proofs.Compile.Splits
import Ember.Proofs.Machine.Stretches

/-! Chunks that end with an expression. The code of the statements before it and the code of the
expression are stretches of their own, and the stack is empty between them; later programs leave
both as they are. -/
namespace Ember
set_option autoImplicit false

open CompileM

/-! ## Stretches -/

section
variable {f : Routine Value} {p : Plan} {exit : Shape} {row : List Instruction} {start : Nat}

/-- Where a plan gives a shape, an item begins or the plan ends. -/
theorem Plan.split_of_shapeAt_exit {exit : Option Shape} {pos : Nat} {s : Shape}
    (h : p.shapeAt exit pos = some s) : ∃ front back : Plan, p = front ++ back ∧
      front.size = pos := by
  induction p generalizing pos with
  | nil =>
    rw [shapeAt] at h
    split at h
    · rename_i hpos
      exact ⟨[], [], rfl, hpos.symm⟩
    · cases h
  | cons e p ih =>
    obtain ⟨item, t⟩ := e
    rw [shapeAt] at h
    split at h
    · rename_i hpos
      exact ⟨[], (item, t) :: p, rfl, hpos.symm⟩
    · split at h
      · cases h
      · obtain ⟨front, back, rfl, hsize⟩ := ih h
        refine ⟨(item, t) :: front, back, rfl, ?_⟩
        rw [size_cons, hsize]
        dsimp only
        omega

/-- Code that flows to its end is a stretch. -/
theorem Plan.Flows.stretch (h : p.Flows f (some exit)) (hitems : p.items = row.map Item.op)
    (hdecodes : Decodes f.code start row) : Stretch f.code start row := by
  refine ⟨hdecodes, fun front ins back hrow hjump => ?_⟩
  have hparts := hitems
  rw [hrow, List.map_append, List.map_cons, Plan.items] at hparts
  obtain ⟨p₁, p₂, hp, hp₁, hp₂⟩ := List.map_eq_append_iff.1 hparts
  obtain ⟨⟨item, s⟩, p₃, rfl, hitem, -⟩ := List.map_eq_cons_iff.1 hp₂
  dsimp only at hitem
  subst hitem
  rw [Plan.Flows, hp] at h
  have hhere := h.item
  rw [← hp, Nat.zero_add, Plan.size_eq_rowSize hp₁] at hhere
  obtain ⟨-, s', -, -, hlands⟩ := hhere
  -- the target has a shape, so an instruction begins there or the stretch ends
  obtain ⟨t, ht, hshape⟩ := hlands hjump
  obtain ⟨q, q', rfl, rfl⟩ := Plan.split_of_shapeAt_exit hshape
  rw [Plan.items_append] at hitems
  obtain ⟨front', back', hrow', hq, -⟩ := List.map_eq_append_iff.1 hitems.symm
  refine ⟨front', back', hrow', ?_⟩
  rw [ht, Plan.size_eq_rowSize hq.symm]

end

theorem Decodes.left {code : Array UInt8} {pos : Nat} {front back : List Instruction}
    (h : Decodes code pos (front ++ back)) : Decodes code pos front := by
  induction front generalizing pos with
  | nil => trivial
  | cons ins front ih => exact ⟨h.1, ih h.2⟩

/-! ## The last expression -/

namespace Compiler

variable {c c' : Compiler} {init : List Stmt} {span : Span} {e : Expr} {range : CodeRange}

/-- The code of a chunk whose last statement is an expression. -/
structure Concludes (main : Routine Value) (start : Nat) (row more : List Instruction)
    (plan : Plan) : Prop where
  planned : Planned main start (row ++ (more ++ [⟨.halt, []⟩])) plan
  between : plan.shapeAt none (rowSize row) = some (.values 0)
  before : Stretch main.code start row
  last : Stretch main.code (start + rowSize row) more
  lasting : ∀ ins ∈ row, ins.op ≠ .halt

theorem compile_concludes (hc : c.Sound)
    (h : c.compile ⟨init ++ [Stmt.expr span e]⟩ = .ok (range, c')) :
    ∃ front s₁ body row more plan,
      compileStmts c.builtins false init #[] c.state = .ok (front, s₁) ∧
      compileExpr c.builtins e s₁ = .ok (body, c'.state) ∧
      front.byteSize = rowSize row ∧ body.byteSize = rowSize more ∧
      Concludes c'.main range.start row more plan := by
  obtain ⟨fragment, all, plan, hchunk, hsound, -, -, hitems, hplanned, -⟩ := compile_planned hc h
  obtain ⟨rfl, -, -⟩ := compile_same h
  rw [compileChunk_append init (List.cons_ne_nil _ _), bind_eq_ok] at hchunk
  obtain ⟨front, s₁, hfront, hchunk⟩ := hchunk
  rw [compileChunk, bind_pure_eq_ok] at hchunk
  obtain ⟨body, hbody, rfl⟩ := hchunk
  obtain ⟨items, hfrontItems, hyields⟩ := compileStmts_runs false init hc hfront
  have hyields' := compileExpr_pushes e hyields.ready hbody 0
  obtain ⟨row, hrow⟩ := (hyields.closed rfl).exists_row
  obtain ⟨more, hmore⟩ := (hyields'.closed rfl).exists_row
  have hmain := extends_main hsound
  have hlast := hyields'.flowing.mono hmain
  have hhalt : Admits c'.main ⟨.halt, []⟩ (.values 1) (.values 1) :=
    ⟨rfl, by rw [kind_main hsound]; rfl, rfl, Nat.zero_le _, rfl⟩
  obtain ⟨p, hp, hflows, hentry⟩ := (hyields.flowing.mono hyields'.grows.draft).mono hmain
  have hw : Instruction.WellFormed ⟨.halt, []⟩ := ⟨trivial, rfl⟩
  obtain ⟨q, hq, hflows', hentry', -⟩ := hlast.finish hw rfl rfl hhalt
  obtain ⟨r, hr, hflows'', -⟩ := hlast
  rw [hrow] at hp
  rw [hmore] at hq hr
  have hsize : p.size = rowSize row := Plan.size_eq_rowSize hp
  have hall : all ++ [⟨.halt, []⟩] = row ++ (more ++ [⟨.halt, []⟩]) := by
    refine List.map_injective_iff.2 (fun _ _ heq => Item.op.inj heq) ?_
    rw [← hitems, List.map_append, List.map_append, ← hrow, ← hmore]
    simp [hfrontItems]
  have hplanned' : Planned c'.main c.code.size (row ++ (more ++ [⟨.halt, []⟩])) (p ++ q) := by
    refine ⟨hall ▸ hplanned.bytes, ?_, hflows.append hflows' hentry', ?_⟩
    · rw [Plan.items_append, hp, hq, List.map_append, List.map_append]
      rfl
    · exact Plan.shapeAt_append_of_eq hentry fun m hm => by cases hm; exact hentry'
  refine ⟨front, s₁, body, row, more, p ++ q, hfront, hbody, ?_, ?_, hplanned', ?_, ?_, ?_,
    fun ins hins => ?_⟩
  · rw [Fragment.byteSize_eq, hfrontItems, List.nil_append, hrow, itemsSize, List.map_map]
    rfl
  · rw [Fragment.byteSize_eq, hmore, itemsSize, List.map_map]
    rfl
  · rw [← hsize]
    exact (Plan.shapeAt_append_add p q none 0).trans hentry'
  · exact hflows.stretch hp hplanned'.decodes.left
  · exact hflows''.stretch hr hplanned'.decodes.right.left
  · refine hyields.lasting ins ?_
    rw [hrow]
    exact List.mem_map_of_mem hins

/-- Code that is added later changes nothing about it. -/
theorem Concludes.mono {f g : Routine Value} {start : Nat} {row more : List Instruction}
    {plan : Plan} (h : Concludes f start row more plan) (hext : Routine.Extends f g)
    {code : Array UInt8} (hcode : g.code = f.code ++ code) :
    Concludes g start row more plan := by
  have hplanned := h.planned.mono hext hcode
  exact ⟨hplanned, h.between, ⟨hplanned.decodes.left, h.before.jumps⟩,
    ⟨hplanned.decodes.right.left, h.last.jumps⟩, h.lasting⟩

/-- All programs that are compiled later leave the code and the tables as they are. -/
theorem after_keeps (hc : c.Sound) (programs : List Program) :
    Routine.Extends c.main (c.after programs).main ∧
      ∃ more, (c.after programs).main.code = c.main.code ++ more := by
  induction programs generalizing c with
  | nil => exact ⟨.refl _, #[], (Array.append_empty).symm⟩
  | cons p rest ih =>
    rw [after]
    split
    · rename_i range c₁ hok
      obtain ⟨hext, more, hcode⟩ := compile_keeps hc hok
      obtain ⟨hext', more', hcode'⟩ := ih (compile_spec hc hok).1
      refine ⟨hext.trans hext', more ++ more', ?_⟩
      rw [hcode', hcode, Array.append_assoc]
    · exact ih hc

end Compiler

end Ember
