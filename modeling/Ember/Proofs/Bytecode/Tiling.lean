import Ember.Proofs.Bytecode.Encoding

/-! Code that is a row of instructions. Reading such code from front to back gives the instructions
of the row, each at the offset where the one before it ends, and nothing else. -/
namespace Ember
set_option autoImplicit false

/-! ## Rows of instructions -/

/-- Instructions in a row from `start` to `stop`, each with its offset. -/
def Tiling : Nat → Nat → List (Nat × Instruction) → Prop
  | start, stop, [] => start = stop
  | start, stop, (offset, ins) :: rest => offset = start ∧ Tiling (start + ins.size) stop rest

/-- How many bytes instructions take in a row. -/
def rowSize (row : List Instruction) : Nat := (row.map Instruction.size).sum

@[simp] theorem rowSize_nil : rowSize [] = 0 := rfl

@[simp] theorem rowSize_cons (ins : Instruction) (row : List Instruction) :
    rowSize (ins :: row) = ins.size + rowSize row := rfl

@[simp] theorem rowSize_append (row more : List Instruction) :
    rowSize (row ++ more) = rowSize row + rowSize more := by
  simp [rowSize]

/-- The instructions of a row, each with its offset. -/
def offsets : Nat → List Instruction → List (Nat × Instruction)
  | _, [] => []
  | pos, ins :: row => (pos, ins) :: offsets (pos + ins.size) row

theorem tiling_offsets (pos : Nat) (row : List Instruction) :
    Tiling pos (pos + rowSize row) (offsets pos row) := by
  induction row generalizing pos with
  | nil => rfl
  | cons ins row ih =>
    refine ⟨rfl, ?_⟩
    have := ih (pos + ins.size)
    rwa [Nat.add_assoc] at this

theorem offsets_append (pos : Nat) (row more : List Instruction) :
    offsets pos (row ++ more) = offsets pos row ++ offsets (pos + rowSize row) more := by
  induction row generalizing pos with
  | nil => rfl
  | cons ins row ih =>
    rw [List.cons_append, offsets, ih, offsets, List.cons_append, rowSize_cons, Nat.add_assoc]

theorem offsets_shift (base pos : Nat) (row : List Instruction) :
    (offsets pos row).map (fun e => (base + e.1, e.2)) = offsets (base + pos) row := by
  induction row generalizing pos with
  | nil => rfl
  | cons ins row ih =>
    rw [offsets, List.map_cons, ih, offsets, Nat.add_assoc]

/-! ## Decoding -/

/-- The bytes of instructions in a row. -/
def rowBytes (row : List Instruction) : List UInt8 := row.flatMap Instruction.encode

@[simp] theorem rowBytes_nil : rowBytes [] = [] := rfl

@[simp] theorem rowBytes_cons (ins : Instruction) (row : List Instruction) :
    rowBytes (ins :: row) = ins.encode ++ rowBytes row := rfl

@[simp] theorem rowBytes_append (row more : List Instruction) :
    rowBytes (row ++ more) = rowBytes row ++ rowBytes more := by
  simp [rowBytes]

@[simp] theorem length_rowBytes (row : List Instruction) :
    (rowBytes row).length = rowSize row := by
  induction row with
  | nil => rfl
  | cons ins row ih => simp [ih]

/-- The code is a row of instructions from `pos` on. -/
def Decodes (code : Array UInt8) : Nat → List Instruction → Prop
  | _, [] => True
  | pos, ins :: row => decode code pos = .ok ins ∧ Decodes code (pos + ins.size) row

theorem decodes_of_hasBytes {code : Array UInt8} {pos : Nat} {row : List Instruction}
    (h : HasBytes code pos (rowBytes row)) (hw : ∀ ins ∈ row, ins.WellFormed) :
    Decodes code pos row := by
  induction row generalizing pos with
  | nil => trivial
  | cons ins row ih =>
    rw [rowBytes_cons] at h
    have hright := h.right
    rw [Instruction.length_encode] at hright
    exact ⟨(hw ins List.mem_cons_self).decode_eq h.left,
      ih hright fun i hi => hw i (List.mem_cons_of_mem _ hi)⟩

/-- What follows a part of the row stands after the bytes of that part. -/
theorem Decodes.right {code : Array UInt8} {pos : Nat} {front back : List Instruction}
    (h : Decodes code pos (front ++ back)) : Decodes code (pos + rowSize front) back := by
  induction front generalizing pos with
  | nil => exact h
  | cons i front ih =>
    rw [rowSize_cons, ← Nat.add_assoc]
    exact ih h.2

theorem Decodes.decode_eq {code : Array UInt8} {pos : Nat} {front back : List Instruction}
    {ins : Instruction} (h : Decodes code pos (front ++ ins :: back)) :
    decode code (pos + rowSize front) = .ok ins := h.right.1

/-- Reading a row that takes all of the code finds the row and no fault. -/
theorem sweep_go_eq {code : Array UInt8} {pos : Nat} {row : List Instruction}
    (h : Decodes code pos row) (hend : pos + rowSize row = code.size)
    (found : Array (Nat × Instruction)) :
    Sweep.go code pos found = ⟨found ++ (offsets pos row).toArray, none⟩ := by
  induction row generalizing pos found with
  | nil =>
    rw [Sweep.go, if_neg (by simp at hend; omega)]
    simp [offsets]
  | cons ins row ih =>
    obtain ⟨hdec, hrest⟩ := h
    have hlt : pos < code.size := by
      have := ins.size_pos
      rw [rowSize_cons] at hend
      omega
    rw [Sweep.go, if_pos hlt, hdec]
    dsimp only
    rw [ih hrest (by rw [← hend, rowSize_cons, Nat.add_assoc])]
    simp [offsets]

theorem sweep_of_eq {code : Array UInt8} {row : List Instruction} (h : Decodes code 0 row)
    (hend : rowSize row = code.size) : Sweep.of code = ⟨(offsets 0 row).toArray, none⟩ := by
  rw [Sweep.of, sweep_go_eq h (by rw [Nat.zero_add, hend])]
  simp

end Ember
