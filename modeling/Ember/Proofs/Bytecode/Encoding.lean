import Mathlib.Algebra.Ring.Nat
import Ember.Bytecode.Effect

/-! Reading back what was written. `HasBytes` says that code holds given bytes from an offset on; an
instruction whose operands fit their widths is decoded from its own bytes wherever they stand. -/
namespace Ember
set_option autoImplicit false

/-! ## Bytes in code -/

/-- The code holds the given bytes from `pos` on. -/
def HasBytes (code : Array UInt8) (pos : Nat) (bytes : List UInt8) : Prop :=
  ∀ k, k < bytes.length → code[pos + k]? = bytes[k]?

namespace HasBytes

variable {code : Array UInt8} {pos : Nat} {bytes more : List UInt8}

theorem nil : HasBytes code pos [] := by
  intro k hk
  cases hk

theorem left (h : HasBytes code pos (bytes ++ more)) : HasBytes code pos bytes := by
  intro k hk
  have := h k (by rw [List.length_append]; omega)
  rwa [List.getElem?_append_left hk] at this

theorem right (h : HasBytes code pos (bytes ++ more)) :
    HasBytes code (pos + bytes.length) more := by
  intro k hk
  have := h (bytes.length + k) (by rw [List.length_append]; omega)
  rw [List.getElem?_append_right (Nat.le_add_right _ _), Nat.add_sub_cancel_left] at this
  rwa [Nat.add_assoc]

theorem head {b : UInt8} (h : HasBytes code pos (b :: bytes)) : code[pos]? = some b := by
  have := h 0 (by simp)
  simpa using this

theorem tail {b : UInt8} (h : HasBytes code pos (b :: bytes)) :
    HasBytes code (pos + 1) bytes :=
  right (show HasBytes code pos ([b] ++ bytes) from h)

/-- The bytes lie within the code. -/
theorem le_size (h : HasBytes code pos bytes) (hne : bytes ≠ []) :
    pos + bytes.length ≤ code.size := by
  have hlen : 0 < bytes.length := List.length_pos_iff.2 hne
  have hlast := h (bytes.length - 1) (by omega)
  rw [List.getElem?_eq_getElem (by omega)] at hlast
  have hlt := (Array.getElem?_eq_some_iff.1 hlast).1
  omega

/-- Code that agrees from an offset on holds the same bytes there. -/
theorem of_agree {code' : Array UInt8} {pos' : Nat} (h : HasBytes code pos bytes)
    (hagree : ∀ k, k < bytes.length → code'[pos' + k]? = code[pos + k]?) :
    HasBytes code' pos' bytes := by
  intro k hk
  rw [hagree k hk, h k hk]

theorem append_self (code : Array UInt8) (bytes : List UInt8) :
    HasBytes (code ++ bytes.toArray) code.size bytes := by
  intro k hk
  rw [Array.getElem?_append_right (Nat.le_add_right _ _), Nat.add_sub_cancel_left,
    List.getElem?_toArray]

/-- Bytes keep their place when the code grows. -/
theorem append (h : HasBytes code pos bytes) (more : Array UInt8) :
    HasBytes (code ++ more) pos bytes := by
  by_cases hne : bytes = []
  · subst hne
    exact nil
  · have hle := h.le_size hne
    refine h.of_agree fun k hk => ?_
    rw [Array.getElem?_append_left (by omega)]

end HasBytes

/-! ## Big-endian numbers -/

theorem bigEndian_succ (width value : Nat) :
    bigEndian (width + 1) value = bigEndian width (value / 256) ++ [UInt8.ofNat value] := by
  induction width with
  | zero => simp [bigEndian]
  | succ width ih =>
    have hdiv : value / Nat.pow 256 (width + 1) = value / 256 / Nat.pow 256 width := by
      rw [Nat.div_div_eq_div_mul]
      congr 1
      exact Nat.pow_succ'
    rw [bigEndian, ih, hdiv]
    rfl

theorem readBigEndian_bigEndian (code : Array UInt8) (pos width value : Nat)
    (h : HasBytes code pos (bigEndian width value)) (hlt : value < 256 ^ width) :
    readBigEndian code pos width = value := by
  induction width generalizing value with
  | zero =>
    have : value = 0 := by simpa using hlt
    simp [readBigEndian, this]
  | succ width ih =>
    rw [bigEndian_succ] at h
    have hlow : (code.getD (pos + width) 0).toNat = value % 256 := by
      have hbyte := h.right.head
      rw [length_bigEndian] at hbyte
      rw [Array.getD_eq_getD_getElem?, hbyte]
      simp
    have hhigh : readBigEndian code pos width = value / 256 := by
      refine ih (value / 256) h.left ?_
      rw [Nat.pow_succ] at hlt
      exact Nat.div_lt_of_lt_mul (by omega)
    rw [readBigEndian, hhigh, hlow]
    omega

/-! ## Instructions -/

/-- Operands of the given widths: as many as there are widths, and each fits. -/
def OperandsFit : List Nat → List Nat → Prop
  | [], [] => True
  | width :: widths, value :: values => value < 256 ^ width ∧ OperandsFit widths values
  | _, _ => False

theorem readOperands_encodeOperands (code : Array UInt8) (pos : Nat) (widths values : List Nat)
    (h : HasBytes code pos (Instruction.encodeOperands widths values))
    (hfit : OperandsFit widths values) : readOperands code pos widths = values := by
  induction widths generalizing pos values with
  | nil =>
    cases values with
    | nil => rfl
    | cons value values => exact hfit.elim
  | cons width widths ih =>
    cases values with
    | nil => exact hfit.elim
    | cons value values =>
      obtain ⟨hlt, hrest⟩ := hfit
      have hright := h.right
      rw [length_bigEndian] at hright
      rw [readOperands, readBigEndian_bigEndian code pos width value h.left hlt,
        ih (pos + width) values hright hrest]

namespace Instruction

/-- Instructions that can be written and read back. -/
structure WellFormed (ins : Instruction) : Prop where
  fits : OperandsFit ins.op.widths ins.operands
  operator : ins.hasOperator = true

theorem WellFormed.decode_eq {code : Array UInt8} {pos : Nat} {ins : Instruction}
    (hw : ins.WellFormed) (h : HasBytes code pos ins.encode) : decode code pos = .ok ins := by
  have hsize : pos + ins.op.size ≤ code.size := by
    have := h.le_size (by simp [encode])
    rwa [length_encode] at this
  have hread : readOperands code (pos + 1) ins.op.widths = ins.operands :=
    readOperands_encodeOperands code (pos + 1) _ _ h.tail hw.fits
  have hop := hw.operator
  unfold decode
  rw [h.head]
  simp only [Opcode.ofByte?_byte, hread, if_pos hsize]
  obtain ⟨op, operands⟩ := ins
  simp only at hop ⊢
  rw [if_pos hop]

/-- What is decoded is what the bytes say. -/
theorem decode_eq_ok {code : Array UInt8} {pos : Nat} {ins : Instruction}
    (h : decode code pos = .ok ins) : code[pos]? = some ins.op.byte ∧ pos + ins.size ≤ code.size ∧
      ins.operands = readOperands code (pos + 1) ins.op.widths ∧ ins.hasOperator = true := by
  unfold decode at h
  split at h
  · cases h
  · rename_i byte hbyte
    split at h
    · cases h
    · rename_i op hop
      split at h
      · rename_i hsize
        dsimp only at h
        split at h
        · rename_i hoperator
          cases h
          refine ⟨?_, hsize, rfl, hoperator⟩
          rw [hbyte, Opcode.byte_of_ofByte? hop]
        · cases h
      · cases h

/-- An instruction is decoded only where all its bytes are. -/
theorem size_le_of_decode {code : Array UInt8} {pos : Nat} {ins : Instruction}
    (h : decode code pos = .ok ins) : pos + ins.size ≤ code.size :=
  (decode_eq_ok h).2.1

end Instruction

end Ember
