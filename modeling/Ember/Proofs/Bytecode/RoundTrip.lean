import Ember.Proofs.Bytecode.Tiling

/-! Writing and reading instructions are inverse to each other. What is written is read back
wherever it stands, what is read is written back as the bytes it was read from, and reading a
stretch of code from front to back finds instructions without gaps, up to its end or to the first
fault. -/
namespace Ember
set_option autoImplicit false

/-! ## Bytes that were read -/

namespace HasBytes

variable {code : Array UInt8} {pos : Nat} {bytes more : List UInt8}

theorem of_append (h : HasBytes code pos bytes) (hmore : HasBytes code (pos + bytes.length) more) :
    HasBytes code pos (bytes ++ more) := by
  intro k hk
  rw [List.length_append] at hk
  by_cases hlt : k < bytes.length
  · rw [List.getElem?_append_left hlt]
    exact h k hlt
  · rw [List.getElem?_append_right (by omega), ← hmore (k - bytes.length) (by omega)]
    congr 1
    omega

theorem cons {b : UInt8} (hb : code[pos]? = some b) (h : HasBytes code (pos + 1) bytes) :
    HasBytes code pos (b :: bytes) := by
  have hfirst : HasBytes code pos [b] := by
    intro k hk
    obtain rfl : k = 0 := Nat.lt_one_iff.1 hk
    exact hb
  exact hfirst.of_append h

/-- Bytes that the code holds are a part of it. -/
theorem extract_eq (h : HasBytes code pos bytes) :
    (code.extract pos (pos + bytes.length)).toList = bytes := by
  apply List.ext_getElem?
  intro k
  rw [Array.getElem?_toList, Array.getElem?_extract]
  by_cases hk : k < bytes.length
  · have hsize := h.le_size (List.ne_nil_of_length_pos (Nat.zero_lt_of_lt hk))
    rw [if_pos (by omega), h k hk]
  · rw [if_neg (by omega), List.getElem?_eq_none (by omega)]

end HasBytes

theorem readBigEndian_lt (code : Array UInt8) (pos width : Nat) :
    readBigEndian code pos width < 256 ^ width := by
  induction width with
  | zero => exact Nat.one_pos
  | succ width ih =>
    have hbyte := (code.getD (pos + width) 0).toNat_lt
    rw [readBigEndian, Nat.pow_succ]
    omega

/-- A number is written back as the bytes it was read from. -/
theorem hasBytes_bigEndian {code : Array UInt8} {pos width : Nat} (h : pos + width ≤ code.size) :
    HasBytes code pos (bigEndian width (readBigEndian code pos width)) := by
  induction width with
  | zero => exact .nil
  | succ width ih =>
    have hbyte : code[pos + width]? = some (code.getD (pos + width) 0) := by
      rw [Array.getD_eq_getD_getElem?, Array.getElem?_eq_getElem (by omega), Option.getD_some]
    have hlt := (code.getD (pos + width) 0).toNat_lt
    have hhigh : readBigEndian code pos (width + 1) / 256 = readBigEndian code pos width := by
      rw [readBigEndian]
      omega
    have hlow : UInt8.ofNat (readBigEndian code pos (width + 1)) = code.getD (pos + width) 0 := by
      rw [readBigEndian, UInt8.ofNat_add, UInt8.ofNat_mul, UInt8.ofNat_toNat,
        show UInt8.ofNat 256 = 0 from rfl, UInt8.mul_zero, UInt8.zero_add]
    rw [bigEndian_succ, hhigh, hlow]
    refine (ih (by omega)).of_append ?_
    rw [length_bigEndian]
    exact .cons hbyte .nil

/-- Operands are written back as the bytes they were read from, and they fit. -/
theorem hasBytes_encodeOperands {code : Array UInt8} {pos : Nat} {widths : List Nat}
    (h : pos + operandBytes widths ≤ code.size) :
    HasBytes code pos (Instruction.encodeOperands widths (readOperands code pos widths)) ∧
      OperandsFit widths (readOperands code pos widths) := by
  induction widths generalizing pos with
  | nil => exact ⟨.nil, trivial⟩
  | cons width widths ih =>
    have hsum : operandBytes (width :: widths) = width + operandBytes widths := rfl
    obtain ⟨hbytes, hfit⟩ := @ih (pos + width) (by omega)
    refine ⟨(hasBytes_bigEndian (by omega)).of_append ?_, readBigEndian_lt code pos width, hfit⟩
    rw [length_bigEndian]
    exact hbytes

namespace Instruction

variable {code : Array UInt8} {pos : Nat} {ins : Instruction}

theorem wellFormed_of_decode (h : decode code pos = .ok ins) : ins.WellFormed := by
  obtain ⟨-, hsize, hoperands, hoperator⟩ := decode_eq_ok h
  have hsum : ins.size = 1 + operandBytes ins.op.widths := rfl
  refine ⟨?_, hoperator⟩
  rw [hoperands]
  exact (hasBytes_encodeOperands (by omega)).2

/-- An instruction is written back as the bytes it was read from. -/
theorem hasBytes_of_decode (h : decode code pos = .ok ins) : HasBytes code pos ins.encode := by
  obtain ⟨hbyte, hsize, hoperands, -⟩ := decode_eq_ok h
  have hsum : ins.size = 1 + operandBytes ins.op.widths := rfl
  refine .cons hbyte ?_
  rw [hoperands]
  exact (hasBytes_encodeOperands (by omega)).1

/-- Instructions are read wherever they stand. -/
theorem WellFormed.decode_between (hw : ins.WellFormed) (before after : Array UInt8) :
    decode (before ++ ins.encode.toArray ++ after) before.size = .ok ins :=
  hw.decode_eq ((HasBytes.append_self before ins.encode).append after)

end Instruction

/-! ## Reading all of the code -/

/-- What has been found when the reading has come to `stop`: instructions without gaps, up to the
end of the code or to the fault. -/
structure Sweep.Found (code : Array UInt8) (start stop : Nat) (found : Array (Nat × Instruction))
    (fault : Option DecodeError) : Prop where
  tiling : Tiling start stop found.toList
  decoded : ∀ e ∈ found, decode code e.1 = .ok e.2
  ended : match fault with
    | none => stop = code.size
    | some e => stop < code.size ∧ decode code stop = .error e

theorem Tiling.push {start stop : Nat} {row : List (Nat × Instruction)} {ins : Instruction}
    (h : Tiling start stop row) : Tiling start (stop + ins.size) (row ++ [(stop, ins)]) := by
  induction row generalizing start with
  | nil =>
    obtain rfl : start = stop := h
    exact ⟨rfl, rfl⟩
  | cons e row ih => exact ⟨h.1, ih h.2⟩

/-- Reading goes on from where it has come, one instruction at a time. -/
theorem sweep_go_found {code : Array UInt8} {pos start : Nat} {found : Array (Nat × Instruction)}
    (hpos : pos ≤ code.size) (htiling : Tiling start pos found.toList)
    (hdecoded : ∀ e ∈ found, decode code e.1 = .ok e.2) :
    ∃ stop, Sweep.Found code start stop (Sweep.go code pos found).instructions
      (Sweep.go code pos found).fault := by
  fun_induction Sweep.go code pos found with
  | case1 pos found hlt ins hins ih =>
    refine ih (Instruction.size_le_of_decode hins) ?_ fun e he => ?_
    · rw [Array.toList_push]
      exact htiling.push
    · rcases Array.mem_push.1 he with he | rfl
      · exact hdecoded e he
      · exact hins
  | case2 pos found hlt fault hfault => exact ⟨pos, htiling, hdecoded, hlt, hfault⟩
  | case3 pos found hge => exact ⟨pos, htiling, hdecoded, by omega⟩

/-! ## Round trips -/

/-- An instruction of any opcode whose operands fit is read back from its bytes between any others,
and whatever is read is written back as the bytes that were read. So reading a row of instructions
from front to back finds the row at its offsets, and reading any code finds instructions without
gaps up to its end or to a single fault. -/
theorem instructions_round_trip :
    (∀ (ins : Instruction) (before after : Array UInt8), ins.WellFormed →
      decode (before ++ ins.encode.toArray ++ after) before.size = .ok ins ∧
        ins.encode.length = ins.size ∧ ins.size = 1 + ins.op.widths.sum) ∧
    (∀ (code : Array UInt8) (pos : Nat) (ins : Instruction), decode code pos = .ok ins →
      ins.WellFormed ∧ (code.extract pos (pos + ins.size)).toList = ins.encode) ∧
    (∀ row : List Instruction, (∀ ins ∈ row, ins.WellFormed) →
      Sweep.of (rowBytes row).toArray = ⟨(offsets 0 row).toArray, none⟩) ∧
    ∀ code : Array UInt8, ∃ stop,
      Sweep.Found code 0 stop (Sweep.of code).instructions (Sweep.of code).fault := by
  refine ⟨fun ins before after hw => ⟨hw.decode_between before after, ins.length_encode, rfl⟩,
    fun code pos ins h => ⟨Instruction.wellFormed_of_decode h, ?_⟩, fun row hw => ?_, fun code =>
      ?_⟩
  · have hbytes := (Instruction.hasBytes_of_decode h).extract_eq
    rwa [ins.length_encode] at hbytes
  · have hbytes := HasBytes.append_self #[] (rowBytes row)
    rw [Array.empty_append] at hbytes
    exact sweep_of_eq (decodes_of_hasBytes hbytes hw) (by simp)
  · exact sweep_go_found (Nat.zero_le _) rfl fun e he => absurd he (Array.not_mem_empty e)

/-- Two operands of two bytes each, between bytes that encode nothing by themselves. -/
theorem instructions_round_trip_between :
    Instruction.WellFormed ⟨.loadClosure, [258, 3]⟩ ∧
      decode #[255, 17, 1, 2, 0, 3, 26] 1 = .ok ⟨.loadClosure, [258, 3]⟩ := by
  have hw : Instruction.WellFormed ⟨.loadClosure, [258, 3]⟩ :=
    ⟨⟨by decide, by decide, trivial⟩, rfl⟩
  exact ⟨hw, (instructions_round_trip.1 ⟨.loadClosure, [258, 3]⟩ #[255] #[26] hw).1⟩

end Ember
