import Ember.Proofs.Compile.Flow
import Ember.Proofs.Machine.Calls

/-! Where the outermost code of a run is. Calls leave its place alone, and its own instructions lead
where they say; so it does not leave a stretch of code whose jumps stay inside before it has come to
the end of the stretch. -/
namespace Ember
set_option autoImplicit false

/-! ## The place of the outermost code -/

/-- Where the outermost code goes on: with its next instruction, or when the call that it has made
returns. -/
def Machine.home (m : Machine) : Nat :=
  match m.frames[1]? with
  | some frame => frame.resume
  | none => m.ip

section
variable {m m' : Machine} {offset start : Nat} {ins : Instruction} {main : Routine Value}
  {range : CodeRange} {row : List Instruction}

theorem Machine.home_of_one (h : m.frames.size = 1) : m.home = m.ip := by
  unfold home
  rw [Array.getElem?_eq_none (Nat.le_of_eq h)]

/-- Calls leave the outermost code where it is, and its own instructions lead where they say. -/
theorem Machine.Proceeds.home (h : m.Proceeds offset ins m') :
    (m.frames.size = 1 → (ins.fallsThrough = true ∧ m'.home = offset + ins.size) ∨
      ins.target? offset = some m'.home) ∧
    (1 < m.frames.size → m'.home = m.home) := by
  unfold Machine.home
  cases h with
  | @stays callers _ _ _ _ _ hframes hframes' hresume _ _ _ _ hip =>
    rw [hframes, hframes', Array.size_push, Array.getElem?_push, Array.getElem?_push]
    by_cases hone : 1 = callers.size
    · rw [if_pos hone, if_pos hone]
      exact ⟨fun hzero => by omega, fun _ => hresume⟩
    · rw [if_neg hone, if_neg hone]
      refine ⟨fun hzero => ?_, fun hlt => ?_⟩
      · rw [Array.getElem?_eq_none (by omega)]
        exact hip
      · rw [Array.getElem?_eq_getElem (by omega)]
  | enters hframes hframes' hfalls hresume =>
    rw [hframes', Array.getElem?_push]
    refine ⟨fun hone => ?_, fun hlt => ?_⟩
    · rw [if_pos hone.symm]
      exact .inl ⟨hfalls, hresume⟩
    · rw [if_neg (Nat.ne_of_lt hlt), Array.getElem?_eq_getElem hlt]
  | @leaves callers caller _ _ hframes hframes' _ _ _ hip =>
    have hsize : 0 < (callers.push caller).size := by rw [Array.size_push]; omega
    rw [hframes, hframes']
    generalize callers.push caller = rest at hsize
    rw [Array.size_push, Array.getElem?_push]
    refine ⟨fun hone => by omega, fun _ => ?_⟩
    by_cases hone : 1 = rest.size
    · rw [if_pos hone, Array.getElem?_eq_none (Nat.le_of_eq hone.symm)]
      exact hip
    · rw [if_neg hone, Array.getElem?_eq_getElem (by omega)]

/-- The outermost frame keeps its base. -/
theorem Machine.Proceeds.bottom (h : m.Proceeds offset ins m') :
    m'.frames[0]?.map Frame.base = m.frames[0]?.map Frame.base := by
  cases h with
  | stays hframes hframes' _ hbase =>
    rw [hframes, hframes', Array.getElem?_push, Array.getElem?_push]
    split
    · exact congrArg some hbase
    · rfl
  | enters hframes hframes' =>
    rw [hframes', Array.getElem?_push, if_neg (by rw [hframes, Array.size_push]; omega)]
  | @leaves callers caller _ _ hframes hframes' =>
    have hsize : 0 ≠ (callers.push caller).size := by rw [Array.size_push]; omega
    rw [hframes, hframes']
    generalize callers.push caller = rest at hsize
    rw [Array.getElem?_push, if_neg hsize]

theorem Machine.Foreseen.frames_pos (h : m.Foreseen main range) : 0 < m.frames.size := by
  obtain ⟨⟨frame, callers, hframes, -⟩, -⟩ := h
  rw [hframes, Array.size_push]
  omega

/-- Outside of functions the main function runs. -/
theorem Machine.Foreseen.outermost (h : m.Foreseen main range) (hone : m.frames.size = 1) :
    m.function = main ∧ ∃ frame, m.frames = #[frame] ∧ frame.function = main := by
  obtain ⟨⟨frame, callers, hframes, hfunction, -, hawaits⟩, -⟩ := h
  rw [hframes, Array.size_push] at hone
  obtain rfl : callers = #[] := Array.size_eq_zero_iff.1 (by omega)
  have hmain : frame.function = main := hawaits
  exact ⟨hfunction.trans hmain, frame, hframes, hmain⟩

/-! ## Stretches of code -/

/-- Instructions in a row whose jumps stay among them, or lead to their end. -/
structure Stretch (code : Array UInt8) (start : Nat) (row : List Instruction) : Prop where
  decodes : Decodes code start row
  jumps : ∀ front (ins : Instruction) back, row = front ++ ins :: back → ins.op.isJump = true →
    ∃ front' back', row = front' ++ back' ∧ ins.target? (rowSize front) = some (rowSize front')

/-- The outermost code is in the row, or at its end. -/
def Machine.Inside (m : Machine) (start : Nat) (row : List Instruction) : Prop :=
  ∃ front back, row = front ++ back ∧ m.home = start + rowSize front

theorem isJump_of_target {target : Nat} (h : ins.target? offset = some target) :
    ins.op.isJump = true := by
  unfold Instruction.target? at h
  split at h
  · assumption
  · cases h

namespace Stretch

/-- Outside of functions the next instruction is one of the row, or what follows it. -/
theorem next (h : Stretch main.code start row) (hforeseen : m.Foreseen main range)
    (hinside : m.Inside start row) (hone : m.frames.size = 1) :
    m.ip = start + rowSize row ∨ ∃ front ins back, row = front ++ ins :: back ∧
      m.ip = start + rowSize front ∧ decode m.function.code m.ip = .ok ins := by
  obtain ⟨front, back, hrow, hhome⟩ := hinside
  rw [Machine.home_of_one hone] at hhome
  cases back with
  | nil =>
    rw [List.append_nil] at hrow
    exact .inl (hrow ▸ hhome)
  | cons ins back =>
    refine .inr ⟨front, ins, back, hrow, hhome, ?_⟩
    have hdecodes := h.decodes
    rw [hrow] at hdecodes
    rw [(hforeseen.outermost hone).1, hhome]
    exact hdecodes.decode_eq

/-- A step does not leave the row before it has come to its end. -/
theorem step (h : Stretch main.code start row) (hforeseen : m.Foreseen main range)
    (hinside : m.Inside start row) (hbefore : ¬(m.frames.size = 1 ∧ m.ip = start + rowSize row))
    (hdecoded : decode m.function.code m.ip = .ok ins) (hproceeds : m.Proceeds m.ip ins m') :
    m'.Inside start row := by
  obtain ⟨hleads, hstays⟩ := hproceeds.home
  by_cases hone : m.frames.size = 1
  · rcases h.next hforeseen hinside hone with hend | ⟨front, ins', back, hrow, hip, hdecoded'⟩
    · exact absurd ⟨hone, hend⟩ hbefore
    · cases hdecoded.symm.trans hdecoded'
      rcases hleads hone with ⟨-, hhome⟩ | htarget
      · refine ⟨front ++ [ins], back, by rw [hrow]; simp, ?_⟩
        rw [hhome, hip, rowSize_append, Nat.add_assoc]
        rfl
      · obtain ⟨front', back', hrow', ht⟩ := h.jumps front ins back hrow (isJump_of_target htarget)
        refine ⟨front', back', hrow', ?_⟩
        rw [hip, Instruction.target?_add ht] at htarget
        exact (Option.some.inj htarget).symm
  · have hpos := hforeseen.frames_pos
    obtain ⟨front, back, hrow, hhome⟩ := hinside
    exact ⟨front, back, hrow, (hstays (by omega)).trans hhome⟩

end Stretch

end

end Ember
