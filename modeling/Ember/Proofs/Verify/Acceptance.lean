import Ember.Proofs.Bytecode.Tiling
import Ember.Proofs.Verify.Heights

/-! When code is accepted. A stretch of code is accepted just if there are heights that agree, no
offset that has one lies inside an instruction, and the functions that the code loads are
accepted. -/
namespace Ember
set_option autoImplicit false

/-! ## Functions that are loaded -/

theorem verifyLoadedBy_eq_ok_iff {order : VisitOrder} {f : Routine Value} {places : List Nat} :
    verifyLoadedBy order f places = .ok () ↔
      ∀ i ∈ places, ∀ g, f.constants[i]? = some (.function g) →
        verifyCodeBy order g g.range = .ok () := by
  induction places with
  | nil => simp [verifyLoadedBy]
  | cons i rest ih =>
    rw [verifyLoadedBy]
    simp only [List.forall_mem_cons]
    split
    · rename_i g hg
      constructor
      · intro h
        split at h
        · cases h
        · rename_i hcode
          refine ⟨fun g' hg' => ?_, ih.1 h⟩
          rw [hg] at hg'
          cases hg'
          exact hcode
      · rintro ⟨hhere, hrest⟩
        rw [hhere g hg]
        exact ih.2 hrest
    · rename_i hno
      constructor
      · intro h
        exact ⟨fun g hg => absurd hg (hno g), ih.1 h⟩
      · rintro ⟨_, hrest⟩
        exact ih.2 hrest

theorem verifyCodeBy_eq_ok_iff {order : VisitOrder} {f : Routine Value} {range : CodeRange} :
    verifyCodeBy order f range = .ok () ↔
      ∃ found, exploreBy order f range ∅ .empty [(range.start, 0)] = .ok found ∧
        misaligned? f.code found.heights range.stop range.start = none ∧
        ∀ i ∈ found.loaded.keys, ∀ g, f.constants[i]? = some (.function g) →
          verifyCodeBy order g g.range = .ok () := by
  rw [verifyCodeBy]
  constructor
  · intro h
    split at h
    · cases h
    · rename_i found hfound
      split at h
      · cases h
      · rename_i haligned
        refine ⟨found, hfound, haligned, fun i hi => ?_⟩
        exact verifyLoadedBy_eq_ok_iff.1 h i (by simpa using hi)
  · rintro ⟨found, hfound, haligned, hloaded⟩
    rw [hfound]
    dsimp only
    rw [haligned]
    refine verifyLoadedBy_eq_ok_iff.2 fun i hi => hloaded i (by simpa using hi)

theorem verifyCode_eq_ok_iff {f : Routine Value} {range : CodeRange} :
    verifyCode f range = .ok () ↔
      ∃ found, explore f range ∅ .empty [(range.start, 0)] = .ok found ∧
        misaligned? f.code found.heights range.stop range.start = none ∧
        ∀ i ∈ found.loaded.keys, ∀ g, f.constants[i]? = some (.function g) →
          verifyCode g g.range = .ok () := by
  have h := @verifyCodeBy_eq_ok_iff .waiting f range
  simp only [verifyCodeBy_waiting, exploreBy_waiting] at h
  exact h

/-! ## Alignment -/

/-- No offset that has been reached lies inside an instruction of the row. -/
theorem misaligned?_eq_none {code : Array UInt8} {heights : Heights} {pos : Nat}
    {row : List Instruction} (h : Decodes code pos row)
    (hinner : ∀ front ins back, row = front ++ ins :: back → ∀ k, 0 < k → k < ins.size →
      heights.contains (pos + rowSize front + k) = false) :
    misaligned? code heights (pos + rowSize row) pos = none := by
  induction row generalizing pos with
  | nil =>
    rw [misaligned?, if_neg (by simp)]
  | cons ins row ih =>
    obtain ⟨hdec, hrest⟩ := h
    have hlt : pos < pos + rowSize (ins :: row) := by
      have := ins.size_pos
      rw [rowSize_cons]
      omega
    have hnone : (List.range' (pos + 1) (ins.size - 1)).find? heights.contains = none := by
      rw [List.find?_eq_none]
      intro q hq
      obtain ⟨k, hk, rfl⟩ := List.mem_range'.1 hq
      have := hinner [] ins row rfl (1 + k) (by omega) (by omega)
      simp only [rowSize_nil, Nat.add_zero] at this
      rw [show pos + 1 + 1 * k = pos + (1 + k) by omega, this]
      exact Bool.false_ne_true
    rw [misaligned?, if_pos hlt, hdec]
    dsimp only
    rw [hnone, rowSize_cons, ← Nat.add_assoc]
    refine ih hrest fun front i back hrow k hk hki => ?_
    have := hinner (ins :: front) i back (by rw [hrow]; rfl) k hk hki
    rwa [rowSize_cons, ← Nat.add_assoc] at this

/-! ## What the record says -/

/-- The heights that the exploration of a stretch of code records; nothing if it fails. -/
def recordedHeight (f : Routine Value) (range : CodeRange) (pos : Nat) : Option Nat :=
  match explore f range ∅ .empty [(range.start, 0)] with
  | .ok found => found.heights[pos]?
  | .error _ => none

/-- The heights recorded for code that is accepted agree. -/
theorem agree_recordedHeight {f : Routine Value} {range : CodeRange}
    (h : verifyCode f range = .ok ()) : Agree f range (recordedHeight f range) := by
  obtain ⟨found, hfound, -, -⟩ := verifyCode_eq_ok_iff.1 h
  obtain ⟨hexplored, -, hstart⟩ := explore_sound (Explored.start f range _) hfound
  have hrec : ∀ pos, recordedHeight f range pos = found.heights[pos]? := by
    intro pos
    rw [recordedHeight, hfound]
  constructor
  · rw [hrec]
    exact hstart _ List.mem_cons_self
  · intro pos height hpos
    rw [hrec] at hpos
    obtain ⟨ins, next, hins, hnext, hall⟩ := hexplored.visit pos height hpos
    refine ⟨ins, next, hins, hnext, fun q hq => ?_⟩
    rw [hrec]
    rcases hall q hq with hq | hq
    · exact hq
    · cases hq

/-- Nothing is recorded that heights that agree do not say. -/
theorem eq_of_recordedHeight {f : Routine Value} {range : CodeRange} {H : Nat → Option Nat}
    (hH : Agree f range H) {pos height : Nat} (h : recordedHeight f range pos = some height) :
    H pos = some height := by
  obtain ⟨found, hfound, hheights⟩ := explore_complete hH ∅ .empty [(range.start, 0)]
    (fun pos height hpos => by simp at hpos) (fun e he => by
      rw [List.mem_singleton.1 he]
      exact hH.start)
  rw [recordedHeight, hfound] at h
  exact hheights pos height h

/-- A function that is loaded at an offset with a recorded height is accepted. -/
theorem verifyCode_of_loaded {f g : Routine Value} {range : CodeRange} {pos height i : Nat}
    {ins : Instruction} (h : verifyCode f range = .ok ())
    (hpos : recordedHeight f range pos = some height)
    (hins : inspect f range pos height = .ok ins) (hi : f.loaded? ins = some i)
    (hg : f.constants[i]? = some (.function g)) : verifyCode g g.range = .ok () := by
  obtain ⟨found, hfound, -, hloaded⟩ := verifyCode_eq_ok_iff.1 h
  obtain ⟨hexplored, -, -⟩ := explore_sound (Explored.start f range _) hfound
  rw [recordedHeight, hfound] at hpos
  exact hloaded i (hexplored.listed pos height ins i hpos hins hi) g hg

/-- What the verifier has made sure of at an offset with a recorded height. -/
structure Passes (f : Routine Value) (range : CodeRange) (pos height : Nat) (ins : Instruction) :
    Prop where
  decoded : decode f.code pos = .ok ins
  operands : checkOperands f ins = .ok ()
  place : checkPlace f.scope.kind ins.op = .ok ()
  pops : ins.pops ≤ height
  falls : ins.fallsThrough = true →
    recordedHeight f range (pos + ins.size) = some (ins.heightAfter height)
  lands : ins.op.isJump = true → ∃ t, ins.target? pos = some t ∧
    recordedHeight f range t = some (ins.heightAfter height)

theorem exists_passes {f : Routine Value} {range : CodeRange} {pos height : Nat}
    (h : verifyCode f range = .ok ()) (hpos : recordedHeight f range pos = some height) :
    ∃ ins, Passes f range pos height ins := by
  obtain ⟨ins, next, hins, hnext, hall⟩ := (agree_recordedHeight h).visit pos height hpos
  obtain ⟨hdecoded, -, hoperands, hplace, hpops⟩ := inspect_eq_ok_iff.1 hins
  refine ⟨ins, hdecoded, hoperands, hplace, hpops, fun hfalls => ?_, fun hjump => ?_⟩
  · exact hall _ (falls_mem_successors hnext hfalls)
  · obtain ⟨t, ht⟩ := exists_target hnext hjump
    exact ⟨t, ht, hall t (target_mem_successors hnext hjump ht)⟩

end Ember
