import Ember.Proofs.Bytecode.Encoding
import Ember.Proofs.OrderedMap
import Ember.Proofs.Verify.Orders

/-! What following all paths finds. `Agree` says, without a worklist, that heights of the stack fit
together: every offset that has one holds an instruction that may stand there, and each place where
a run may go on has the height that the instruction leaves. The exploration succeeds if there are
such heights (`exploreBy_complete`), and what it records are such heights (`exploreBy_sound`), in
whatever order it visits the offsets that wait. -/
namespace Ember
set_option autoImplicit false

/-- The height of the stack after an instruction. -/
def Instruction.heightAfter (ins : Instruction) (height : Nat) : Nat :=
  height - ins.pops + ins.pushes

/-- Heights of the stack at offsets of a stretch of code that agree along every path from its
start. -/
structure Agree (f : Routine Value) (range : CodeRange) (heights : Nat → Option Nat) : Prop where
  start : heights range.start = some 0
  visit : ∀ pos h, heights pos = some h → ∃ ins next, inspect f range pos h = .ok ins ∧
    successors f.name range ins pos = .ok next ∧
    ∀ q ∈ next, heights q = some (ins.heightAfter h)

/-! ## One instruction -/

section
variable {f : Routine Value} {range : CodeRange} {pos height : Nat} {ins : Instruction}

/-- What an instruction that passes has been checked for. -/
theorem inspect_eq_ok_iff : inspect f range pos height = .ok ins ↔
    decode f.code pos = .ok ins ∧ pos + ins.size ≤ range.stop ∧
      checkOperands f ins = .ok () ∧ checkPlace f.scope.kind ins.op = .ok () ∧
      ins.pops ≤ height := by
  unfold inspect
  constructor
  · intro h
    split at h
    · cases h
    · rename_i ins' hdec
      split at h
      · cases h
      · split at h
        · cases h
        · split at h
          · cases h
          · split at h
            · cases h
            · cases h
              exact ⟨hdec, by omega, by assumption, by assumption, by omega⟩
  · rintro ⟨hdec, hfit, hops, hplace, hpops⟩
    rw [hdec]
    simp only [hops, hplace]
    rw [if_neg (by omega), if_neg (by omega)]

/-- Where a run goes on after an instruction that passes: at the next one if it falls through, and
at its target if it jumps. -/
theorem mem_successors {name : String} {next : List Nat} {q : Nat}
    (h : successors name range ins pos = .ok next) (hq : q ∈ next) :
    (ins.fallsThrough = true ∧ q = pos + ins.size ∧ q < range.stop) ∨
      (ins.op.isJump = true ∧ ins.target? pos = some q ∧ range.contains q = true) := by
  have target : ∀ ts, targets range ins pos = .ok ts → q ∈ ts →
      ins.op.isJump = true ∧ ins.target? pos = some q ∧ range.contains q = true := by
    intro ts hts hmem
    unfold targets at hts
    split at hts
    · rename_i hjump
      split at hts
      · split at hts
        · cases hts
          rw [List.mem_singleton] at hmem
          subst hmem
          exact ⟨hjump, by assumption, by assumption⟩
        · cases hts
      · cases hts
    · cases hts
      cases hmem
  dsimp only [successors] at h
  split at h
  · cases h
  · rename_i ts hts
    split at h
    · rename_i hfalls
      split at h
      · cases h
        rcases List.mem_cons.1 hq with rfl | hq
        · exact Or.inl ⟨hfalls, rfl, by assumption⟩
        · exact Or.inr (target ts hts hq)
      · cases h
    · cases h
      exact Or.inr (target _ hts hq)

/-- An instruction whose next instruction and target lie in the code passes. -/
theorem successors_eq_ok (name : String)
    (hfalls : ins.fallsThrough = true → pos + ins.size < range.stop)
    (hjump : ins.op.isJump = true → ∃ t, ins.target? pos = some t ∧ range.contains t = true) :
    ∃ next, successors name range ins pos = .ok next := by
  have htargets : ∃ ts, targets range ins pos = .ok ts := by
    unfold targets
    split
    · rename_i hj
      obtain ⟨t, ht, hin⟩ := hjump hj
      rw [ht]
      simp only [hin]
      exact ⟨_, rfl⟩
    · exact ⟨_, rfl⟩
  obtain ⟨ts, hts⟩ := htargets
  unfold successors
  rw [hts]
  dsimp only
  split
  · rw [if_pos (hfalls (by assumption))]
    exact ⟨_, rfl⟩
  · exact ⟨_, rfl⟩

theorem falls_mem_successors {name : String} {next : List Nat}
    (h : successors name range ins pos = .ok next) (hfalls : ins.fallsThrough = true) :
    pos + ins.size ∈ next := by
  dsimp only [successors] at h
  split at h
  · cases h
  · rw [if_pos hfalls] at h
    split at h
    · cases h
      exact List.mem_cons_self
    · cases h

theorem exists_target {name : String} {next : List Nat}
    (h : successors name range ins pos = .ok next) (hjump : ins.op.isJump = true) :
    ∃ t, ins.target? pos = some t := by
  cases ht : ins.target? pos with
  | some t => exact ⟨t, rfl⟩
  | none =>
    rw [successors, targets, if_pos hjump, ht] at h
    cases h

theorem target_mem_successors {name : String} {next : List Nat} {t : Nat}
    (h : successors name range ins pos = .ok next) (hjump : ins.op.isJump = true)
    (ht : ins.target? pos = some t) : t ∈ next := by
  have htargets : ∀ ts, targets range ins pos = .ok ts → t ∈ ts := by
    intro ts hts
    unfold targets at hts
    rw [if_pos hjump, ht] at hts
    dsimp only at hts
    split at hts
    · cases hts
      exact List.mem_singleton.2 rfl
    · cases hts
  dsimp only [successors] at h
  split at h
  · cases h
  · rename_i ts hts
    split at h
    · split at h
      · cases h
        exact List.mem_cons_of_mem _ (htargets ts hts)
      · cases h
    · cases h
      exact htargets _ hts

end

/-! ## All paths -/

section
variable {f : Routine Value} {range : CodeRange}

/-- Where there are heights that agree, the exploration ends well and stays within them. -/
theorem exploreBy_complete (order : VisitOrder) {H : Nat → Option Nat} (hH : Agree f range H)
    (heights : Heights) (loaded : OrderedMap Nat Unit) (pending : List (Nat × Nat))
    (hseen : ∀ pos h : Nat, heights[pos]? = some h → H pos = some h)
    (hpending : ∀ e ∈ pending, H e.1 = some e.2) :
    ∃ found, exploreBy order f range heights loaded pending = .ok found ∧
      ∀ pos h : Nat, found.heights[pos]? = some h → H pos = some h := by
  have harranged : ∀ {heights : Heights} {pending rest : List (Nat × Nat)} {pos height : Nat},
      order.arrange f heights pending = (pos, height) :: rest → (∀ e ∈ pending, H e.1 = some e.2) →
      H pos = some height ∧ ∀ e ∈ rest, H e.1 = some e.2 :=
    fun h hpending => ⟨hpending _ ((VisitOrder.mem_iff h _).2 (.inl rfl)),
      fun e he => hpending e ((VisitOrder.mem_iff h e).2 (.inr he))⟩
  fun_induction exploreBy order f range heights loaded pending with
  | case1 heights loaded => exact ⟨_, rfl, hseen⟩
  | case2 heights loaded pending pos rest seen hpos hwaits ih =>
    exact ih hseen (harranged hwaits hpending).2
  | case3 heights loaded pending pos height rest hwaits seen hpos hne =>
    have h₁ := hseen pos seen hpos
    rw [(harranged hwaits hpending).1] at h₁
    exact absurd (Option.some.inj h₁).symm hne
  | case4 heights loaded pending pos height rest hwaits hpos fault hins =>
    obtain ⟨ins, _, hok, _⟩ := hH.visit pos height (harranged hwaits hpending).1
    rw [hins] at hok
    cases hok
  | case5 heights loaded pending pos height rest hwaits hpos ins hins e hnext =>
    obtain ⟨ins', _, hok, hsucc, _⟩ := hH.visit pos height (harranged hwaits hpending).1
    rw [hins] at hok
    cases hok
    rw [hnext] at hsucc
    cases hsucc
  | case6 heights loaded pending pos height rest hwaits hpos ins hins next hnext loaded' ih =>
    obtain ⟨hhere, hrest⟩ := harranged hwaits hpending
    obtain ⟨ins', next', hok, hsucc, hall⟩ := hH.visit pos height hhere
    rw [hins] at hok
    cases hok
    rw [hnext] at hsucc
    cases hsucc
    refine ih ?_ ?_
    · intro p h hp
      rw [Std.HashMap.getElem?_insert] at hp
      split at hp
      · rename_i heq
        have hpp : pos = p := by simpa using heq
        cases hp
        exact hpp ▸ hhere
      · exact hseen p h hp
    · intro e he
      rcases List.mem_append.1 he with he | he
      · obtain ⟨q, hq, rfl⟩ := List.mem_map.1 he
        exact hall q hq
      · exact hrest e he

theorem explore_complete {H : Nat → Option Nat} (hH : Agree f range H) (heights : Heights)
    (loaded : OrderedMap Nat Unit) (pending : List (Nat × Nat))
    (hseen : ∀ pos h : Nat, heights[pos]? = some h → H pos = some h)
    (hpending : ∀ e ∈ pending, H e.1 = some e.2) :
    ∃ found, explore f range heights loaded pending = .ok found ∧
      ∀ pos h : Nat, found.heights[pos]? = some h → H pos = some h :=
  exploreBy_waiting f range heights loaded pending ▸
    exploreBy_complete .waiting hH heights loaded pending hseen hpending

/-- What holds while paths are followed: each offset that has been reached has been checked, its
successors have been reached or are waiting, and the functions it loads are listed. -/
structure Explored (f : Routine Value) (range : CodeRange) (heights : Heights)
    (loaded : OrderedMap Nat Unit) (pending : List (Nat × Nat)) : Prop where
  visit : ∀ pos h : Nat, heights[pos]? = some h → ∃ ins next, inspect f range pos h = .ok ins ∧
    successors f.name range ins pos = .ok next ∧
    ∀ q ∈ next, heights[q]? = some (ins.heightAfter h) ∨ (q, ins.heightAfter h) ∈ pending
  listed : ∀ (pos h : Nat) (ins : Instruction) (i : Nat), heights[pos]? = some h →
    inspect f range pos h = .ok ins → f.loaded? ins = some i → i ∈ loaded.keys

theorem Explored.start (f : Routine Value) (range : CodeRange) (pending : List (Nat × Nat)) :
    Explored f range ∅ .empty pending := by
  constructor <;> simp

/-- Reaching an offset for the first time. -/
theorem Explored.visited {heights : Heights} {loaded loaded' : OrderedMap Nat Unit}
    {pending : List (Nat × Nat)} {pos height : Nat} {ins : Instruction} {next : List Nat}
    (h : Explored f range heights loaded ((pos, height) :: pending))
    (hnew : heights[pos]? = none) (hins : inspect f range pos height = .ok ins)
    (hnext : successors f.name range ins pos = .ok next)
    (hloaded : ∀ i, i ∈ loaded.keys → i ∈ loaded'.keys)
    (hhere : ∀ i, f.loaded? ins = some i → i ∈ loaded'.keys) :
    Explored f range (heights.insert pos height) loaded'
      (next.map (·, ins.heightAfter height) ++ pending) := by
  have hold : ∀ p h' : Nat, heights[p]? = some h' → (heights.insert pos height)[p]? = some h' := by
    intro p h' hp
    rw [Std.HashMap.getElem?_insert, if_neg, hp]
    intro heq
    have : pos = p := by simpa using heq
    subst this
    rw [hnew] at hp
    cases hp
  have hsame : (heights.insert pos height)[pos]? = some height := by simp
  have hsplit : ∀ p h' : Nat, (heights.insert pos height)[p]? = some h' →
      (p = pos ∧ h' = height) ∨ heights[p]? = some h' := by
    intro p h' hp
    rw [Std.HashMap.getElem?_insert] at hp
    split at hp
    · rename_i heq
      have : pos = p := by simpa using heq
      cases hp
      exact Or.inl ⟨this.symm, rfl⟩
    · exact Or.inr hp
  constructor
  · intro p h' hp
    rcases hsplit p h' hp with ⟨rfl, rfl⟩ | hp
    · exact ⟨ins, next, hins, hnext, fun q hq =>
        Or.inr (List.mem_append_left _ (List.mem_map.2 ⟨q, hq, rfl⟩))⟩
    · obtain ⟨ins', next', hins', hnext', hall⟩ := h.visit p h' hp
      refine ⟨ins', next', hins', hnext', fun q hq => ?_⟩
      rcases hall q hq with hq | hq
      · exact Or.inl (hold _ _ hq)
      · rcases List.mem_cons.1 hq with hq | hq
        · cases hq
          exact Or.inl hsame
        · exact Or.inr (List.mem_append_right _ hq)
  · intro p h' ins' i hp hins' hi
    rcases hsplit p h' hp with ⟨rfl, rfl⟩ | hp
    · rw [hins] at hins'
      cases hins'
      exact hhere i hi
    · exact hloaded i (h.listed p h' ins' i hp hins' hi)

/-- What waits may wait in any order, and an offset that has been reached need not wait. -/
theorem Explored.waits {heights : Heights} {loaded : OrderedMap Nat Unit}
    {pending pending' : List (Nat × Nat)} (h : Explored f range heights loaded pending)
    (hpending : ∀ e ∈ pending, heights[e.1]? = some e.2 ∨ e ∈ pending') :
    Explored f range heights loaded pending' := by
  refine ⟨fun p h' hp => ?_, h.listed⟩
  obtain ⟨ins, next, hins, hnext, hall⟩ := h.visit p h' hp
  exact ⟨ins, next, hins, hnext, fun q hq => (hall q hq).elim .inl (hpending _)⟩

/-- What the exploration records has been checked, and covers the offsets that it was given. -/
theorem exploreBy_sound (order : VisitOrder) {heights : Heights} {loaded : OrderedMap Nat Unit}
    {pending : List (Nat × Nat)} {found : Exploration}
    (h : Explored f range heights loaded pending)
    (hok : exploreBy order f range heights loaded pending = .ok found) :
    Explored f range found.heights found.loaded [] ∧
      (∀ pos h : Nat, heights[pos]? = some h → found.heights[pos]? = some h) ∧
      ∀ e ∈ pending, found.heights[e.1]? = some e.2 := by
  fun_induction exploreBy order f range heights loaded pending with
  | case1 heights loaded pending hnone =>
    cases hok
    obtain rfl := VisitOrder.eq_nil hnone
    exact ⟨h, fun _ _ hp => hp, fun e he => by cases he⟩
  | case2 heights loaded pending pos rest seen hpos hwaits ih =>
    have h' : Explored f range heights loaded rest := by
      refine h.waits fun e he => ?_
      rcases (VisitOrder.mem_iff hwaits e).1 he with rfl | he
      · exact .inl hpos
      · exact .inr he
    obtain ⟨h₁, h₂, h₃⟩ := ih h' hok
    refine ⟨h₁, h₂, fun e he => ?_⟩
    rcases (VisitOrder.mem_iff hwaits e).1 he with rfl | he
    · exact h₂ _ _ hpos
    · exact h₃ e he
  | case3 => cases hok
  | case4 => cases hok
  | case5 => cases hok
  | case6 heights loaded pending pos height rest hwaits hpos ins hins next hnext loaded' ih =>
    have hgrow : ∀ i, i ∈ loaded.keys → i ∈ loaded'.keys := by
      intro i hi
      simp only [loaded']
      split
      · exact OrderedMap.mem_keys_insert.2 (Or.inl hi)
      · exact hi
    have hhere : ∀ i, f.loaded? ins = some i → i ∈ loaded'.keys := by
      intro i hi
      simp only [loaded', hi]
      exact OrderedMap.mem_keys_insert.2 (Or.inr rfl)
    have hcons : Explored f range heights loaded ((pos, height) :: rest) :=
      h.waits fun e he => .inr (List.mem_cons.2 ((VisitOrder.mem_iff hwaits e).1 he))
    obtain ⟨h₁, h₂, h₃⟩ := ih (hcons.visited hpos hins hnext hgrow hhere) hok
    have hsame : found.heights[pos]? = some height := h₂ pos height (by simp)
    refine ⟨h₁, fun p h' hp => ?_, fun e he => ?_⟩
    · refine h₂ p h' ?_
      rw [Std.HashMap.getElem?_insert, if_neg, hp]
      intro heq
      have : pos = p := by simpa using heq
      subst this
      rw [hpos] at hp
      cases hp
    · rcases (VisitOrder.mem_iff hwaits e).1 he with rfl | he
      · exact hsame
      · exact h₃ e (List.mem_append_right _ he)

theorem explore_sound {heights : Heights} {loaded : OrderedMap Nat Unit}
    {pending : List (Nat × Nat)} {found : Exploration}
    (h : Explored f range heights loaded pending)
    (hok : explore f range heights loaded pending = .ok found) :
    Explored f range found.heights found.loaded [] ∧
      (∀ pos h : Nat, heights[pos]? = some h → found.heights[pos]? = some h) ∧
      ∀ e ∈ pending, found.heights[e.1]? = some e.2 :=
  exploreBy_sound .waiting h ((exploreBy_waiting f range heights loaded pending).trans hok)

end

end Ember
