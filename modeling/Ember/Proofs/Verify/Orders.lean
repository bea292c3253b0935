import Ember.Verify.Verifier

/-! Checking code in another order. The verifier visits the waiting offsets last in, first out; here
any rule may say which of them is visited next. Each visit that goes on leaves fewer offsets
unreached, or as many and fewer waiting, so every rule comes to an end. -/
namespace Ember
set_option autoImplicit false

/-- A rule that says, from what has been reached so far, in which order the waiting offsets are to
be visited. -/
structure VisitOrder where
  arrange : Routine Value → Heights → List (Nat × Nat) → List (Nat × Nat)
  perm : ∀ f heights pending, (arrange f heights pending).Perm pending

/-- The order in which the offsets wait. -/
def VisitOrder.waiting : VisitOrder := ⟨fun _ _ pending => pending, fun _ _ _ => .refl _⟩

/-- One visit that goes on: of a waiting offset that has been reached with the same height, or of
one that has not been reached. -/
inductive Visits (f : Routine Value) (range : CodeRange) :
    Heights × List (Nat × Nat) → Heights × List (Nat × Nat) → Prop
  | again {heights : Heights} {pending rest : List (Nat × Nat)} {pos height : Nat}
      (hwaits : pending.Perm ((pos, height) :: rest)) (hseen : heights[pos]? = some height) :
      Visits f range (heights, pending) (heights, rest)
  | first {heights : Heights} {pending rest : List (Nat × Nat)} {pos height : Nat}
      {ins : Instruction} {next : List Nat} (hwaits : pending.Perm ((pos, height) :: rest))
      (hseen : heights[pos]? = none)
      (hins : inspect f range pos height = .ok ins)
      (hnext : successors f.name range ins pos = .ok next) :
      Visits f range (heights, pending)
        (heights.insert pos height, next.map (·, height - ins.pops + ins.pushes) ++ rest)

/-- Visits come to an end, whichever of the waiting offsets is visited next, and also where paths go
round. -/
theorem wellFounded_visits (f : Routine Value) (range : CodeRange) :
    WellFounded fun next stage => Visits f range stage next := by
  refine Subrelation.wf (r := InvImage (Prod.Lex (· < ·) (· < ·))
      fun stage : Heights × List (Nat × Nat) => (stage.1.unreached range.stop, stage.2.length))
    ?_ (InvImage.wf _ (Prod.lex Nat.lt_wfRel Nat.lt_wfRel).wf)
  intro next stage h
  cases h with
  | again hwaits =>
    have hlength := hwaits.length_eq
    rw [List.length_cons] at hlength
    exact Prod.Lex.right _ (by dsimp only; omega)
  | @first _ _ _ pos _ ins _ hwaits hseen hins =>
    have hfit := inspect_fits hins
    have := ins.size_pos
    exact Prod.Lex.left _ _ (Heights.unreached_insert_lt (by omega) hseen)

/-- Follows the paths from the given offsets, of which the rule says which comes first. -/
def exploreBy (order : VisitOrder) (f : Routine Value) (range : CodeRange) (heights : Heights)
    (loaded : OrderedMap Nat Unit) (pending : List (Nat × Nat)) : Except VerifyError Exploration :=
  match _harranged : order.arrange f heights pending with
  | [] => .ok ⟨heights, loaded⟩
  | (pos, height) :: rest =>
    match _hseen : heights[pos]? with
    | some seen =>
      if seen = height then exploreBy order f range heights loaded rest
      else .error ⟨f.name, pos, .heightMismatch height seen⟩
    | none =>
      match _hins : inspect f range pos height with
      | .error fault => .error ⟨f.name, pos, fault⟩
      | .ok ins =>
        match successors f.name range ins pos with
        | .error e => .error e
        | .ok next =>
          let loaded := match f.loaded? ins with
            | some i => loaded.insert i ()
            | none => loaded
          exploreBy order f range (heights.insert pos height) loaded
            (next.map (·, height - ins.pops + ins.pushes) ++ rest)
termination_by (heights.unreached range.stop, pending.length)
decreasing_by
  · have hlength := (order.perm f heights pending).length_eq
    rw [_harranged, List.length_cons] at hlength
    exact Prod.Lex.right _ (by omega)
  · have hfit := inspect_fits _hins
    have := ins.size_pos
    exact Prod.Lex.left _ _ (Heights.unreached_insert_lt (by omega) _hseen)

mutual

/-- Checks a stretch of the code of a function, following its paths as the rule says, and the
functions that it loads. -/
def verifyCodeBy (order : VisitOrder) (f : Routine Value) (range : CodeRange) :
    Except VerifyError Unit :=
  match exploreBy order f range ∅ .empty [(range.start, 0)] with
  | .error e => .error e
  | .ok found =>
    match misaligned? f.code found.heights range.stop range.start with
    | some pos => .error ⟨f.name, pos, .insideInstruction⟩
    | none => verifyLoadedBy order f found.loaded.keys.toList
termination_by (sizeOf f, 1, 0)

/-- Checks the functions at the given places among the constants. -/
def verifyLoadedBy (order : VisitOrder) (f : Routine Value) : List Nat → Except VerifyError Unit
  | [] => .ok ()
  | i :: rest =>
    match _h : f.constants[i]? with
    | some (.function g) =>
      match verifyCodeBy order g g.range with
      | .error e => .error e
      | .ok () => verifyLoadedBy order f rest
    | _ => verifyLoadedBy order f rest
termination_by places => (sizeOf f, 0, places.length)
decreasing_by
  · exact Prod.Lex.left _ _ (Routine.sizeOf_lt_of_getElem? _h)
  · exact Prod.Lex.right _ (Prod.Lex.right _ (by simp))
  · exact Prod.Lex.right _ (Prod.Lex.right _ (by simp))

end

/-! ## The order of the verifier -/

section
variable {order : VisitOrder} {f : Routine Value} {range : CodeRange} {heights : Heights}
  {loaded : OrderedMap Nat Unit} {pending : List (Nat × Nat)} {pos height : Nat}

theorem VisitOrder.mem_iff {rest : List (Nat × Nat)}
    (h : order.arrange f heights pending = (pos, height) :: rest) (e : Nat × Nat) :
    e ∈ pending ↔ e = (pos, height) ∨ e ∈ rest := by
  rw [← (order.perm f heights pending).mem_iff, h, List.mem_cons]

theorem VisitOrder.eq_nil (h : order.arrange f heights pending = []) : pending = [] := by
  have hperm := order.perm f heights pending
  rw [h] at hperm
  exact hperm.symm.eq_nil

/-- The next offset that waits is visited. -/
theorem explore_cons (f : Routine Value) (range : CodeRange) (heights : Heights)
    (loaded : OrderedMap Nat Unit) (pos height : Nat) (pending : List (Nat × Nat)) :
    explore f range heights loaded ((pos, height) :: pending) =
      match heights[pos]? with
      | some seen =>
        if seen = height then explore f range heights loaded pending
        else .error ⟨f.name, pos, .heightMismatch height seen⟩
      | none =>
        match inspect f range pos height with
        | .error fault => .error ⟨f.name, pos, fault⟩
        | .ok ins =>
          match successors f.name range ins pos with
          | .error e => .error e
          | .ok next =>
            explore f range (heights.insert pos height)
              (match f.loaded? ins with
                | some i => loaded.insert i ()
                | none => loaded)
              (next.map (·, height - ins.pops + ins.pushes) ++ pending) := by
  rw [explore]
  split
  · rename_i seen hseen
    rw [hseen]
  · rename_i hseen
    rw [hseen]
    dsimp only
    split
    · rename_i fault hins
      rw [hins]
    · rename_i ins hins
      exact hins ▸ rfl

theorem exploreBy_waiting (f : Routine Value) (range : CodeRange) (heights : Heights)
    (loaded : OrderedMap Nat Unit) (pending : List (Nat × Nat)) :
    exploreBy .waiting f range heights loaded pending = explore f range heights loaded pending := by
  fun_induction exploreBy VisitOrder.waiting f range heights loaded pending with
  | case1 heights loaded pending hnone =>
    obtain rfl : pending = [] := hnone
    rw [explore]
  | case2 heights loaded pending pos rest seen hseen hwaits ih =>
    obtain rfl : pending = (pos, seen) :: rest := hwaits
    rw [explore_cons, hseen, ih]
    dsimp only
    rw [if_pos rfl]
  | case3 heights loaded pending pos height rest hwaits seen hseen hne =>
    obtain rfl : pending = (pos, height) :: rest := hwaits
    rw [explore_cons, hseen]
    dsimp only
    rw [if_neg hne]
  | case4 heights loaded pending pos height rest hwaits hseen fault hins =>
    obtain rfl : pending = (pos, height) :: rest := hwaits
    rw [explore_cons, hseen]
    dsimp only
    rw [hins]
  | case5 heights loaded pending pos height rest hwaits hseen ins hins e hnext =>
    obtain rfl : pending = (pos, height) :: rest := hwaits
    rw [explore_cons, hseen]
    dsimp only
    rw [hins]
    dsimp only
    rw [hnext]
  | case6 heights loaded pending pos height rest hwaits hseen ins hins next hnext loaded' ih =>
    obtain rfl : pending = (pos, height) :: rest := hwaits
    rw [explore_cons, hseen, ih]
    dsimp only
    rw [hins]
    dsimp only
    rw [hnext]

theorem verifyLoadedBy_waiting (f : Routine Value) (places : List Nat)
    (hg : ∀ (i : Nat) g, f.constants[i]? = some (.function g) →
      verifyCodeBy .waiting g g.range = verifyCode g g.range) :
    verifyLoadedBy .waiting f places = verifyLoaded f places := by
  induction places with
  | nil => rw [verifyLoadedBy, verifyLoaded]
  | cons i rest ih =>
    rw [verifyLoaded]
    split
    · rename_i g hi
      rw [verifyLoadedBy]
      split
      · rename_i g' hi'
        cases hi.symm.trans hi'
        rw [hg i g hi]
        cases verifyCode g g.range with
        | error e => rfl
        | ok u => exact ih
      · rename_i hno
        exact absurd hi (hno g)
    · rename_i hno
      rw [verifyLoadedBy]
      split
      · rename_i g hi
        exact absurd hi (hno g)
      · exact ih

/-- The verifier is the one that follows the paths as their offsets wait. -/
theorem verifyCodeBy_waiting (f : Routine Value) (range : CodeRange) :
    verifyCodeBy .waiting f range = verifyCode f range := by
  rw [verifyCodeBy, verifyCode, exploreBy_waiting]
  cases explore f range ∅ .empty [(range.start, 0)] with
  | error e => rfl
  | ok found =>
    dsimp only
    cases misaligned? f.code found.heights range.stop range.start with
    | some pos => rfl
    | none => exact verifyLoadedBy_waiting f _ fun i g hi => verifyCodeBy_waiting g g.range
termination_by sizeOf f
decreasing_by exact Routine.sizeOf_lt_of_getElem? hi

end

end Ember
