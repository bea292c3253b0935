import Ember.Proofs.Capture.Ledger

/-! What variables hold. A variable has one place, its slot or its cell, whichever way code gets at
it. Each change that an instruction makes to slots, cells and calls is stated as what it does to the
contents of all variables. -/
namespace Ember
set_option autoImplicit false

/-- The slot of the variable in the frame of its call holds the value. -/
def InSlot (active : Array Nat) (frames : Array Frame) (x : Variable) (v : Value) : Prop :=
  ∃ (k : Nat) (frame : Frame), active[k]? = some x.call ∧ frames[k]? = some frame ∧
    frame.locals[x.slot]? = some v

/-- What a variable holds, in its cell if it has one and in its slot otherwise. -/
def Ledger.Contents (L : Ledger) (heap : Heap) (frames : Array Frame) (x : Variable) (v : Value) :
    Prop :=
  (∃ c : Nat, L.owners[c]? = some x ∧ heap.cells[c]? = some v) ∨
    ((∀ c : Nat, L.owners[c]? ≠ some x) ∧ InSlot L.active frames x v)

/-- All variables hold what they held. -/
def SameContents (L : Ledger) (m : Machine) (L' : Ledger) (m' : Machine) : Prop :=
  ∀ x v, L'.Contents m'.heap m'.frames x v ↔ L.Contents m.heap m.frames x v

/-- One variable has been given a value, and all others hold what they held. -/
def SetsContents (L : Ledger) (m : Machine) (L' : Ledger) (m' : Machine) (x : Variable)
    (v : Value) : Prop :=
  ∀ y w, L'.Contents m'.heap m'.frames y w ↔ if y = x then w = v else L.Contents m.heap m.frames y w

section
variable {L L' : Ledger} {heap heap' : Heap} {globals : Globals}
  {callers frames frames' : Array Frame} {frame : Frame} {older : Array Nat} {a i : Nat}
  {v w : Value} {x : Variable}

/-! ## One place for each variable -/

/-- Calls that have begun earlier have their slots in the frames below. -/
theorem inSlot_push (hsize : older.size = callers.size) :
    InSlot (older.push a) (callers.push frame) x v ↔
      InSlot older callers x v ∨ (x.call = a ∧ frame.locals[x.slot]? = some v) := by
  constructor
  · rintro ⟨k, f, hactive, hframe, hslot⟩
    rcases getElem?_push_cases hactive with ⟨hk, hactive⟩ | ⟨hk, hcall⟩
    · rcases getElem?_push_cases hframe with ⟨-, hframe⟩ | ⟨hk', -⟩
      · exact .inl ⟨k, f, hactive, hframe, hslot⟩
      · omega
    · rw [hk, hsize, Array.getElem?_push_size] at hframe
      cases hframe
      exact .inr ⟨hcall, hslot⟩
  · rintro (⟨k, f, hactive, hframe, hslot⟩ | ⟨hcall, hslot⟩)
    · exact ⟨k, f, getElem?_push_of_some hactive _, getElem?_push_of_some hframe _, hslot⟩
    · refine ⟨callers.size, frame, ?_, by simp, hslot⟩
      rw [← hsize, Array.getElem?_push_size, hcall]

/-- The place of the variable is the same, and holds the same. -/
theorem contents_congr (howner : ∀ c : Nat, L'.owners[c]? = some x ↔ L.owners[c]? = some x)
    (hcell : ∀ c : Nat, L.owners[c]? = some x → heap'.cells[c]? = heap.cells[c]?)
    (hslot : (∀ c : Nat, L.owners[c]? ≠ some x) →
      (InSlot L'.active frames' x v ↔ InSlot L.active frames x v)) :
    L'.Contents heap' frames' x v ↔ L.Contents heap frames x v := by
  unfold Ledger.Contents
  simp only [howner, ne_eq]
  refine or_congr (exists_congr fun c => and_congr_right fun hc => ?_) (and_congr_right hslot)
  rw [hcell c hc]

/-- A variable that has a cell is in it. -/
theorem contents_iff_of_owner (hstore : Store L heap globals) {c : Nat}
    (howner : L.owners[c]? = some x) :
    L.Contents heap' frames x v ↔ heap'.cells[c]? = some v := by
  constructor
  · rintro (⟨c', howner', hcell⟩ | ⟨hfree, -⟩)
    · rwa [hstore.distinct c c' x howner howner']
    · exact absurd howner (hfree c)
  · exact fun hcell => .inl ⟨c, howner, hcell⟩

theorem contents_cell (hstore : Store L heap globals) {c : CellRef}
    (howner : L.owners[c.index]? = some x) : L.Contents heap frames x (heap.cell c) := by
  have hlt : c.index < heap.cells.size := by
    rw [← hstore.size]
    exact (Array.getElem?_eq_some_iff.1 howner).1
  refine (contents_iff_of_owner hstore howner).2 ?_
  rw [Heap.cell, Array.getD_eq_getD_getElem?, Array.getElem?_eq_getElem hlt]
  rfl

/-- A variable of the active call that has no cell is in its slot. -/
theorem contents_iff_of_slot (hcalls : Calls L (callers.push frame))
    (hactive : L.active = older.push a) (hfree : ∀ c : Nat, L.owners[c]? ≠ some ⟨a, i⟩)
    {frame' : Frame} :
    L.Contents heap (callers.push frame') ⟨a, i⟩ v ↔ frame'.locals[i]? = some v := by
  have hsize := hcalls.size_older hactive
  have hbelow : ¬ InSlot older callers ⟨a, i⟩ v := by
    rintro ⟨k, f, hk, -, -⟩
    have hfirst : L.active[k]? = some a := by
      rw [hactive]
      exact getElem?_push_of_some hk _
    have hlast : L.active[older.size]? = some a := by
      rw [hactive, Array.getElem?_push_size]
    have := hcalls.distinct k older.size a hfirst hlast
    have := (Array.getElem?_eq_some_iff.1 hk).1
    omega
  unfold Ledger.Contents
  rw [hactive, inSlot_push hsize]
  constructor
  · rintro (⟨c, hc, -⟩ | ⟨-, h | ⟨-, h⟩⟩)
    · exact absurd hc (hfree c)
    · exact absurd h hbelow
    · exact h
  · exact fun h => .inr ⟨hfree, .inr ⟨rfl, h⟩⟩

theorem contents_unique (hcalls : Calls L frames) (hstore : Store L heap globals)
    (hv : L.Contents heap frames x v) (hw : L.Contents heap frames x w) : v = w := by
  rcases hv with ⟨c, howner, hcell⟩ | ⟨hfree, k, f, hactive, hframe, hslot⟩
  · rw [(contents_iff_of_owner hstore howner).1 hw] at hcell
    exact (Option.some.inj hcell).symm
  · rcases hw with ⟨c, howner, -⟩ | ⟨-, k', f', hactive', hframe', hslot'⟩
    · exact absurd howner (hfree c)
    · rw [hcalls.distinct k k' x.call hactive hactive', hframe'] at hframe
      cases hframe
      rw [hslot] at hslot'
      exact Option.some.inj hslot'

/-! ## Changes -/

/-- Writing to a cell sets the variable that it holds. -/
theorem contents_setCell (hstore : Store L heap globals) {c : CellRef}
    (howner : L.owners[c.index]? = some x) (y : Variable) :
    L.Contents (heap.setCell c v) frames y w ↔
      if y = x then w = v else L.Contents heap frames y w := by
  have hlt : c.index < heap.cells.size := by
    rw [← hstore.size]
    exact (Array.getElem?_eq_some_iff.1 howner).1
  split
  · rename_i hy
    rw [hy, contents_iff_of_owner hstore howner]
    simp only [Heap.setCell, Array.getElem?_setIfInBounds_self_of_lt hlt, Option.some.injEq]
    exact eq_comm
  · rename_i hy
    refine contents_congr (fun _ => Iff.rfl) (fun k hk => ?_) fun _ => Iff.rfl
    refine Array.getElem?_setIfInBounds_ne ?_
    rintro rfl
    rw [howner] at hk
    exact hy (Option.some.inj hk).symm

/-- Writing to a slot that has no cell sets its variable. -/
theorem contents_setLocal (hcalls : Calls L (callers.push frame))
    (hactive : L.active = older.push a) (hi : i < frame.locals.size)
    (hplain : ∀ c, frame.locals[i]? ≠ some (.cell c)) (y : Variable) :
    L.Contents heap (callers.push (frame.setLocal i v)) y w ↔
      if y = ⟨a, i⟩ then w = v else L.Contents heap (callers.push frame) y w := by
  have hfree : ∀ c : Nat, L.owners[c]? ≠ some ⟨a, i⟩ :=
    fun c hc => hplain _ ((hcalls.last hactive).moved i c hc)
  split
  · rename_i hy
    rw [hy, contents_iff_of_slot hcalls hactive hfree]
    simp only [Frame.setLocal, Array.getElem?_setIfInBounds_self_of_lt hi, Option.some.injEq]
    exact eq_comm
  · rename_i hy
    refine contents_congr (fun _ => Iff.rfl) (fun _ _ => rfl) fun _ => ?_
    rw [hactive, inSlot_push (hcalls.size_older hactive), inSlot_push (hcalls.size_older hactive)]
    refine or_congr_right (and_congr_right fun hcall => ?_)
    simp only [Frame.setLocal]
    rw [Array.getElem?_setIfInBounds_ne]
    rintro rfl
    exact hy (by rw [← hcall])

/-- A variable that moves to a new cell takes along what it holds. -/
theorem contents_move (hcalls : Calls L (callers.push frame)) (hactive : L.active = older.push a)
    (hstore : Store L heap globals) (hv : frame.locals[i]? = some v) (hplain : ∀ c, v ≠ .cell c)
    (c : Value) (y : Variable) :
    (L.move i).Contents (heap.newCell v).2 (callers.push (frame.setLocal i c)) y w ↔
      L.Contents heap (callers.push frame) y w := by
  have hfree : ∀ c : Nat, L.owners[c]? ≠ some ⟨a, i⟩ := by
    intro c hc
    have := (hcalls.last hactive).moved i c hc
    rw [hv] at this
    exact hplain _ (Option.some.inj this)
  have howners : (L.move i).owners = L.owners.push ⟨a, i⟩ := by
    rw [Ledger.move, hactive, Array.back?_push]
    rfl
  have hnew : ∀ k : Nat, (L.move i).owners[k]? = some y ↔
      L.owners[k]? = some y ∨ (k = L.owners.size ∧ y = ⟨a, i⟩) := by
    intro k
    rw [howners]
    constructor
    · intro hk
      rcases getElem?_push_cases hk with ⟨-, hk⟩ | hk
      · exact .inl hk
      · exact .inr hk
    · rintro (hk | ⟨rfl, rfl⟩)
      · exact getElem?_push_of_some hk _
      · simp
  by_cases hy : y = ⟨a, i⟩
  · rw [hy, contents_iff_of_slot hcalls hactive hfree, hv]
    unfold Ledger.Contents
    subst hy
    simp only [hnew, ne_eq, hfree, false_or, and_true]
    constructor
    · rintro (⟨c, rfl, hcell⟩ | ⟨hno, -⟩)
      · rw [hstore.size] at hcell
        simpa [Heap.newCell] using hcell
      · exact absurd rfl (hno _)
    · intro hvw
      refine .inl ⟨_, rfl, ?_⟩
      rw [hstore.size]
      simpa [Heap.newCell] using hvw
  · refine contents_congr (fun k => ?_) (fun k hk => ?_) fun _ => ?_
    · rw [hnew]
      simp [hy]
    · have hlt : k < heap.cells.size := by
        rw [← hstore.size]
        exact (Array.getElem?_eq_some_iff.1 hk).1
      exact Array.getElem?_push_lt hlt |>.trans (Array.getElem?_eq_getElem hlt).symm
    · show InSlot L.active _ y w ↔ _
      rw [hactive, inSlot_push (hcalls.size_older hactive),
        inSlot_push (hcalls.size_older hactive)]
      refine or_congr_right (and_congr_right fun hcall => ?_)
      simp only [Frame.setLocal]
      rw [Array.getElem?_setIfInBounds_ne]
      rintro rfl
      exact hy (by rw [← hcall])

/-- A call that begins touches no variable of another one. -/
theorem contents_enter (hcalls : Calls L frames) (f : Routine Value) (callee : Frame)
    (hx : x.call < L.calls.size) :
    (L.enter f).Contents heap (frames.push callee) x v ↔ L.Contents heap frames x v := by
  refine contents_congr (fun _ => Iff.rfl) (fun _ _ => rfl) fun _ => ?_
  rw [Ledger.enter, inSlot_push hcalls.size]
  constructor
  · rintro (h | ⟨hcall, -⟩)
    · exact h
    · omega
  · exact .inl

/-- A call that ends leaves the variables of other calls, and those that have cells. -/
theorem contents_leave (hcalls : Calls L (callers.push frame)) (hactive : L.active = older.push a)
    (hx : x.call ≠ a ∨ x ∈ L.owners) :
    L.leave.Contents heap callers x v ↔ L.Contents heap (callers.push frame) x v := by
  have hleave : L.leave.active = older := by
    rw [Ledger.leave, hactive]
    simp
  refine contents_congr (fun _ => Iff.rfl) (fun _ _ => rfl) fun hfree => ?_
  rw [hleave, hactive, inSlot_push (hcalls.size_older hactive)]
  constructor
  · exact .inl
  · rintro (h | ⟨hcall, -⟩)
    · exact h
    · rcases hx with hx | hx
      · exact absurd hcall hx
      · obtain ⟨c, hc⟩ := Array.mem_iff_getElem?.1 hx
        exact absurd hc (hfree c)

end

end Ember
