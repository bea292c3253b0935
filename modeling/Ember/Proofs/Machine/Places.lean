import Ember.Proofs.Machine.Calls

/-! Where a run is. Its places are those where its calls go on, innermost first. Whatever code runs,
accepted or not, a step that succeeds goes on in the innermost call, begins a call in it or ends it;
the places of the calls around it stay as they are. So what holds of the places at the start and is
kept by every such move holds as long as the run lasts. -/
namespace Ember
set_option autoImplicit false

/-! ## Places -/

/-- A function, and an offset in its code. -/
abbrev Place : Type := Routine Value × Nat

/-- Where the calls of the frames go on, innermost first: that of the first frame at `ip`, each of
the others where the call before it returns to. -/
def placesOf (ip : Nat) : List Frame → List Place
  | [] => []
  | frame :: callers => (frame.function, ip) :: placesOf frame.resume callers

namespace Machine

def places (m : Machine) : List Place := placesOf m.ip m.frames.toList.reverse

/-- The next instruction is that of the innermost place. -/
def Located (m : Machine) (rest : List Place) : Prop := m.places = (m.function, m.ip) :: rest

/-- Nothing but values may have changed. -/
structure SamePlaces (m m' : Machine) : Prop where
  function : m'.function = m.function
  ip : m'.ip = m.ip
  frames : m'.frames.map (fun f => (f.function, f.resume)) =
    m.frames.map fun f => (f.function, f.resume)

end Machine

/-- Only the functions of the frames and where they return to matter. -/
theorem placesOf_congr {frames frames' : List Frame}
    (h : frames'.map (fun f => (f.function, f.resume)) = frames.map fun f => (f.function, f.resume))
    (ip : Nat) : placesOf ip frames' = placesOf ip frames := by
  induction frames generalizing frames' ip with
  | nil => rw [List.map_eq_nil_iff.1 h]
  | cons frame rest ih =>
    obtain ⟨frame', rest', rfl, hframe, hrest⟩ := List.map_eq_cons_iff.1 h
    obtain ⟨hfunction, hresume⟩ := Prod.mk.inj hframe
    rw [placesOf, placesOf, hfunction, hresume, ih hrest]

theorem length_placesOf (ip : Nat) (frames : List Frame) :
    (placesOf ip frames).length = frames.length := by
  induction frames generalizing ip with
  | nil => rfl
  | cons frame rest ih => rw [placesOf, List.length_cons, List.length_cons, ih]

namespace Machine

variable {m m' m₁ : Machine}

theorem length_places (m : Machine) : m.places.length = m.frames.size := by
  rw [places, length_placesOf, List.length_reverse, Array.length_toList]

theorem SamePlaces.refl (m : Machine) : m.SamePlaces m := ⟨rfl, rfl, rfl⟩

theorem SamePlaces.trans (h : m.SamePlaces m₁) (h' : m₁.SamePlaces m') : m.SamePlaces m' :=
  ⟨h'.function.trans h.function, h'.ip.trans h.ip, h'.frames.trans h.frames⟩

theorem SamePlaces.placesOf_eq (h : m.SamePlaces m') (ip : Nat) :
    placesOf ip m'.frames.toList.reverse = placesOf ip m.frames.toList.reverse := by
  refine placesOf_congr ?_ ip
  have hframes := congrArg Array.toList h.frames
  rw [Array.toList_map, Array.toList_map] at hframes
  rw [List.map_reverse, List.map_reverse, hframes]

end Machine

/-! ## Actions that stay -/

/-- If the action succeeds, the machine is where it was. -/
def Action.Stays {α : Type} (x : Action α) : Prop :=
  ∀ m a m', x m = .ok a m' → m.SamePlaces m'

namespace Action.Stays

variable {α β : Type}

theorem pure (a : α) : Stays (pure a) := by
  intro m b m' h
  cases h
  exact .refl m

theorem throw (fault : Fault) : Stays (throw fault : Action α) := by
  intro m a m' h
  cases h

theorem bind {x : Action α} {k : α → Action β} (hx : Stays x) (hk : ∀ a, Stays (k a)) :
    Stays (x >>= k) := by
  intro m b m' h
  obtain ⟨a, m₁, hfirst, hsecond⟩ := bind_eq_ok h
  exact (hx m a m₁ hfirst).trans (hk a m₁ b m' hsecond)

/-! ### The stack and the heap -/

theorem push (v : Value) : Stays (push v) := by
  intro m a m' h
  cases h
  exact ⟨rfl, rfl, rfl⟩

theorem pop : Stays pop := by
  intro m v m' h
  unfold Action.pop at h
  split at h
  · cases h
    exact ⟨rfl, rfl, rfl⟩
  · cases h

theorem popMany (n : Nat) : Stays (popMany n) := by
  intro m values m' h
  unfold Action.popMany at h
  dsimp only at h
  split at h
  · cases h
  · cases h
    exact ⟨rfl, rfl, rfl⟩

theorem popTwo : Stays popTwo := pop.bind fun _ => pop.bind fun _ => pure _

theorem onHeap (x : OnHeap Fault α) : Stays (onHeap x) := by
  intro m a m' h
  unfold Action.onHeap at h
  dsimp only at h
  split at h
  · cases h
    exact ⟨rfl, rfl, rfl⟩
  · cases h

theorem ask (f : Heap → Except Fault α) : Stays (ask f) := by
  intro m a m' h
  unfold Action.ask at h
  split at h
  · cases h
    exact .refl m
  · cases h

theorem readCell (c : CellRef) : Stays (readCell c) := by
  intro m v m' h
  cases h
  exact .refl m

theorem writeCell (c : CellRef) (v : Value) : Stays (writeCell c v) := by
  intro m a m' h
  cases h
  exact ⟨rfl, rfl, rfl⟩

theorem print (v : Value) : Stays (print v) := by
  intro m a m' h
  cases h
  exact ⟨rfl, rfl, rfl⟩

/-! ### Tables and names -/

theorem constant (i : Nat) : Stays (constant i) := by
  intro m v m' h
  unfold Action.constant at h
  split at h
  · cases h
    exact .refl m
  · cases h

theorem name (i : Nat) : Stays (name i) := by
  intro m n m' h
  unfold Action.name at h
  split at h
  · cases h
    exact .refl m
  · cases h

theorem loadGlobal (n : String) : Stays (loadGlobal n) := by
  intro m v m' h
  unfold Action.loadGlobal at h
  split at h
  · cases h
    exact .refl m
  · cases h

theorem storeGlobal (n : String) (v : Value) : Stays (storeGlobal n v) := by
  intro m a m' h
  cases h
  exact ⟨rfl, rfl, rfl⟩

/-! ### Slots and cells -/

theorem slot (i : Nat) : Stays (slot i) := by
  intro m v m' h
  unfold Action.slot at h
  split at h
  · cases h
  · split at h
    · cases h
      exact .refl m
    · cases h

/-- The frame whose slot is changed is still a frame of the same call. -/
theorem setSlot (i : Nat) (v : Value) : Stays (setSlot i v) := by
  intro m a m' h
  cases h
  refine ⟨rfl, rfl, Array.ext_getElem? fun k => ?_⟩
  rw [Array.getElem?_map, Array.getElem?_map, Array.getElem?_modify]
  split
  · rw [Option.map_map]
    rfl
  · rfl

theorem freeCell (i : Nat) : Stays (freeCell i) := by
  intro m c m' h
  unfold Action.freeCell at h
  split at h
  · cases h
  · split at h
    · cases h
      exact .refl m
    · cases h

theorem loadFast (i : Nat) : Stays (loadFast i) := by
  refine (slot i).bind fun v => ?_
  split
  · exact readCell _
  · exact pure _

theorem storeFast (i : Nat) (v : Value) : Stays (storeFast i v) := by
  refine (slot i).bind fun w => ?_
  split
  · exact writeCell _ v
  · exact setSlot i v

theorem cellOfSlot (i : Nat) : Stays (cellOfSlot i) := by
  refine (slot i).bind fun v => ?_
  split
  · exact pure _
  · exact (onHeap _).bind fun c => (setSlot i _).bind fun _ => pure c

theorem makeCell (i source : Nat) : Stays (makeCell i source) := by
  unfold Action.makeCell
  split
  · exact cellOfSlot i
  · exact freeCell i
  · exact throw _

theorem makeClosure (i count : Nat) : Stays (makeClosure i count) := by
  refine (constant i).bind fun v => ?_
  split
  · exact (popMany count).bind fun values => (ask _).bind fun cells => (onHeap _).bind fun id =>
      pure _
  · exact throw _

theorem callBuiltin (s : Surroundings) (b : Builtin) (args : Array Value) :
    Stays (callBuiltin s b args) := by
  intro m a m' h
  unfold Action.callBuiltin at h
  dsimp only at h
  split at h
  · cases h
  · cases h
    exact ⟨rfl, rfl, rfl⟩

end Action.Stays

/-! ## Moves -/

/-- The places after an instruction that was executed at a place, around which other calls wait: the
call goes on behind the instruction or at its target, a call begins in it, or it ends. -/
inductive Place.Moves (ins : Instruction) (here : Place) (rest : List Place) : List Place → Prop
  | goesOn {next : Nat} (h : (ins.fallsThrough = true ∧ next = here.2 + ins.size) ∨
      ins.target? here.2 = some next) : Moves ins here rest ((here.1, next) :: rest)
  | enters {callee : Routine Value} (h : ins.op = .call) :
      Moves ins here rest ((callee, 0) :: (here.1, here.2 + ins.size) :: rest)
  | leaves (h : ins.op = .returnValue) (hrest : rest ≠ []) : Moves ins here rest rest

section
variable {m m' : Machine} {offset : Nat} {ins : Instruction} {rest : List Place} {s : Surroundings}

/-- The instructions behind which the run goes on in the same call. -/
def Opcode.isPlain (op : Opcode) : Bool :=
  !(op.isJump || op == .call || op == .returnValue || op == .halt)

theorem Action.execute_stays (hplain : ins.op.isPlain = true) : Stays (execute s offset ins) := by
  obtain ⟨op, operands⟩ := ins
  cases op with
  | nop => exact .pure ()
  | popTop => exact .bind .pop fun _ => .pure ()
  | print => exact .bind .pop fun v => .print v
  | pushNil | pushTrue | pushFalse => exact .push _
  | loadConst => exact .bind (.constant _) fun v => .push v
  | loadFast => exact .bind (.loadFast _) fun v => .push v
  | storeFast => exact .bind .pop fun v => .storeFast _ v
  | loadGlobal | loadName =>
    exact .bind (.name _) fun n => .bind (.loadGlobal n) fun v => .push v
  | storeGlobal | storeName =>
    exact .bind (.name _) fun n => .bind .pop fun v => .storeGlobal n v
  | loadFree => exact .bind (.freeCell _) fun c => .bind (.readCell c) fun v => .push v
  | storeFree => exact .bind .pop fun v => .bind (.freeCell _) fun c => .writeCell c v
  | makeCell => exact .bind (.makeCell _ _) fun c => .push _
  | loadClosure => exact .bind (.makeClosure _ _) fun v => .push v
  | buildList => exact .bind (.popMany _) fun items => .bind (.onHeap _) fun v => .push v
  | buildMap | buildSet =>
    exact .bind (.popMany _) fun parts => .bind (.ask _) fun found => .bind (.onHeap _) fun v =>
      .push v
  | binarySubscr => exact .bind .popTwo fun _ => .bind (.ask _) fun v => .push v
  | storeSubscr => exact .bind .popTwo fun _ => .bind .pop fun v => .onHeap _
  | deleteSubscr => exact .bind .popTwo fun _ => .onHeap _
  | loadAttr =>
    exact .bind (.name _) fun n => .bind .pop fun object => .bind (.ask _) fun v => .push v
  | storeAttr =>
    exact .bind (.name _) fun n => .bind .pop fun object => .bind .pop fun v => .onHeap _
  | binaryOp =>
    unfold execute
    dsimp only
    split
    · exact .throw _
    · exact .bind .popTwo fun _ => .bind (.onHeap _) fun v => .push v
  | compareOp =>
    unfold execute
    dsimp only
    split
    · exact .throw _
    · exact .bind .popTwo fun _ => .bind (.ask _) fun v => .push v
  | unaryNegative | unaryPositive | unaryInvert =>
    exact .bind .pop fun v => .bind (.ask _) fun w => .push w
  | unaryNot => exact .bind .pop fun v => .bind (.ask _) fun holds => .push _
  | halt | jumpForward | jumpBackward | popJumpForwardIfTrue | popJumpBackwardIfTrue
  | popJumpForwardIfFalse | popJumpBackwardIfFalse | call | returnValue => cases hplain

/-- Jumps lead to their targets, or on to what follows. -/
theorem Action.execute_jump (hjump : ins.op.isJump = true)
    (h : execute s offset ins m = .ok () m') :
    { m with ip := m'.ip }.SamePlaces m' ∧
      ((ins.fallsThrough = true ∧ m'.ip = m.ip) ∨ ins.target? offset = some m'.ip) := by
  have hlands : ∀ {n : Machine}, jump (ins.target? offset) offset n = .ok () m' →
      m' = { n with ip := m'.ip } ∧ ins.target? offset = some m'.ip := by
    intro n hn
    unfold jump at hn
    split at hn
    · rename_i ip hip
      cases hn
      exact ⟨rfl, hip⟩
    · cases hn
  have hif : ∀ expected, jumpIf expected ins offset m = .ok () m' → ins.fallsThrough = true →
      { m with ip := m'.ip }.SamePlaces m' ∧
        ((ins.fallsThrough = true ∧ m'.ip = m.ip) ∨ ins.target? offset = some m'.ip) := by
    intro expected hn hfalls
    obtain ⟨v, m₁, hpop, hn⟩ := bind_eq_ok hn
    obtain ⟨holds, m₂, hask, hn⟩ := bind_eq_ok hn
    have hsame := (Stays.pop m v m₁ hpop).trans (Stays.ask _ m₁ holds m₂ hask)
    split at hn
    · obtain ⟨hm', htarget⟩ := hlands hn
      rw [hm']
      exact ⟨⟨hsame.function, rfl, hsame.frames⟩, .inr (hm' ▸ htarget)⟩
    · cases hn
      exact ⟨⟨hsame.function, rfl, hsame.frames⟩, .inl ⟨hfalls, hsame.ip⟩⟩
  obtain ⟨op, operands⟩ := ins
  cases op with
  | jumpForward | jumpBackward =>
    obtain ⟨hm', htarget⟩ := hlands h
    rw [hm']
    exact ⟨⟨rfl, rfl, rfl⟩, .inr (hm' ▸ htarget)⟩
  | popJumpForwardIfTrue | popJumpBackwardIfTrue => exact hif true h rfl
  | popJumpForwardIfFalse | popJumpBackwardIfFalse => exact hif false h rfl
  | _ => cases hjump

/-! ### Calls and returns -/

theorem Machine.places_push {callers : Array Frame} {frame : Frame}
    (h : m.frames = callers.push frame) :
    m.places = (frame.function, m.ip) :: placesOf frame.resume callers.toList.reverse := by
  rw [places, h, Array.toList_push, List.reverse_append, List.reverse_singleton,
    List.singleton_append, placesOf]

/-- The active frame is the last one, and the others make up the other places. -/
theorem Machine.Located.exists_frame (hm : m.Located rest) :
    ∃ (callers : Array Frame) (frame : Frame), m.frames = callers.push frame ∧
      frame.function = m.function ∧ placesOf frame.resume callers.toList.reverse = rest := by
  have hpos : 0 < m.frames.size := by
    rw [← m.length_places, show m.places = _ from hm]
    exact Nat.succ_pos _
  obtain ⟨callers, frame, hframes⟩ := Array.exists_push_of_size_pos hpos
  obtain ⟨hhere, hrest⟩ := List.cons.inj ((Machine.places_push hframes).symm.trans hm)
  exact ⟨callers, frame, hframes, congrArg Prod.fst hhere, hrest⟩

/-- A machine that is elsewhere in the same call. -/
theorem Machine.Located.moved (hm : m.Located rest) (h : { m with ip := m'.ip }.SamePlaces m') :
    m'.Located rest := by
  obtain ⟨callers, frame, hframes, hfunction, hrest⟩ := hm.exists_frame
  have hplaces : m'.places = ({ m with ip := m'.ip } : Machine).places := h.placesOf_eq m'.ip
  have hhere : ({ m with ip := m'.ip } : Machine).places = _ := Machine.places_push hframes
  rw [Machine.Located, hplaces, hhere, hfunction, hrest, h.function]

theorem Action.enter_eq_ok {f : Routine Value} {cells : Array CellRef} {args : Array Value}
    (h : enter s f cells args m = .ok () m') :
    m'.Located m.places ∧ m'.ip = 0 ∧ m'.function = f := by
  have hends : Ends (enter s f cells args) m
      (fun _ n => n.Located m.places ∧ n.ip = 0 ∧ n.function = f) fun _ _ => True := by
    refine .enter (fun frame pool hbegins => ⟨?_, rfl, rfl⟩) fun _ _ => trivial
    refine (Machine.places_push rfl).trans ?_
    rw [hbegins.function, hbegins.resume]
    rfl
  unfold Ends at hends
  rwa [h] at hends

/-- A call begins in the active one, unless it is that of a builtin; it runs the code of a value on
the stack. -/
theorem Action.call_eq_ok {count : Nat} (h : call s count m = .ok () m') :
    m.SamePlaces m' ∨ (m'.Located m.places ∧ m'.ip = 0 ∧
      ∃ v ∈ m.stack, ∃ cells, v.callee? = some (m'.function, cells)) := by
  obtain ⟨values, m₁, hpop, h⟩ := bind_eq_ok h
  have hsame := Stays.popMany _ m values m₁ hpop
  have hplaces : m₁.places = m.places := by
    rw [Machine.places, hsame.ip]
    exact hsame.placesOf_eq m.ip
  have hvalues : ∀ v ∈ values, v ∈ m.stack := by
    intro v hv
    unfold popMany at hpop
    dsimp only at hpop
    split at hpop
    · cases hpop
    · cases hpop
      exact mem_of_mem_extract hv
  have hcallee : ∀ v, values.getD 0 .nil = v → v ≠ .nil → v ∈ m.stack := by
    intro v hv hne
    rw [Array.getD_eq_getD_getElem?] at hv
    cases hfirst : values[0]? with
    | none =>
      rw [hfirst] at hv
      exact absurd hv.symm hne
    | some w =>
      rw [hfirst] at hv
      exact hv ▸ hvalues w (Array.mem_of_getElem? hfirst)
  dsimp only at h
  cases hc : values.getD 0 .nil with
  | function f =>
    rw [hc] at h
    obtain ⟨hlocated, hzero, hfunction⟩ := enter_eq_ok h
    exact .inr ⟨hplaces ▸ hlocated, hzero, _, hcallee _ hc nofun, #[], by rw [hfunction]; rfl⟩
  | closure id f cells =>
    rw [hc] at h
    obtain ⟨hlocated, hzero, hfunction⟩ := enter_eq_ok h
    exact .inr ⟨hplaces ▸ hlocated, hzero, _, hcallee _ hc nofun, cells, by rw [hfunction]; rfl⟩
  | builtin id b =>
    rw [hc] at h
    exact .inl (hsame.trans (Stays.callBuiltin s b _ m₁ () m' h))
  | _ =>
    rw [hc] at h
    cases h

/-- A return goes on in the call around the active one. -/
theorem Action.leave_eq_ok {v : Value} (hm : m.Located rest) (h : leave v m = .ok () m') :
    m'.places = rest ∧ ∃ rest', m'.Located rest' := by
  obtain ⟨callers, frame, hframes, -, hrest⟩ := hm.exists_frame
  unfold leave at h
  split at h
  · cases h
  · rw [hframes, Array.back?_push] at h
    dsimp only at h
    rw [Array.pop_push] at h
    split at h
    · cases h
    · rename_i caller hcaller
      cases h
      obtain ⟨around, rfl⟩ := Array.back?_eq_some_iff.1 hcaller
      refine ⟨hrest, placesOf caller.resume around.toList.reverse, ?_⟩
      exact Machine.places_push rfl

/-- What an instruction other than `HALT` that has been executed at an offset does to the places. -/
theorem Action.execute_moves (hhalt : ins.op ≠ .halt) (hip : m.ip = offset + ins.size)
    (hm : m.Located rest) (h : execute s offset ins m = .ok () m') :
    Place.Moves ins (m.function, offset) rest m'.places ∧ ∃ rest', m'.Located rest' := by
  have hstays : ins.fallsThrough = true → m.SamePlaces m' →
      Place.Moves ins (m.function, offset) rest m'.places ∧ ∃ rest', m'.Located rest' := by
    intro hfalls hsame
    have hm' := hm.moved ⟨hsame.function, rfl, hsame.frames⟩
    refine ⟨?_, rest, hm'⟩
    rw [show m'.places = _ from hm', hsame.function]
    exact .goesOn (.inl ⟨hfalls, hsame.ip.trans hip⟩)
  by_cases hjump : ins.op.isJump = true
  · obtain ⟨hsame, hnext⟩ := execute_jump hjump h
    have hm' := hm.moved hsame
    refine ⟨?_, rest, hm'⟩
    rw [show m'.places = _ from hm', hsame.function]
    exact .goesOn (hip ▸ hnext)
  obtain ⟨op, operands⟩ := ins
  by_cases hplain : op.isPlain = true
  · refine hstays ?_ (execute_stays hplain m () m' h)
    cases op with
    | jumpForward | jumpBackward | returnValue | halt => cases hplain
    | _ => rfl
  cases op with
  | call =>
    rcases call_eq_ok h with hsame | ⟨hm', hzero, -⟩
    · exact hstays rfl hsame
    · refine ⟨?_, _, hm'⟩
      rw [show m'.places = _ from hm', hzero, show m.places = _ from hm, hip]
      exact .enters rfl
  | returnValue =>
    obtain ⟨n, v, hn, hleave⟩ : ∃ n v, n.Located rest ∧ leave v n = .ok () m' := by
      unfold execute at h
      dsimp only at h
      split at h
      · obtain ⟨v, n, hpop, h⟩ := bind_eq_ok h
        have hsame := Stays.pop m v n hpop
        exact ⟨n, v, hm.moved ⟨hsame.function, rfl, hsame.frames⟩, h⟩
      · exact ⟨m, .nil, hm, h⟩
    obtain ⟨hplaces, rest', hm'⟩ := leave_eq_ok hn hleave
    refine ⟨?_, rest', hm'⟩
    have hne : rest ≠ [] := by
      rw [← hplaces, show m'.places = _ from hm']
      exact List.cons_ne_nil _ _
    rw [hplaces]
    exact .leaves rfl hne
  | halt => exact absurd rfl hhalt
  | jumpForward | jumpBackward | popJumpForwardIfTrue | popJumpBackwardIfTrue
  | popJumpForwardIfFalse | popJumpBackwardIfFalse => exact absurd rfl hjump
  | _ => exact absurd rfl hplain

/-! ## Steps and runs -/

theorem Action.step_moves (hm : m.Located rest) (h : step s m = .ok false m') :
    ∃ ins, decode m.function.code m.ip = .ok ins ∧
      Place.Moves ins (m.function, m.ip) rest m'.places ∧ ∃ rest', m'.Located rest' := by
  obtain ⟨ins, hdecoded, ⟨hhalted, -⟩ | ⟨-, hhalt, hexecute⟩⟩ := step_eq_ok h
  · cases hhalted
  · have hnext : ({ m with steps := m.steps + 1, ip := m.ip + ins.size } : Machine).Located rest :=
      hm.moved ⟨rfl, rfl, rfl⟩
    have hmoved := execute_moves hhalt rfl hnext hexecute
    exact ⟨ins, hdecoded, hmoved⟩

theorem Machine.located_start (main : Routine Value) (offset : Nat) (globals : Globals)
    (heap : Heap) (world : World) : (start main offset globals heap world).Located [] := rfl

/-- What every move keeps holds of the places of a run as long as it lasts. -/
theorem Machine.run_places {I : List Place → Prop}
    (hmoves : ∀ (here : Place) rest ins next, I (here :: rest) →
      decode here.1.code here.2 = .ok ins → Place.Moves ins here rest next → I next)
    (hm : m.Located rest) (hI : I m.places) {fuel : Nat} {n : Machine}
    (h : m.run s fuel = .running n) : I n.places ∧ ∃ rest', n.Located rest' := by
  induction fuel generalizing m rest with
  | zero =>
    cases h
    exact ⟨hI, rest, hm⟩
  | succ fuel ih =>
    obtain ⟨m₁, hstep, hrun⟩ := run_succ_eq_running h
    obtain ⟨ins, hdecoded, hmoved, rest₁, hm₁⟩ := Action.step_moves hm hstep
    rw [show m.places = _ from hm] at hI
    exact ih hm₁ (hmoves _ rest ins _ hI hdecoded hmoved) hrun

end

end Ember
