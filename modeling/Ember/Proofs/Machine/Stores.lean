import Ember.Proofs.Machine.Obedience

/-! Which names of the session a run can bind. Code is tame for some names if no way through it, nor
through the functions that it can come by, meets an instruction that stores to another name. A run
of tame code binds only those names, as long as the values that it comes across are tame, too. -/
namespace Ember
set_option autoImplicit false

/-! ## Code -/

/-- From the given offsets the code goes on only to such offsets, and at none of them does it store
to a name other than the allowed ones. -/
structure Routine.StoresOnly (allowed : String → Prop) (f : Routine Value) (here : Nat → Prop) :
    Prop where
  stores : ∀ pos ins n, here pos → decode f.code pos = .ok ins → ins.op.storesName = true →
    f.names[ins.operand 0]? = some n → allowed n
  falls : ∀ pos ins, here pos → decode f.code pos = .ok ins → ins.fallsThrough = true →
    here (pos + ins.size)
  jumps : ∀ pos ins target, here pos → decode f.code pos = .ok ins →
    ins.target? pos = some target → here target

/-- A run from this place on stores only to allowed names, until it calls a function. -/
def Place.StoresOnly (allowed : String → Prop) (p : Place) : Prop :=
  ∃ here : Nat → Prop, here p.2 ∧ p.1.StoresOnly allowed here

/-- A call of the function stores only to allowed names, and so do calls of the functions among its
constants. -/
inductive Tame (allowed : String → Prop) : Routine Value → Prop
  | intro {f : Routine Value} (hstart : Place.StoresOnly allowed (f, 0))
      (hconstants : ∀ v ∈ f.constants, ∀ g cells, v.core.callee? = some (g, cells) →
        Tame allowed g) : Tame allowed f

section
variable {allowed allowed' : String → Prop}

theorem Routine.StoresOnly.mono {f : Routine Value} {here : Nat → Prop}
    (h : f.StoresOnly allowed here) (himp : ∀ n, allowed n → allowed' n) :
    f.StoresOnly allowed' here :=
  ⟨fun pos ins n hpos hdecoded hstores hn => himp n (h.stores pos ins n hpos hdecoded hstores hn),
    h.falls, h.jumps⟩

theorem Place.StoresOnly.mono {p : Place} (h : p.StoresOnly allowed)
    (himp : ∀ n, allowed n → allowed' n) : p.StoresOnly allowed' := by
  obtain ⟨here, hpos, hstores⟩ := h
  exact ⟨here, hpos, hstores.mono himp⟩

namespace Tame

theorem place {f : Routine Value} (h : Tame allowed f) : Place.StoresOnly allowed (f, 0) := by
  cases h with
  | intro hstart _ => exact hstart

theorem hereditary (allowed : String → Prop) : Hereditary (Tame allowed) := by
  intro f hf
  cases hf with
  | intro _ hconstants => exact hconstants

theorem mono {f : Routine Value} (h : Tame allowed f) (himp : ∀ n, allowed n → allowed' n) :
    Tame allowed' f := by
  induction h with
  | intro hstart _ ih => exact .intro (hstart.mono himp) ih

end Tame

/-- The policy of tame functions and closures. -/
def tameOnly (allowed : String → Prop) : Policy := .onCode (Tame allowed)

theorem tameOnly_mono (himp : ∀ n, allowed n → allowed' n) (v : Value)
    (h : (tameOnly allowed).allows v) : (tameOnly allowed').allows v :=
  fun f cells hv => (h f cells hv).mono himp

end

/-- A host whose functions make no function and no closure that can store to other names than those
that they are given can. -/
def TameHost (host : Array HostFunction) : Prop := ∀ allowed, ObedientHost (tameOnly allowed) host

/-! ## Runs -/

/-- What is there between runs: tame values, and only allowed names are bound. -/
structure Bindings (allowed : String → Prop) (h : Heap) (g : Globals) : Prop where
  heap : h.Obeys (tameOnly allowed)
  globals : g.Obeys (tameOnly allowed)
  bound : ∀ n, g.session.contains n = true → allowed n

namespace Machine

/-- All calls of the machine are tame. -/
structure Tame (allowed : String → Prop) (m : Machine) : Prop where
  located : ∃ rest, m.Located rest
  places : ∀ p ∈ m.places, Place.StoresOnly allowed p
  obeys : m.Obeys (tameOnly allowed)
  bound : ∀ n, m.globals.session.contains n = true → allowed n

variable {allowed : String → Prop} {m m' : Machine} {s : Surroundings}

theorem Tame.bindings (h : m.Tame allowed) : Bindings allowed m.heap m.globals :=
  ⟨h.obeys.heap, h.obeys.globals, h.bound⟩

/-- A name that is bound was bound before, or the code at the place of the machine stores to it. -/
theorem Tame.rebinds (h : m.Tame allowed) {g : Globals} (hrebinds : m.Rebinds g) :
    (∀ n, g.session.contains n = true → allowed n) ∧ g.builtins = m.globals.builtins := by
  rcases hrebinds with rfl | ⟨ins, n, v, hdecoded, hstores, hn, rfl⟩
  · exact ⟨h.bound, rfl⟩
  · refine ⟨fun other hother => ?_, rfl⟩
    have hother : (m.globals.session.insert n v).contains other = true := hother
    rw [OrderedMap.contains_iff_mem_keys, OrderedMap.mem_keys_insert] at hother
    rcases hother with hother | rfl
    · exact h.bound other (OrderedMap.contains_iff_mem_keys.2 hother)
    · obtain ⟨rest, hlocated⟩ := h.located
      have hplace : (m.function, m.ip) ∈ m.places := by
        rw [show m.places = _ from hlocated]
        exact List.mem_cons_self
      obtain ⟨here, hpos, hcode⟩ := h.places _ hplace
      exact hcode.stores m.ip ins other hpos hdecoded hstores hn

/-- A call that begins is one of a value on the stack. -/
theorem callee_of_enters {ins : Instruction} (hstep : Action.step s m = .ok false m')
    (hdecoded : decode m.function.code m.ip = .ok ins) (hcall : ins.op = .call)
    (hlength : m'.places.length ≠ m.places.length) :
    ∃ v ∈ m.stack, ∃ cells, v.callee? = some (m'.function, cells) := by
  obtain ⟨ins', hdecoded', ⟨hhalted, -⟩ | ⟨-, -, hexecute⟩⟩ := Action.step_eq_ok hstep
  · cases hhalted
  · cases hdecoded.symm.trans hdecoded'
    obtain ⟨op, operands⟩ := ins
    obtain rfl : op = .call := hcall
    rcases Action.call_eq_ok hexecute with hsame | ⟨-, -, hcallee⟩
    · have hframes := congrArg Array.size hsame.frames
      rw [Array.size_map, Array.size_map] at hframes
      rw [length_places, length_places, hframes] at hlength
      exact absurd rfl hlength
    · exact hcallee

/-- The places after a step are tame, since the code goes on where it may, and calls are of tame
values. -/
theorem Tame.places_step (h : m.Tame allowed) (hstep : Action.step s m = .ok false m') :
    (∃ rest, m'.Located rest) ∧ ∀ p ∈ m'.places, Place.StoresOnly allowed p := by
  obtain ⟨rest, hlocated⟩ := h.located
  obtain ⟨ins, hdecoded, hmoves, hlocated'⟩ := Action.step_moves hlocated hstep
  have hplaces := h.places
  rw [show m.places = _ from hlocated, List.forall_mem_cons] at hplaces
  obtain ⟨⟨here, hpos, hcode⟩, hrest⟩ := hplaces
  refine ⟨hlocated', ?_⟩
  generalize hnext : m'.places = next at hmoves
  cases hmoves with
  | goesOn hgoes =>
    refine List.forall_mem_cons.2 ⟨⟨here, ?_, hcode⟩, hrest⟩
    rcases hgoes with ⟨hfalls, rfl⟩ | htarget
    · exact hcode.falls _ _ hpos hdecoded hfalls
    · exact hcode.jumps _ _ _ hpos hdecoded htarget
  | @enters callee hcall =>
    have hfalls : ins.fallsThrough = true := by
      unfold Instruction.fallsThrough
      rw [hcall]
    have hlength : m'.places.length ≠ m.places.length := by
      rw [hnext, show m.places = _ from hlocated, List.length_cons, List.length_cons,
        List.length_cons]
      omega
    obtain ⟨v, hv, cells, hcallee⟩ := callee_of_enters hstep hdecoded hcall hlength
    have htame : v.Obeys (tameOnly allowed) := h.obeys.stack v hv
    have hcore : v.core = v := by
      cases v with
      | result => cases hcallee
      | _ => rfl
    rw [Value.Obeys, hcore] at htame
    obtain ⟨rest', hlocated'⟩ := hlocated'
    obtain rfl : callee = m'.function :=
      congrArg Prod.fst (List.cons.inj (hnext.symm.trans hlocated')).1
    exact List.forall_mem_cons.2 ⟨(htame _ cells hcallee).place,
      List.forall_mem_cons.2 ⟨⟨here, hcode.falls _ _ hpos hdecoded hfalls, hcode⟩, hrest⟩⟩
  | leaves => exact hrest

/-- A step of tame code binds allowed names only, whether it succeeds, halts or fails. -/
theorem Tame.step (hhost : TameHost s.host) (h : m.Tame allowed) :
    Action.Ends (Action.step s) m
      (fun halted m' => (halted = false → m'.Tame allowed) ∧ Bindings allowed m'.heap m'.globals ∧
        m'.globals.builtins = m.globals.builtins)
      fun _ m' => Bindings allowed m'.heap m'.globals ∧
        m'.globals.builtins = m.globals.builtins := by
  have hends := Action.step_obeys (Ember.Tame.hereditary allowed) (hhost allowed) h.obeys
  unfold Action.Ends at hends ⊢
  cases hstep : Action.step s m with
  | error fault m' =>
    rw [hstep] at hends
    obtain ⟨hobeys, hrebinds⟩ := hends
    obtain ⟨hbound, hbuiltins⟩ := h.rebinds hrebinds
    exact ⟨⟨hobeys.heap, hobeys.globals, hbound⟩, hbuiltins⟩
  | ok halted m' =>
    rw [hstep] at hends
    obtain ⟨hobeys, hrebinds⟩ := hends
    obtain ⟨hbound, hbuiltins⟩ := h.rebinds hrebinds
    refine ⟨fun hhalted => ?_, ⟨hobeys.heap, hobeys.globals, hbound⟩, hbuiltins⟩
    subst hhalted
    obtain ⟨hlocated, hplaces⟩ := h.places_step hstep
    exact ⟨hlocated, hplaces, hobeys, hbound⟩

/-- A run that begins at a place of tame code with tame constants. -/
theorem Tame.start {main : Routine Value} {offset : Nat} {globals : Globals} {heap : Heap}
    (hplace : Place.StoresOnly allowed (main, offset))
    (hconstants : ∀ v ∈ main.constants, v.Obeys (tameOnly allowed))
    (hbindings : Bindings allowed heap globals) (world : World) :
    (start main offset globals heap world).Tame allowed := by
  refine ⟨⟨[], rfl⟩, fun p hp => ?_, ⟨fun v hv => absurd hv (Array.not_mem_empty v), hconstants,
    fun frame hframe => ?_, hbindings.heap, hbindings.globals⟩, hbindings.bound⟩
  · obtain rfl := List.mem_singleton.1 hp
    exact hplace
  · have hframe : frame ∈ #[Frame.new main 0 main.localCount] := hframe
    obtain rfl := Array.mem_singleton.1 hframe
    refine ⟨fun v hv => ?_, hconstants⟩
    rw [Array.eq_of_mem_replicate hv]
    exact Value.obeys_of_plain rfl rfl

end Machine

end Ember
