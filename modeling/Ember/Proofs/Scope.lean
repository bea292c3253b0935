import Mathlib.Data.List.Forall2
import Ember.Proofs.OrderedMap
import Ember.Scope

/-! Scopes that enclose each other. A scope only ever grows, and every variable that it captures is
one that the scope around it declares or captures under the same name. Positions of captured
variables are written with two bytes; what they say is asserted of scopes that have no more of
them than that. -/
namespace Ember
namespace Scope
set_option autoImplicit false

/-! ## Growth -/

/-- Slots and captured variables of `s` have kept their places in `t`. -/
structure Extends (s t : Scope) : Prop where
  kind : t.kind = s.kind
  locals : ∀ (i : Nat) (n : String), s.locals.keys[i]? = some n → t.locals.keys[i]? = some n
  captured : ∀ (i : Nat) (e : String × Capture),
    s.captured.entries[i]? = some e → t.captured.entries[i]? = some e

theorem Extends.refl (s : Scope) : Extends s s := ⟨rfl, fun _ _ h => h, fun _ _ h => h⟩

theorem Extends.trans {s t u : Scope} (hst : Extends s t) (htu : Extends t u) : Extends s u where
  kind := htu.kind.trans hst.kind
  locals i n h := htu.locals i n (hst.locals i n h)
  captured i e h := htu.captured i e (hst.captured i e h)

theorem Extends.captured_size {s t : Scope} (h : Extends s t) :
    s.captured.size ≤ t.captured.size :=
  size_le_of_getElem? h.captured

theorem forall₂_extends_refl (scopes : List Scope) : List.Forall₂ Extends scopes scopes :=
  List.forall₂_same.2 fun s _ => Extends.refl s

theorem forall₂_trans {R : Scope → Scope → Prop} (htrans : ∀ {s t u}, R s t → R t u → R s u)
    {a b c : List Scope} (hab : List.Forall₂ R a b) (hbc : List.Forall₂ R b c) :
    List.Forall₂ R a c := by
  induction hab generalizing c with
  | nil => exact hbc
  | cons hst _ ih =>
    obtain ⟨u, rest, htu, hrest, rfl⟩ := List.forall₂_cons_left_iff.1 hbc
    exact .cons (htrans hst htu) (ih hrest)

theorem forall₂_extends_trans {a b c : List Scope} (hab : List.Forall₂ Extends a b)
    (hbc : List.Forall₂ Extends b c) : List.Forall₂ Extends a c :=
  forall₂_trans .trans hab hbc

/-! ## Captured variables -/

/-- The scope has a variable of this name where the capture says. -/
def Holds (s : Scope) (name : String) : Capture → Prop
  | .slot i => s.locals.keys[i]? = some name
  | .free i => i < s.captured.size ∧
      (s.captured.size ≤ slotLimit → s.captured.keys[i]? = some name)

/-- Every variable that `s` captures is one of the scope around it. -/
def Feeds (outer s : Scope) : Prop := ∀ e ∈ s.captured.entries, outer.Holds e.1 e.2

theorem Holds.mono {s t : Scope} {name : String} {c : Capture} (hst : Extends s t)
    (h : s.Holds name c) : t.Holds name c := by
  cases c with
  | slot i => exact hst.locals i name h
  | free i =>
    obtain ⟨hlt, hname⟩ := h
    have hsize := hst.captured_size
    refine ⟨Nat.lt_of_lt_of_le hlt hsize, fun hlimit => ?_⟩
    have hkey := hname (Nat.le_trans hsize hlimit)
    rw [OrderedMap.keys, Array.getElem?_map, Option.map_eq_some_iff] at hkey ⊢
    obtain ⟨e, he, hfst⟩ := hkey
    exact ⟨e, hst.captured i e he, hfst⟩

theorem Feeds.mono {outer outer' s : Scope} (h : Feeds outer s) (hext : Extends outer outer') :
    Feeds outer' s := fun e he => (h e he).mono hext

/-- Scopes from the inside out: functions in functions, and the top level around them. -/
inductive Nested : List Scope → Prop
  | top {s : Scope} (hkind : s.kind = .topLevel) (hlocals : s.locals = .empty)
      (hcaptured : s.captured = .empty) : Nested [s]
  | function {s outer : Scope} {rest : List Scope} (hkind : s.kind = .function)
      (hfeeds : Feeds outer s) (hrest : Nested (outer :: rest)) : Nested (s :: outer :: rest)

/-- What a symbol says of a name, seen from the scope. -/
def Means (s : Scope) (name : String) : Symbol → Prop
  | .slot i => s.Holds name (.slot i)
  | .free i => s.Holds name (.free i)
  | .global n => n = name ∧ s.kind = .function
  | .name n => n = name ∧ s.kind = .topLevel

theorem Means.mono {s t : Scope} {name : String} {symbol : Symbol} (hst : Extends s t)
    (h : s.Means name symbol) : t.Means name symbol := by
  cases symbol with
  | slot i => exact Holds.mono (c := .slot i) hst h
  | free i => exact Holds.mono (c := .free i) hst h
  | global n => exact ⟨h.1, hst.kind.trans h.2⟩
  | name n => exact ⟨h.1, hst.kind.trans h.2⟩

/-- The variable that has just been captured. -/
theorem capture_eq {s : Scope} {name : String} {c : Capture}
    (hnew : s.captured.position? name = none) :
    s.Extends (s.capture name c).2 ∧
      (s.capture name c).2.captured.entries = s.captured.entries.push (name, c) ∧
      (s.capture name c).2.Means name (s.capture name c).1 := by
  have hentries := OrderedMap.entries_insert_of_none hnew c
  have hsize : (s.captured.insert name c).size = s.captured.size + 1 :=
    OrderedMap.size_insert_of_none hnew c
  refine ⟨⟨rfl, fun _ _ h => h, fun i e h => ?_⟩, hentries, ?_⟩
  · change (s.captured.insert name c).entries[i]? = some e
    rw [hentries]
    exact getElem?_push_of_some h _
  · change ((s.captured.insert name c).size - 1) % slotLimit < (s.captured.insert name c).size ∧ _
    rw [hsize, Nat.add_sub_cancel]
    refine ⟨Nat.lt_of_le_of_lt (Nat.mod_le _ _) (Nat.lt_succ_self _), fun hlimit => ?_⟩
    change (s.captured.insert name c).size ≤ slotLimit at hlimit
    rw [hsize] at hlimit
    change (s.captured.insert name c).keys[s.captured.size % slotLimit]? = some name
    rw [Nat.mod_eq_of_lt hlimit, OrderedMap.keys_insert_of_none hnew, ← OrderedMap.size_keys,
      Array.getElem?_push_size]

/-! ## Resolving and declaring -/

theorem Nested.head {s : Scope} {outer : List Scope} (h : Nested (s :: outer)) :
    (s.kind = .topLevel ∧ outer = []) ∨
      (s.kind = .function ∧ ∃ around rest, outer = around :: rest ∧ Feeds around s ∧
        Nested (around :: rest)) := by
  cases h with
  | top hkind => exact .inl ⟨hkind, rfl⟩
  | function hkind hfeeds hrest => exact .inr ⟨hkind, _, _, rfl, hfeeds, hrest⟩

/-- A function captures a variable that the scope around it has. -/
theorem Nested.capture {s o : Scope} {r : List Scope} {name : String} {c : Capture}
    (hkind : s.kind = .function) (hfeeds : Feeds o s) (hrest : Nested (o :: r))
    (hnew : s.captured.position? name = none) (hc : o.Holds name c) :
    Nested ((s.capture name c).2 :: o :: r) := by
  obtain ⟨hext, hentries, -⟩ := capture_eq (c := c) hnew
  refine .function (hext.kind.trans hkind) (fun e he => ?_) hrest
  rw [hentries, Array.mem_push] at he
  rcases he with he | rfl
  · exact hfeeds e he
  · exact hc

/-- Resolving a name lets the scopes grow, and gives a symbol that says where the name is. -/
theorem resolve_spec (name : String) {scopes : List Scope} (h : Nested scopes) :
    Nested (resolve name scopes).2 ∧ List.Forall₂ Extends scopes (resolve name scopes).2 ∧
      ∃ s outer, (resolve name scopes).2 = s :: outer ∧ s.Means name (resolve name scopes).1 := by
  induction h with
  | @top s hkind hlocals hcaptured =>
    rw [resolve, hkind]
    exact ⟨.top hkind hlocals hcaptured, forall₂_extends_refl _, s, [], rfl, rfl, hkind⟩
  | @function s outer rest hkind hfeeds hrest ih =>
    have hnested : Nested (s :: outer :: rest) := .function hkind hfeeds hrest
    rw [resolve, hkind]
    dsimp only
    split
    · rename_i slot hslot
      exact ⟨hnested, forall₂_extends_refl _, s, _, rfl, OrderedMap.position?_eq_some_iff.1 hslot⟩
    · split
      · rename_i i hi
        have hlt := OrderedMap.position?_lt hi
        refine ⟨hnested, forall₂_extends_refl _, s, _, rfl, Nat.lt_of_le_of_lt (Nat.mod_le _ _) hlt,
          fun hlimit => ?_⟩
        rw [Nat.mod_eq_of_lt (Nat.lt_of_lt_of_le hlt hlimit)]
        exact OrderedMap.position?_eq_some_iff.1 hi
      · rename_i hnew
        split
        · obtain ⟨hnested', hext, o, r, hor, hmeans⟩ := ih
          have hall : List.Forall₂ Extends (outer :: rest) (o :: r) := hor ▸ hext
          have hfeeds' : Feeds o s := hfeeds.mono (List.forall₂_cons.1 hall).1
          rw [hor] at hnested'
          split
          · rename_i i outer' heq
            rw [heq] at hor hmeans
            cases hor
            obtain ⟨hs, -, hsym⟩ := capture_eq (c := .slot i) hnew
            exact ⟨hnested'.capture hkind hfeeds' hnew hmeans, .cons hs hall, _, _, rfl, hsym⟩
          · rename_i i outer' heq
            rw [heq] at hor hmeans
            cases hor
            obtain ⟨hs, -, hsym⟩ := capture_eq (c := .free i) hnew
            exact ⟨hnested'.capture hkind hfeeds' hnew hmeans, .cons hs hall, _, _, rfl, hsym⟩
          · rename_i sym outer' _ _ heq
            rw [heq] at hor
            cases hor
            exact ⟨.function hkind hfeeds' hnested', .cons (.refl s) hall, s, _, rfl, rfl, hkind⟩
        · exact ⟨hnested, forall₂_extends_refl _, s, _, rfl, rfl, hkind⟩

/-- Declaring a name lets the scope grow, and gives a symbol that says where the name is. -/
theorem declare_spec {s s' : Scope} {name : String} {symbol : Symbol}
    (h : s.declare name = (some symbol, s')) :
    Extends s s' ∧ s'.Means name symbol ∧ s'.captured = s.captured ∧
      (s.kind = .topLevel → s'.locals = s.locals) := by
  unfold declare at h
  split at h
  · rename_i hkind
    cases h
    exact ⟨⟨rfl, fun _ _ h => h, fun _ _ h => h⟩, ⟨rfl, hkind⟩, rfl, fun _ => rfl⟩
  · rename_i hkind
    split at h
    · rename_i slot hslot
      cases h
      exact ⟨.refl _, OrderedMap.position?_eq_some_iff.1 hslot, rfl, fun _ => rfl⟩
    · rename_i hnew
      dsimp only at h
      split at h
      · cases h
        have hkeys := OrderedMap.keys_insert_of_none hnew ()
        refine ⟨⟨rfl, fun i n hi => ?_, fun _ _ h => h⟩, ?_, rfl, fun htop => ?_⟩
        · rw [hkeys]
          exact getElem?_push_of_some hi name
        · change (s.locals.insert name ()).keys[s.locals.size]? = some name
          rw [hkeys, ← OrderedMap.size_keys, Array.getElem?_push_size]
        · rw [hkind] at htop
          cases htop
      · cases h

theorem Nested.declare {s s' : Scope} {outer : List Scope} {name : String} {symbol : Symbol}
    (h : Nested (s :: outer)) (hdeclare : s.declare name = (some symbol, s')) :
    Nested (s' :: outer) := by
  obtain ⟨hext, -, hcaptured, hlocals⟩ := declare_spec hdeclare
  cases h with
  | top hkind hempty hempty' =>
    exact .top (hext.kind.trans hkind) ((hlocals hkind).trans hempty) (hcaptured.trans hempty')
  | function hkind hfeeds hrest =>
    refine .function (hext.kind.trans hkind) (fun e he => ?_) hrest
    rw [hcaptured] at he
    exact hfeeds e he

end Scope
end Ember
