import Ember.Proofs.Scope

/-! What resolving a name finds. A name is one of the session, seen from a function, just if no
function around has declared it; and once it has been resolved it is found where it was found
before, as long as nothing is declared. -/
namespace Ember
namespace Scope
set_option autoImplicit false

variable {name : String} {s t : Scope} {scopes outer : List Scope}

/-- Two bytes can number all that the scope captures. -/
def Fits (s : Scope) : Prop := s.captured.size ≤ slotLimit

/-- The function has captured one more variable at most, and nothing else has changed. -/
structure Captures (s t : Scope) : Prop where
  same : t = { s with captured := t.captured }
  top : s.kind = .topLevel → t = s
  size : t.captured.size ≤ s.captured.size + 1

theorem Captures.refl (s : Scope) : Captures s s := ⟨rfl, fun _ => rfl, Nat.le_succ _⟩

theorem Captures.locals (h : Captures s t) : t.locals = s.locals := by
  rw [h.same]

theorem Captures.of_capture (hkind : s.kind = .function) (name : String) (c : Capture) :
    Captures s (s.capture name c).2 :=
  ⟨rfl, fun htop => (nomatch hkind.symm.trans htop), s.captured.size_insert_le name c⟩

/-- Resolving a name changes nothing but what functions capture. -/
theorem resolve_captures (name : String) (scopes : List Scope) :
    List.Forall₂ Captures scopes (resolve name scopes).2 := by
  have hsame : ∀ scopes, List.Forall₂ Captures scopes scopes :=
    fun scopes => List.forall₂_same.2 fun s _ => .refl s
  induction scopes with
  | nil => exact .nil
  | cons s outer ih =>
    unfold resolve
    split
    · exact hsame _
    · rename_i hkind
      split
      · exact hsame _
      split
      · exact hsame _
      split
      · split
        · rename_i i outer' houter
          rw [houter] at ih
          exact .cons (.of_capture hkind _ _) ih
        · rename_i i outer' houter
          rw [houter] at ih
          exact .cons (.of_capture hkind _ _) ih
        · rename_i symbol outer' _ _ houter
          rw [houter] at ih
          exact .cons (.refl s) ih
      · exact hsame _

/-! ## One function -/

theorem resolve_of_slot (hkind : s.kind = .function) {i : Nat}
    (hi : s.locals.position? name = some i) (outer : List Scope) :
    resolve name (s :: outer) = (.slot i, s :: outer) := by
  rw [resolve, hkind]
  dsimp only
  rw [hi]

theorem resolve_of_free (hkind : s.kind = .function) (hlocal : s.locals.position? name = none)
    {i : Nat} (hi : s.captured.position? name = some i) (outer : List Scope) :
    resolve name (s :: outer) = (.free (i % slotLimit), s :: outer) := by
  rw [resolve, hkind]
  dsimp only
  rw [hlocal, hi]

/-- A function that knows nothing of a name asks the function around it. -/
theorem resolve_of_none (hkind : s.kind = .function) (hlocal : s.locals.position? name = none)
    (hfree : s.captured.position? name = none) (o : Scope) (rest : List Scope)
    (ho : o.kind = .function) :
    resolve name (s :: o :: rest) = match resolve name (o :: rest) with
      | (.slot i, outer) => ((s.capture name (.slot i)).1, (s.capture name (.slot i)).2 :: outer)
      | (.free i, outer) => ((s.capture name (.free i)).1, (s.capture name (.free i)).2 :: outer)
      | (_, outer) => (.global name, s :: outer) := by
  rw [resolve, hkind]
  dsimp only
  rw [hlocal, hfree]
  dsimp only
  refine (if_pos (by simp [isFunction, ho])).trans ?_
  rcases resolve name (o :: rest) with ⟨symbol, outer⟩
  cases symbol <;> rfl

theorem resolve_of_outermost (hkind : s.kind = .function)
    (hlocal : s.locals.position? name = none) (hfree : s.captured.position? name = none)
    (houtermost : ∀ o ∈ outer.head?, o.kind ≠ .function) :
    resolve name (s :: outer) = (.global name, s :: outer) := by
  rw [resolve, hkind]
  dsimp only
  rw [hlocal, hfree]
  dsimp only
  refine if_neg ?_
  cases outer with
  | nil => exact Bool.false_ne_true
  | cons o rest =>
    have ho := houtermost o rfl
    simpa [isFunction] using ho

/-- Scopes change only if a captured variable is found. -/
theorem resolve_eq_self (h : ∀ i, (resolve name scopes).1 ≠ .free i) :
    (resolve name scopes).2 = scopes := by
  induction scopes with
  | nil => rfl
  | cons s outer ih =>
    cases hkind : s.kind with
    | topLevel => rw [resolve, hkind]
    | function =>
    cases hlocal : s.locals.position? name with
    | some i => rw [resolve_of_slot hkind hlocal]
    | none =>
    cases hfree : s.captured.position? name with
    | some i => rw [resolve_of_free hkind hlocal hfree]
    | none =>
    by_cases houtermost : ∀ o ∈ outer.head?, o.kind ≠ .function
    · rw [resolve_of_outermost hkind hlocal hfree houtermost]
    · obtain ⟨o, rest, rfl, ho⟩ : ∃ o rest, outer = o :: rest ∧ o.kind = .function := by
        cases outer with
        | nil => exact absurd (by simp) houtermost
        | cons o rest => exact ⟨o, rest, rfl, by simpa using houtermost⟩
      rw [resolve_of_none hkind hlocal hfree o rest ho] at h ⊢
      rcases hresolve : resolve name (o :: rest) with ⟨symbol, outer⟩
      rw [hresolve] at h ih
      cases symbol with
      | slot i | free i => exact absurd rfl (h _)
      | global n | name n => exact congrArg (s :: ·) (ih (by simp))

/-! ## Names of the session -/

/-- What a function has captured is a variable of a function around it. -/
theorem Nested.exists_local (h : Nested (s :: outer)) (hfits : ∀ t ∈ outer, t.Fits)
    (hname : name ∈ s.captured.keys) : ∃ t ∈ outer, name ∈ t.locals.keys := by
  induction outer generalizing s with
  | nil =>
    cases h with
    | top _ _ hcaptured =>
      rw [hcaptured, OrderedMap.keys_empty] at hname
      exact absurd hname (Array.not_mem_empty name)
  | cons o rest ih =>
    cases h with
    | function _ hfeeds hrest =>
      obtain ⟨⟨_, c⟩, he, rfl⟩ := Array.mem_map.1 hname
      have hholds : o.Holds _ c := hfeeds _ he
      cases c with
      | slot i => exact ⟨o, List.mem_cons_self, Array.mem_of_getElem? hholds⟩
      | free i =>
        have hcaptured := Array.mem_of_getElem? (hholds.2 (hfits o List.mem_cons_self))
        obtain ⟨t, ht, hlocal⟩ :=
          ih hrest (fun t ht => hfits t (List.mem_cons_of_mem o ht)) hcaptured
        exact ⟨t, List.mem_cons_of_mem o ht, hlocal⟩

/-- Seen from a function, a name is one of the session just if no function around has a variable of
that name. -/
theorem Nested.resolve_global_iff (h : Nested (s :: outer)) (hfits : ∀ t ∈ outer, t.Fits) :
    (resolve name (s :: outer)).1 = .global name ↔
      s.kind = .function ∧ ∀ t ∈ s :: outer, name ∉ t.locals.keys := by
  induction outer generalizing s with
  | nil =>
    cases h with
    | top hkind => simp [resolve, hkind]
  | cons o rest ih =>
    obtain ⟨hkind, hfeeds, hrest⟩ : s.kind = .function ∧ Feeds o s ∧ Nested (o :: rest) := by
      cases h with
      | function hkind hfeeds hrest => exact ⟨hkind, hfeeds, hrest⟩
    cases hlocal : s.locals.position? name with
    | some i =>
      rw [resolve_of_slot hkind hlocal]
      refine iff_of_false (by simp) fun hnone => hnone.2 s List.mem_cons_self ?_
      exact Array.mem_of_getElem? (OrderedMap.position?_eq_some_iff.1 hlocal)
    | none =>
      cases hfree : s.captured.position? name with
      | some i =>
        rw [resolve_of_free hkind hlocal hfree]
        refine iff_of_false (by simp) fun hnone => ?_
        obtain ⟨t, ht, hmem⟩ := h.exists_local hfits
          (Array.mem_of_getElem? (OrderedMap.position?_eq_some_iff.1 hfree))
        exact hnone.2 t (List.mem_cons_of_mem s ht) hmem
      | none =>
        have hs : name ∉ s.locals.keys := OrderedMap.position?_eq_none_iff.1 hlocal
        cases ho : o.kind with
        | topLevel =>
          rw [resolve_of_outermost hkind hlocal hfree (by simp [ho])]
          refine iff_of_true rfl ⟨hkind, List.forall_mem_cons.2 ⟨hs, ?_⟩⟩
          cases hrest with
          | top _ hlocals =>
            rw [List.forall_mem_singleton, hlocals, OrderedMap.keys_empty]
            exact Array.not_mem_empty name
          | function hkind' => cases ho.symm.trans hkind'
        | function =>
          rw [resolve_of_none hkind hlocal hfree o rest ho]
          have hiff := ih hrest fun t ht => hfits t (List.mem_cons_of_mem o ht)
          obtain ⟨-, hext, o', outer, houter, hmeans⟩ := resolve_spec name hrest
          rw [houter] at hext
          have ho' : o'.kind = .function := (List.forall₂_cons.1 hext).1.kind.trans ho
          rcases hresolve : resolve name (o :: rest) with ⟨symbol, outer'⟩
          rw [hresolve] at hiff hmeans
          cases symbol with
          | slot i | free i =>
            refine iff_of_false (by rintro ⟨⟩) fun hnone => ?_
            cases hiff.2 ⟨ho, fun t ht => hnone.2 t (List.mem_cons_of_mem s ht)⟩
          | global n =>
            obtain rfl : n = name := hmeans.1
            exact iff_of_true rfl ⟨hkind, List.forall_mem_cons.2 ⟨hs, (hiff.1 rfl).2⟩⟩
          | name n => cases ho'.symm.trans hmeans.2

/-! ## Resolving again -/

/-- More may have been captured since, but nothing declared. -/
structure Keeps (s t : Scope) : Prop where
  growth : Extends s t
  locals : t.locals = s.locals

theorem Keeps.fits (h : Keeps s t) (ht : t.Fits) : s.Fits :=
  Nat.le_trans h.growth.captured_size ht

theorem forall_mem_of_forall₂ {R : Scope → Scope → Prop} {P Q : Scope → Prop} {a b : List Scope}
    (h : List.Forall₂ R a b) (hPQ : ∀ s t, R s t → P s → Q t) (ha : ∀ s ∈ a, P s) :
    ∀ t ∈ b, Q t := by
  induction h with
  | nil => exact nofun
  | cons hst _ ih =>
    obtain ⟨hs, ha⟩ := List.forall_mem_cons.1 ha
    exact List.forall_mem_cons.2 ⟨hPQ _ _ hst hs, ih ha⟩

theorem position?_eq_none_of_free {i : Nat} (hkind : s.kind = .function)
    (h : (resolve name (s :: outer)).1 = .free i) : s.locals.position? name = none := by
  cases hlocal : s.locals.position? name with
  | none => rfl
  | some j =>
    rw [resolve_of_slot hkind hlocal] at h
    cases h

theorem forall₂_extends_of_keeps {a b c : List Scope} (hab : List.Forall₂ Extends a b)
    (hlocals : List.Forall₂ Captures a b) (hbc : List.Forall₂ Keeps b c) :
    List.Forall₂ Keeps a c := by
  induction hab generalizing c with
  | nil => exact hbc
  | cons hst _ ih =>
    obtain ⟨u, rest, htu, hrest, rfl⟩ := List.forall₂_cons_left_iff.1 hbc
    obtain ⟨hcaptures, hlocals⟩ := List.forall₂_cons.1 hlocals
    exact .cons ⟨hst.trans htu.growth, htu.locals.trans hcaptures.locals⟩ (ih hlocals hrest)

/-- A name that has been resolved is found where it was found, and nothing changes, as long as
nothing has been declared. -/
theorem Nested.resolve_again {later : List Scope} (h : Nested scopes)
    (hkeeps : List.Forall₂ Keeps (resolve name scopes).2 later) (hlater : Nested later)
    (hfits : ∀ t ∈ later, t.Fits) :
    resolve name later = ((resolve name scopes).1, later) := by
  obtain ⟨-, hext, s', outer', hscopes', hmeans⟩ := resolve_spec name h
  have hall := forall₂_extends_of_keeps hext (resolve_captures name scopes) hkeeps
  rw [hscopes'] at hkeeps
  obtain ⟨v, rest, hs'v, -, rfl⟩ := List.forall₂_cons_left_iff.1 hkeeps
  cases scopes with
  | nil => cases h
  | cons s outer =>
    obtain ⟨hsv, hrest⟩ := List.forall₂_cons.1 hall
    cases hkind : s.kind with
    | topLevel => rw [resolve, resolve, hsv.growth.kind, hkind]
    | function =>
      have hv : v.kind = .function := hsv.growth.kind.trans hkind
      rcases hresolve : resolve name (s :: outer) with ⟨symbol, scopes'⟩
      rw [hresolve] at hmeans
      cases symbol with
      | slot i =>
        have hslot : v.locals.position? name = some i := by
          rw [hs'v.locals]
          exact OrderedMap.position?_eq_some_iff.2 hmeans
        rw [resolve_of_slot hv hslot]
      | free i =>
        have hlocal : v.locals.position? name = none := by
          rw [hsv.locals]
          exact position?_eq_none_of_free hkind (congrArg Prod.fst hresolve)
        have hvfits := hfits v List.mem_cons_self
        obtain ⟨hi, hkey⟩ : v.Holds name (.free i) := Holds.mono hs'v.growth hmeans
        rw [resolve_of_free hv hlocal (OrderedMap.position?_eq_some_iff.2 (hkey hvfits)),
          Nat.mod_eq_of_lt (Nat.lt_of_lt_of_le hi hvfits)]
      | global n =>
        -- no function around has the name, and none gets it unless it is declared
        obtain rfl : n = name := hmeans.1
        have hfits' := forall_mem_of_forall₂ hall.flip (fun _ _ hst => hst.fits) hfits
        have hnone := ((h.resolve_global_iff fun t ht => hfits' t (List.mem_cons_of_mem s ht)).1
          (congrArg Prod.fst hresolve)).2
        have hnone' := forall_mem_of_forall₂ hall (fun s t hst hs => hst.locals ▸ hs) hnone
        have hglobal : (resolve n (v :: rest)).1 = .global n :=
          (hlater.resolve_global_iff fun t ht => hfits t (List.mem_cons_of_mem v ht)).2
            ⟨hv, hnone'⟩
        have hself : (resolve n (v :: rest)).2 = v :: rest :=
          resolve_eq_self fun i hi => by cases hglobal.symm.trans hi
        exact Prod.ext hglobal hself
      | name n =>
        rw [hscopes'] at hext
        have hs' : s'.kind = .function := (List.forall₂_cons.1 hext).1.kind.trans hkind
        cases hs'.symm.trans hmeans.2

end Scope
end Ember
