import Mathlib.Logic.Function.Iterate
import Ember.Json.Convert
import Ember.Proofs.Value.Policy
import Ember.Proofs.Value.Sketches

/-! How documents of values are made. Steps that suffice to open every list and map once suffice for
every value: what stands below the last of them is never asked. A value that has a document in some
place has the same one in every place with fewer containers around it. -/
namespace Ember
namespace Json
set_option autoImplicit false

/-! ## Contents of containers -/

section
variable {ε α β : Type}

theorem mapM_promises {f : α → Except ε β} {R : β → α → Prop} {E : ε → Prop} {as : List α}
    (hall : ∀ a ∈ as, Promises (f a) (R · a) E) :
    Promises (as.mapM f) (fun bs => List.Forall₂ R bs as) E := by
  induction as with
  | nil => exact .nil
  | cons a as ih =>
    rw [List.mapM_cons]
    refine .bind (hall a List.mem_cons_self) fun b hb => ?_
    exact .bind (ih fun a' ha' => hall a' (List.mem_cons_of_mem a ha')) fun bs hbs => .cons hb hbs

theorem of_map_ok {f : α → β} {x : Except ε α} {b : β} (h : x.map f = .ok b) :
    ∃ a, x = .ok a ∧ b = f a := by
  cases x with
  | ok a =>
    cases h
    exact ⟨a, rfl, rfl⟩
  | error e => cases h

/-- A computation promises the result that it has. -/
theorem promises_result (x : Except ε α) : Promises x (x = .ok ·) fun _ => True := by
  cases x with
  | ok a => rfl
  | error e => trivial

theorem promises_map {f : α → β} {Q : β → Prop} {E : ε → Prop} {x : Except ε α}
    (hx : Promises x (fun a => Q (f a)) E) : Promises (x.map f) Q E := by
  cases x <;> exact hx

theorem mapM_ok {f : α → Except ε β} {as : List α} {bs : List β}
    (hall : List.Forall₂ (fun b a => f a = .ok b) bs as) : as.mapM f = .ok bs := by
  induction hall with
  | nil => rfl
  | cons ha _ ih =>
    rw [List.mapM_cons, ha, ih]
    rfl

/-- Each result is that of the item in its place. -/
theorem of_mapM_ok {f : α → Except ε β} {as : List α} {bs : List β} (h : as.mapM f = .ok bs) :
    List.Forall₂ (fun b a => a ∈ as ∧ f a = .ok b) bs as := by
  have hall : Promises (as.mapM f) (fun bs => List.Forall₂ (fun b a => a ∈ as ∧ f a = .ok b) bs as)
      fun _ => True :=
    mapM_promises fun a ha => (promises_result (f a)).mono fun b hb => ⟨ha, hb⟩
  rwa [h] at hall

theorem mapM_congr {f g : α → Except ε β} {as : List α} (hall : ∀ a ∈ as, f a = g a) :
    as.mapM f = as.mapM g := by
  induction as with
  | nil => rfl
  | cons a as ih =>
    rw [List.mapM_cons, List.mapM_cons, hall a List.mem_cons_self,
      ih fun a' ha' => hall a' (List.mem_cons_of_mem a ha')]

end

theorem map_eq_of_forall₂ {α β γ : Type} {f : α → γ} {g : β → γ} {as : List α} {bs : List β}
    (hall : List.Forall₂ (fun a b => f a = g b) as bs) : as.map f = bs.map g := by
  induction hall with
  | nil => rfl
  | cons hab _ ih => rw [List.map_cons, List.map_cons, hab, ih]

/-- Members whose names are the keys of a map have different names. -/
theorem nodup_names {m : OrderedMap Key Value} {members : List (String × Json)}
    (hnames : m.keys.toList = members.map (.str ·.1)) : (members.map Prod.fst).Nodup := by
  have hnodup : (members.map (Key.str ·.1)).Nodup := hnames ▸ m.nodup_keys
  refine .of_map Key.str ?_
  rwa [List.map_map]

section
variable {inside inside' : Value → Except EncodeFault Json} {es : List (Key × Value)}

/-- The members stand for the entries, and are stored one after the other. -/
theorem membersOf_promises {R : Json → Key × Value → Prop} {E : EncodeFault → Prop}
    (found : OrderedMap String Json) (hall : ∀ e ∈ es, Promises (inside e.2) (R · e) E) :
    Promises (membersOf inside es found) (fun m => ∃ members : List (String × Json),
      List.Forall₂ (fun m (e : Key × Value) => m.1 = nameOfKey e.1 ∧ R m.2 e) members es ∧
        m = members.foldl (fun m e => m.insert e.1 e.2) found) E := by
  induction es generalizing found with
  | nil => exact ⟨[], .nil, rfl⟩
  | cons e es ih =>
    have hvalue := hall e List.mem_cons_self
    obtain ⟨k, v⟩ := e
    rw [membersOf]
    cases heq : inside v with
    | error fault =>
      rw [heq] at hvalue
      exact hvalue
    | ok item =>
      rw [heq] at hvalue
      refine .mono (ih _ fun e he => hall e (List.mem_cons_of_mem _ he)) ?_
      rintro m ⟨members, hmembers, rfl⟩
      exact ⟨(nameOfKey k, item) :: members, .cons ⟨rfl, hvalue⟩ hmembers, rfl⟩

theorem membersOf_ok {members : List (String × Json)} (found : OrderedMap String Json)
    (hall : List.Forall₂ (fun m (e : Key × Value) => m.1 = nameOfKey e.1 ∧ inside e.2 = .ok m.2)
      members es) :
    membersOf inside es found = .ok (members.foldl (fun m e => m.insert e.1 e.2) found) := by
  induction hall generalizing found with
  | nil => rfl
  | @cons m e members es he _ ih =>
    obtain ⟨hname, hvalue⟩ := he
    rw [membersOf, hvalue, ← hname]
    exact ih _

theorem of_membersOf_ok {found m : OrderedMap String Json}
    (h : membersOf inside es found = .ok m) :
    ∃ members : List (String × Json), List.Forall₂ (fun m (e : Key × Value) =>
        m.1 = nameOfKey e.1 ∧ e ∈ es ∧ inside e.2 = .ok m.2) members es ∧
      m = members.foldl (fun m e => m.insert e.1 e.2) found := by
  have hall := membersOf_promises (R := fun j e => e ∈ es ∧ inside e.2 = .ok j) found
    fun e he => (promises_result (inside e.2)).mono fun j hj => ⟨he, hj⟩
  rwa [h] at hall

theorem membersOf_congr (found : OrderedMap String Json)
    (hall : ∀ e ∈ es, inside e.2 = inside' e.2) :
    membersOf inside es found = membersOf inside' es found := by
  induction es generalizing found with
  | nil => rfl
  | cons e es ih =>
    rw [membersOf, membersOf, hall e List.mem_cons_self]
    cases inside' e.2 with
    | error fault => rfl
    | ok item => exact ih _ fun e' he' => hall e' (List.mem_cons_of_mem e he')

end

/-! ## One step -/

/-- The failure at a container that is open around itself. -/
def cycleFault : Container → EncodeFault
  | .list _ => .cyclicList
  | .map _ => .cyclicMap

section
variable {h : Heap} {inside inside' : List Container → Value → Except EncodeFault Json}
  {opened opened' : List Container} {v : Value} {j : Json}

theorem ofValueWith_open {c : Container} (hc : c ∈ opened) :
    ofValueWith h inside opened c.value = .error (cycleFault c) := by
  cases c with
  | list r => exact if_pos (List.contains_iff_mem.2 hc)
  | map r => exact if_pos (List.contains_iff_mem.2 hc)

theorem ofValueWith_list {r : ListRef} (hnew : Container.list r ∉ opened) :
    ofValueWith h inside opened (.list r) =
      ((h.list r).toList.mapM (inside (.list r :: opened))).map .array :=
  if_neg (mt List.contains_iff_mem.1 hnew)

theorem ofValueWith_map {r : MapRef} (hnew : Container.map r ∉ opened) :
    ofValueWith h inside opened (.map r) =
      (membersOf (inside (.map r :: opened)) (h.map r).toList .empty).map
        fun members => .object members.toList := by
  refine (if_neg (mt List.contains_iff_mem.1 hnew)).trans ?_
  cases membersOf (inside (.map r :: opened)) (h.map r).toList .empty <;> rfl

/-- Only lists and maps that are not open ask for the documents of other values. -/
theorem ofValueWith_congr
    (hinside : ∀ c, v.container? = some c → c ∉ opened → ∀ w, v.Shows h w →
      inside (c :: opened) w = inside' (c :: opened) w) :
    ofValueWith h inside opened v = ofValueWith h inside' opened v := by
  cases v with
  | list r =>
    by_cases hopen : Container.list r ∈ opened
    · exact (ofValueWith_open hopen).trans (ofValueWith_open hopen).symm
    · rw [ofValueWith_list hopen, ofValueWith_list hopen]
      exact congrArg (Except.map array) (mapM_congr (hinside _ rfl hopen))
  | map r =>
    by_cases hopen : Container.map r ∈ opened
    · exact (ofValueWith_open hopen).trans (ofValueWith_open hopen).symm
    · rw [ofValueWith_map hopen, ofValueWith_map hopen, membersOf_congr _ fun e he =>
        hinside _ rfl hopen e.2 (List.mem_map_of_mem he)]
  | _ => rfl

/-- With fewer containers around it a value keeps the document that it has. -/
theorem ofValueWith_mono (hsub : opened' ⊆ opened)
    (hinside : ∀ c, v.container? = some c → c ∉ opened → ∀ w, v.Shows h w → ∀ j,
      inside (c :: opened) w = .ok j → inside' (c :: opened') w = .ok j)
    (hj : ofValueWith h inside opened v = .ok j) : ofValueWith h inside' opened' v = .ok j := by
  have hnew : ∀ c, v = c.value → c ∉ opened := by
    rintro c rfl hc
    rw [ofValueWith_open hc] at hj
    cases hj
  cases v with
  | list r =>
    have hopen := hnew (.list r) rfl
    rw [ofValueWith_list hopen] at hj
    obtain ⟨items, hitems, rfl⟩ := of_map_ok hj
    rw [ofValueWith_list fun hc => hopen (hsub hc), mapM_ok ((of_mapM_ok hitems).imp fun j w hw =>
      hinside _ rfl hopen w hw.1 j hw.2)]
    rfl
  | map r =>
    have hopen := hnew (.map r) rfl
    rw [ofValueWith_map hopen] at hj
    obtain ⟨found, hfound, rfl⟩ := of_map_ok hj
    obtain ⟨members, hmembers, rfl⟩ := of_membersOf_ok hfound
    rw [ofValueWith_map fun hc => hopen (hsub hc), membersOf_ok .empty (hmembers.imp fun m e he =>
      ⟨he.1, hinside _ rfl hopen e.2 (List.mem_map_of_mem he.2.1) m.2 he.2.2⟩)]
    rfl
  | _ => exact hj

end

/-! ## Many steps -/

section
variable {h : Heap} {n n' : Nat} {opened opened' : List Container} {v w : Value} {j : Json}
  {bottom bottom' : List Container → Value → Except EncodeFault Json}

theorem ofValueWithin_eq_iterate (h : Heap) (steps : Nat) :
    ofValueWithin h steps = (ofValueWith h)^[steps + 1] fun _ _ => .ok .null := by
  induction steps with
  | zero => rfl
  | succ steps ih =>
    rw [Function.iterate_succ_apply', ← ih]
    rfl

theorem not_room_zero : ¬ Room h 0 opened := by
  intro hroom
  have hlength := length_opened_le hroom.nodup hroom.valid
  have hleft := hroom.left
  omega

/-- There is room for what is inside a container that is not open. -/
theorem room_inside {c : Container} (hroom : Room h (n + 1) opened) (hc : v.container? = some c)
    (hnew : c ∉ opened) (hw : v.Shows h w) : Room h n (c :: opened) := by
  have hvalid : c.Valid h := by
    cases v with
    | list r =>
      cases hc
      exact lt_size_of_list (List.ne_nil_of_mem hw)
    | map r =>
      cases hc
      exact lt_size_of_map fun hnil =>
        List.ne_nil_of_mem hw (by rw [Value.shown, hnil, List.map_nil])
    | _ => cases hc
  obtain ⟨_, hk, hroom'⟩ := hroom.cons hnew hvalid
  cases hk
  exact hroom'

/-- More steps and another bottom make no difference. -/
theorem iterate_eq (hroom : Room h n opened) (hroom' : Room h n' opened) :
    (ofValueWith h)^[n] bottom opened v = (ofValueWith h)^[n'] bottom' opened v := by
  induction n generalizing n' opened v with
  | zero => exact absurd hroom not_room_zero
  | succ n ih =>
    cases n' with
    | zero => exact absurd hroom' not_room_zero
    | succ n' =>
      rw [Function.iterate_succ_apply', Function.iterate_succ_apply']
      exact ofValueWith_congr fun c hc hnew w hw =>
        ih (room_inside hroom hc hnew hw) (room_inside hroom' hc hnew hw)

/-- A value that has a document has it also with fewer containers around it. -/
theorem iterate_mono (hroom : Room h n opened) (hroom' : Room h n' opened')
    (hsub : opened' ⊆ opened) (hj : (ofValueWith h)^[n] bottom opened v = .ok j) :
    (ofValueWith h)^[n'] bottom' opened' v = .ok j := by
  induction n generalizing n' opened opened' v j with
  | zero => exact absurd hroom not_room_zero
  | succ n ih =>
    cases n' with
    | zero => exact absurd hroom' not_room_zero
    | succ n' =>
      rw [Function.iterate_succ_apply'] at hj ⊢
      exact ofValueWith_mono hsub (fun c hc hnew w hw j hj => ih (room_inside hroom hc hnew hw)
        (room_inside hroom' hc (fun hc' => hnew (hsub hc')) hw) (List.cons_subset_cons c hsub) hj)
        hj

theorem room_start (hlt : h.lists.size + h.maps.size < n) : Room h n [] := ⟨.nil, nofun, hlt⟩

theorem ofValue_eq_iterate (h : Heap) (v : Value) : ofValue h v =
    (ofValueWith h)^[h.lists.size + h.maps.size + 1] (fun _ _ => .ok .null) [] v := by
  rw [ofValue, ofValueWithin_eq_iterate]

end

end Json
end Ember
