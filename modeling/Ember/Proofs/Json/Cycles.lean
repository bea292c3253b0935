import Ember.Proofs.Json.Encoding

/-! Which values have documents. A value of nil, truth values, integers, texts, lists, sets and maps
with texts as keys has none just if a list or map that it reaches contains itself. Otherwise its
document is its tree, in which what is shared is written out each time. -/
namespace Ember
set_option autoImplicit false

/-! ## Values and their trees -/

namespace Value

/-- Nil, a truth value, an integer, a text, a list, a set, or a map whose keys are texts. -/
def Basic (h : Heap) : Value → Prop
  | .nil | .bool _ | .int _ | .str _ | .list _ | .set _ => True
  | .map r => ∀ k ∈ (h.map r).keys, ∃ s, k = .str s
  | _ => False

/-- The value and all that it reaches are basic. -/
def BasicThroughout (h : Heap) (v : Value) : Prop :=
  ∀ w, Relation.ReflTransGen (Shows h) v w → w.Basic h

/-- The container is reached from the value, and contains itself. -/
def ReachesCycle (h : Heap) (v : Value) (c : Container) : Prop :=
  Relation.ReflTransGen (Shows h) v c.value ∧ Relation.TransGen (Shows h) c.value c.value

end Value

/-- The document is the tree of the value. -/
inductive Json.Unfolds (h : Heap) : Json → Value → Prop
  | null : Unfolds h .null .nil
  | bool (b : Bool) : Unfolds h (.bool b) (.bool b)
  | int (n : Int64) : Unfolds h (.number (.whole n.toInt)) (.int n)
  | string (s : String) : Unfolds h (.string s) (.str s)
  | list {items : List Json} {r : ListRef}
    (hitems : List.Forall₂ (Unfolds h) items (h.list r).toList) : Unfolds h (.array items) (.list r)
  | set {items : List Json} {r : SetRef}
    (hitems : List.Forall₂ (Unfolds h) items ((h.set r).keys.toList.map Key.toValue)) :
    Unfolds h (.array items) (.set r)
  | map {members : List (String × Json)} {r : MapRef}
    (hnames : (h.map r).keys.toList = members.map (.str ·.1))
    (hitems : List.Forall₂ (Unfolds h) (members.map (·.2)) ((h.map r).toList.map (·.2))) :
    Unfolds h (.object members) (.map r)

namespace Json

variable {h : Heap} {n : Nat} {opened : List Container} {v w : Value} {j j' : Json}

/-! ## Trees have no cycles -/

theorem sizeOf_lt_array {item : Json} {items : List Json} (h : item ∈ items) :
    sizeOf item < sizeOf (array items) := by
  have hlt := List.sizeOf_lt_of_mem h
  rw [array.sizeOf_spec]
  omega

theorem sizeOf_lt_object {item : Json} {members : List (String × Json)}
    (h : item ∈ members.map (·.2)) : sizeOf item < sizeOf (object members) := by
  obtain ⟨⟨name, item⟩, hmember, rfl⟩ := List.mem_map.1 h
  have hlt := List.sizeOf_lt_of_mem hmember
  rw [Prod.mk.sizeOf_spec] at hlt
  rw [object.sizeOf_spec]
  show sizeOf item < _
  omega

theorem Unfolds.of_shows (hj : j.Unfolds h v) (hw : v.Shows h w) :
    ∃ j' : Json, j'.Unfolds h w ∧ sizeOf j' < sizeOf j := by
  cases hj with
  | null | bool | int | string | set => cases hw
  | list hitems =>
    obtain ⟨item, hmem, hitem⟩ := exists_left_of_forall₂ hitems hw
    exact ⟨item, hitem, sizeOf_lt_array hmem⟩
  | map _ hitems =>
    obtain ⟨item, hmem, hitem⟩ := exists_left_of_forall₂ hitems hw
    exact ⟨item, hitem, sizeOf_lt_object hmem⟩

theorem Unfolds.acyclic (hj : j.Unfolds h v) : v.Acyclic h :=
  Value.acyclic_of_descends (M := fun j v => Unfolds h j v) (m := sizeOf)
    (fun hj hw => hj.of_shows hw) hj

theorem eq_of_members {members members' : List (String × Json)}
    (hnames : members.map (Key.str ·.1) = members'.map (Key.str ·.1))
    (hitems : members.map (·.2) = members'.map (·.2)) : members = members' := by
  have hfirst : members.map Prod.fst = members'.map Prod.fst := by
    refine List.map_injective_iff.2 (fun _ _ => Key.str.inj) ?_
    rwa [List.map_map, List.map_map]
  exact (List.zip_of_prod hfirst hitems).trans (List.zip_of_prod rfl rfl).symm

/-- A value has one tree. -/
theorem Unfolds.unique {j j' : Json} {v : Value} (hj : j.Unfolds h v) (hj' : j'.Unfolds h v) :
    j = j' := by
  cases hj with
  | null | bool | int | string =>
    cases hj'
    rfl
  | list hitems =>
    cases hj' with
    | list hitems' =>
      exact congrArg array (eq_of_forall₂ hitems hitems' fun item hmem _ _ _ hitem hitem' =>
        have hlt := sizeOf_lt_array hmem
        hitem.unique hitem')
  | set hitems =>
    cases hj' with
    | set hitems' =>
      exact congrArg array (eq_of_forall₂ hitems hitems' fun item hmem _ _ _ hitem hitem' =>
        have hlt := sizeOf_lt_array hmem
        hitem.unique hitem')
  | map hnames hitems =>
    cases hj' with
    | map hnames' hitems' =>
      refine congrArg object (eq_of_members (hnames.symm.trans hnames') ?_)
      exact eq_of_forall₂ hitems hitems' fun item hmem _ _ _ hitem hitem' =>
        have hlt := sizeOf_lt_object hmem
        hitem.unique hitem'
termination_by sizeOf j
decreasing_by
  all_goals
    subst_vars
    exact hlt

/-! ## Documents are trees -/

theorem unfolds_key (h : Heap) (k : Key) : (ofKey k).Unfolds h k.toValue := by
  cases k with
  | nil => exact .null
  | bool b => exact .bool b
  | int n => exact .int n
  | str s => exact .string s

theorem unfolds_set (h : Heap) (r : SetRef) :
    (array ((h.set r).keys.toList.map ofKey)).Unfolds h (.set r) :=
  .set (List.forall₂_map_left_iff.2 (List.forall₂_map_right_iff.2
    (List.forall₂_same.2 fun k _ => unfolds_key h k)))

/-- Members that are made of the entries of a map with texts as keys are its tree. -/
theorem unfolds_map {r : MapRef} {members : List (String × Json)}
    (hkeys : ∀ k ∈ (h.map r).keys, ∃ s, k = .str s)
    (hmembers : List.Forall₂ (fun m (e : Key × Value) =>
      m.1 = nameOfKey e.1 ∧ e ∈ (h.map r).toList ∧ m.2.Unfolds h e.2) members (h.map r).toList) :
    (object (OrderedMap.ofList members).toList).Unfolds h (.map r) := by
  have hkey : ∀ (m : String × Json) e, m.1 = nameOfKey e.1 ∧ e ∈ (h.map r).toList ∧
      m.2.Unfolds h e.2 → e.1 = .str m.1 := by
    rintro m e ⟨hname, he, -⟩
    obtain ⟨s, hs⟩ := hkeys e.1 (Array.mem_map.2 ⟨e, Array.mem_toList_iff.1 he, rfl⟩)
    rw [hname, hs, nameOfKey]
  have hnames : (h.map r).keys.toList = members.map (.str ·.1) := by
    rw [OrderedMap.toList_keys]
    exact map_eq_of_forall₂ (hmembers.imp hkey).flip
  rw [OrderedMap.toList_ofList (nodup_names hnames)]
  exact .map hnames (List.forall₂_map_left_iff.2 (List.forall₂_map_right_iff.2
    (hmembers.imp fun _ _ he => he.2.2)))

theorem promises_open {inside : List Container → Value → Except EncodeFault Json} {c : Container}
    {Q : Json → Prop} {E : EncodeFault → Prop} (hc : c ∈ opened) (hfault : E (cycleFault c)) :
    Promises (ofValueWith h inside opened c.value) Q E := by
  rw [ofValueWith_open hc]
  exact hfault

/-- A basic value has its tree as document if what it holds has, and fails as something that it
holds does or because it is open. -/
theorem ofValueWith_promises {inside : List Container → Value → Except EncodeFault Json}
    {E : EncodeFault → Prop} (hv : v.Basic h)
    (hclosed : ∀ c ∈ opened, v = c.value → E (cycleFault c))
    (hinside : ∀ c, v.container? = some c → c ∉ opened → ∀ w, v.Shows h w →
      Promises (inside (c :: opened) w) (fun j => j.Unfolds h w) E) :
    Promises (ofValueWith h inside opened v) (fun j => j.Unfolds h v) E := by
  cases v with
  | nil => exact .null
  | bool b => exact .bool b
  | int k => exact .int k
  | str s => exact .string s
  | set r => exact unfolds_set h r
  | list r =>
    by_cases hopen : Container.list r ∈ opened
    · exact promises_open (c := .list r) hopen (hclosed _ hopen rfl)
    · rw [ofValueWith_list hopen]
      exact promises_map ((mapM_promises (hinside _ rfl hopen)).mono fun _ hitems => .list hitems)
  | map r =>
    by_cases hopen : Container.map r ∈ opened
    · exact promises_open (c := .map r) hopen (hclosed _ hopen rfl)
    · rw [ofValueWith_map hopen]
      have hentries := membersOf_promises (R := fun j e => e ∈ (h.map r).toList ∧ j.Unfolds h e.2)
        .empty fun e he => (hinside _ rfl hopen e.2 (List.mem_map_of_mem he)).mono
          fun j hj => ⟨he, hj⟩
      refine promises_map (hentries.mono ?_)
      rintro m ⟨members, hmembers, rfl⟩
      exact unfolds_map hv hmembers
  | _ => exact hv.elim

/-- What is inside the root has its tree as document, or fails for a cycle that the root reaches.
All containers that are open are around it. -/
theorem iterate_promises {root : Value} {bottom : List Container → Value → Except EncodeFault Json}
    (hroot : root.BasicThroughout h) (hv : Relation.ReflTransGen (Value.Shows h) root v)
    (hroom : Room h n opened)
    (haround : ∀ c ∈ opened, Relation.TransGen (Value.Shows h) c.value v) :
    Promises ((ofValueWith h)^[n] bottom opened v) (fun j => j.Unfolds h v)
      fun e => ∃ c, root.ReachesCycle h c ∧ e = cycleFault c := by
  induction n generalizing opened v with
  | zero => exact absurd hroom not_room_zero
  | succ n ih =>
    rw [Function.iterate_succ_apply']
    refine ofValueWith_promises (hroot v hv) ?_ fun c hc hnew w hw => ?_
    · rintro c hc rfl
      exact ⟨c, ⟨hv, haround c hc⟩, rfl⟩
    · refine ih (hv.tail hw) (room_inside hroom hc hnew hw) (List.forall_mem_cons.2 ⟨?_, ?_⟩)
      · rw [← Value.eq_value_of_container? hc]
        exact .single hw
      · exact fun c' hc' => (haround c' hc').tail hw

/-- Steps for all lists and maps are enough, whatever is below them. There is no document just if
the value reaches a list or map that contains itself, and the failure stands for such a one.
Otherwise the document is the tree of the value. -/
theorem document_iff_acyclic (h : Heap) (v : Value) (hv : v.BasicThroughout h) :
    (∀ steps bottom, h.lists.size + h.maps.size < steps →
      (ofValueWith h)^[steps] bottom [] v = ofValue h v) ∧
    ((∃ e, ofValue h v = .error e) ↔ ∃ c, v.ReachesCycle h c) ∧
    (∀ e, ofValue h v = .error e → ∃ c, v.ReachesCycle h c ∧ e = cycleFault c) ∧
    ∀ j, ofValue h v = .ok j ↔ j.Unfolds h v := by
  have hroom := room_start (Nat.lt_succ_self (h.lists.size + h.maps.size))
  have hpromises : Promises (ofValue h v) (fun j => j.Unfolds h v)
      fun e => ∃ c, v.ReachesCycle h c ∧ e = cycleFault c := by
    rw [ofValue_eq_iterate]
    exact iterate_promises hv .refl hroom nofun
  have hfault : ∀ e, ofValue h v = .error e → ∃ c, v.ReachesCycle h c ∧ e = cycleFault c := by
    intro e he
    rwa [he] at hpromises
  have hdocument : ∀ j, ofValue h v = .ok j → j.Unfolds h v := by
    intro j hj
    rwa [hj] at hpromises
  have hnone : ∀ j : Json, j.Unfolds h v → ∀ c, ¬ v.ReachesCycle h c :=
    fun j hj c hc => hj.acyclic c.value hc.1 hc.2
  refine ⟨fun steps bottom hlt => ?_, ⟨fun ⟨e, he⟩ => ?_, fun ⟨c, hc⟩ => ?_⟩, hfault, fun j =>
    ⟨hdocument j, fun hj => ?_⟩⟩
  · rw [ofValue_eq_iterate]
    exact iterate_eq (room_start hlt) hroom
  · obtain ⟨c, hc, -⟩ := hfault e he
    exact ⟨c, hc⟩
  · cases hresult : ofValue h v with
    | error e => exact ⟨e, rfl⟩
    | ok j => exact absurd hc (hnone j (hdocument j hresult) c)
  · cases hresult : ofValue h v with
    | ok j' => exact congrArg Except.ok ((hdocument j' hresult).unique hj)
    | error e =>
      obtain ⟨c, hc, -⟩ := hfault e hresult
      exact absurd hc (hnone j hj c)

end Json

/-- A heap on which all that is held is basic. -/
theorem Value.basicThroughout {h : Heap} {v : Value} (hv : v.Basic h)
    (hlists : ∀ r, ∀ w ∈ (h.list r).toList, w.Basic h)
    (hmaps : ∀ r, ∀ e ∈ (h.map r).toList, e.2.Basic h) : v.BasicThroughout h := by
  intro w hw
  induction hw with
  | refl => exact hv
  | @tail u w _ hw hu =>
    cases u with
    | list r => exact hlists r w hw
    | map r =>
      obtain ⟨e, he, rfl⟩ := List.mem_map.1 hw
      exact hmaps r e he
    | result | cell => exact hu.elim
    | _ => cases hw

/-- A list that holds another one twice and a set, and a list that holds itself in a map. -/
def knot : Heap :=
  ⟨#[#[.int 1], #[.list ⟨0⟩, .list ⟨0⟩, .set ⟨0⟩], #[.map ⟨0⟩]],
    #[.ofList [(.str "a", .list ⟨2⟩)]], #[.ofList [(.nil, ())]], #[], 5⟩

theorem toList_knot : (knot.map ⟨0⟩).toList = [(.str "a", .list ⟨2⟩)] :=
  OrderedMap.toList_ofList (by decide)

theorem basicThroughout_knot (r : ListRef) : Value.BasicThroughout knot (.list r) := by
  have hmap : Value.Basic knot (.map ⟨0⟩) := by
    intro k hk
    rw [← Array.mem_toList_iff, OrderedMap.toList_keys, toList_knot] at hk
    exact ⟨"a", List.mem_singleton.1 hk⟩
  refine Value.basicThroughout trivial (fun r w hw => ?_) fun r e he => ?_
  · match r with
    | ⟨0⟩ =>
      obtain rfl : w = .int 1 := by simpa [knot, Heap.list] using hw
      trivial
    | ⟨1⟩ =>
      have hw : w = .list ⟨0⟩ ∨ w = .set ⟨0⟩ := by simpa [knot, Heap.list] using hw
      obtain rfl | rfl := hw <;> trivial
    | ⟨2⟩ =>
      obtain rfl : w = .map ⟨0⟩ := by simpa [knot, Heap.list] using hw
      exact hmap
    | ⟨i + 3⟩ => cases hw
  · match r with
    | ⟨0⟩ =>
      rw [toList_knot] at he
      obtain rfl := List.mem_singleton.1 he
      trivial
    | ⟨i + 1⟩ => cases he

theorem document_iff_acyclic_knot :
    (∃ e, Json.ofValue knot (.list ⟨2⟩) = .error e) ∧
    Json.ofValue knot (.list ⟨1⟩) = .ok (.array
      [.array [.number (.whole 1)], .array [.number (.whole 1)], .array [.null]]) := by
  obtain ⟨-, hcycle, -, -⟩ := Json.document_iff_acyclic knot _ (basicThroughout_knot ⟨2⟩)
  obtain ⟨-, -, -, hdocument⟩ := Json.document_iff_acyclic knot _ (basicThroughout_knot ⟨1⟩)
  have hshared : Json.Unfolds knot (.array [.number (.whole 1)]) (.list ⟨0⟩) :=
    .list (.cons (.int 1) .nil)
  have hset : Json.Unfolds knot (.array [.null]) (.set ⟨0⟩) := by
    refine .set ?_
    rw [OrderedMap.toList_keys]
    change List.Forall₂ _ _ (((OrderedMap.ofList [(Key.nil, ())]).toList.map _).map _)
    rw [OrderedMap.toList_ofList (by decide)]
    exact .cons .null .nil
  refine ⟨hcycle.2 ⟨.list ⟨2⟩, .refl, ?_⟩, (hdocument _).2 ?_⟩
  · have hentry : Value.Shows knot (.map ⟨0⟩) (.list ⟨2⟩) := by
      rw [Value.Shows, Value.shown, toList_knot]
      exact List.mem_singleton_self _
    exact .head (List.mem_singleton_self _) (.single hentry)
  · exact .list (.cons hshared (.cons hshared (.cons hset .nil)))

end Ember
