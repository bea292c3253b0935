import Ember.Builtin.Documents
import Ember.Proofs.Json.Encoding
import Ember.Proofs.Json.Reading
import Ember.Proofs.Value.Bisimilarity
import Ember.Proofs.Value.Lists

/-! Values as JSON documents and back. A value of nil, truth values, integers, texts, lists and maps
with texts as keys has one document, whose text is read as a new value that is equal to it and holds
its entries in the same order. -/
namespace Ember
set_option autoImplicit false

/-! ## Values that are documents -/

/-- The value is built of nil, truth values, integers, texts, and lists and maps that are on the
heap and nested at most so deep; keys of maps are texts. -/
inductive Value.JsonLike (h : Heap) : Nat → Value → Prop
  | nil (depth : Nat) : JsonLike h depth .nil
  | bool (depth : Nat) (b : Bool) : JsonLike h depth (.bool b)
  | int (depth : Nat) (n : Int64) : JsonLike h depth (.int n)
  | str (depth : Nat) (s : String) : JsonLike h depth (.str s)
  | list {depth : Nat} {r : ListRef} (hr : r.index < h.lists.size)
    (hitems : ∀ v ∈ (h.list r).toList, JsonLike h depth v) : JsonLike h (depth + 1) (.list r)
  | map {depth : Nat} {r : MapRef} (hr : r.index < h.maps.size)
    (hkeys : ∀ e ∈ (h.map r).toList, ∃ s, e.1 = .str s)
    (hvalues : ∀ e ∈ (h.map r).toList, JsonLike h depth e.2) : JsonLike h (depth + 1) (.map r)

/-- The document has the same tree as the value: members of an object stand for the entries of a map
in the same order. -/
inductive Json.Mirrors (h : Heap) : Json → Value → Prop
  | null : Mirrors h .null .nil
  | bool (b : Bool) : Mirrors h (.bool b) (.bool b)
  | int (n : Int64) : Mirrors h (.number (.whole n.toInt)) (.int n)
  | string (s : String) : Mirrors h (.string s) (.str s)
  | array {items : List Json} {r : ListRef}
    (hitems : List.Forall₂ (Mirrors h) items (h.list r).toList) : Mirrors h (.array items) (.list r)
  | object {members : List (String × Json)} {r : MapRef}
    (hnames : (h.map r).keys.toList = members.map (.str ·.1))
    (hvalues : List.Forall₂ (Mirrors h) (members.map (·.2)) ((h.map r).toList.map (·.2))) :
    Mirrors h (.object members) (.map r)

namespace Value

variable {h : Heap} {depth : Nat} {v w : Value}

theorem JsonLike.of_shows (hv : v.JsonLike h depth) (hw : v.Shows h w) :
    ∃ depth', w.JsonLike h depth' ∧ depth' < depth := by
  cases hv with
  | list hr hitems => exact ⟨_, hitems w hw, Nat.lt_succ_self _⟩
  | map hr hkeys hvalues =>
    obtain ⟨e, he, rfl⟩ := List.mem_map.1 hw
    exact ⟨_, hvalues e he, Nat.lt_succ_self _⟩
  | nil | bool | int | str => cases hw

theorem JsonLike.not_cyclic (hv : v.JsonLike h depth) : ¬ Relation.TransGen (Shows h) v v :=
  not_cyclic_of_descends (M := fun depth v => JsonLike h depth v) (m := id)
    (fun hv hw => hv.of_shows hw) hv

end Value

/-! ## Heaps that grow -/

/-- All lists and maps of the first heap are on the second one, and hold the same there. -/
structure Heap.Extends (h h' : Heap) : Prop where
  lists : ∀ r : ListRef, r.index < h.lists.size → r.index < h'.lists.size ∧ h'.list r = h.list r
  maps : ∀ r : MapRef, r.index < h.maps.size → r.index < h'.maps.size ∧ h'.map r = h.map r

namespace Heap

variable {h h' h'' : Heap}

theorem Extends.refl (h : Heap) : h.Extends h := ⟨fun _ hr => ⟨hr, rfl⟩, fun _ hr => ⟨hr, rfl⟩⟩

theorem Extends.trans (hext : h.Extends h') (hext' : h'.Extends h'') : h.Extends h'' := by
  refine ⟨fun r hr => ?_, fun r hr => ?_⟩
  · obtain ⟨hr', heq⟩ := hext.lists r hr
    obtain ⟨hr'', heq'⟩ := hext'.lists r hr'
    exact ⟨hr'', heq'.trans heq⟩
  · obtain ⟨hr', heq⟩ := hext.maps r hr
    obtain ⟨hr'', heq'⟩ := hext'.maps r hr'
    exact ⟨hr'', heq'.trans heq⟩

theorem extends_newList (h : Heap) (items : Array Value) : h.Extends (h.newList items).2 := by
  refine ⟨fun r hr => ⟨?_, ?_⟩, fun r hr => ⟨hr, rfl⟩⟩
  · exact Nat.lt_of_lt_of_eq (Nat.lt_succ_of_lt hr) (Array.size_push items).symm
  · rw [list, list, newList, Array.getD_eq_getD_getElem?, Array.getD_eq_getD_getElem?,
      Array.getElem?_push_lt hr, Array.getElem?_eq_getElem hr]

theorem extends_newMap (h : Heap) (entries : OrderedMap Key Value) :
    h.Extends (h.newMap entries).2 := by
  refine ⟨fun r hr => ⟨hr, rfl⟩, fun r hr => ⟨?_, ?_⟩⟩
  · exact Nat.lt_of_lt_of_eq (Nat.lt_succ_of_lt hr) (Array.size_push entries).symm
  · rw [map, map, newMap, Array.getD_eq_getD_getElem?, Array.getD_eq_getD_getElem?,
      Array.getElem?_push_lt hr, Array.getElem?_eq_getElem hr]

theorem map_newMap (h : Heap) (entries : OrderedMap Key Value) :
    (h.newMap entries).2.map (h.newMap entries).1 = entries := by
  rw [map, newMap, Array.getD_eq_getD_getElem?, Array.getElem?_push_size]
  rfl

end Heap

/-! ## From values to documents -/

namespace Json

variable {h : Heap} {steps depth : Nat} {opened : List Container} {v w : Value}

/-- The open containers are on the heap and around the value, and there are steps left for all
others. -/
structure Surrounded (h : Heap) (steps : Nat) (opened : List Container) (v : Value) : Prop where
  nodup : opened.Nodup
  valid : ∀ c ∈ opened, c.Valid h
  around : ∀ c ∈ opened, Relation.TransGen (Value.Shows h) c.value v
  left : h.lists.size + h.maps.size ≤ steps + opened.length

theorem Surrounded.not_mem {c : Container} (hs : Surrounded h steps opened c.value)
    (hacyclic : ¬ Relation.TransGen (Value.Shows h) c.value c.value) : c ∉ opened :=
  fun hc => hacyclic (hs.around c hc)

theorem Surrounded.room (hs : Surrounded h steps opened v) : Room h (steps + 1) opened :=
  ⟨hs.nodup, hs.valid, by have := hs.left; omega⟩

/-- One step less is enough inside a container. -/
theorem Surrounded.inside {c : Container} (hs : Surrounded h steps opened c.value)
    (hacyclic : ¬ Relation.TransGen (Value.Shows h) c.value c.value) (hvalid : c.Valid h) :
    ∃ k, steps = k + 1 ∧ ∀ w, c.value.Shows h w → Surrounded h k (c :: opened) w := by
  obtain ⟨_, hsteps, hroom⟩ := hs.room.cons (hs.not_mem hacyclic) hvalid
  cases hsteps
  cases steps with
  | zero => exact absurd hroom not_room_zero
  | succ k =>
    have hleft := hroom.left
    refine ⟨k, rfl, fun w hw => ⟨hroom.nodup, hroom.valid, ?_, by omega⟩⟩
    exact List.forall_mem_cons.2 ⟨.single hw, fun c' hc' => (hs.around c' hc').tail hw⟩

theorem mirrors_object {r : MapRef} {members : List (String × Json)}
    (hall : List.Forall₂ (fun m (e : Key × Value) => e.1 = .str m.1 ∧ Mirrors h m.2 e.2) members
      (h.map r).toList) : Mirrors h (.object members) (.map r) := by
  refine .object ?_ (List.forall₂_map_left_iff.2 (List.forall₂_map_right_iff.2
    (hall.imp fun _ _ he => he.2)))
  rw [OrderedMap.toList_keys]
  exact map_eq_of_forall₂ (hall.flip.imp fun _ _ he => he.1)

/-- The document of a value at any place where the value may be. -/
structure Encoded (h : Heap) (depth : Nat) (v : Value) (j : Json) : Prop where
  plain : j.Plain depth
  mirrors : ∀ h', h.Extends h' → j.Mirrors h' v
  encodes : ∀ steps opened, Surrounded h steps opened v → ofValueWithin h steps opened v = .ok j

theorem encoded_list {r : ListRef} {js : List Json} (hv : Value.JsonLike h (depth + 1) (.list r))
    (hr : r.index < h.lists.size)
    (hjs : List.Forall₂ (fun j v => v ∈ (h.list r).toList ∧ Encoded h depth v j) js
      (h.list r).toList) : Encoded h (depth + 1) (.list r) (.array js) := by
  refine ⟨.array fun j hj => ?_, fun h' hext => .array ?_, fun steps opened hs => ?_⟩
  · obtain ⟨v, _, _, hv⟩ := exists_left_of_forall₂ hjs.flip hj
    exact hv.plain
  · rw [(hext.lists r hr).2]
    exact hjs.imp fun _ _ hv => hv.2.mirrors h' hext
  · obtain ⟨k, rfl, hinside⟩ := hs.inside (c := .list r) hv.not_cyclic hr
    have hitems : (h.list r).toList.mapM (ofValueWithin h k (.list r :: opened)) = .ok js :=
      mapM_ok (hjs.imp fun _ _ hv => hv.2.encodes k _ (hinside _ hv.1))
    rw [ofValueWithin, ofValueWith_list (hs.not_mem (c := .list r) hv.not_cyclic), hitems]
    rfl

theorem encoded_map {r : MapRef} {members : List (String × Json)}
    (hv : Value.JsonLike h (depth + 1) (.map r)) (hr : r.index < h.maps.size)
    (hms : List.Forall₂ (fun m (e : Key × Value) => e ∈ (h.map r).toList ∧ e.1 = .str m.1 ∧
      Encoded h depth e.2 m.2) members (h.map r).toList) :
    Encoded h (depth + 1) (.map r) (.object members) := by
  have hnames : (members.map Prod.fst).Nodup := by
    refine nodup_names (m := h.map r) ?_
    rw [OrderedMap.toList_keys]
    exact map_eq_of_forall₂ (hms.flip.imp fun _ _ he => he.2.1)
  refine ⟨.object hnames fun m hm => ?_, fun h' hext => mirrors_object ?_,
    fun steps opened hs => ?_⟩
  · obtain ⟨e, _, _, _, he⟩ := exists_left_of_forall₂ hms.flip hm
    exact he.plain
  · rw [(hext.maps r hr).2]
    exact hms.imp fun _ _ he => ⟨he.2.1, he.2.2.mirrors h' hext⟩
  · obtain ⟨k, rfl, hinside⟩ := hs.inside (c := .map r) hv.not_cyclic hr
    have hmembers : List.Forall₂ (fun m (e : Key × Value) => m.1 = nameOfKey e.1 ∧
        ofValueWithin h k (.map r :: opened) e.2 = .ok m.2) members (h.map r).toList := by
      refine hms.imp fun m e he => ⟨by rw [he.2.1, nameOfKey], ?_⟩
      exact he.2.2.encodes k _ (hinside _ (List.mem_map.2 ⟨e, he.1, rfl⟩))
    rw [ofValueWithin, ofValueWith_map (hs.not_mem (c := .map r) hv.not_cyclic),
      membersOf_ok .empty hmembers]
    exact congrArg (fun ms => Except.ok (Json.object ms)) (OrderedMap.toList_ofList hnames)

end Json

theorem Value.JsonLike.encoded {h : Heap} {depth : Nat} {v : Value} (hv : v.JsonLike h depth) :
    ∃ j, Json.Encoded h depth v j := by
  induction hv with
  | nil depth =>
    exact ⟨_, .null depth, fun _ _ => .null, fun steps _ _ => by cases steps <;> rfl⟩
  | bool depth b =>
    exact ⟨_, .bool depth b, fun _ _ => .bool b, fun steps _ _ => by cases steps <;> rfl⟩
  | int depth n =>
    exact ⟨_, .int depth n, fun _ _ => .int n, fun steps _ _ => by cases steps <;> rfl⟩
  | str depth s =>
    exact ⟨_, .string depth s, fun _ _ => .string s, fun steps _ _ => by cases steps <;> rfl⟩
  | @list depth r hr hitems ih =>
    obtain ⟨js, hjs⟩ := exists_forall₂
      (R := fun j v => v ∈ (h.list r).toList ∧ Json.Encoded h depth v j) fun v hv => by
        obtain ⟨j, hj⟩ := ih v hv
        exact ⟨j, hv, hj⟩
    exact ⟨_, Json.encoded_list (.list hr hitems) hr hjs⟩
  | @map depth r hr hkeys hvalues ih =>
    obtain ⟨members, hms⟩ := exists_forall₂ (R := fun (m : String × Json) (e : Key × Value) =>
      e ∈ (h.map r).toList ∧ e.1 = .str m.1 ∧ Json.Encoded h depth e.2 m.2) fun e he => by
        obtain ⟨s, hs⟩ := hkeys e he
        obtain ⟨j, hj⟩ := ih e he
        exact ⟨(s, j), he, hs, hj⟩
    exact ⟨_, Json.encoded_map (.map hr hkeys hvalues) hr hms⟩

/-! ## From documents to values -/

namespace Json

variable {depth : Nat}

/-- A document becomes a value with the same tree, on a heap that is extended. -/
def Decodes (j : Json) : Prop :=
  ∀ h, ∃ w h', j.toValue h = (w, h') ∧ h.Extends h' ∧ ∀ h'', h'.Extends h'' → j.Mirrors h'' w

theorem toValues_ok {items : List Json} (hall : ∀ j ∈ items, j.Decodes) (found : Array Value)
    (h : Heap) : ∃ ws h', toValues items found h = (found ++ ws.toArray, h') ∧ h.Extends h' ∧
      ∀ h'', h'.Extends h'' → List.Forall₂ (Mirrors h'') items ws := by
  induction items generalizing found h with
  | nil =>
    refine ⟨[], h, ?_, .refl h, fun _ _ => .nil⟩
    rw [toValues]
    exact congrArg (·, h) (Array.append_empty).symm
  | cons j items ih =>
    obtain ⟨w, h₁, hw, hext, hmirrors⟩ := hall j List.mem_cons_self h
    obtain ⟨ws, h₂, hws, hext', hmirrors'⟩ :=
      ih (fun j' hj' => hall j' (List.mem_cons_of_mem j hj')) (found.push w) h₁
    refine ⟨w :: ws, h₂, ?_, hext.trans hext', fun h'' hext'' =>
      .cons (hmirrors h'' (hext'.trans hext'')) (hmirrors' h'' hext'')⟩
    rw [toValues, hw]
    dsimp only
    rw [hws, Array.push_eq_append, Array.append_assoc]
    exact congrArg (fun a => (found ++ a, h₂)) (List.append_toArray [w] ws)

theorem toEntries_ok {members : List (String × Json)} (hall : ∀ m ∈ members, m.2.Decodes)
    (found : OrderedMap Key Value) (h : Heap) :
    ∃ es h', toEntries members found h = (es.foldl (fun m e => m.insert e.1 e.2) found, h') ∧
      h.Extends h' ∧ ∀ h'', h'.Extends h'' → List.Forall₂
        (fun m (e : Key × Value) => e.1 = .str m.1 ∧ Mirrors h'' m.2 e.2) members es := by
  induction members generalizing found h with
  | nil => exact ⟨[], h, rfl, .refl h, fun _ _ => .nil⟩
  | cons m members ih =>
    obtain ⟨w, h₁, hw, hext, hmirrors⟩ := hall m List.mem_cons_self h
    obtain ⟨es, h₂, hes, hext', hmirrors'⟩ :=
      ih (fun m' hm' => hall m' (List.mem_cons_of_mem m hm')) (found.insert (.str m.1) w) h₁
    refine ⟨(.str m.1, w) :: es, h₂, ?_, hext.trans hext', fun h'' hext'' =>
      .cons ⟨rfl, hmirrors h'' (hext'.trans hext'')⟩ (hmirrors' h'' hext'')⟩
    rw [toEntries, hw]
    exact hes

theorem Plain.decodes {j : Json} (hj : j.Plain depth) : j.Decodes := by
  induction hj with
  | null | bool | string => exact fun h => ⟨_, h, rfl, .refl h, fun _ _ => by constructor⟩
  | int _ n =>
    have hlow := n.minValue_le_toInt
    have hhigh := n.toInt_le
    rw [Int64.toInt_minValue] at hlow
    rw [Int64.toInt_maxValue] at hhigh
    have hvalue : valueOfNumber (.whole n.toInt) = .int n := by
      rw [valueOfNumber, if_pos (by omega), Int64.ofInt_toInt]
    exact fun h => ⟨_, h, congrArg (·, h) hvalue, .refl h, fun _ _ => .int n⟩
  | @array _ items _ ih =>
    intro h
    obtain ⟨ws, h₁, hws, hext, hmirrors⟩ := toValues_ok ih #[] h
    rw [Array.empty_append] at hws
    refine ⟨.list (h₁.newList ws.toArray).1, (h₁.newList ws.toArray).2, ?_,
      hext.trans (h₁.extends_newList _), fun h'' hext'' => .array ?_⟩
    · rw [toValue, hws]
      rfl
    · have hnew : (h₁.newList ws.toArray).1.index < (h₁.newList ws.toArray).2.lists.size :=
        Nat.lt_of_lt_of_eq (Nat.lt_succ_self _) (Array.size_push _).symm
      rw [(hext''.lists _ hnew).2, h₁.list_newList]
      exact hmirrors h'' ((h₁.extends_newList _).trans hext'')
  | @object _ members hnames _ ih =>
    intro h
    obtain ⟨es, h₁, hes, hext, hmirrors⟩ := toEntries_ok ih .empty h
    have hentries : (OrderedMap.ofList es).toList = es := by
      refine OrderedMap.toList_ofList ?_
      have hkeys : es.map Prod.fst = members.map (Key.str ·.1) :=
        map_eq_of_forall₂ ((hmirrors h₁ (.refl h₁)).flip.imp fun _ _ he => he.1)
      have hnodup := hnames.map (f := Key.str) fun _ _ heq => Key.str.inj heq
      rw [hkeys]
      rwa [List.map_map] at hnodup
    refine ⟨.map (h₁.newMap (.ofList es)).1, (h₁.newMap (.ofList es)).2, ?_,
      hext.trans (h₁.extends_newMap _), fun h'' hext'' => mirrors_object ?_⟩
    · rw [toValue, hes]
      rfl
    · have hnew : (h₁.newMap (.ofList es)).1.index < (h₁.newMap (.ofList es)).2.maps.size :=
        Nat.lt_of_lt_of_eq (Nat.lt_succ_self _) (Array.size_push _).symm
      rw [(hext''.maps _ hnew).2, h₁.map_newMap, hentries]
      exact hmirrors h'' ((h₁.extends_newMap _).trans hext'')

/-! ## Values of one document -/

variable {h : Heap} {j : Json} {v w : Value}

theorem Mirrors.of_holds (hj : j.Mirrors h v) (hw : v.Holds h w) : ∃ j' : Json, j'.Mirrors h w := by
  cases hw with
  | item hv =>
    cases hj with
    | array hitems =>
      obtain ⟨j', _, hj'⟩ := exists_left_of_forall₂ hitems
        (Array.mem_toList_iff.2 (Array.mem_of_getElem? hv))
      exact ⟨j', hj'⟩
  | entry hv =>
    cases hj with
    | object _ hvalues =>
      obtain ⟨j', _, hj'⟩ := exists_left_of_forall₂ hvalues
        (List.mem_map_of_mem (Array.mem_toList_iff.2 (OrderedMap.mem_entries_of_get? hv)))
      exact ⟨j', hj'⟩
  | payload => cases hj

/-- There are neither floats nor results in a document. -/
theorem Mirrors.comparable (hj : j.Mirrors h v) : v.Comparable h fun _ => (true, .nil) := by
  have hall : ∀ w, v.Reaches h w → ∃ j' : Json, j'.Mirrors h w := by
    intro w hw
    induction hw with
    | refl => exact ⟨j, hj⟩
    | tail _ hheld ih =>
      obtain ⟨j', hj'⟩ := ih
      exact hj'.of_holds hheld
  refine ⟨fun x hx => ?_, fun id isOk payload hp => ?_⟩
  · obtain ⟨j', hj'⟩ := hall _ hx
    cases hj'
  · obtain ⟨j', hj'⟩ := hall _ hp
    cases hj'

theorem alike_lists {items : List Json} {a b : ListRef}
    (ha : List.Forall₂ (Mirrors h) items (h.list a).toList)
    (hb : List.Forall₂ (Mirrors h) items (h.list b).toList) :
    Value.Alike h (fun v w => ∃ j : Json, j.Mirrors h v ∧ j.Mirrors h w) (.list a) (.list b) := by
  refine .list ?_ fun i v w hv hw => ?_
  · rw [← Array.length_toList, ← Array.length_toList, ← ha.length_eq, ← hb.length_eq]
  · obtain ⟨j, hj, hjv⟩ := getElem?_of_forall₂ ha (Array.getElem?_toList.trans hv)
    obtain ⟨j', hj', hjw⟩ := getElem?_of_forall₂ hb (Array.getElem?_toList.trans hw)
    obtain rfl : j = j' := Option.some.inj (hj.symm.trans hj')
    exact ⟨j, hjv, hjw⟩

theorem alike_maps {values : List Json} {a b : MapRef} (hkeys : (h.map a).keys = (h.map b).keys)
    (ha : List.Forall₂ (Mirrors h) values ((h.map a).toList.map (·.2)))
    (hb : List.Forall₂ (Mirrors h) values ((h.map b).toList.map (·.2))) :
    Value.Alike h (fun v w => ∃ j : Json, j.Mirrors h v ∧ j.Mirrors h w) (.map a) (.map b) := by
  have hat : ∀ {m : OrderedMap Key Value} {i : Nat} {k : Key} {v : Value},
      m.entries[i]? = some (k, v) → (m.toList.map (·.2))[i]? = some v := by
    intro m i k v hi
    rw [List.getElem?_map, OrderedMap.toList, Array.getElem?_toList, hi]
    rfl
  refine .map (fun k => ?_) fun k v w hv hw => ?_
  · rw [Bool.eq_iff_iff, OrderedMap.contains_iff_mem_keys, OrderedMap.contains_iff_mem_keys, hkeys]
  · obtain ⟨i, hi⟩ := OrderedMap.get?_eq_some_iff.1 hv
    obtain ⟨i', hi'⟩ := OrderedMap.get?_eq_some_iff.1 hw
    -- the key is at one place in both maps
    have hplace := OrderedMap.position?_eq_some_iff.1 (OrderedMap.position?_of_getElem? hi)
    rw [hkeys, ← OrderedMap.position?_eq_some_iff, OrderedMap.position?_of_getElem? hi'] at hplace
    obtain rfl := Option.some.inj hplace
    obtain ⟨j, hj, hjv⟩ := getElem?_of_forall₂ ha (hat hi)
    obtain ⟨j', hj', hjw⟩ := getElem?_of_forall₂ hb (hat hi')
    obtain rfl : j = j' := Option.some.inj (hj.symm.trans hj')
    exact ⟨j, hjv, hjw⟩

/-- Values of one document look the same, and hold values of one document in the same places. -/
theorem Mirrors.alike (hv : j.Mirrors h v) (hw : j.Mirrors h w) :
    Value.Alike h (fun v w => ∃ j : Json, j.Mirrors h v ∧ j.Mirrors h w) v w := by
  cases hv with
  | null =>
    cases hw
    exact .atom rfl
  | bool b =>
    cases hw
    exact .atom rfl
  | int n =>
    generalize hk : n.toInt = k at hw
    cases hw with
    | int m =>
      obtain rfl := Int64.toInt_inj.1 hk
      exact .atom rfl
  | string s =>
    cases hw
    exact .atom rfl
  | array ha => cases hw with | array hb => exact alike_lists ha hb
  | object hnames ha =>
    cases hw with
    | object hnames' hb => exact alike_maps (Array.toList_inj.1 (hnames.trans hnames'.symm)) ha hb

theorem Mirrors.equal (hv : j.Mirrors h v) (hw : j.Mirrors h w) : v.equal h w = true :=
  (Value.equal_iff hv.comparable hw.comparable).2
    ⟨fun v w => ∃ j : Json, j.Mirrors h v ∧ j.Mirrors h w,
      fun _ _ ⟨_, hv, hw⟩ => hv.alike hw, ⟨j, hv, hw⟩⟩

end Json

/-! ## There and back -/

namespace JsonFunction

variable {h h' : Heap} {v w : Value} {j : Json}

theorem marshal_ok (hj : Json.ofValue h v = .ok j) : marshal.call #[v] h = .ok (.str j.text) h := by
  have hencoded : encoded h v = .ok (.str j.text) := by rw [encoded, hj]
  show ask (fun h => encoded h v) h = .ok (.str j.text) h
  rw [ask, hencoded]

theorem unmarshal_ok {text : String} (hparse : Json.parse text = .ok j)
    (hw : j.toValue h = (w, h')) :
    unmarshal.call #[.str text] h = .ok (.result h'.nextId true w) h'.newId.2 := by
  have hdocument : newDocument text h = .ok (.result h'.nextId true w) h'.newId.2 := by
    rw [newDocument, hparse]
    show OnHeap.newResult true (j.toValue h).1 (j.toValue h).2 = _
    rw [hw]
    rfl
  exact hdocument

end JsonFunction

/-- What is written of a value is read as a successful result with a value that is equal to it. Both
have the tree of one document, so that every map has its keys in the same order as before. -/
theorem unmarshal_marshal (h : Heap) (v : Value) (hv : v.JsonLike h 127) :
    ∃ (text : String) (id : Nat) (w : Value) (h' : Heap),
      JsonFunction.marshal.call #[v] h = .ok (.str text) h ∧
      JsonFunction.unmarshal.call #[.str text] h = .ok (.result id true w) h' ∧
      v.equal h' w = true ∧
      ∃ j : Json, j.Mirrors h v ∧ j.Mirrors h' v ∧ j.Mirrors h' w := by
  obtain ⟨j, hj⟩ := hv.encoded
  obtain ⟨w, h₁, hw, hext, hmirrors⟩ := hj.plain.decodes h
  have hdocument : Json.ofValue h v = .ok j :=
    hj.encodes _ [] ⟨.nil, nofun, nofun, Nat.le_refl _⟩
  have hnumber : h₁.Extends h₁.newId.2 := ⟨fun _ hr => ⟨hr, rfl⟩, fun _ hr => ⟨hr, rfl⟩⟩
  have hv' : j.Mirrors h₁.newId.2 v := hj.mirrors _ (hext.trans hnumber)
  have hw' : j.Mirrors h₁.newId.2 w := hmirrors _ hnumber
  exact ⟨j.text, h₁.nextId, w, h₁.newId.2, JsonFunction.marshal_ok hdocument,
    JsonFunction.unmarshal_ok hj.plain.parse_text hw, hv'.equal hw', j, hj.mirrors h (.refl h), hv',
    hw'⟩

/-- A list that holds one map twice, whose keys are not sorted, and a text that has to be escaped.
-/
def parcel : Heap :=
  ⟨#[#[.map ⟨0⟩, .map ⟨0⟩, .str "\"\n"]],
    #[.ofList [(.str "b", .int (-1)), (.str "a", .nil)]], #[], #[],
    5⟩

theorem jsonLike_parcel (depth : Nat) : Value.JsonLike parcel (depth + 2) (.list ⟨0⟩) := by
  have hentries : ∀ e ∈ (parcel.map ⟨0⟩).toList,
      e = (.str "b", .int (-1)) ∨ e = (.str "a", .nil) := by
    intro e he
    have htoList : (parcel.map ⟨0⟩).toList = [(.str "b", .int (-1)), (.str "a", .nil)] :=
      OrderedMap.toList_ofList (by decide)
    rw [htoList] at he
    simpa using he
  have hmap : Value.JsonLike parcel (depth + 1) (.map ⟨0⟩) := by
    refine .map (by decide) (fun e he => ?_) fun e he => ?_
    · obtain rfl | rfl := hentries e he <;> exact ⟨_, rfl⟩
    · obtain rfl | rfl := hentries e he
      · exact .int _ _
      · exact .nil _
  refine .list (by decide) fun v hv => ?_
  have hitems : v = .map ⟨0⟩ ∨ v = .str "\"\n" := by
    simpa [parcel, Heap.list] using hv
  obtain rfl | rfl := hitems
  · exact hmap
  · exact .str _ _

theorem unmarshal_marshal_parcel :
    ∃ (text : String) (id : Nat) (w : Value) (h' : Heap),
      JsonFunction.marshal.call #[.list ⟨0⟩] parcel = .ok (.str text) parcel ∧
      JsonFunction.unmarshal.call #[.str text] parcel = .ok (.result id true w) h' ∧
      Value.equal h' (.list ⟨0⟩) w = true := by
  obtain ⟨text, id, w, h', hmarshal, hunmarshal, heq, -⟩ :=
    unmarshal_marshal parcel (.list ⟨0⟩) (jsonLike_parcel 125)
  exact ⟨text, id, w, h', hmarshal, hunmarshal, heq⟩

end Ember
