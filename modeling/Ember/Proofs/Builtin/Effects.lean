import Ember.Builtin.Call
import Ember.Proofs.Builtin.Positions
import Ember.Proofs.OrderedMap
import Ember.Proofs.Value.Heaps

/-! What builtins change. Most only read what their arguments refer to, and what they make is new;
`append` puts items at the end of its list, and `delete` takes one entry out of its container. A
call that fails changes nothing. -/
namespace Ember
set_option autoImplicit false

/-! ## Functions that change nothing -/

theorem CoreFunction.call_additive {f : CoreFunction} (happend : f ≠ append) (hdelete : f ≠ delete)
    (args : Array Value) : Additive (f.call args) := by
  cases f with
  | append => exact absurd rfl happend
  | delete => exact absurd rfl hdelete
  | list | keys | values | range => exact .bind (.ask _) fun items => .newList items
  | set => exact .bind (.ask _) fun members => .newSet members
  | ok | err => exact .bind (.ask _) fun v => .newResult _ v
  | len | type | str | int | float | min | max | abs | isOk | isErr | unwrap | unwrapOr
  | errorMessage => exact .ask _

theorem JsonFunction.call_additive (f : JsonFunction) (args : Array Value) :
    Additive (f.call args) := by
  cases f with
  | marshal => exact .ask _
  | unmarshal =>
    refine .bind (.ask _) fun source => ?_
    unfold newDocument
    split
    · rename_i j _
      exact .bind (.modifyGet j.toValue_remains) fun v => .newResult true v
    · exact .newFailure _

theorem StringsFunction.call_additive (f : StringsFunction) (args : Array Value) :
    Additive (f.call args) := by
  cases f with
  | split => exact .bind (.ask _) fun items => .newList items
  | toUpper | toLower | trim | join | contains | hasPrefix | hasSuffix | replace | «repeat» =>
    exact .ask _

theorem ConversionFunction.newReading_additive (name text : String)
    (reading : Except String Value) : Additive (newReading name text reading) := by
  cases reading with
  | ok v => exact .newResult true v
  | error reason => exact .newFailure _

theorem ConversionFunction.call_additive (f : ConversionFunction) (args : Array Value) :
    Additive (f.call args) := by
  cases f with
  | itoa => exact .ask _
  | atoi | atof | parseBool => exact .bind (.ask _) fun s => newReading_additive _ s _

theorem TimeFunction.call_additive (f : TimeFunction) (args : Array Value) (w : World) :
    Additive (f.call args w) := by
  cases f with
  | now | unix => exact .ask _
  | sleep =>
    refine .bind (.ask _) fun n => ?_
    unfold sleepFor
    split
    · exact .throw _
    · split
      · exact .bind (.newFailure _) fun v => .pure _
      · split
        · exact .bind (.newFailure _) fun v => .pure _
        · exact .bind (.newResult true .nil) fun v => .pure _

theorem RandomFunction.call_additive (f : RandomFunction) (args : Array Value) (w : World) :
    Additive (f.call args w) := .ask _

theorem UuidFunction.call_additive (f : UuidFunction) (args : Array Value) (w : World) :
    Additive (f.call args w) := by
  cases f with
  | v4 => exact .ask _

namespace DatabaseFunction

theorem rowValues_additive (rows : List Row) : Additive (rowValues rows) := by
  induction rows with
  | nil => exact .pure _
  | cons row rows ih => exact .bind (.newMap _) fun v => .bind ih fun vs => .pure _

theorem answer_additive {α : Type} {value : α → OnHeap CallFault Value}
    (hvalue : ∀ a, Additive (value a)) (w : World) (reply : Except String α) :
    Additive (answer w value reply) := by
  cases reply with
  | ok a => exact .bind (hvalue a) fun v => .bind (.newResult true v) fun _ => .pure _
  | error reason => exact .bind (.newFailure reason) fun _ => .pure _

theorem onConnection_additive {next : Driver → World → OnHeap CallFault (Value × World)}
    (hnext : ∀ driver w, Additive (next driver w)) (w : World) (connection : Nat) :
    Additive (onConnection w connection next) := by
  unfold onConnection
  split
  · exact hnext _ _
  · exact .bind (.newFailure _) fun _ => .pure _

theorem call_additive (f : DatabaseFunction) (args : Array Value) (w : World) :
    Additive (f.call args w) := by
  cases f with
  | connect =>
    refine .bind (.ask _) fun address => ?_
    dsimp only
    split
    · exact .bind (.modifyGet fun h => h.remains_newId) fun id =>
        .bind (.newResult true _) fun _ => .pure _
    · exact answer_additive (fun _ => .pure _) _ _
  | exec =>
    refine .bind (.ask _) fun found => onConnection_additive (fun driver w => ?_) w found.1
    exact answer_additive (fun _ => .pure _) w _
  | query =>
    refine .bind (.ask _) fun found => onConnection_additive (fun driver w => ?_) w found.1
    exact answer_additive (fun rows => .bind (rowValues_additive rows) fun vs => .newList _) w _
  | close =>
    refine .bind (.ask _) fun connection => ?_
    split
    · exact answer_additive (fun _ => .pure _) _ _
    · exact answer_additive (fun _ => .pure _) _ _

end DatabaseFunction

theorem onHeap_remains {x : HeapCall} (hx : Additive x) (s : CallState) :
    s.heap.Remains (onHeap x s).2.heap := by
  have hrun := hx s.heap
  unfold onHeap
  dsimp only
  cases hr : x s.heap with
  | ok v heap | error e heap =>
    rw [hr] at hrun
    exact hrun

theorem inWorld_remains {x : WorldCall} (hx : ∀ w, Additive (x w)) (s : CallState) :
    s.heap.Remains (inWorld x s).2.heap := by
  have hrun := hx s.world s.heap
  unfold inWorld
  dsimp only
  cases hr : x s.world s.heap with
  | ok v heap | error e heap =>
    rw [hr] at hrun
    exact hrun

theorem Native.call_remains {f : Native} (happend : f ≠ .core .append) (hdelete : f ≠ .core .delete)
    (args : Array Value) (s : CallState) : s.heap.Remains (f.call args s).2.heap := by
  cases f with
  | core f =>
    exact onHeap_remains (f.call_additive (mt (congrArg Native.core) happend)
      (mt (congrArg Native.core) hdelete) args) s
  | math f => exact onHeap_remains (.ask _) s
  | json f => exact onHeap_remains (f.call_additive args) s
  | strings f => exact onHeap_remains (f.call_additive args) s
  | time f => exact inWorld_remains (f.call_additive args) s
  | uuid f => exact inWorld_remains (f.call_additive args) s
  | random f => exact inWorld_remains (f.call_additive args) s
  | conversion f => exact onHeap_remains (f.call_additive args) s
  | database f => exact inWorld_remains (f.call_additive args) s

/-! ## Taking an entry out of a container -/

/-- What is taken out of a container under a key, and the heap that is left, on which the entries
around it have kept their order. Nothing is taken out, and nil given for it, if the key is absent.
The place of an item is told for lengths that a 64-bit integer holds. -/
inductive TakesOut (h : Heap) : Value → Value → Value → Heap → Prop
  | item {r : ListRef} {i : Int64} {before after : List Value} {old : Value}
    (hitems : (h.list r).toList = before ++ old :: after)
    (hplace : (h.list r).size < 2 ^ 63 → (before.length : Int) = placeOf i (h.list r).size) :
    TakesOut h (.list r) (.int i) old (h.modifyList r fun _ => (before ++ after).toArray)
  | entry {r : MapRef} {k : Key} {before after : List (Key × Value)} {old : Value}
    {rest : OrderedMap Key Value} (hentries : (h.map r).toList = before ++ (k, old) :: after)
    (hrest : rest.toList = before ++ after) :
    TakesOut h (.map r) k.toValue old (h.modifyMap r fun _ => rest)
  | noEntry {r : MapRef} {k : Key} (habsent : k ∉ (h.map r).keys) :
    TakesOut h (.map r) k.toValue .nil h
  | member {r : SetRef} {k : Key} {before after : List Key} {rest : OrderedMap Key Unit}
    (hmembers : (h.set r).keys.toList = before ++ k :: after)
    (hrest : rest.keys.toList = before ++ after) :
    TakesOut h (.set r) k.toValue k.toValue (h.modifySet r fun _ => rest)
  | noMember {r : SetRef} {k : Key} (habsent : k ∉ (h.set r).keys) :
    TakesOut h (.set r) k.toValue .nil h

/-- If the value is a list, then a 64-bit integer holds its length. -/
def Moderate (h : Heap) (v : Value) : Prop := ∀ r, v = .list r → (h.list r).size < 2 ^ 63

theorem Key.toValue_of_ofValue? {v : Value} {k : Key} (h : ofValue? v = some k) :
    k.toValue = v := by
  cases v <;> cases h <;> rfl

theorem keyArgument_toValue (k : Key) : keyArgument k.toValue = .ok k := by
  rw [keyArgument, Key.ofValue?_toValue]

theorem keyArgument_eq_ok {v : Value} {k : Key} (h : keyArgument v = .ok k) : k.toValue = v := by
  unfold keyArgument at h
  split at h
  · rename_i hk
    cases h
    exact Key.toValue_of_ofValue? hk
  · cases h

theorem takesOut_entry {h : Heap} (r : MapRef) (k : Key) :
    TakesOut h (.map r) k.toValue (((h.map r).get? k).getD .nil)
      (h.modifyMap r fun entries => entries.erase k) := by
  cases hk : (h.map r).get? k with
  | none =>
    rw [h.modifyMap_eq_self r (OrderedMap.erase_of_get?_eq_none hk)]
    exact .noEntry (OrderedMap.get?_eq_none_iff.1 hk)
  | some old =>
    obtain ⟨before, after, hentries⟩ := OrderedMap.exists_split_of_get? hk
    rw [h.modifyMap_congr r (g := fun _ => (h.map r).erase k) rfl]
    exact .entry hentries (OrderedMap.toList_erase_of_split hentries)

theorem takesOut_member {h : Heap} (r : SetRef) (k : Key) :
    TakesOut h (.set r) k.toValue (if (h.set r).contains k then k.toValue else .nil)
      (h.modifySet r fun members => members.erase k) := by
  cases hk : (h.set r).get? k with
  | none =>
    have habsent := OrderedMap.get?_eq_none_iff.1 hk
    rw [h.modifySet_eq_self r (OrderedMap.erase_of_get?_eq_none hk),
      if_neg (mt OrderedMap.contains_iff_mem_keys.1 habsent)]
    exact .noMember habsent
  | some _ =>
    obtain ⟨before, after, hmembers⟩ := OrderedMap.exists_split_of_get? hk
    rw [h.modifySet_congr r (g := fun _ => (h.set r).erase k) rfl,
      if_pos (OrderedMap.contains_iff_get?.2 ⟨_, hk⟩)]
    have hkeys : (h.set r).keys.toList = before.map Prod.fst ++ k :: after.map Prod.fst := by
      rw [OrderedMap.toList_keys, hmembers, List.map_append, List.map_cons]
    refine .member hkeys ?_
    rw [OrderedMap.toList_keys, OrderedMap.toList_erase_of_split hmembers, List.map_append]

namespace CoreFunction

/-- A position is one of an item, however long the list. -/
theorem deletePosition?_lt {i : Int64} {n p : Nat} (h : deletePosition? i n = some p) : p < n := by
  have hlength : (Int64.ofNat n).toInt ≤ n := by
    rw [Int64.toInt_ofNat', Int.bmod_def, show Int64.size = 18446744073709551616 from rfl]
    split <;> omega
  unfold deletePosition? at h
  dsimp only at h
  generalize (if i < 0 then i + Int64.ofNat n else i) = place at h
  split at h
  · cases h
  · rename_i hrange
    cases h
    simp only [Bool.or_eq_true, decide_eq_true_eq, not_or, Int64.lt_iff_toInt_lt,
      Int64.le_iff_toInt_le, Int64.toInt_zero] at hrange
    change place.toInt.toNat < n
    omega

theorem takesOut_item {h : Heap} {r : ListRef} {i : Int64} {p : Nat}
    (hp : deletePosition? i (h.list r).size = some p) :
    TakesOut h (.list r) (.int i) ((h.list r).getD p .nil)
      (h.modifyList r fun items => items.eraseIdxIfInBounds p) := by
  have hlt : p < (h.list r).size := deletePosition?_lt hp
  have hlength : ((h.list r).toList.take p).length = p :=
    List.length_take_of_le (by rw [Array.length_toList]; exact Nat.le_of_lt hlt)
  have hleft : (h.list r).eraseIdxIfInBounds p =
      ((h.list r).toList.take p ++ (h.list r).toList.drop (p + 1)).toArray := by
    rw [← List.eraseIdx_eq_take_drop_succ, ← Array.toList_eraseIdxIfInBounds, Array.toArray_toList]
  rw [h.modifyList_congr r (g := fun _ => _) hleft]
  refine .item ?_ fun hn => ?_
  · rw [Array.getD_eq_getD_getElem?, Array.getElem?_eq_getElem hlt, Option.getD_some,
      ← Array.getElem_toList, List.getElem_cons_drop, List.take_append_drop]
  · rw [deletePosition?_eq hn, position?_eq hn] at hp
    split at hp
    · rename_i hrange
      cases hp
      rw [hlength, Int.toNat_of_nonneg hrange.1]
    · cases hp

/-- An index for which there is no position picks no item. -/
theorem not_takesOut_item {h : Heap} {r : ListRef} {i : Int64} (hn : (h.list r).size < 2 ^ 63)
    (hp : deletePosition? i (h.list r).size = none) (v : Value) (h' : Heap) :
    ¬ TakesOut h (.list r) (.int i) v h' := by
  rintro ⟨hitems, hplace⟩
  have hpick : Picks i (h.list r).toList _ v _ := ⟨hitems, hplace hn⟩
  rw [deletePosition?_eq hn, hpick.position?_list hn] at hp
  cases hp

theorem removeEntry_map (r : MapRef) (key : Value) (h : Heap) :
    removeEntry (.map r) key h = match keyArgument key with
      | .ok k => .ok (((h.map r).get? k).getD .nil) (h.modifyMap r fun entries => entries.erase k)
      | .error e => .error e h := by
  unfold removeEntry
  dsimp only
  cases keyArgument key <;> rfl

theorem removeEntry_set (r : SetRef) (key : Value) (h : Heap) :
    removeEntry (.set r) key h = match keyArgument key with
      | .ok k => .ok (if (h.set r).contains k then k.toValue else .nil)
          (h.modifySet r fun members => members.erase k)
      | .error e => .error e h := by
  unfold removeEntry
  dsimp only
  cases keyArgument key <;> rfl

theorem removeEntry_takesOut (h : Heap) (container key : Value) :
    match removeEntry container key h with
    | .ok v h' => TakesOut h container key v h'
    | .error _ h' =>
      h' = h ∧ (Moderate h container → ∀ v h'', ¬ TakesOut h container key v h'') := by
  cases container with
  | map r =>
    rw [removeEntry_map]
    cases hk : keyArgument key with
    | ok k => exact keyArgument_eq_ok hk ▸ takesOut_entry r k
    | error e =>
      refine ⟨rfl, fun _ v h'' htakes => ?_⟩
      cases htakes <;> cases (keyArgument_toValue _).symm.trans hk
  | set r =>
    rw [removeEntry_set]
    cases hk : keyArgument key with
    | ok k => exact keyArgument_eq_ok hk ▸ takesOut_member r k
    | error e =>
      refine ⟨rfl, fun _ v h'' htakes => ?_⟩
      cases htakes <;> cases (keyArgument_toValue _).symm.trans hk
  | list r =>
    cases key with
    | int i =>
      rw [show removeEntry (.list r) (.int i) h = delete.call #[.list r, .int i] h from rfl,
        call_delete]
      cases hp : deletePosition? i (h.list r).size with
      | some p => exact takesOut_item hp
      | none => exact ⟨rfl, fun hn => not_takesOut_item (hn r rfl) hp⟩
    | _ => exact ⟨rfl, fun _ _ _ htakes => nomatch htakes⟩
  | _ => exact ⟨rfl, fun _ _ _ htakes => nomatch htakes⟩

theorem call_delete_pair {args : Array Value} {container key : Value}
    (hargs : args.toList = [container, key]) (h : Heap) :
    delete.call args h = removeEntry container key h := by
  change (ask (fun _ => twoArguments "delete" args) >>= fun p => removeEntry p.1 p.2) h = _
  unfold twoArguments
  rw [hargs]
  rfl

theorem call_delete_fails {args : Array Value}
    (hargs : ∀ container key, args.toList ≠ [container, key]) (h : Heap) :
    ∃ e, delete.call args h = .error e h := by
  change ∃ e, (ask (fun _ => twoArguments "delete" args) >>= fun p => removeEntry p.1 p.2) h = _
  unfold twoArguments
  generalize args.toList = vs at hargs
  match vs, hargs with
  | [], _ | [_], _ | _ :: _ :: _ :: _, _ => exact ⟨_, rfl⟩
  | [v, w], hargs => exact absurd rfl (hargs v w)

/-! ## Adding to a list -/

theorem appendItems_list {args : Array Value} {r : ListRef} {items : List Value}
    (hargs : args.toList = .list r :: items) (h : Heap) :
    appendItems args h = .ok (.list r) (h.modifyList r fun old => old ++ items.toArray) := by
  unfold appendItems
  rw [hargs]
  simp only [List.foldl_push_eq_append']
  rfl

theorem appendItems_fails {args : Array Value} (hargs : ∀ r items, args.toList ≠ .list r :: items)
    (h : Heap) : ∃ e, appendItems args h = .error e h := by
  unfold appendItems
  generalize args.toList = vs at hargs
  match vs, hargs with
  | [], _ => exact ⟨_, rfl⟩
  | v :: items, hargs =>
    cases v with
    | list r => exact absurd rfl (hargs r items)
    | _ => exact ⟨_, rfl⟩

end CoreFunction

/-- Only `append` and `delete` change anything. After a call of any other builtin every list, map,
set and cell is there as before. If the first argument of `append` is a list, the others are put at
its end in their order, and the same list is given back. If there is something under the second
argument of `delete` in its first one, it is taken out and given back, be it an error value that
stood there. Otherwise the two fail, and nothing at all has changed. -/
theorem only_append_and_delete_mutate (args : Array Value) (s : CallState) :
    (∀ f : Native, f ≠ .core .append → f ≠ .core .delete →
      s.heap.Remains (f.call args s).2.heap) ∧
    ((∃ r items heap, args.toList = .list r :: items ∧
        (Native.core .append).call args s = (.list r, { s with heap }) ∧
        heap = s.heap.modifyList r (fun old => old ++ items.toArray) ∧
        (r.index < s.heap.lists.size → heap.list r = s.heap.list r ++ items.toArray)) ∨
      ∃ e : CallFault, (∀ r items, args.toList ≠ .list r :: items) ∧
        (Native.core .append).call args s = (e.toValue, s)) ∧
    ((∃ container key v heap, args.toList = [container, key] ∧
        TakesOut s.heap container key v heap ∧
        (Native.core .delete).call args s = (v, { s with heap })) ∨
      ∃ e : CallFault, (∀ container key, args.toList = [container, key] →
          Moderate s.heap container → ∀ v heap, ¬ TakesOut s.heap container key v heap) ∧
        (Native.core .delete).call args s = (e.toValue, s)) := by
  obtain ⟨h, w⟩ := s
  refine ⟨fun f happend hdelete => Native.call_remains happend hdelete args _, ?_, ?_⟩
  · change (∃ r items heap, _ ∧ onHeap (CoreFunction.appendItems args) ⟨h, w⟩ = _ ∧ _) ∨
      ∃ e : CallFault, _ ∧ onHeap (CoreFunction.appendItems args) ⟨h, w⟩ = _
    by_cases hlist : ∃ r items, args.toList = .list r :: items
    · obtain ⟨r, items, hargs⟩ := hlist
      refine .inl ⟨r, items, _, hargs, ?_, rfl, fun hr => h.list_modifyList hr _⟩
      rw [onHeap, CoreFunction.appendItems_list hargs]
    · have hnone : ∀ r items, args.toList ≠ .list r :: items :=
        fun r items hargs => hlist ⟨r, items, hargs⟩
      obtain ⟨e, he⟩ := CoreFunction.appendItems_fails hnone h
      exact .inr ⟨e, hnone, by rw [onHeap, he]⟩
  · change (∃ container key v heap, _ ∧ _ ∧ onHeap (CoreFunction.delete.call args) ⟨h, w⟩ = _) ∨
      ∃ e : CallFault, _ ∧ onHeap (CoreFunction.delete.call args) ⟨h, w⟩ = _
    by_cases hpair : ∃ container key, args.toList = [container, key]
    · obtain ⟨container, key, hargs⟩ := hpair
      have htakes := CoreFunction.removeEntry_takesOut h container key
      rw [onHeap, CoreFunction.call_delete_pair hargs]
      cases hrun : CoreFunction.removeEntry container key h with
      | ok v heap =>
        rw [hrun] at htakes
        exact .inl ⟨container, key, v, heap, hargs, htakes, rfl⟩
      | error e heap =>
        rw [hrun] at htakes
        obtain ⟨rfl, hnone⟩ := htakes
        refine .inr ⟨e, fun container' key' hargs' => ?_, rfl⟩
        cases hargs.symm.trans hargs'
        exact hnone
    · have hnone : ∀ container key, args.toList ≠ [container, key] :=
        fun container key hargs => hpair ⟨container, key, hargs⟩
      obtain ⟨e, he⟩ := CoreFunction.call_delete_fails hnone h
      exact .inr ⟨e, fun container key hargs => absurd hargs (hnone container key),
        by rw [onHeap, he]⟩

/-- A list that holds itself, added to itself and taken out of itself. -/
theorem only_append_and_delete_mutate_itself :
    let r : ListRef := ⟨0⟩
    let s : CallState := ⟨(Heap.empty.newList #[.list r, .int 5]).2, .start 0 0⟩
    Native.core .list ≠ .core .append ∧ Native.core .list ≠ .core .delete ∧
      s.heap.Remains ((Native.core .list).call #[.list r] s).2.heap ∧
      r.index < s.heap.lists.size ∧
      (∃ heap, (Native.core .append).call #[.list r, .list r, .nil] s = (.list r, { s with heap }) ∧
        heap.list r = #[.list r, .int 5, .list r, .nil]) ∧
      (∃ heap, (Native.core .delete).call #[.list r, .int (-2)] s = (.list r, { s with heap }) ∧
        heap.list r = #[.int 5]) ∧
      ∃ e : CallFault, (Native.core .delete).call #[.list r, .int 2] s = (e.toValue, s) := by
  intro r s
  have hr : r.index < s.heap.lists.size := Nat.zero_lt_one
  have hsize : (s.heap.list r).size = 2 := rfl
  have hmoderate : Moderate s.heap (.list r) := fun _ heq => by
    cases heq
    decide
  have hlist : Native.core .list ≠ .core .append ∧ Native.core .list ≠ .core .delete := by decide
  obtain ⟨-, happend, -⟩ := only_append_and_delete_mutate #[.list r, .list r, .nil] s
  obtain ⟨-, -, hdelete⟩ := only_append_and_delete_mutate #[.list r, .int (-2)] s
  obtain ⟨-, -, hbeyond⟩ := only_append_and_delete_mutate #[.list r, .int 2] s
  refine ⟨hlist.1, hlist.2, (only_append_and_delete_mutate #[.list r] s).1 _ hlist.1 hlist.2, hr,
    ?_, ?_, ?_⟩
  · rcases happend with ⟨_, _, heap, hargs, hcall, -, hitems⟩ | ⟨e, hnone, -⟩
    · cases hargs
      exact ⟨heap, hcall, hitems hr⟩
    · exact absurd rfl (hnone r [.list r, .nil])
  · rcases hdelete with ⟨_, _, v, heap, hargs, htakes, hcall⟩ | ⟨e, hnone, -⟩
    · cases hargs
      cases htakes with
      | @item _ _ before _ _ hitems hplace =>
        obtain rfl : before = [] := List.length_eq_zero_iff.1 (Int.ofNat.inj (hplace (by decide)))
        obtain ⟨rfl, rfl⟩ := List.cons.inj hitems
        exact ⟨_, hcall, s.heap.list_modifyList hr _⟩
    · have hitems : (s.heap.list r).toList = [] ++ .list r :: [.int 5] := rfl
      have htakes : TakesOut s.heap (.list r) (.int (-2)) (.list r)
          (s.heap.modifyList r fun _ => #[.int 5]) := .item hitems fun _ => by decide
      exact absurd htakes (hnone _ _ rfl hmoderate _ _)
  · rcases hbeyond with ⟨_, _, v, heap, hargs, htakes, -⟩ | ⟨e, -, hcall⟩
    · cases hargs
      cases htakes with
      | @item _ _ before after _ hitems hplace =>
        have hpick : Picks 2 (s.heap.list r).toList before v after :=
          ⟨hitems, hplace (by decide)⟩
        have hbefore : before.length = 2 := Int.ofNat.inj hpick.place
        exact absurd hpick.lt_length (by rw [hbefore, Array.length_toList, hsize]; decide)
    · exact ⟨e, hcall⟩

end Ember
