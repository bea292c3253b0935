import Ember.Builtin.Core
import Ember.Machine.Run
import Ember.Proofs.Builtin.Effects
import Ember.Proofs.Evaluation.Instructions
import Ember.Proofs.Maps.Events
import Ember.Proofs.Value.Sketches

/-! Histories of the maps of a run. Whatever is done to a map by stores under a key, stores of
attributes, deletions and calls of `delete`, failed ones among them, all that can be seen of it is
told by the events that they were for it. -/
namespace Ember
set_option autoImplicit false

/-! ## Updates -/

/-- What can be done to a map; it can be tried on any value. -/
inductive Update
  | setItem (container key value : Value)
  | setAttribute (object : Value) (name : String) (value : Value)
  | deleteItem (container key : Value)
  | delete (args : Array Value)

/-- Whether a computation has succeeded, and the heap that it leaves. -/
def concluded {ε α : Type} : EStateM.Result ε Heap α → Bool × Heap
  | .ok _ h => (true, h)
  | .error _ h => (false, h)

namespace Update

def run (h : Heap) : Update → Bool × Heap
  | setItem container key value => concluded (Ember.setItem container key value h)
  | setAttribute object name value => concluded (Ember.setAttribute object name value h)
  | deleteItem container key => concluded (Ember.deleteItem container key h)
  | delete args => concluded (CoreFunction.delete.call args h)

/-- The heap after updates, failed ones among them. -/
def runAll (h : Heap) (us : List Update) : Heap := us.foldl (fun h u => (u.run h).2) h

/-- The map that an update is tried on. -/
def map? : Update → Option MapRef
  | setItem (.map r) _ _ | setAttribute (.map r) _ _ | deleteItem (.map r) _ => some r
  | delete args =>
    match args.toList with
    | .map r :: _ => some r
    | _ => none
  | _ => none

/-- What an update does to the map that it is tried on, unless it fails. -/
def event? : Update → Option (Event Key Value)
  | setItem _ key value => (Key.ofValue? key).map fun k => .store k value
  | setAttribute _ name value => some (.store (.str name) value)
  | deleteItem _ key => (Key.ofValue? key).map .remove
  | delete args =>
    match args.toList with
    | [_, key] => (Key.ofValue? key).map .remove
    | _ => none

/-- What an update does to a map. -/
def eventOn? (r : MapRef) (u : Update) : Option (Event Key Value) :=
  if u.map? = some r then u.event? else none

end Update

/-! ### One update -/

namespace Heap

variable {h : Heap} {r r' : MapRef}

theorem map_modifyMap (hr : r.index < h.maps.size)
    (f : OrderedMap Key Value → OrderedMap Key Value) : (h.modifyMap r f).map r = f (h.map r) :=
  getD_modify hr f .empty

theorem map_modifyMap_of_ne (hr : r' ≠ r) (f : OrderedMap Key Value → OrderedMap Key Value) :
    (h.modifyMap r' f).map r = h.map r :=
  getD_modify_of_ne (fun hindex => hr (by cases r; cases r'; cases hindex; rfl)) f .empty

@[simp] theorem size_maps_modifyMap (h : Heap) (r : MapRef)
    (f : OrderedMap Key Value → OrderedMap Key Value) :
    (h.modifyMap r f).maps.size = h.maps.size := Array.size_modify

end Heap

theorem setItem_map (r : MapRef) (key value : Value) (h : Heap) :
    setItem (.map r) key value h = match Key.ofValue? key with
      | some k => .ok () (h.modifyMap r fun m => m.insert k value)
      | none => .error (.unhashable key.typeName) h := by
  unfold setItem keyOf
  dsimp only
  cases Key.ofValue? key <;> rfl

theorem deleteItem_map (r : MapRef) (key : Value) (h : Heap) :
    deleteItem (.map r) key h = match Key.ofValue? key with
      | some k => .ok () (h.modifyMap r fun m => m.erase k)
      | none => .error (.unhashable key.typeName) h := by
  unfold deleteItem keyOf
  dsimp only
  cases Key.ofValue? key <;> rfl

/-! What is tried on anything else leaves the maps alone. -/

theorem maps_setItem {container : Value} (hother : ∀ r, container ≠ .map r) (key value : Value)
    (h : Heap) : (concluded (setItem container key value h)).2.maps = h.maps := by
  cases container with
  | map r => exact absurd rfl (hother r)
  | list r =>
    cases key with
    | int i =>
      rw [setItem_list]
      cases position? i (h.list r).size <;> rfl
    | _ => rfl
  | _ => rfl

theorem maps_setAttribute {object : Value} (hother : ∀ r, object ≠ .map r) (name : String)
    (value : Value) (h : Heap) :
    (concluded (setAttribute object name value h)).2.maps = h.maps := by
  cases object with
  | map r => exact absurd rfl (hother r)
  | _ => rfl

theorem deleteItem_set (r : SetRef) (key : Value) (h : Heap) :
    deleteItem (.set r) key h = match keyOf key with
      | .ok k => .ok () (h.modifySet r fun members => members.erase k)
      | .error fault => .error fault h := by
  unfold deleteItem
  dsimp only
  cases keyOf key <;> rfl

theorem maps_deleteItem {container : Value} (hother : ∀ r, container ≠ .map r) (key : Value)
    (h : Heap) : (concluded (deleteItem container key h)).2.maps = h.maps := by
  cases container with
  | map r => exact absurd rfl (hother r)
  | list r =>
    cases key with
    | int i =>
      rw [deleteItem_list]
      cases position? i (h.list r).size <;> rfl
    | _ => rfl
  | set r =>
    rw [deleteItem_set]
    cases keyOf key <;> rfl
  | _ => rfl

theorem TakesOut.maps {h h' : Heap} {container key v : Value}
    (htakes : TakesOut h container key v h') (hother : ∀ r, container ≠ .map r) :
    h'.maps = h.maps := by
  cases htakes with
  | item | member | noMember => rfl
  | entry | noEntry => exact absurd rfl (hother _)

theorem maps_delete {args : Array Value} (hother : ∀ r rest, args.toList ≠ .map r :: rest)
    (h : Heap) : (concluded (CoreFunction.delete.call args h)).2.maps = h.maps := by
  by_cases hpair : ∃ container key, args.toList = [container, key]
  · obtain ⟨container, key, hargs⟩ := hpair
    have htakes := CoreFunction.removeEntry_takesOut h container key
    rw [CoreFunction.call_delete_pair hargs]
    cases hrun : CoreFunction.removeEntry container key h with
    | ok v h' =>
      rw [hrun] at htakes
      refine htakes.maps fun r hr => hother r [key] ?_
      rw [hargs, hr]
    | error e h' =>
      rw [hrun] at htakes
      exact congrArg Heap.maps htakes.1
  · obtain ⟨e, he⟩ := CoreFunction.call_delete_fails
      (fun container key hargs => hpair ⟨container, key, hargs⟩) h
    rw [he]
    rfl

namespace Update

variable {u : Update} {r : MapRef}

/-- An update of a map is its event; without one it fails and changes nothing. -/
theorem run_of_map? (hu : u.map? = some r) (h : Heap) :
    u.run h = match u.event? with
      | some e => (true, h.modifyMap r fun m => m.meet e)
      | none => (false, h) := by
  cases u with
  | setItem container key value =>
    cases container <;> cases hu
    rw [run, setItem_map, event?]
    cases Key.ofValue? key <;> rfl
  | setAttribute object name value =>
    cases object <;> cases hu
    rfl
  | deleteItem container key =>
    cases container <;> cases hu
    rw [run, deleteItem_map, event?]
    cases Key.ofValue? key <;> rfl
  | delete args =>
    rw [run, event?]
    by_cases hpair : ∃ container key, args.toList = [container, key]
    · obtain ⟨container, key, hargs⟩ := hpair
      rw [map?, hargs] at hu
      cases container <;> cases hu
      rw [CoreFunction.call_delete_pair hargs, CoreFunction.removeEntry_map, keyArgument, hargs]
      dsimp only
      cases Key.ofValue? key <;> rfl
    · have hnone : ∀ container key, args.toList ≠ [container, key] :=
        fun container key hargs => hpair ⟨container, key, hargs⟩
      obtain ⟨e, he⟩ := CoreFunction.call_delete_fails hnone h
      rw [he]
      split
      · rename_i e' he'
        split at he'
        · rename_i hargs
          exact absurd hargs (hnone _ _)
        · cases he'
      · rfl

theorem maps_run_of_map?_eq_none (hu : u.map? = none) (h : Heap) : (u.run h).2.maps = h.maps := by
  cases u with
  | setItem container key value =>
    refine maps_setItem (fun r hr => ?_) key value h
    subst hr
    cases hu
  | setAttribute object name value =>
    refine maps_setAttribute (fun r hr => ?_) name value h
    subst hr
    cases hu
  | deleteItem container key =>
    refine maps_deleteItem (fun r hr => ?_) key h
    subst hr
    cases hu
  | delete args =>
    refine maps_delete (fun r rest hargs => ?_) h
    rw [map?, hargs] at hu
    cases hu

/-- An update does its event to a map, if it is one for that map, and nothing else. -/
theorem map_run (u : Update) {h : Heap} (hr : r.index < h.maps.size) :
    (u.run h).2.map r = (u.eventOn? r).toList.foldl .meet (h.map r) ∧
      (u.run h).2.maps.size = h.maps.size := by
  cases hu : u.map? with
  | none =>
    have hmaps := maps_run_of_map?_eq_none hu h
    rw [eventOn?, hu, if_neg nofun, Heap.map, hmaps]
    exact ⟨rfl, rfl⟩
  | some r' =>
    rw [eventOn?, hu, run_of_map? hu]
    by_cases heq : r' = r
    · subst heq
      rw [if_pos rfl]
      cases u.event? with
      | none => exact ⟨rfl, rfl⟩
      | some e => exact ⟨Heap.map_modifyMap hr _, Heap.size_maps_modifyMap _ _ _⟩
    · rw [if_neg fun hsome => heq (Option.some.inj hsome)]
      cases u.event? with
      | none => exact ⟨rfl, rfl⟩
      | some e => exact ⟨Heap.map_modifyMap_of_ne heq _, Heap.size_maps_modifyMap _ _ _⟩

/-! ### Many updates -/

/-- What has happened to a map that had the given entries. -/
def history (m : OrderedMap Key Value) (r : MapRef) (us : List Update) : List (Event Key Value) :=
  m.toList.map (fun e => .store e.1 e.2) ++ us.filterMap (eventOn? r)

end Update

theorem OrderedMap.ofEvents_stores (m : OrderedMap Key Value) :
    ofEvents (m.toList.map fun e => .store e.1 e.2) = m := by
  rw [ofEvents, List.foldl_map]
  exact ext (congrArg List.toArray (toList_ofList m.distinct))

namespace Update

variable {r : MapRef}

theorem map_runAll (us : List Update) {h : Heap} (hr : r.index < h.maps.size) :
    (runAll h us).map r = (us.filterMap (eventOn? r)).foldl .meet (h.map r) := by
  induction us generalizing h with
  | nil => rfl
  | cons u us ih =>
    obtain ⟨hmap, hsize⟩ := map_run u hr
    rw [show runAll h (u :: us) = runAll (u.run h).2 us from rfl, ih (hsize ▸ hr), hmap,
      ← List.foldl_append, List.filterMap_cons]
    cases u.eventOn? r <;> rfl

/-- Updates leave of a map what its history makes. -/
theorem map_runAll_eq_ofEvents (us : List Update) {h : Heap} (hr : r.index < h.maps.size) :
    (runAll h us).map r = .ofEvents (history (h.map r) r us) := by
  have hstores := OrderedMap.ofEvents_stores (h.map r)
  rw [OrderedMap.ofEvents] at hstores
  rw [map_runAll us hr, history, OrderedMap.ofEvents, List.foldl_append, hstores]

end Update

/-! ## Texts of maps -/

namespace Value

variable {h : Heap} {steps : Nat}

theorem exists_written_of_inside
    (hinside : ∀ (opened : List Container) (w : Value), ∃ cs : List Char, ∀ out,
      writeInside h steps opened w out = out ++ String.ofList cs)
    (opened : List Container) (v : Value) : ∃ cs : Bool → List Char, ∀ nested out,
      writeWithin h steps opened nested v out = out ++ String.ofList (cs nested) := by
  by_cases hopen : ∃ c, v.container? = some c ∧ c ∈ opened
  · obtain ⟨c, hc, hmem⟩ := hopen
    obtain ⟨t, ht⟩ : ∃ t, Sketch.Drawn h opened v (writeWithin h steps opened · v) t :=
      exists_sketch_of_open hc hmem
    exact ⟨fun nested => t.chars h nested, ht.written⟩
  have hpieces : ∀ w ∈ v.shown h, ∃ cs : List Char, ∀ out,
      writeShown h steps opened v w out = out ++ String.ofList cs := by
    intro w hw
    cases v with
    | result id isOk payload =>
      rw [show w = payload from List.mem_singleton.1 hw]
      obtain ⟨cs, hcs⟩ := exists_written_of_inside hinside opened payload
      exact ⟨cs true, hcs true⟩
    -- no step is used inside a result, one is inside any other value
    | _ => exact hinside _ w
  obtain ⟨pieces, hpieces⟩ := exists_forall₂ hpieces
  exact ⟨fun nested => v.framed h nested pieces, fun nested out =>
    writeWithin_framed (fun c hc hmem => hopen ⟨c, hc, hmem⟩) hpieces.flip nested out⟩
termination_by sizeOf v
decreasing_by
  subst_vars
  rw [Value.result.sizeOf_spec]
  omega

/-- Whatever the heap holds, a value is written after what is there. -/
theorem exists_writtenInside (h : Heap) (steps : Nat) (opened : List Container) (v : Value) :
    ∃ cs : List Char, ∀ out, writeInside h steps opened v out = out ++ String.ofList cs := by
  induction steps generalizing opened v with
  | zero => exact ⟨[], fun out => String.append_empty.symm⟩
  | succ steps ih =>
    obtain ⟨cs, hcs⟩ := exists_written_of_inside ih opened v
    exact ⟨cs true, hcs true⟩

/-- The text of a value in the text of a map. -/
def textInMap (h : Heap) (r : MapRef) (v : Value) : List Char :=
  (writeInside h h.depthBound [.map r] v "").toList

theorem text_map (h : Heap) (r : MapRef) :
    (Value.map r).text h = String.ofList ('\x7b' :: joined ((h.map r).toList.map fun e =>
      e.1.chars ++ [':', ' '] ++ textInMap h r e.2) ++ ['\x7d']) := by
  have hpieces : List.Forall₂ (fun w cs => ∀ out, writeShown h h.depthBound [] (.map r) w out =
      out ++ String.ofList cs) ((Value.map r).shown h)
        (((Value.map r).shown h).map (textInMap h r)) := by
    refine List.forall₂_map_right_iff.2 (List.forall₂_same.2 fun w _ out => ?_)
    obtain ⟨cs, hcs⟩ := exists_writtenInside h h.depthBound [.map r] w
    have htext : textInMap h r w = cs := by
      rw [textInMap, hcs, String.empty_append, String.toList_ofList]
    rw [htext]
    exact hcs out
  have hmap : ∀ (es : List (Key × Value)) (f : Value → List Char),
      List.zipWith (fun k cs => Key.chars k ++ [':', ' '] ++ cs) (es.map (·.1))
        ((es.map (·.2)).map f) = es.map fun e => e.1.chars ++ [':', ' '] ++ f e.2 := by
    intro es f
    rw [List.map_map, List.zipWith_map, List.zipWith_self]
    rfl
  rw [text, writeWithin_framed (fun c _ => List.not_mem_nil) hpieces, String.empty_append, framed,
    OrderedMap.toList_keys, shown]
  exact congrArg (fun l => String.ofList ('\x7b' :: joined l ++ ['\x7d'])) (hmap _ _)

end Value

/-! ## Literals -/

namespace Heap

theorem modifyMap_newMap (h : Heap) (m : OrderedMap Key Value)
    (f : OrderedMap Key Value → OrderedMap Key Value) :
    (h.newMap m).2.modifyMap (h.newMap m).1 f = (h.newMap (f m)).2 := by
  have hmodify : (h.maps.push m).modify h.maps.size f = h.maps.push (f m) := by
    refine Array.ext_getElem? fun i => ?_
    rw [Array.getElem?_modify, Array.getElem?_push, Array.getElem?_push]
    by_cases hi : i = h.maps.size
    · rw [if_pos hi.symm, if_pos hi, if_pos hi]
      rfl
    · rw [if_neg (Ne.symm hi), if_neg hi, if_neg hi]
  exact congrArg (fun maps => { h with maps }) hmodify

end Heap

theorem setItem_newMap (h : Heap) (m : OrderedMap Key Value) (key value : Value) :
    setItem (.map (h.newMap .empty).1) key value (h.newMap m).2 = match keyOf key with
      | .ok k => .ok () (h.newMap (m.insert k value)).2
      | .error fault => .error fault (h.newMap m).2 := by
  rw [setItem_map, keyOf]
  cases Key.ofValue? key with
  | none => rfl
  | some k => exact congrArg (EStateM.Result.ok ()) (h.modifyMap_newMap m _)

/-- The stores of the entries of a literal into the map that it makes. -/
def storeAll (r : MapRef) (pairs : List (Value × Value)) : OnHeap Fault Unit :=
  pairs.forM fun e => setItem (.map r) e.1 e.2

theorem storeAll_cons (r : MapRef) (e : Value × Value) (pairs : List (Value × Value)) (h : Heap) :
    storeAll r (e :: pairs) h = match setItem (.map r) e.1 e.2 h with
      | .ok _ h' => storeAll r pairs h'
      | .error fault h' => .error fault h' := by
  change EStateM.bind (setItem (.map r) e.1 e.2) (fun _ => storeAll r pairs) h = _
  unfold EStateM.bind
  cases setItem (.map r) e.1 e.2 h <;> rfl

/-- Stores into a new map make the map of all entries, and fail where there is none. -/
theorem storeAll_newMap (h : Heap) (pairs : List (Value × Value)) (m : OrderedMap Key Value) :
    match Action.entriesOf (inTurn pairs) m with
    | .ok m' => storeAll (h.newMap .empty).1 pairs (h.newMap m).2 = .ok () (h.newMap m').2
    | .error fault =>
      ∃ h', storeAll (h.newMap .empty).1 pairs (h.newMap m).2 = .error fault h' := by
  induction pairs generalizing m with
  | nil => exact rfl
  | cons e pairs ih =>
    have hentries : Action.entriesOf (inTurn (e :: pairs)) m = match keyOf e.1 with
        | .ok k => Action.entriesOf (inTurn pairs) (m.insert k e.2)
        | .error fault => .error fault := rfl
    rw [hentries, storeAll_cons, setItem_newMap]
    cases keyOf e.1 with
    | error fault => exact ⟨_, rfl⟩
    | ok k => exact ih (m.insert k e.2)

/-- The instruction that makes a map of the keys and values on the stack does what stores into a new
map do, one after the other. -/
theorem execute_buildMap (su : Surroundings) (offset : Nat) (m : Machine) (below : Array Value)
    (pairs : List (Value × Value)) (hstack : m.stack = below ++ (inTurn pairs).toArray) :
    Action.execute su offset ⟨.buildMap, [pairs.length]⟩ m =
      match storeAll (m.heap.newMap .empty).1 pairs (m.heap.newMap .empty).2 with
      | .ok _ heap => .ok () { m with stack := below.push (.map (m.heap.newMap .empty).1), heap }
      | .error fault _ => .error fault { m with stack := below } := by
  have hpop : Action.popMany (2 * pairs.length) m =
      .ok (inTurn pairs).toArray { m with stack := below } := by
    have hends := Action.Ends.popMany (Q := fun a m' =>
      a = (inTurn pairs).toArray ∧ m' = { m with stack := below }) (E := fun _ _ => False)
      hstack (length_inTurn pairs) ⟨rfl, rfl⟩
    unfold Action.Ends at hends
    cases hrun : Action.popMany (2 * pairs.length) m with
    | ok a m' =>
      rw [hrun] at hends
      rw [hends.1, hends.2]
    | error e m' =>
      rw [hrun] at hends
      exact hends.elim
  have hstores := storeAll_newMap m.heap pairs .empty
  change EStateM.bind (Action.popMany (2 * pairs.length)) _ m = _
  unfold EStateM.bind
  rw [hpop]
  change EStateM.bind (Action.ask fun _ => Action.entriesOf (inTurn pairs) .empty) _ _ = _
  unfold EStateM.bind Action.ask
  cases hentries : Action.entriesOf (inTurn pairs) .empty with
  | ok entries =>
    rw [hentries] at hstores
    rw [hstores]
    rfl
  | error fault =>
    rw [hentries] at hstores
    obtain ⟨h', hstores⟩ := hstores
    rw [hstores]

/-! ## What is seen of a map -/

/-- All that can be seen of a map is what events make of it: its keys are different and stand in the
order of the stores from which on they have been there, and under each key is the value of its last
store. -/
structure MapRef.Follows (r : MapRef) (h : Heap) (events : List (Event Key Value)) : Prop where
  distinct : (h.map r).keys.toList.Nodup
  present : ∀ k, k ∈ (h.map r).keys ↔ ∃ i, StoredFrom events k i
  ordered : (h.map r).keys.toList.Pairwise (StoredBefore events)
  byKey : ∀ k : Key, getItem h (.map r) k.toValue = .ok ((lastStored? events k).getD .nil)
  byName : ∀ name,
    getAttribute h (.map r) name = .ok ((lastStored? events (.str name)).getD .nil)
  keys : ∃ l h', CoreFunction.keys.call #[.map r] h = .ok (.list l) h' ∧
    h'.list l = (h.map r).keys.map Key.toValue
  values : ∃ l h', CoreFunction.values.call #[.map r] h = .ok (.list l) h' ∧
    h'.list l = (h.map r).keys.map fun k => (lastStored? events k).getD .nil
  text : (Value.map r).text h = String.ofList ('\x7b' :: joined ((h.map r).keys.toList.map fun k =>
    k.chars ++ [':', ' '] ++ Value.textInMap h r ((lastStored? events k).getD .nil)) ++ ['\x7d'])

theorem MapRef.follows_of_map_eq {r : MapRef} {h : Heap} {events : List (Event Key Value)}
    (hmap : h.map r = .ofEvents events) : r.Follows h events := by
  have hget : ∀ k, (h.map r).get? k = lastStored? events k := fun k => by
    rw [hmap, OrderedMap.get?_ofEvents]
  have hentries := (h.map r).entries_eq_map_keys .nil
  simp only [hget] at hentries
  refine ⟨OrderedMap.nodup_keys _, fun k => ?_, ?_, fun k => ?_, fun name => ?_,
    ⟨_, _, rfl, h.list_newList _⟩, ⟨_, _, rfl, ?_⟩, ?_⟩
  · rw [hmap]
    exact OrderedMap.mem_keys_ofEvents events k
  · rw [hmap]
    exact OrderedMap.pairwise_keys_ofEvents events
  · rw [← hget]
    cases k <;> rfl
  · rw [← hget]
    rfl
  · refine (h.list_newList (h.map r).values).trans ?_
    rw [OrderedMap.values, hentries, Array.map_map]
    rfl
  · rw [Value.text_map, OrderedMap.toList, hentries, Array.toList_map, List.map_map]
    rfl

/-- An update of a map succeeds just if it has an event, and all that can be seen of a map after any
updates is what those made of it that succeeded. A literal makes the map that stores of its entries,
one after the other, make of a new map, and fails where the first of them fails. -/
theorem maps_follow_their_history (h : Heap) (r : MapRef) (us : List Update)
    (hr : r.index < h.maps.size) :
    r.Follows (Update.runAll h us) (Update.history (h.map r) r us) ∧
    (∀ (u : Update) (h : Heap), u.map? = some r →
      ((u.run h).1 = true ↔ ∃ e, u.event? = some e)) ∧
    ∀ (su : Surroundings) (offset : Nat) (m : Machine) (below : Array Value)
      (pairs : List (Value × Value)),
      Action.execute su offset ⟨.buildMap, [pairs.length]⟩
          { m with stack := below ++ (inTurn pairs).toArray } =
        match storeAll (m.heap.newMap .empty).1 pairs (m.heap.newMap .empty).2 with
        | .ok _ heap => .ok () { m with stack := below.push (.map (m.heap.newMap .empty).1), heap }
        | .error fault _ => .error fault { m with stack := below } := by
  refine ⟨MapRef.follows_of_map_eq (Update.map_runAll_eq_ofEvents us hr), fun u h hu => ?_,
    fun su offset m below pairs => execute_buildMap su offset _ below pairs rfl⟩
  rw [Update.run_of_map? hu]
  cases u.event? with
  | none => simp
  | some e => simp

/-- A map of letters. One store fails, one letter is removed and comes back, and one that was never
there is removed. -/
theorem maps_follow_their_history_letters :
    let h := (Heap.empty.newMap .empty).2
    let m : Value := .map ⟨0⟩
    let us : List Update := [.setItem m (.str "a") (.int 1), .setItem m (.str "b") (.int 2),
      .setItem m m (.int 3), .deleteItem m (.str "a"), .setAttribute m "b" (.int 4),
      .delete #[m, .str "c"], .setItem m (.str "a") (.int 5)]
    0 < h.maps.size ∧ (Update.run h (.setItem m m (.int 3))).1 = false ∧
      getAttribute (Update.runAll h us) m "a" = .ok (.int 5) ∧
      getItem (Update.runAll h us) m (.str "b") = .ok (.int 4) ∧
      getAttribute (Update.runAll h us) m "c" = .ok .nil ∧
      let events : List (Event Key Value) := [.store (.str "a") (.int 1),
        .store (.str "b") (.int 2), .remove (.str "a"), .store (.str "b") (.int 4),
        .remove (.str "c"), .store (.str "a") (.int 5)]
      ((Update.runAll h us).map ⟨0⟩).keys.toList.Pairwise (StoredBefore events) := by
  intro h m us
  have hr : 0 < h.maps.size := Nat.zero_lt_one
  obtain ⟨hfollows, hsucceeds, -⟩ := maps_follow_their_history h ⟨0⟩ us hr
  refine ⟨hr, ?_, hfollows.byName "a", hfollows.byKey (.str "b"), hfollows.byName "c",
    hfollows.ordered⟩
  refine Bool.eq_false_iff.2 fun htrue => ?_
  obtain ⟨e, he⟩ := (hsucceeds (.setItem m m (.int 3)) h rfl).1 htrue
  cases he

end Ember
