import Mathlib.Data.Fintype.Card
import Ember.Proofs.OrderedMap
import Ember.Value.Text

/-! Data: trees of nil, truth values, integers, texts, lists, maps and sets. A value holds a datum
if what can be reached from it on the heap is that tree; a value that is reached from itself holds
none. The text of a value is that of the datum that it holds. -/
namespace Ember
set_option autoImplicit false

/-- A value with all that it holds. Entries and members stand in their order. -/
inductive Datum
  | nil
  | bool (b : Bool)
  | int (n : Int64)
  | str (s : String)
  | list (items : List Datum)
  | map (entries : List (Key × Datum))
  | set (members : List Key)

/-! ## Lists related place by place -/

section
variable {α β : Type} {R : α → β → Prop}

theorem exists_forall₂ {bs : List β} (h : ∀ b ∈ bs, ∃ a, R a b) : ∃ as, List.Forall₂ R as bs := by
  induction bs with
  | nil => exact ⟨[], .nil⟩
  | cons b bs ih =>
    obtain ⟨a, ha⟩ := h b List.mem_cons_self
    obtain ⟨as, has⟩ := ih fun b' hb' => h b' (List.mem_cons_of_mem b hb')
    exact ⟨a :: as, .cons ha has⟩

theorem exists_left_of_forall₂ {as : List α} {bs : List β} (h : List.Forall₂ R as bs) {b : β}
    (hb : b ∈ bs) : ∃ a ∈ as, R a b := by
  induction h with
  | nil => cases hb
  | @cons a b' as bs hab _ ih =>
    rcases List.mem_cons.1 hb with rfl | hb
    · exact ⟨a, List.mem_cons_self, hab⟩
    · obtain ⟨a', ha', hab'⟩ := ih hb
      exact ⟨a', List.mem_cons_of_mem a ha', hab'⟩

theorem getElem?_of_forall₂ {as : List α} {bs : List β} (h : List.Forall₂ R as bs) {i : Nat} {b : β}
    (hb : bs[i]? = some b) : ∃ a, as[i]? = some a ∧ R a b := by
  induction h generalizing i with
  | nil => cases hb
  | @cons a b' as bs hab _ ih =>
    cases i with
    | zero =>
      cases hb
      exact ⟨a, rfl, hab⟩
    | succ i => exact ih hb

end

/-! ## Values that hold data -/

mutual

def Datum.HeldBy (h : Heap) : Datum → Value → Prop
  | .nil, .nil => True
  | .bool b, .bool c => b = c
  | .int n, .int k => n = k
  | .str s, .str t => s = t
  | .list items, .list r => ItemsHeldBy h items (h.list r).toList
  | .map entries, .map r => EntriesHeldBy h entries (h.map r).toList
  | .set members, .set r => members = (h.set r).keys.toList
  | _, _ => False

def ItemsHeldBy (h : Heap) : List Datum → List Value → Prop
  | [], [] => True
  | d :: ds, v :: vs => d.HeldBy h v ∧ ItemsHeldBy h ds vs
  | _, _ => False

def EntriesHeldBy (h : Heap) : List (Key × Datum) → List (Key × Value) → Prop
  | [], [] => True
  | (k, d) :: ds, (k', v) :: vs => k = k' ∧ d.HeldBy h v ∧ EntriesHeldBy h ds vs
  | _, _ => False

end

section
variable {h : Heap}

mutual

/-- A value holds one datum at most. -/
theorem Datum.HeldBy.unique : ∀ {d d' : Datum} {v : Value}, d.HeldBy h v → d'.HeldBy h v → d = d'
  | .nil, d', v, hd, hd' => by
    cases v <;> simp only [Datum.HeldBy] at hd
    cases d' <;> simp only [Datum.HeldBy] at hd'
    rfl
  | .bool b, d', v, hd, hd' => by
    cases v <;> simp only [Datum.HeldBy] at hd
    cases d' <;> simp only [Datum.HeldBy] at hd'
    rw [hd, hd']
  | .int n, d', v, hd, hd' => by
    cases v <;> simp only [Datum.HeldBy] at hd
    cases d' <;> simp only [Datum.HeldBy] at hd'
    rw [hd, hd']
  | .str s, d', v, hd, hd' => by
    cases v <;> simp only [Datum.HeldBy] at hd
    cases d' <;> simp only [Datum.HeldBy] at hd'
    rw [hd, hd']
  | .list items, d', v, hd, hd' => by
    cases v <;> simp only [Datum.HeldBy] at hd
    cases d' <;> simp only [Datum.HeldBy] at hd'
    rw [ItemsHeldBy.unique hd hd']
  | .map entries, d', v, hd, hd' => by
    cases v <;> simp only [Datum.HeldBy] at hd
    cases d' <;> simp only [Datum.HeldBy] at hd'
    rw [EntriesHeldBy.unique hd hd']
  | .set members, d', v, hd, hd' => by
    cases v <;> simp only [Datum.HeldBy] at hd
    cases d' <;> simp only [Datum.HeldBy] at hd'
    rw [hd, hd']

theorem ItemsHeldBy.unique : ∀ {ds ds' : List Datum} {vs : List Value}, ItemsHeldBy h ds vs →
    ItemsHeldBy h ds' vs → ds = ds'
  | [], [], _, _, _ => rfl
  | d :: ds, d' :: ds', v :: vs, hd, hd' => by
    rw [hd.1.unique hd'.1, ItemsHeldBy.unique hd.2 hd'.2]
  | [], _ :: _, [], _, hd' | [], _ :: _, _ :: _, hd', _ | _ :: _, [], [], hd', _
  | _ :: _, [], _ :: _, _, hd' => hd'.elim
  | _ :: _, _ :: _, [], hd, _ => hd.elim

theorem EntriesHeldBy.unique : ∀ {ds ds' : List (Key × Datum)} {vs : List (Key × Value)},
    EntriesHeldBy h ds vs → EntriesHeldBy h ds' vs → ds = ds'
  | [], [], _, _, _ => rfl
  | (k, d) :: ds, (k', d') :: ds', (k'', v) :: vs, hd, hd' => by
    rw [hd.1, hd'.1, hd.2.1.unique hd'.2.1, EntriesHeldBy.unique hd.2.2 hd'.2.2]
  | [], _ :: _, [], _, hd' | [], _ :: _, _ :: _, hd', _ | _ :: _, [], [], hd', _
  | _ :: _, [], _ :: _, _, hd' => hd'.elim
  | _ :: _, _ :: _, [], hd, _ => hd.elim

end

end

/-! ## Texts of data -/

/-- Texts divided by commas. -/
def joined : List (List Char) → List Char
  | [] => []
  | cs :: rest => cs ++ rest.flatMap ([',', ' '] ++ ·)

def intChars (n : Int64) : List Char :=
  if n < 0 then '-' :: Nat.toDigits 10 n.toInt.natAbs else Nat.toDigits 10 n.toInt.natAbs

def boolChars : Bool → List Char
  | true => ['t', 'r', 'u', 'e']
  | false => ['f', 'a', 'l', 's', 'e']

def Key.chars : Key → List Char
  | .nil => ['n', 'i', 'l']
  | .bool b => boolChars b
  | .int n => intChars n
  | .str s => (Text.quote s).toList

mutual

def Datum.chars : Datum → List Char
  | .nil => ['n', 'i', 'l']
  | .bool b => boolChars b
  | .int n => intChars n
  | .str s => (Text.quote s).toList
  | .list items => '[' :: joined (itemChars items) ++ [']']
  | .map entries => '\x7b' :: joined (entryChars entries) ++ ['\x7d']
  | .set members => '\x7b' :: joined (members.map Key.chars) ++ ['\x7d']

def itemChars : List Datum → List (List Char)
  | [] => []
  | d :: rest => d.chars :: itemChars rest

def entryChars : List (Key × Datum) → List (List Char)
  | [] => []
  | (k, d) :: rest => (k.chars ++ [':', ' '] ++ d.chars) :: entryChars rest

end

theorem toString_bool (b : Bool) : toString b = String.ofList (boolChars b) := by
  cases b <;> rfl

theorem toString_int (n : Int64) : toString n.toInt = String.ofList (intChars n) := by
  unfold intChars
  by_cases hn : n < 0
  · have hneg : n.toInt < 0 := Int64.lt_iff_toInt_lt.1 hn
    obtain ⟨k, hk⟩ := Int.eq_negSucc_of_lt_zero hneg
    rw [if_pos hn, hk]
    show "-" ++ Nat.repr (k + 1) = String.ofList ('-' :: Nat.toDigits 10 (k + 1))
    rw [Nat.repr_eq_ofList_toDigits, ← List.singleton_append, String.ofList_append]
  · have hnonneg : 0 ≤ n.toInt := Int64.le_iff_toInt_le.1 (Int64.not_lt.1 hn)
    obtain ⟨k, hk⟩ := Int.eq_ofNat_of_zero_le hnonneg
    rw [if_neg hn, hk]
    exact Nat.repr_eq_ofList_toDigits

/-! ## Writing -/

namespace Value

theorem writeAll_eq {α : Type} {items : Array α} {write : α → String → String}
    {pieces : List (List Char)}
    (h : List.Forall₂ (fun a cs => ∀ out, write a out = out ++ String.ofList cs)
      items.toList pieces) (out : String) :
    writeAll items write out = out ++ String.ofList (joined pieces) := by
  have hmore : ∀ {rest : List α} {pieces : List (List Char)} (out : String),
      List.Forall₂ (fun a cs => ∀ out, write a out = out ++ String.ofList cs) rest pieces →
      rest.foldl (fun (acc : String × Bool) item =>
        (write item (if acc.2 then acc.1 else acc.1 ++ ", "), false)) (out, false) =
        (out ++ String.ofList (pieces.flatMap ([',', ' '] ++ ·)), false) := by
    intro rest pieces out hrest
    induction hrest generalizing out with
    | nil => simp
    | @cons a cs rest pieces ha _ ih =>
      rw [List.foldl_cons]
      dsimp only
      rw [if_neg (by decide), ha, ih, List.flatMap_cons, String.ofList_append, String.ofList_append,
        String.append_assoc, String.append_assoc, String.append_assoc]
  unfold writeAll
  rw [← Array.foldl_toList]
  generalize items.toList = items at h ⊢
  cases h with
  | nil => simp [joined]
  | cons ha hrest =>
    rw [List.foldl_cons]
    dsimp only
    rw [if_pos rfl, ha, hmore _ hrest, joined, String.ofList_append, String.append_assoc]

theorem writeKey_eq (k : Key) (out : String) : writeKey k out = out ++ String.ofList k.chars := by
  cases k with
  | nil => rfl
  | bool b => rw [writeKey, toString_bool]; rfl
  | int n => rw [writeKey, toString_int]; rfl
  | str s => rw [writeKey, Key.chars, String.ofList_toList]

end Value

/-! ### Containers that are being written -/

namespace Container

def value : Container → Value
  | list r => .list r
  | map r => .map r

/-- The container is on the heap. -/
def Valid (h : Heap) : Container → Prop
  | list r => r.index < h.lists.size
  | map r => r.index < h.maps.size

/-- The number of a container among all of the heap. -/
def number (h : Heap) : Container → Nat
  | list r => r.index
  | map r => h.lists.size + r.index

end Container

/-- No more containers are open than there are. -/
theorem length_opened_le {h : Heap} {opened : List Container} (hnodup : opened.Nodup)
    (hvalid : ∀ c ∈ opened, c.Valid h) : opened.length ≤ h.lists.size + h.maps.size := by
  have hinj : ∀ c ∈ opened, ∀ c' ∈ opened, c.number h = c'.number h → c = c' := by
    intro c hc c' hc' heq
    have hv := hvalid c hc
    have hv' := hvalid c' hc'
    cases c with
    | list r =>
      cases c' with
      | list r' => cases r; cases r'; exact congrArg _ (congrArg _ heq)
      | map r' => exact absurd heq (by simp only [Container.number, Container.Valid] at hv ⊢; omega)
    | map r =>
      cases c' with
      | list r' =>
        exact absurd heq (by simp only [Container.number, Container.Valid] at hv' ⊢; omega)
      | map r' =>
        cases r; cases r'
        exact congrArg _ (congrArg _ (Nat.add_left_cancel heq))
  have hmap : (opened.map (Container.number h)).Nodup := hnodup.map_on hinj
  have hlt : ∀ i ∈ opened.map (Container.number h), i < h.lists.size + h.maps.size := by
    intro i hi
    obtain ⟨c, hc, rfl⟩ := List.mem_map.1 hi
    have hv := hvalid c hc
    cases c with
    | list r => exact Nat.lt_add_right _ hv
    | map r => exact Nat.add_lt_add_left hv _
  have hcard := Finset.card_le_card (s := (opened.map (Container.number h)).toFinset)
    (t := Finset.range (h.lists.size + h.maps.size)) fun i hi =>
      Finset.mem_range.2 (hlt i (List.mem_toFinset.1 hi))
  rwa [List.toFinset_card_of_nodup hmap, List.length_map, Finset.card_range] at hcard

section
variable {h : Heap} {steps : Nat} {opened : List Container}

/-- The open containers are on the heap, and there are steps left for all others. -/
structure Room (h : Heap) (steps : Nat) (opened : List Container) : Prop where
  nodup : opened.Nodup
  valid : ∀ c ∈ opened, c.Valid h
  left : h.lists.size + h.maps.size < steps + opened.length

/-- The open containers hold data that are larger than the one that is to be written. -/
def Around (h : Heap) (opened : List Container) (size : Nat) : Prop :=
  ∀ c ∈ opened, ∃ d : Datum, d.HeldBy h c.value ∧ size < sizeOf d

theorem Around.mono {size size' : Nat} (haround : Around h opened size) (hle : size' ≤ size) :
    Around h opened size' := by
  intro c hc
  obtain ⟨d, hd, hlt⟩ := haround c hc
  exact ⟨d, hd, Nat.lt_of_le_of_lt hle hlt⟩

/-- No datum is held by a container that is open around it. -/
theorem Around.not_mem {d : Datum} {c : Container} (haround : Around h opened (sizeOf d))
    (hd : d.HeldBy h c.value) : c ∉ opened := by
  intro hc
  obtain ⟨d', hd', hlt⟩ := haround c hc
  rw [hd.unique hd'] at hlt
  exact Nat.lt_irrefl _ hlt

theorem Around.cons {d : Datum} {c : Container} {size : Nat}
    (haround : Around h opened (sizeOf d)) (hd : d.HeldBy h c.value) (hlt : size < sizeOf d) :
    Around h (c :: opened) size := by
  intro c' hc'
  rcases List.mem_cons.1 hc' with rfl | hc'
  · exact ⟨d, hd, hlt⟩
  · exact haround.mono (Nat.le_of_lt hlt) c' hc'

/-- One more container can be opened. -/
theorem Room.cons {c : Container} (hroom : Room h steps opened) (hnew : c ∉ opened)
    (hvalid : c.Valid h) : ∃ k, steps = k + 1 ∧ Room h k (c :: opened) := by
  have hnodup : (c :: opened).Nodup := List.nodup_cons.2 ⟨hnew, hroom.nodup⟩
  have hall : ∀ c' ∈ c :: opened, c'.Valid h := List.forall_mem_cons.2 ⟨hvalid, hroom.valid⟩
  have hlength := length_opened_le hnodup hall
  have hleft := hroom.left
  rw [List.length_cons] at hlength
  refine ⟨steps - 1, by omega, hnodup, hall, ?_⟩
  rw [List.length_cons]
  omega

theorem lt_size_of_list {r : ListRef} (hne : (h.list r).toList ≠ []) : r.index < h.lists.size := by
  by_contra hge
  exact hne (by rw [Heap.list, Array.getD_eq_getD_getElem?, Array.getElem?_eq_none (by omega)]; rfl)

theorem lt_size_of_map {r : MapRef} (hne : (h.map r).toList ≠ []) : r.index < h.maps.size := by
  by_contra hge
  exact hne (by rw [Heap.map, Array.getD_eq_getD_getElem?, Array.getElem?_eq_none (by omega)]; rfl)

namespace Value

theorem writeWithin_eq (steps : Nat) (opened : List Container) (nested : Bool) (v : Value) :
    ∃ inside, ∀ out, writeWithin h steps opened nested v out =
      writeWith h inside opened nested v out := by
  cases steps with
  | zero => exact ⟨_, fun _ => rfl⟩
  | succ steps => exact ⟨_, fun _ => rfl⟩

/-- What is inside a container is written with one step less, which is left if there is anything. -/
theorem exists_inside {c : Container} (hroom : Room h steps opened) (hnew : c ∉ opened)
    (v : Value) : ∃ inside, (∀ out, writeWithin h steps opened true v out =
        writeWith h inside opened true v out) ∧
      (c.Valid h → ∃ k, Room h k (c :: opened) ∧
        inside (c :: opened) = writeWithin h k (c :: opened) true) := by
  cases steps with
  | zero =>
    refine ⟨_, fun _ => rfl, fun hvalid => ?_⟩
    obtain ⟨k, hk, -⟩ := hroom.cons hnew hvalid
    cases hk
  | succ steps =>
    refine ⟨_, fun _ => rfl, fun hvalid => ?_⟩
    obtain ⟨k, hk, hroom'⟩ := hroom.cons hnew hvalid
    cases hk
    exact ⟨steps, hroom', rfl⟩

theorem append_enclosed (out : String) (first last : Char) (cs : List Char) :
    out ++ String.ofList [first] ++ String.ofList cs ++ String.ofList [last] =
      out ++ String.ofList (first :: cs ++ [last]) := by
  rw [String.append_assoc, String.append_assoc, ← String.ofList_append, ← String.ofList_append]
  rfl

end Value

theorem ItemsHeldBy.eq_nil {ds : List Datum} (hd : ItemsHeldBy h ds []) : ds = [] := by
  cases ds with
  | nil => rfl
  | cons d ds => exact hd.elim

theorem EntriesHeldBy.eq_nil {ds : List (Key × Datum)} (hd : EntriesHeldBy h ds []) : ds = [] := by
  cases ds with
  | nil => rfl
  | cons d ds => exact hd.elim

open Value

mutual

/-- A value is written as the datum that it holds. -/
theorem Datum.HeldBy.written : ∀ {d : Datum} {v : Value}, d.HeldBy h v →
    ∀ {steps : Nat} {opened : List Container}, Room h steps opened → Around h opened (sizeOf d) →
    ∀ out, writeWithin h steps opened true v out = out ++ String.ofList d.chars
  | .nil, .nil, _, steps, opened, _, _, out => by
    obtain ⟨inside, heq⟩ := writeWithin_eq (h := h) steps opened true .nil
    rw [heq]
    rfl
  | .bool b, .bool c, hd, steps, opened, _, _, out => by
    obtain ⟨inside, heq⟩ := writeWithin_eq (h := h) steps opened true (.bool c)
    rw [heq, show b = c from hd]
    exact congrArg (out ++ ·) (toString_bool c)
  | .int n, .int k, hd, steps, opened, _, _, out => by
    obtain ⟨inside, heq⟩ := writeWithin_eq (h := h) steps opened true (.int k)
    rw [heq, show n = k from hd]
    exact congrArg (out ++ ·) (toString_int k)
  | .str s, .str t, hd, steps, opened, _, _, out => by
    obtain ⟨inside, heq⟩ := writeWithin_eq (h := h) steps opened true (.str t)
    rw [heq, show s = t from hd, Datum.chars, String.ofList_toList]
    rfl
  | .list items, .list r, hd, steps, opened, hroom, haround, out => by
    have hnew : Container.list r ∉ opened := haround.not_mem hd
    obtain ⟨inside, heq, hinside⟩ := exists_inside hroom hnew (.list r)
    have hitems : List.Forall₂ (fun v cs => ∀ out, inside (.list r :: opened) v out =
        out ++ String.ofList cs) (h.list r).toList (itemChars items) := by
      by_cases hempty : (h.list r).toList = []
      · have hd' : ItemsHeldBy h items (h.list r).toList := hd
        rw [hempty] at hd' ⊢
        rw [hd'.eq_nil]
        exact .nil
      · obtain ⟨k, hroom', hwrites⟩ := hinside (lt_size_of_list hempty)
        rw [hwrites]
        refine ItemsHeldBy.written hd hroom' (haround.cons hd ?_)
        rw [Datum.list.sizeOf_spec]
        omega
    rw [heq, writeWith, if_neg (by simpa using hnew), writeAll_eq hitems]
    exact append_enclosed out '[' ']' _
  | .map entries, .map r, hd, steps, opened, hroom, haround, out => by
    have hnew : Container.map r ∉ opened := haround.not_mem hd
    obtain ⟨inside, heq, hinside⟩ := exists_inside hroom hnew (.map r)
    have hentries : List.Forall₂ (fun (e : Key × Value) cs => ∀ out,
        inside (.map r :: opened) e.2 (writeKey e.1 out ++ ": ") = out ++ String.ofList cs)
        (h.map r).toList (entryChars entries) := by
      by_cases hempty : (h.map r).toList = []
      · have hd' : EntriesHeldBy h entries (h.map r).toList := hd
        rw [hempty] at hd' ⊢
        rw [hd'.eq_nil]
        exact .nil
      · obtain ⟨k, hroom', hwrites⟩ := hinside (lt_size_of_map hempty)
        rw [hwrites]
        refine EntriesHeldBy.written hd hroom' (haround.cons hd ?_)
        rw [Datum.map.sizeOf_spec]
        omega
    rw [heq, writeWith, if_neg (by simpa using hnew)]
    dsimp only
    rw [writeAll_eq hentries]
    exact append_enclosed out '\x7b' '\x7d' _
  | .set members, .set r, hd, steps, opened, _, _, out => by
    obtain ⟨inside, heq⟩ := writeWithin_eq (h := h) steps opened true (.set r)
    have hkeys : List.Forall₂ (fun k cs => ∀ out, writeKey k out = out ++ String.ofList cs)
        (h.set r).keys.toList (members.map Key.chars) := by
      rw [show members = _ from hd]
      exact List.forall₂_map_right_iff.2 (List.forall₂_same.2 fun k _ => writeKey_eq k)
    rw [heq, writeWith, writeAll_eq hkeys]
    exact append_enclosed out '\x7b' '\x7d' _

theorem ItemsHeldBy.written : ∀ {ds : List Datum} {vs : List Value}, ItemsHeldBy h ds vs →
    ∀ {steps : Nat} {opened : List Container}, Room h steps opened → Around h opened (sizeOf ds) →
    List.Forall₂ (fun v cs => ∀ out, writeWithin h steps opened true v out =
      out ++ String.ofList cs) vs (itemChars ds)
  | [], [], _, _, _, _, _ => .nil
  | d :: ds, v :: vs, hd, steps, opened, hroom, haround => by
    have hsize : sizeOf (d :: ds) = 1 + sizeOf d + sizeOf ds := rfl
    exact .cons (hd.1.written hroom (haround.mono (by omega)))
      (hd.2.written hroom (haround.mono (by omega)))

theorem EntriesHeldBy.written : ∀ {ds : List (Key × Datum)} {vs : List (Key × Value)},
    EntriesHeldBy h ds vs →
    ∀ {steps : Nat} {opened : List Container}, Room h steps opened → Around h opened (sizeOf ds) →
    List.Forall₂ (fun e cs => ∀ out,
      writeWithin h steps opened true e.2 (writeKey e.1 out ++ ": ") = out ++ String.ofList cs)
      vs (entryChars ds)
  | [], [], _, _, _, _, _ => .nil
  | (k, d) :: ds, (k', v) :: vs, hd, steps, opened, hroom, haround => by
    have hsize : sizeOf ((k, d) :: ds) = 1 + (1 + sizeOf k + sizeOf d) + sizeOf ds := rfl
    obtain ⟨hkey, hvalue, hrest⟩ := hd
    refine .cons (fun out => ?_) (hrest.written hroom (haround.mono (by omega)))
    dsimp only
    rw [hvalue.written hroom (haround.mono (by omega)), writeKey_eq, hkey, String.append_assoc,
      String.append_assoc, String.ofList_append, String.ofList_append, String.append_assoc]

end

/-- Only a text is written otherwise inside other values. -/
theorem Value.writeWithin_nested (v : Value) (hv : ∀ s, v ≠ .str s) (steps : Nat)
    (opened : List Container) (out : String) :
    writeWithin h steps opened false v out = writeWithin h steps opened true v out := by
  cases v with
  | str s => exact absurd rfl (hv s)
  | _ => cases steps <;> rfl

/-- The text of a value for a programmer is that of the datum that it holds. -/
theorem Datum.HeldBy.debugText_eq {d : Datum} {v : Value} (hd : d.HeldBy h v) :
    v.debugText h = String.ofList d.chars := by
  have hroom : Room h h.depthBound [] := by
    refine ⟨.nil, nofun, ?_⟩
    exact Nat.lt_of_lt_of_le (Nat.lt_succ_self _)
      (Nat.le_mul_of_pos_right (h.lists.size + h.maps.size + 1) (Nat.succ_pos h.cells.size))
  have hwritten : v.writeWithin h h.depthBound [] true "" = String.ofList d.chars := by
    rw [hd.written hroom nofun "", String.empty_append]
  cases v with
  | str s =>
    cases d with
    | str t =>
      rw [show t = s from hd, Datum.chars, String.ofList_toList]
      rfl
    | _ => exact hd.elim
  | error kind message => cases d <;> exact hd.elim
  | _ => exact (writeWithin_nested _ (fun s hs => by cases hs) _ _ _).trans hwritten

end

end Ember
