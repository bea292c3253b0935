import Mathlib.Data.List.Forall2
import Mathlib.Logic.Relation
import Ember.Proofs.Value.Data

/-! The text of any value. What is written is a tree that unfolds the value, in which a list or map
is cut short just where it is open around itself; there is one such tree if no cycle is made of
results and cells alone, and nothing is cut in it if there is no cycle at all. -/
namespace Ember
set_option autoImplicit false

/-! ## Values inside the text of a value -/

namespace Value

/-- The list or map that a value is. -/
def container? : Value → Option Container
  | .list r => some (.list r)
  | .map r => some (.map r)
  | _ => none

/-- The values whose texts are inside the text of a value, in their order. -/
def shown (h : Heap) : Value → List Value
  | .list r => (h.list r).toList
  | .map r => (h.map r).toList.map (·.2)
  | .result _ _ v => [v]
  | .cell c => [h.cell c]
  | _ => []

/-- The containers that are open inside a value, if so many are around it. -/
def opens (v : Value) (opened : List Container) : List Container := v.container?.toList ++ opened

def Shows (h : Heap) (v w : Value) : Prop := w ∈ v.shown h

/-- The second value is shown by the first, which is a result or a cell. -/
def Encloses (h : Heap) (v w : Value) : Prop := v.container? = none ∧ v.Shows h w

/-- Nothing that is shown inside the value is shown inside itself. -/
def Acyclic (h : Heap) (v : Value) : Prop :=
  ∀ w, Relation.ReflTransGen (Shows h) v w → ¬ Relation.TransGen (Shows h) w w

end Value

/-- Every cycle passes through a list or a map. -/
def Heap.Grounded (h : Heap) : Prop := ∀ v, ¬ Relation.TransGen (Value.Encloses h) v v

namespace Value

variable {h : Heap} {opened : List Container} {v w : Value}

theorem eq_value_of_container? {c : Container} (hc : v.container? = some c) : v = c.value := by
  cases v <;> cases hc <;> rfl

/-! A value has no cycles if something of it gets smaller from each value to what it shows. -/

section
variable {τ : Type} {M : τ → Value → Prop} {m : τ → Nat}

theorem exists_of_transGen
    (hdown : ∀ {t : τ} {v w : Value}, M t v → v.Shows h w → ∃ t', M t' w ∧ m t' < m t)
    {t : τ} (ht : M t v) (hw : Relation.TransGen (Shows h) v w) : ∃ t', M t' w ∧ m t' < m t := by
  induction hw with
  | single hw => exact hdown ht hw
  | tail _ hw ih =>
    obtain ⟨t', ht', hlt⟩ := ih
    obtain ⟨t'', ht'', hlt'⟩ := hdown ht' hw
    exact ⟨t'', ht'', hlt'.trans hlt⟩

theorem not_cyclic_of_descends
    (hdown : ∀ {t : τ} {v w : Value}, M t v → v.Shows h w → ∃ t', M t' w ∧ m t' < m t)
    {t : τ} (ht : M t v) : ¬ Relation.TransGen (Shows h) v v := by
  intro hcycle
  induction hm : m t using Nat.strong_induction_on generalizing t with
  | _ n ih =>
    obtain ⟨t', ht', hlt⟩ := exists_of_transGen hdown ht hcycle
    exact ih (m t') (hm ▸ hlt) ht' rfl

theorem acyclic_of_descends
    (hdown : ∀ {t : τ} {v w : Value}, M t v → v.Shows h w → ∃ t', M t' w ∧ m t' < m t)
    {t : τ} (ht : M t v) : v.Acyclic h := by
  intro w hw
  rcases Relation.reflTransGen_iff_eq_or_transGen.1 hw with rfl | hw
  · exact not_cyclic_of_descends hdown ht
  · obtain ⟨t', ht', -⟩ := exists_of_transGen hdown ht hw
    exact not_cyclic_of_descends hdown ht'

end

end Value

/-! ## Sketches -/

/-- A value with what is written inside it, or a container that is cut short. -/
inductive Sketch
  | node (v : Value) (inner : List Sketch)
  | cut (c : Container)

namespace Sketch

/-- The sketch is one of the value: where it is not cut it goes on as the value does. -/
inductive Unfolds (h : Heap) : Sketch → Value → Prop
  | node {v : Value} {ts : List Sketch} (hinner : List.Forall₂ (Unfolds h) ts (v.shown h)) :
    Unfolds h (.node v ts) v
  | cut {c : Container} {v : Value} (hv : v.container? = some c) : Unfolds h (.cut c) v

/-- Containers are cut just where `rule` says so, of those that are open around them. -/
inductive CutBy (rule : List Container → Container → Prop) : List Container → Sketch → Prop
  | node {opened : List Container} {v : Value} {ts : List Sketch}
    (hkept : ∀ c, v.container? = some c → ¬ rule opened c)
    (hinner : ∀ t ∈ ts, CutBy rule (v.opens opened) t) : CutBy rule opened (.node v ts)
  | cut {opened : List Container} {c : Container} (hcut : rule opened c) :
    CutBy rule opened (.cut c)

/-- Containers are cut where they are open around themselves. -/
def CutWhenOpen (opened : List Container) (t : Sketch) : Prop := t.CutBy (fun cs c => c ∈ cs) opened

/-- No container is cut. -/
def Whole (opened : List Container) (t : Sketch) : Prop := t.CutBy (fun _ _ => False) opened

end Sketch

/-! ### Texts of sketches -/

namespace Value

/-- The text of a value with given texts inside it. -/
def framed (h : Heap) (nested : Bool) : Value → List (List Char) → List Char
  | .nil, _ => ['n', 'i', 'l']
  | .bool b, _ => boolChars b
  | .int n, _ => intChars n
  | .float x, _ => (Decimal.shown.float x).toList
  | .str s, _ => if nested then (Text.quote s).toList else s.toList
  | .list _, inner => '[' :: joined inner ++ [']']
  | .map r, inner =>
    let entries :=
      List.zipWith (fun k cs => Key.chars k ++ [':', ' '] ++ cs) (h.map r).keys.toList inner
    '\x7b' :: joined entries ++ ['\x7d']
  | .set r, _ => '\x7b' :: joined ((h.set r).keys.toList.map Key.chars) ++ ['\x7d']
  | .function f, _ => ("<function " ++ f.name ++ ">").toList
  | .closure _ f _, _ => ("<closure " ++ f.name ++ ">").toList
  | .builtin _ b, _ => ("<builtin " ++ b.name ++ ">").toList
  | .library _ l, _ => ("<module " ++ l.name ++ ">").toList
  | .result _ isOk _, inner =>
    (if isOk then ['o', 'k', '('] else ['e', 'r', 'r', '(']) ++ inner.flatten ++ [')']
  | .error _ message, _ => message.toList
  | .resource r, _ => ("<" ++ r.typeName ++ ">").toList
  | .cell _, inner => ['<', 'c', 'e', 'l', 'l', ' '] ++ inner.flatten ++ ['>']

end Value

mutual

/-- The text of a sketch. -/
def Sketch.chars (h : Heap) (nested : Bool) : Sketch → List Char
  | .node v ts => v.framed h nested (innerChars h ts)
  | .cut (.list _) => ['[', '.', '.', '.', ']']
  | .cut (.map _) => ['\x7b', '.', '.', '.', '\x7d']

def innerChars (h : Heap) : List Sketch → List (List Char)
  | [] => []
  | t :: ts => t.chars h true :: innerChars h ts

end

theorem innerChars_eq_map (h : Heap) (ts : List Sketch) :
    innerChars h ts = ts.map (Sketch.chars h true) := by
  induction ts with
  | nil => rfl
  | cons t ts ih => rw [innerChars, ih, List.map_cons]

/-! ## Sketches of a value -/

section
variable {α β γ : Type} {R S : α → β → Prop}

theorem eq_of_forall₂ {as as' : List α} {bs : List β} (h : List.Forall₂ R as bs)
    (h' : List.Forall₂ S as' bs) (heq : ∀ a ∈ as, ∀ a' ∈ as', ∀ b, R a b → S a' b → a = a') :
    as = as' := by
  induction h generalizing as' with
  | nil =>
    cases h'
    rfl
  | @cons a b as bs hab _ ih =>
    cases h' with
    | @cons a' _ as' _ hab' hrest =>
      rw [heq a List.mem_cons_self a' List.mem_cons_self b hab hab',
        ih hrest fun x hx x' hx' =>
          heq x (List.mem_cons_of_mem a hx) x' (List.mem_cons_of_mem a' hx')]

theorem forall₂_zipWith {T : γ × α → β → Prop} {f : γ → β → β} {es : List (γ × α)} {bs : List β}
    (h : List.Forall₂ R (es.map (·.2)) bs) (hT : ∀ c a b, R a b → T (c, a) (f c b)) :
    List.Forall₂ T es (List.zipWith f (es.map (·.1)) bs) := by
  induction es generalizing bs with
  | nil => exact .nil
  | cons e es ih =>
    obtain ⟨b, bs, hb, hbs, rfl⟩ := List.forall₂_cons_left_iff.1 h
    exact .cons (hT e.1 e.2 b hb) (ih hbs)

end

namespace Sketch

variable {h : Heap} {rule : List Container → Container → Prop} {opened : List Container}
  {t t' : Sketch} {v w : Value}

/-- Where the containers are cut decides the sketch of a value. -/
theorem CutBy.unique (ht : t.CutBy rule opened) (hu : t.Unfolds h v) (ht' : t'.CutBy rule opened)
    (hu' : t'.Unfolds h v) : t = t' := by
  induction ht generalizing t' v with
  | @node opened v ts hkept _ ih =>
    cases hu with
    | node hinner =>
      cases hu' with
      | node hinner' =>
        cases ht' with
        | node _ hcuts' =>
          rw [eq_of_forall₂ hinner hinner' fun t hmem t' hmem' w hw hw' =>
            ih t hmem hw (hcuts' t' hmem') hw']
      | cut hv =>
        cases ht' with
        | cut hcut => exact absurd hcut (hkept _ hv)
  | @cut opened c hcut =>
    cases hu with
    | cut hv =>
      cases hu' with
      | node =>
        cases ht' with
        | node hkept => exact absurd hcut (hkept c hv)
      | cut hv' => rw [Option.some.inj (hv.symm.trans hv')]

/-! ### Whole sketches -/

theorem Unfolds.of_shows (hu : t.Unfolds h v) (ht : t.Whole opened) (hw : v.Shows h w) :
    ∃ t' : Sketch, (∃ opened', t'.Whole opened') ∧ t'.Unfolds h w ∧ sizeOf t' < sizeOf t := by
  cases hu with
  | @node v ts hinner =>
    obtain ⟨t', hmem, hu'⟩ := exists_left_of_forall₂ hinner hw
    cases ht with
    | node _ hwhole =>
      have hlt := List.sizeOf_lt_of_mem hmem
      rw [node.sizeOf_spec]
      exact ⟨t', ⟨_, hwhole t' hmem⟩, hu', by omega⟩
  | cut => cases ht with | cut hcut => exact hcut.elim

/-- A value that is shown inside itself would have ever smaller whole sketches. -/
theorem Unfolds.acyclic (hu : t.Unfolds h v) (ht : t.Whole opened) : v.Acyclic h := by
  refine Value.acyclic_of_descends
    (M := fun (t : Sketch) v => (∃ opened, t.Whole opened) ∧ t.Unfolds h v) (m := sizeOf)
    (fun hM hw => ?_) ⟨⟨opened, ht⟩, hu⟩
  obtain ⟨t', ht', hu', hlt⟩ := hM.2.of_shows hM.1.choose_spec hw
  exact ⟨t', ⟨ht', hu'⟩, hlt⟩

/-- In the sketch of a value without cycles no container is open around itself. -/
theorem Unfolds.whole (hu : t.Unfolds h v) (ht : t.CutWhenOpen opened) (hv : v.Acyclic h)
    (haround : ∀ c ∈ opened, Relation.TransGen (Value.Shows h) c.value v) : t.Whole opened := by
  unfold CutWhenOpen at ht
  induction ht generalizing v with
  | @node opened v ts hkept _ ih =>
    cases hu with
    | node hinner =>
      refine .node (fun _ _ => id) fun t hmem => ?_
      obtain ⟨w, hw, hu'⟩ := exists_left_of_forall₂ hinner.flip hmem
      refine ih t hmem hu' (fun w' hw' => hv w' (.head hw hw')) fun c hc => ?_
      rcases List.mem_append.1 hc with hc | hc
      · rw [← Value.eq_value_of_container? (Option.mem_toList.1 hc)]
        exact .single hw
      · exact (haround c hc).tail hw
  | @cut opened c hcut =>
    cases hu with
    | cut hc =>
      have hcycle := haround c hcut
      rw [← Value.eq_value_of_container? hc] at hcycle
      exact absurd hcycle (hv v .refl)

theorem Unfolds.whole_iff (hu : t.Unfolds h v) (ht : t.CutWhenOpen []) : t.Whole [] ↔ v.Acyclic h :=
  ⟨hu.acyclic, fun hv => hu.whole ht hv nofun⟩

end Sketch

/-! ## Writing a sketch -/

namespace Value

variable {h : Heap} {steps : Nat} {opened : List Container} {v w : Value}

/-- What is inside a container or a cell is written with one step less. -/
def writeInside (h : Heap) : Nat → List Container → Value → String → String
  | 0 => fun _ _ out => out
  | steps + 1 => fun opened v out => writeWithin h steps opened true v out

theorem writeWithin_eq_writeWith (h : Heap) (steps : Nat) (opened : List Container) (nested : Bool)
    (v : Value) (out : String) :
    writeWithin h steps opened nested v out =
      writeWith h (writeInside h steps) opened nested v out := by
  cases steps <;> rfl

/-- Writes what is inside a value. -/
def writeShown (h : Heap) (steps : Nat) (opened : List Container) : Value → Value → String → String
  | .result .. => writeWithin h steps opened true
  | v => writeInside h steps (v.opens opened)

theorem writeWithin_framed {pieces : List (List Char)}
    (hnew : ∀ c, v.container? = some c → c ∉ opened)
    (hpieces : List.Forall₂ (fun w cs => ∀ out, writeShown h steps opened v w out =
      out ++ String.ofList cs) (v.shown h) pieces) (nested : Bool) (out : String) :
    writeWithin h steps opened nested v out = out ++ String.ofList (v.framed h nested pieces) := by
  rw [writeWithin_eq_writeWith]
  cases v with
  | nil => rfl
  | bool b => exact congrArg (out ++ ·) (toString_bool b)
  | int n => exact congrArg (out ++ ·) (toString_int n)
  | float x => rw [framed, String.ofList_toList]; rfl
  | str s => cases nested <;> simp [writeWith, framed]
  | list r =>
    have hopen : opened.contains (.list r) = false := by simpa using hnew _ rfl
    rw [writeWith, hopen, if_neg Bool.false_ne_true]
    exact (congrArg (· ++ "]") (writeAll_eq hpieces _)).trans (append_enclosed out '[' ']' _)
  | map r =>
    have hopen : opened.contains (.map r) = false := by simpa using hnew _ rfl
    have hentries := forall₂_zipWith hpieces
      (T := fun (e : Key × Value) cs => ∀ out, writeShown h steps opened (.map r) e.2
        (writeKey e.1 out ++ ": ") = out ++ String.ofList cs)
      (f := fun k cs => Key.chars k ++ [':', ' '] ++ cs) fun k v cs hv out => by
        rw [hv, writeKey_eq, String.append_assoc, String.append_assoc, String.ofList_append,
          String.ofList_append, String.append_assoc]
    rw [writeWith, hopen, if_neg Bool.false_ne_true, framed, OrderedMap.keys, Array.toList_map]
    exact (congrArg (· ++ "\x7d") (writeAll_eq hentries _)).trans
      (append_enclosed out '\x7b' '\x7d' _)
  | set r =>
    have hkeys : List.Forall₂ (fun k cs => ∀ out, writeKey k out = out ++ String.ofList cs)
        (h.set r).keys.toList ((h.set r).keys.toList.map Key.chars) :=
      List.forall₂_map_right_iff.2 (List.forall₂_same.2 fun k _ => writeKey_eq k)
    rw [writeWith, writeAll_eq hkeys]
    exact append_enclosed out '\x7b' '\x7d' _
  | function f | closure _ f _ | builtin _ b | library _ l =>
    rw [writeWith, framed, String.ofList_toList, String.append_assoc, String.append_assoc,
      String.append_assoc]
  | result id isOk payload =>
    obtain ⟨cs, _, hcs, hnil, rfl⟩ := List.forall₂_cons_left_iff.1 hpieces
    cases hnil
    have hpayload := hcs (out ++ if isOk then "ok(" else "err(")
    rw [writeShown, writeWithin_eq_writeWith] at hpayload
    rw [writeWith, hpayload, framed, List.flatten_singleton, String.ofList_append,
      String.ofList_append, String.append_assoc, String.append_assoc]
    cases isOk <;> rfl
  | error kind message => rw [writeWith, framed, String.ofList_toList]
  | resource r =>
    rw [writeWith, framed, String.ofList_toList, String.append_assoc, String.append_assoc,
      String.append_assoc]
  | cell c =>
    obtain ⟨cs, _, hcs, hnil, rfl⟩ := List.forall₂_cons_left_iff.1 hpieces
    cases hnil
    have hcontent : writeInside h steps opened (h.cell c) (out ++ "<cell ") = _ := hcs _
    rw [writeWith, hcontent, framed, List.flatten_singleton, String.ofList_append,
      String.ofList_append, String.append_assoc, String.append_assoc]
    rfl

end Value

/-! ## Steps that are enough -/

section
variable {h : Heap} {steps : Nat} {opened : List Container} {trail : List CellRef} {v w : Value}

/-- There are steps left for all containers that are not open and, around each of them, for all
cells. `trail` are the cells that were passed since the last container was opened. -/
structure Supply (h : Heap) (steps : Nat) (opened : List Container) (trail : List CellRef) :
    Prop where
  opened_nodup : opened.Nodup
  opened_valid : ∀ c ∈ opened, c.Valid h
  trail_nodup : trail.Nodup
  trail_valid : ∀ c ∈ trail, c.index < h.cells.size
  enough : h.depthBound ≤ steps + opened.length * (h.cells.size + 1) + trail.length

theorem Supply.start (hsteps : h.depthBound ≤ steps) : Supply h steps [] [] :=
  ⟨.nil, nofun, .nil, nofun, by simpa using hsteps⟩

theorem Supply.length_trail_le (hs : Supply h steps opened trail) :
    trail.length ≤ h.cells.size := by
  have hinj : Function.Injective CellRef.index := fun _ _ heq => congrArg CellRef.mk heq
  have hsub : (trail.map CellRef.index).toFinset ⊆ Finset.range h.cells.size := by
    intro i hi
    obtain ⟨c, hc, rfl⟩ := List.mem_map.1 (List.mem_toFinset.1 hi)
    exact Finset.mem_range.2 (hs.trail_valid c hc)
  have hcard := Finset.card_le_card hsub
  rwa [List.toFinset_card_of_nodup (hs.trail_nodup.map hinj), List.length_map,
    Finset.card_range] at hcard

theorem Supply.exists_succ (hs : Supply h steps opened trail) : ∃ k, steps = k + 1 := by
  have hopened := Nat.mul_le_mul_right (h.cells.size + 1)
    (length_opened_le hs.opened_nodup hs.opened_valid)
  have htrail := hs.length_trail_le
  have henough := hs.enough
  rw [Heap.depthBound, Nat.add_mul _ 1] at henough
  exact ⟨steps - 1, by omega⟩

/-- One step less is enough inside a container. -/
theorem Supply.container {c : Container} (hs : Supply h (steps + 1) opened trail)
    (hnew : c ∉ opened)
    (hvalid : c.Valid h) : Supply h steps (c :: opened) [] := by
  have htrail := hs.length_trail_le
  have henough := hs.enough
  refine ⟨List.nodup_cons.2 ⟨hnew, hs.opened_nodup⟩,
    List.forall_mem_cons.2 ⟨hvalid, hs.opened_valid⟩, .nil, nofun, ?_⟩
  rw [List.length_cons, Nat.add_mul _ 1, List.length_nil]
  omega

/-- One step less is enough inside a cell. -/
theorem Supply.cell {c : CellRef} (hs : Supply h (steps + 1) opened trail) (hnew : c ∉ trail)
    (hvalid : c.index < h.cells.size) : Supply h steps opened (c :: trail) := by
  have henough := hs.enough
  refine ⟨hs.opened_nodup, hs.opened_valid, List.nodup_cons.2 ⟨hnew, hs.trail_nodup⟩,
    List.forall_mem_cons.2 ⟨hvalid, hs.trail_valid⟩, ?_⟩
  rw [List.length_cons]
  omega

/-! ## What is written is a sketch -/

/-- The sketch is one of the value, and its text is what is written for it. -/
structure Sketch.Drawn (h : Heap) (opened : List Container) (v : Value)
    (write : Bool → String → String) (t : Sketch) : Prop where
  unfolds : t.Unfolds h v
  cuts : t.CutWhenOpen opened
  written : ∀ nested out, write nested out = out ++ String.ofList (t.chars h nested)

open Value

theorem exists_sketch_of_open {c : Container} (hv : v.container? = some c) (hopen : c ∈ opened) :
    ∃ t, Sketch.Drawn h opened v (writeWithin h steps opened · v) t := by
  refine ⟨.cut c, .cut hv, .cut hopen, fun nested out => ?_⟩
  rw [writeWithin_eq_writeWith]
  obtain rfl := eq_value_of_container? hv
  have hcontains := List.contains_iff_mem.2 hopen
  cases c with
  | list r => exact (if_pos hcontains).trans rfl
  | map r => exact (if_pos hcontains).trans rfl

/-- Sketches of what is inside a value make one of the value. -/
theorem exists_sketch_of_shown (hnew : ∀ c, v.container? = some c → c ∉ opened)
    (hshown : ∀ w ∈ v.shown h, ∃ t : Sketch, t.Unfolds h w ∧ t.CutWhenOpen (v.opens opened) ∧
      ∀ out, writeShown h steps opened v w out = out ++ String.ofList (t.chars h true)) :
    ∃ t, Sketch.Drawn h opened v (writeWithin h steps opened · v) t := by
  obtain ⟨ts, hts⟩ := exists_forall₂ hshown
  refine ⟨.node v ts, .node (hts.imp fun _ _ ht => ht.1), .node hnew fun t hmem => ?_,
    fun nested out => ?_⟩
  · obtain ⟨w, _, ht⟩ := exists_left_of_forall₂ hts.flip hmem
    exact ht.2.1
  · rw [Sketch.chars, innerChars_eq_map]
    refine writeWithin_framed hnew ?_ nested out
    exact List.forall₂_map_right_iff.2 (hts.imp fun _ _ ht => ht.2.2).flip

/-- A value that shows nothing is written with any number of steps. -/
theorem exists_sketch_of_shown_nil (hv : v.container? = none) (hshown : v.shown h = []) :
    ∃ t, Sketch.Drawn h opened v (writeWithin h steps opened · v) t := by
  refine exists_sketch_of_shown (fun c hc => by rw [hv] at hc; cases hc) fun w hw => ?_
  rw [hshown] at hw
  cases hw

/-- With steps enough a value is written as a sketch. The steps go down inside lists, maps and
cells, and inside a result the value does. -/
theorem exists_sketch (hg : h.Grounded) {steps : Nat} {opened : List Container}
    {trail : List CellRef} {v : Value} (hs : Supply h steps opened trail)
    (htrail : ∀ c ∈ trail, Relation.TransGen (Encloses h) (.cell c) v) :
    ∃ t, Sketch.Drawn h opened v (writeWithin h steps opened · v) t := by
  by_cases hopen : ∃ c, v.container? = some c ∧ c ∈ opened
  · obtain ⟨c, hc, hmem⟩ := hopen
    exact exists_sketch_of_open hc hmem
  have hnew : ∀ c, v.container? = some c → c ∉ opened := fun c hc hmem => hopen ⟨c, hc, hmem⟩
  refine exists_sketch_of_shown hnew fun w hw => ?_
  cases v with
  | list r =>
    obtain ⟨k, rfl⟩ := hs.exists_succ
    have hvalid : Container.Valid h (.list r) := lt_size_of_list (List.ne_nil_of_mem hw)
    obtain ⟨t, ht⟩ := exists_sketch hg (v := w) (hs.container (hnew _ rfl) hvalid) nofun
    exact ⟨t, ht.unfolds, ht.cuts, ht.written true⟩
  | map r =>
    obtain ⟨k, rfl⟩ := hs.exists_succ
    have hvalid : Container.Valid h (.map r) :=
      lt_size_of_map fun hnil => List.ne_nil_of_mem hw (by rw [Value.shown, hnil, List.map_nil])
    obtain ⟨t, ht⟩ := exists_sketch hg (v := w) (hs.container (hnew _ rfl) hvalid) nofun
    exact ⟨t, ht.unfolds, ht.cuts, ht.written true⟩
  | result id isOk payload =>
    have hpayload : w = payload := List.mem_singleton.1 hw
    rw [hpayload] at hw ⊢
    obtain ⟨t, ht⟩ := exists_sketch hg (v := payload) hs fun c hc => (htrail c hc).tail ⟨rfl, hw⟩
    exact ⟨t, ht.unfolds, ht.cuts, ht.written true⟩
  | cell c =>
    obtain ⟨k, rfl⟩ := hs.exists_succ
    obtain rfl := List.mem_singleton.1 hw
    have hencloses : Encloses h (.cell c) (h.cell c) := ⟨rfl, hw⟩
    by_cases hvalid : c.index < h.cells.size
    · have hfresh : c ∉ trail := fun hmem => hg _ (htrail c hmem)
      obtain ⟨t, ht⟩ := exists_sketch hg (v := h.cell c) (hs.cell hfresh hvalid)
        (List.forall_mem_cons.2 ⟨.single hencloses, fun c' hc' => (htrail c' hc').tail hencloses⟩)
      exact ⟨t, ht.unfolds, ht.cuts, ht.written true⟩
    · have hnil : h.cell c = .nil := by
        rw [Heap.cell, Array.getD_eq_getD_getElem?, Array.getElem?_eq_none (by omega)]
        rfl
      rw [hnil]
      obtain ⟨t, ht⟩ : ∃ t, Sketch.Drawn h opened .nil (writeWithin h k opened · .nil) t :=
        exists_sketch_of_shown_nil rfl rfl
      exact ⟨t, ht.unfolds, ht.cuts, ht.written true⟩
  | _ => cases hw
termination_by (steps, sizeOf v)
decreasing_by
  all_goals subst_vars
  · exact .left _ _ (Nat.lt_succ_self _)
  · exact .left _ _ (Nat.lt_succ_self _)
  · refine .right _ ?_
    rw [Value.result.sizeOf_spec]
    omega
  · exact .left _ _ (Nat.lt_succ_self _)

/-- On a heap where every cycle passes through a list or a map, the text of a value is that of its
one sketch in which a container is cut just where it is open around itself, however many more steps
there are; and nothing is cut in it just if the value has no cycles. -/
theorem text_is_sketch (h : Heap) (hg : h.Grounded) (v : Value) :
    ∃ t : Sketch, t.Unfolds h v ∧ t.CutWhenOpen [] ∧
      (∀ t' : Sketch, t'.Unfolds h v → t'.CutWhenOpen [] → t' = t) ∧
      (∀ steps, h.depthBound ≤ steps → ∀ nested,
        v.writeWithin h steps [] nested "" = String.ofList (t.chars h nested)) ∧
      v.text h = String.ofList (t.chars h false) ∧
      (t.Whole [] ↔ v.Acyclic h) := by
  obtain ⟨t, ht⟩ := exists_sketch hg (v := v) (.start (Nat.le_refl h.depthBound)) nofun
  have hunique : ∀ t' : Sketch, t'.Unfolds h v → t'.CutWhenOpen [] → t' = t :=
    fun t' hu' ht' => ht'.unique hu' ht.cuts ht.unfolds
  have hwritten : ∀ steps, h.depthBound ≤ steps → ∀ nested,
      v.writeWithin h steps [] nested "" = String.ofList (t.chars h nested) := by
    intro steps hsteps nested
    obtain ⟨t', ht'⟩ := exists_sketch hg (v := v) (.start hsteps) nofun
    rw [ht'.written, String.empty_append, hunique t' ht'.unfolds ht'.cuts]
  exact ⟨t, ht.unfolds, ht.cuts, hunique, hwritten, hwritten _ (Nat.le_refl _) false,
    ht.unfolds.whole_iff ht.cuts⟩

end

/-! ### A list that holds itself -/

/-- A list that holds another one twice, itself, and a cell with a result around the other list. -/
def tangle : Heap :=
  ⟨#[#[.int 1], #[.list ⟨0⟩, .list ⟨0⟩, .list ⟨1⟩, .cell ⟨0⟩]], #[], #[],
    #[.result 7 true (.list ⟨0⟩)], 9⟩

/-- How many results and cells of `tangle` are around what a value shows, at most. -/
def enclosing : Value → Nat
  | .cell _ => 2
  | .result _ _ v => enclosing v + 1
  | _ => 0

theorem grounded_tangle : tangle.Grounded := by
  have hless : ∀ v w, Value.Encloses tangle v w → enclosing w < enclosing v := by
    rintro v w ⟨hv, hw⟩
    cases v with
    | list | map => cases hv
    | result id isOk payload =>
      obtain rfl := List.mem_singleton.1 hw
      exact Nat.lt_succ_self _
    | cell c =>
      obtain rfl := List.mem_singleton.1 hw
      obtain ⟨_ | i⟩ := c
      · exact Nat.lt_succ_self 1
      · exact Nat.succ_pos 1
    | _ => cases hw
  intro v hcycle
  have hall : ∀ w, Relation.TransGen (Value.Encloses tangle) v w → enclosing w < enclosing v := by
    intro w hw
    induction hw with
    | single hw => exact hless _ _ hw
    | tail _ hw ih => exact (hless _ _ hw).trans ih
  exact Nat.lt_irrefl _ (hall v hcycle)

/-- What is shown twice is written twice; the list is cut inside itself. -/
theorem tangle_text : ∃ t : Sketch, t.Unfolds tangle (.list ⟨1⟩) ∧ t.CutWhenOpen [] ∧ ¬ t.Whole [] ∧
    String.ofList (t.chars tangle false) = "[[1], [1], [...], <cell ok([1])>]" := by
  obtain ⟨t, hunfolds, hcuts, -, -, htext, hwhole⟩ :=
    text_is_sketch tangle grounded_tangle (.list ⟨1⟩)
  have hself : Value.Shows tangle (.list ⟨1⟩) (.list ⟨1⟩) := .tail _ (.tail _ (.head _))
  refine ⟨t, hunfolds, hcuts, fun ht => hwhole.1 ht _ .refl (.single hself), ?_⟩
  rw [← htext]
  decide +kernel

end Ember
