import Ember.Proofs.Value.Policy

/-! Operators, items and attributes keep within every policy: what they give was among their
operands or in the heap, or holds no function, closure or cell. None of their faults is one of
malformed code. -/
namespace Ember
set_option autoImplicit false

/-- Faults that code without mistakes of its own never shows. -/
def Fault.isMalformed : Fault → Bool
  | undecodable _ | stackUnderflow .. | slotOutOfRange .. | freeOutOfRange .. | constantOutOfRange _
  | nameOutOfRange _ | invalidCellSource _ | jumpBeforeStart _ | returnOutsideFunction
  | noActiveFrame => true
  | _ => false

/-- Faults that only malformed code meets, or that are raised as such. -/
def Fault.isCodeFault : Fault → Bool
  | stackUnderflow .. | returnOutsideFunction | noActiveFrame | closureOfNonFunction _
  | closureOfNonCell _ => true
  | f => f.kind == .decode

/-- A fault of an operation, not of the code. -/
def Fault.Ordinary (f : Fault) : Prop := f.isCodeFault = false

theorem Fault.Ordinary.not_malformed {f : Fault} (h : f.Ordinary) : f.isMalformed = false := by
  cases f <;> first | rfl | cases h

section
variable {P : Policy}

/-! ## Binary operators -/

theorem fitting_promises (op : BinaryOperator) (r : Option Int64) :
    Promises (match r with
      | some r => Except.ok (Value.int r)
      | none => .error (Fault.integerOverflow op.symbol)) (Value.Obeys P) Fault.Ordinary := by
  cases r with
  | none => exact rfl
  | some r => exact Value.obeys_of_plain rfl rfl

theorem integerOp_promises (op : BinaryOperator) (x y : Int64) :
    Promises (integerOp op x y) (Value.Obeys P) Fault.Ordinary := by
  unfold integerOp
  dsimp only
  split
  · exact fitting_promises _ _
  · exact fitting_promises _ _
  · exact fitting_promises _ _
  · split
    · exact rfl
    · exact fitting_promises _ _
  · split
    · exact rfl
    · exact fitting_promises _ _
  · split
    · exact Value.obeys_of_plain rfl rfl
    · exact fitting_promises _ _
  · exact Value.obeys_of_plain rfl rfl
  · exact Value.obeys_of_plain rfl rfl
  · exact Value.obeys_of_plain rfl rfl
  · split
    · exact rfl
    · exact Value.obeys_of_plain rfl rfl
  · split
    · exact rfl
    · exact Value.obeys_of_plain rfl rfl

theorem mem_fillItems {items out : Array Value} {length : Nat}
    {hlength : items.size = 0 → length = 0} {v : Value}
    (h : v ∈ fillItems items length hlength out) : v ∈ items ∨ v ∈ out := by
  fun_induction fillItems items length hlength out with
  | case1 out hfew ih =>
    rcases ih h with h | h
    · exact .inl h
    · exact (Array.mem_append.1 h).symm
  | case2 out hfull => exact .inr h

theorem repeatStr_keeps (s : String) (count : Int64) :
    Keeps P (repeatStr s count) (Value.Obeys P) Fault.Ordinary := by
  unfold repeatStr
  split
  · exact .pure (Value.obeys_of_plain rfl rfl)
  · exact .throw rfl

theorem repeatList_keeps {items : Array Value} (h : ∀ v ∈ items, v.Obeys P) (count : Int64) :
    Keeps P (repeatList items count) (Value.Obeys P) Fault.Ordinary := by
  unfold repeatList
  split
  · refine keeps_newList fun v hv => ?_
    rcases mem_fillItems hv with hv | hv
    · exact h v hv
    · exact absurd hv (Array.not_mem_empty v)
  · exact .throw rfl

theorem floatOp_promises (op : BinaryOperator) (x y : Float) :
    Promises (floatOp op x y) (fun _ => True) Fault.Ordinary := by
  have hdivision : ∀ r : Float, Promises
      (if y == 0 then Except.error Fault.divisionByZero else .ok (some r))
      (fun _ => True) Fault.Ordinary := by
    intro r
    split
    · exact rfl
    · trivial
  cases op with
  | divide => exact hdivision _
  | modulo => exact hdivision _
  | _ => trivial

theorem mixedOp_keeps (op : BinaryOperator) (v w : Value) :
    Keeps P (mixedOp op v w) (Value.Obeys P) Fault.Ordinary := by
  unfold mixedOp
  split
  · rename_i x y _ _
    have hfloat := floatOp_promises op x y
    split
    · exact .pure (Value.obeys_of_plain rfl rfl)
    · exact .throw rfl
    · rename_i fault hfault
      rw [hfault] at hfloat
      exact .throw hfloat
  · exact .throw rfl

theorem binary_keeps (op : BinaryOperator) (v w : Value) :
    Keeps P (binary op v w) (Value.Obeys P) Fault.Ordinary := by
  unfold binary
  split
  · rename_i x y
    have hint := integerOp_promises (P := P) op x y
    split
    · rename_i r hr
      rw [hr] at hint
      exact .pure hint
    · rename_i fault hfault
      rw [hfault] at hint
      exact .throw hint
  · exact .pure (Value.obeys_of_plain rfl rfl)
  · refine .get_bind fun h hobeys => keeps_newList fun v hv => ?_
    rcases Array.mem_append.1 hv with hv | hv
    · exact hobeys.list _ v hv
    · exact hobeys.list _ v hv
  · exact repeatStr_keeps _ _
  · exact repeatStr_keeps _ _
  · exact .get_bind fun h hobeys => repeatList_keeps (hobeys.list _) _
  · exact .get_bind fun h hobeys => repeatList_keeps (hobeys.list _) _
  · split
    · exact .pure (Value.obeys_of_plain rfl rfl)
    · exact .throw rfl
  · refine .get_bind fun h hobeys => ?_
    split
    · exact keeps_newSet _
    · exact .throw rfl
  · exact mixedOp_keeps _ _ _

/-! ## Comparisons and unary operators -/

theorem comparison_promises (h : Heap) (op : Comparison) (v w : Value) :
    Promises (comparison h op v w) (Value.Obeys P) Fault.Ordinary := by
  unfold comparison
  split
  · exact Value.obeys_of_plain rfl rfl
  · exact Value.obeys_of_plain rfl rfl
  · split
    · exact Value.obeys_of_plain rfl rfl
    · exact rfl

theorem negate_promises (v : Value) :
    Promises (negate v) (Value.Obeys P) Fault.Ordinary := by
  unfold negate
  split
  · split
    · exact Value.obeys_of_plain rfl rfl
    · exact rfl
  · exact Value.obeys_of_plain rfl rfl
  · exact rfl

theorem affirm_promises (v : Value) :
    Promises (affirm v) (Value.Obeys P) Fault.Ordinary := by
  unfold affirm
  split
  · exact Value.obeys_of_plain rfl rfl
  · exact Value.obeys_of_plain rfl rfl
  · exact rfl

theorem complement_promises (v : Value) :
    Promises (complement v) (Value.Obeys P) Fault.Ordinary := by
  unfold complement
  split
  · exact Value.obeys_of_plain rfl rfl
  · exact rfl

/-! ## Items and attributes -/

theorem keyOf_promises (v : Value) : Promises (keyOf v) (fun _ => True) Fault.Ordinary := by
  unfold keyOf
  split
  · trivial
  · exact rfl

theorem obeys_getD_list {h : Heap} (hobeys : h.Obeys P) (r : ListRef) (i : Nat) :
    ((h.list r).getD i .nil).Obeys P := by
  rw [Array.getD_eq_getD_getElem?]
  cases hi : (h.list r)[i]? with
  | none => exact Value.obeys_of_plain rfl rfl
  | some v => exact hobeys.list r v (Array.mem_of_getElem? hi)

theorem obeys_getD_map {h : Heap} (hobeys : h.Obeys P) (r : MapRef) (k : Key) :
    (((h.map r).get? k).getD .nil).Obeys P := by
  cases hk : (h.map r).get? k with
  | none => exact Value.obeys_of_plain rfl rfl
  | some v => exact hobeys.map r (k, v) (OrderedMap.mem_entries_of_get? hk)

theorem getItem_promises {h : Heap} (hobeys : h.Obeys P) (container key : Value) :
    Promises (getItem h container key) (Value.Obeys P) Fault.Ordinary := by
  unfold getItem
  split
  · dsimp only
    split
    · exact obeys_getD_list hobeys _ _
    · exact rfl
  · dsimp only
    split
    · exact Value.obeys_of_plain rfl rfl
    · exact rfl
  · exact (keyOf_promises _).bind fun k _ => obeys_getD_map hobeys _ k
  · exact rfl
  · exact rfl
  · exact rfl

theorem setItem_keeps {value : Value} (hvalue : value.Obeys P) (container key : Value) :
    Keeps P (setItem container key value) (fun _ => True) Fault.Ordinary := by
  unfold setItem
  split
  · refine .get_bind fun h hobeys => ?_
    dsimp only
    split
    · refine .modify fun h hobeys => hobeys.modifyList _ fun items hitems v hv => ?_
      rcases Array.mem_or_eq_of_mem_setIfInBounds hv with hv | rfl
      · exact hitems v hv
      · exact hvalue
    · exact .throw rfl
  · have hkey := keyOf_promises key
    split
    · refine .modify fun h hobeys => hobeys.modifyMap _ fun entries hentries e he => ?_
      rcases OrderedMap.mem_entries_insert he with he | rfl
      · exact hentries e he
      · exact hvalue
    · rename_i fault hfault
      rw [hfault] at hkey
      exact .throw hkey
  · exact .throw rfl

theorem deleteItem_keeps (container key : Value) :
    Keeps P (deleteItem container key) (fun _ => True) Fault.Ordinary := by
  have hkey := keyOf_promises key
  unfold deleteItem
  split
  · refine .get_bind fun h hobeys => ?_
    dsimp only
    split
    · refine .modify fun h hobeys => hobeys.modifyList _ fun items hitems v hv => ?_
      exact hitems v (mem_of_mem_eraseIdxIfInBounds hv)
    · exact .throw rfl
  · split
    · refine .modify fun h hobeys => hobeys.modifyMap _ fun entries hentries e he => ?_
      exact hentries e (OrderedMap.mem_entries_of_erase he)
    · rename_i fault hfault
      rw [hfault] at hkey
      exact .throw hkey
  · split
    · exact .modify fun h hobeys => hobeys.modifySet _ _
    · rename_i fault hfault
      rw [hfault] at hkey
      exact .throw hkey
  · exact .throw rfl

theorem getAttribute_promises {h : Heap} (hobeys : h.Obeys P) (object : Value) (name : String) :
    Promises (getAttribute h object name) (Value.Obeys P) Fault.Ordinary := by
  unfold getAttribute
  split
  · exact obeys_getD_map hobeys _ _
  · split
    · rename_i m _
      cases m <;> exact Value.obeys_of_plain rfl rfl
    · exact rfl
  · exact rfl

theorem setAttribute_keeps {value : Value} (hvalue : value.Obeys P) (object : Value)
    (name : String) : Keeps P (setAttribute object name value) (fun _ => True) Fault.Ordinary := by
  unfold setAttribute
  split
  · refine .modify fun h hobeys => hobeys.modifyMap _ fun entries hentries e he => ?_
    rcases OrderedMap.mem_entries_insert he with he | rfl
    · exact hentries e he
    · exact hvalue
  · exact .throw rfl
  · exact .throw rfl

end

end Ember
