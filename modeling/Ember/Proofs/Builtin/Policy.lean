import Ember.Builtin.Call
import Ember.Proofs.Value.Operators

/-! Builtins keep within every policy: a value that a builtin gives was among its arguments or in
the heap, or holds no function, closure or cell. The functions of a host may give anything, so of
them the same has to be known. -/
namespace Ember
set_option autoImplicit false

section
variable {P : Policy} {ε α β : Type} {R : β → Prop}

/-! ## Arguments -/

theorem promises_anything (x : Except ε α) : Promises x (fun _ => True) fun _ => True := by
  cases x <;> trivial

/-- What comes of a value of which nothing has to be known. -/
theorem promises_bind {x : Except ε α} {k : α → Except ε β}
    (hk : ∀ a, Promises (k a) R fun _ => True) : Promises (x >>= k) R fun _ => True :=
  (promises_anything x).bind fun a _ => hk a

/-- A call that only asks the heap. -/
theorem keeps_ask {Q : α → Prop} {f : Heap → Except CallFault α}
    (hf : ∀ h : Heap, h.Obeys P → Promises (f h) Q fun _ => True) :
    Keeps P (ask f) Q fun _ => True := by
  intro h hobeys
  have hpromise := hf h hobeys
  unfold ask
  cases hfh : f h with
  | error e => exact ⟨.refl hobeys, trivial⟩
  | ok a =>
    rw [hfh] at hpromise
    exact ⟨.refl hobeys, hpromise⟩

theorem keeps_ask_anything (f : Heap → Except CallFault α) :
    Keeps P (ask f) (fun _ => True) fun _ => True :=
  keeps_ask fun h _ => promises_anything (f h)

variable {args : Array Value}

theorem oneArgument_promises (hargs : ∀ v ∈ args, v.Obeys P) (name : String) :
    Promises (oneArgument name args) (Value.Obeys P) fun _ => True := by
  unfold oneArgument
  split
  · rename_i v hv
    exact hargs v (Array.mem_toList_iff.1 (hv ▸ List.mem_singleton_self v))
  · trivial

theorem twoArguments_promises (hargs : ∀ v ∈ args, v.Obeys P) (name : String) :
    Promises (twoArguments name args) (fun p => p.1.Obeys P ∧ p.2.Obeys P) fun _ => True := by
  unfold twoArguments
  split
  · rename_i v w hvw
    refine ⟨hargs v (Array.mem_toList_iff.1 ?_), hargs w (Array.mem_toList_iff.1 ?_)⟩
    · simp [hvw]
    · simp [hvw]
  · trivial

theorem obeys_mem_map {γ : Type} {f : γ → Value} (hf : ∀ a, (f a).Obeys P) {items : Array γ} :
    ∀ v ∈ items.map f, v.Obeys P := by
  intro v hv
  obtain ⟨a, -, rfl⟩ := Array.mem_map.1 hv
  exact hf a

/-! ## Functions that are always in scope -/

namespace CoreFunction

theorem toInt_promises (v : Value) : Promises (toInt v) (Value.Obeys P) fun _ => True := by
  unfold toInt
  split
  · exact Value.obeys_of_plain rfl rfl
  · exact Value.obeys_of_plain rfl rfl
  · split
    · exact Value.obeys_of_plain rfl rfl
    · trivial
  · split
    · exact Value.obeys_of_plain rfl rfl
    · trivial
  · trivial

theorem toFloat_promises (v : Value) : Promises (toFloat v) (Value.Obeys P) fun _ => True := by
  unfold toFloat
  split
  · exact Value.obeys_of_plain rfl rfl
  · exact Value.obeys_of_plain rfl rfl
  · split
    · exact Value.obeys_of_plain rfl rfl
    · trivial
  · trivial

theorem listItems_promises {h : Heap} (hobeys : h.Obeys P) (v? : Option Value) :
    Promises (listItems h v?) (fun items => ∀ v ∈ items, v.Obeys P) fun _ => True := by
  unfold listItems
  split
  · exact fun v hv => absurd hv (Array.not_mem_empty v)
  · exact hobeys.list _
  · exact obeys_mem_map Value.obeys_key
  · exact obeys_mem_map Value.obeys_key
  · exact obeys_mem_map fun s => Value.obeys_of_plain rfl rfl
  · trivial

theorem mem_foldl_push {γ : Type} {items : List γ} {old : Array γ} {v : γ}
    (h : v ∈ items.foldl Array.push old) : v ∈ items ∨ v ∈ old := by
  rw [List.foldl_push_eq_append'] at h
  rcases Array.mem_append.1 h with h | h
  · exact .inr h
  · exact .inl (by simpa using h)

theorem appendItems_keeps (hargs : ∀ v ∈ args, v.Obeys P) :
    Keeps P (appendItems args) (Value.Obeys P) fun _ => True := by
  unfold appendItems
  split
  · exact .throw trivial
  · rename_i r items hargs'
    have hitems : ∀ v ∈ items, v.Obeys P := by
      intro v hv
      refine hargs v (Array.mem_toList_iff.1 ?_)
      rw [hargs']
      exact List.mem_cons_of_mem _ hv
    refine .bind (.modify fun h hobeys => hobeys.modifyList r fun old hold v hv => ?_)
      fun _ _ => .pure (Value.obeys_of_plain rfl rfl)
    rcases mem_foldl_push hv with hv | hv
    · exact hitems v hv
    · exact hold v hv
  · exact .throw trivial

theorem removeEntry_keeps (container key : Value) :
    Keeps P (removeEntry container key) (Value.Obeys P) fun _ => True := by
  unfold removeEntry
  split
  · rename_i r
    split
    · exact .throw trivial
    · rename_i k _
      refine .get_bind fun h hobeys => .bind (Q := fun _ => True) (.modify fun h hobeys => ?_)
        fun _ _ => .pure (obeys_getD_map hobeys r k)
      exact hobeys.modifyMap r fun entries hentries e he =>
        hentries e (OrderedMap.mem_entries_of_erase he)
  · split
    · exact .throw trivial
    · rename_i k _
      refine .get_bind fun h hobeys => .bind (Q := fun _ => True)
        (.modify fun h hobeys => hobeys.modifySet _ _) fun _ _ => .pure ?_
      split
      · exact Value.obeys_key k
      · exact Value.obeys_of_plain rfl rfl
  · rename_i r
    split
    · exact .throw trivial
    · refine .get_bind fun h _ => ?_
      dsimp only
      split
      · exact .throw trivial
      · rename_i p _
        refine .get_bind fun h hobeys => .bind (Q := fun _ => True) (.modify fun h hobeys => ?_)
          fun _ _ => .pure (obeys_getD_list hobeys r p)
        exact hobeys.modifyList r fun items hitems v hv =>
          hitems v (mem_of_mem_eraseIdxIfInBounds hv)
  · exact .throw trivial

theorem rangeFrom_obeys {stop step i : Int64} {found : Array Value}
    (hfound : ∀ v ∈ found, v.Obeys P) : ∀ v ∈ rangeFrom stop step i found, v.Obeys P := by
  have hpush : ∀ (i : Int64) {found : Array Value}, (∀ v ∈ found, v.Obeys P) →
      ∀ v ∈ found.push (.int i), v.Obeys P := by
    intro i found hfound v hv
    rcases Array.mem_push.1 hv with hv | rfl
    · exact hfound v hv
    · exact Value.obeys_of_plain rfl rfl
  fun_induction rangeFrom stop step i found with
  | case1 i found _ next _ ih => exact ih (hpush i hfound)
  | case2 i found => exact hpush i hfound
  | case3 => exact hfound

theorem rangeItems_promises (start stop step : Int64) :
    Promises (rangeItems start stop step) (fun items => ∀ v ∈ items, v.Obeys P)
      fun _ => True := by
  unfold rangeItems
  split
  · trivial
  · dsimp only
    split
    · trivial
    · exact rangeFrom_obeys nofun

theorem select_promises (name : String) (keep : Ordering) {best : Value} (hbest : best.Obeys P)
    {candidates : List Value} (h : ∀ v ∈ candidates, v.Obeys P) :
    Promises (select name keep best candidates) (Value.Obeys P) fun _ => True := by
  induction candidates generalizing best with
  | nil => exact hbest
  | cons v rest ih =>
    rw [List.forall_mem_cons] at h
    unfold select
    split
    · refine ih ?_ h.2
      split
      · exact h.1
      · exact hbest
    · trivial

theorem extreme_promises {h : Heap} (hobeys : h.Obeys P) (hargs : ∀ v ∈ args, v.Obeys P)
    (name : String) (keep : Ordering) :
    Promises (extreme h name keep args) (Value.Obeys P) fun _ => True := by
  unfold extreme
  dsimp only
  split
  · trivial
  · split
    · trivial
    · rename_i best rest hcandidates
      have hall : ∀ v ∈ best :: rest, v.Obeys P := by
        rw [← hcandidates]
        intro v hv
        split at hv
        · exact hobeys.list _ v (Array.mem_toList_iff.1 hv)
        · exact hargs v (Array.mem_toList_iff.1 hv)
      rw [List.forall_mem_cons] at hall
      exact select_promises name keep hall.1 hall.2

theorem absolute_promises (n : Int64) : Promises (absolute n) (Value.Obeys P) fun _ => True := by
  unfold absolute
  split
  · exact Value.obeys_of_plain rfl rfl
  · trivial

theorem outcome_promises (hargs : ∀ v ∈ args, v.Obeys P) (name : String) :
    Promises (outcome name args) (fun o => o.2.Obeys P) fun _ => True := by
  refine (oneArgument_promises hargs name).bind fun v hv => ?_
  split
  · exact Value.obeys_result.1 hv
  · trivial

theorem errorText_promises (h : Heap) (v : Value) :
    Promises (errorText h v) (Value.Obeys P) fun _ => True := by
  unfold errorText
  split
  · exact Value.obeys_of_plain rfl rfl
  · exact Value.obeys_of_plain rfl rfl
  · exact Value.obeys_of_plain rfl rfl
  · trivial

theorem call_keeps (hargs : ∀ v ∈ args, v.Obeys P) (f : CoreFunction) :
    Keeps P (f.call args) (Value.Obeys P) fun _ => True := by
  cases f with
  | len => exact keeps_ask fun h _ => promises_bind fun v => promises_bind fun n =>
      Value.obeys_of_plain rfl rfl
  | type => exact keeps_ask fun h _ => promises_bind fun v => Value.obeys_of_plain rfl rfl
  | str => exact keeps_ask fun h _ => promises_bind fun v => Value.obeys_of_plain rfl rfl
  | int => exact keeps_ask fun h _ => promises_bind toInt_promises
  | float => exact keeps_ask fun h _ => promises_bind toFloat_promises
  | list =>
    refine .bind (keeps_ask fun h hobeys => ?_) fun items hitems => keeps_newList hitems
    exact promises_bind fun _ => listItems_promises hobeys _
  | set =>
    exact .bind (keeps_ask_anything _) fun members _ => keeps_newSet members
  | keys =>
    refine .bind (keeps_ask fun h hobeys => promises_bind fun v => ?_)
      fun items hitems => keeps_newList hitems
    split
    · exact obeys_mem_map Value.obeys_key
    · trivial
  | values =>
    refine .bind (keeps_ask fun h hobeys => promises_bind fun v => ?_)
      fun items hitems => keeps_newList hitems
    split
    · intro v hv
      obtain ⟨e, he, rfl⟩ := Array.mem_map.1 hv
      exact hobeys.map _ e he
    · trivial
  | append => exact appendItems_keeps hargs
  | delete => exact .bind (keeps_ask_anything _) fun p _ => removeEntry_keeps p.1 p.2
  | range =>
    exact .bind (keeps_ask fun h _ => promises_bind fun r => rangeItems_promises r.1 r.2.1 r.2.2)
      fun items hitems => keeps_newList hitems
  | min => exact keeps_ask fun h hobeys => extreme_promises hobeys hargs _ _
  | max => exact keeps_ask fun h hobeys => extreme_promises hobeys hargs _ _
  | abs =>
    refine keeps_ask fun h _ => promises_bind fun v => ?_
    split
    · exact absolute_promises _
    · exact Value.obeys_of_plain rfl rfl
    · trivial
  | ok =>
    exact .bind (keeps_ask fun h _ => oneArgument_promises hargs _) fun v hv => keeps_newResult hv
  | err =>
    exact .bind (keeps_ask fun h _ => oneArgument_promises hargs _) fun v hv => keeps_newResult hv
  | isOk => exact keeps_ask fun h _ => promises_bind fun o => Value.obeys_of_plain rfl rfl
  | isErr => exact keeps_ask fun h _ => promises_bind fun o => Value.obeys_of_plain rfl rfl
  | unwrap =>
    refine keeps_ask fun h _ => (outcome_promises hargs _).bind fun o ho => ?_
    obtain ⟨good, v⟩ := o
    cases good with
    | true => exact ho
    | false => trivial
  | unwrapOr =>
    refine keeps_ask fun h _ => (twoArguments_promises hargs _).bind fun p hp => ?_
    obtain ⟨v, other⟩ := p
    have hv : ∀ w ∈ #[v], w.Obeys P := by
      intro w hw
      rw [List.mem_singleton.1 (Array.mem_toList_iff.2 hw)]
      exact hp.1
    refine (outcome_promises hv _).bind fun o ho => ?_
    obtain ⟨good, v⟩ := o
    cases good with
    | true => exact ho
    | false => exact hp.2
  | errorMessage => exact keeps_ask fun h _ => promises_bind (errorText_promises h)

end CoreFunction

/-! ## Libraries -/

theorem MathFunction.call_promises (hargs : ∀ v ∈ args, v.Obeys P) (f : MathFunction) :
    Promises (f.call args) (Value.Obeys P) fun _ => True := by
  have hunary : ∀ name g, Promises (unary name g args) (Value.Obeys P) fun _ => True :=
    fun name g => promises_bind fun v => promises_bind fun x => Value.obeys_of_plain rfl rfl
  have hrounding : ∀ name g, Promises (rounding name g args) (Value.Obeys P) fun _ => True := by
    refine fun name g => promises_bind fun v => ?_
    split
    · exact Value.obeys_of_plain rfl rfl
    · refine promises_bind fun x => ?_
      dsimp only
      split
      · exact Value.obeys_of_plain rfl rfl
      · exact Value.obeys_of_plain rfl rfl
  have hpick : ∀ name keep, Promises (pick name keep args) (Value.Obeys P) fun _ => True := by
    refine fun name keep => (twoArguments_promises hargs name).bind fun p hp => ?_
    refine promises_bind fun _ => promises_bind fun _ => ?_
    show Value.Obeys P (if _ then p.2 else p.1)
    split
    · exact hp.2
    · exact hp.1
  cases f with
  | sqrt => exact hunary _ _
  | floor => exact hrounding _ _
  | ceil => exact hrounding _ _
  | abs =>
    refine promises_bind fun v => ?_
    split
    · exact CoreFunction.absolute_promises _
    · exact promises_bind fun x => Value.obeys_of_plain rfl rfl
  | pow => exact promises_bind fun p => promises_bind fun x => promises_bind fun y =>
      Value.obeys_of_plain rfl rfl
  | min => exact hpick _ _
  | max => exact hpick _ _
  | sin => exact hunary _ _
  | cos => exact hunary _ _
  | tan => exact hunary _ _
  | log => exact hunary _ _
  | exp => exact hunary _ _

theorem StringsFunction.call_keeps (args : Array Value) (f : StringsFunction) :
    Keeps P (f.call args) (Value.Obeys P) fun _ => True := by
  have hunary : ∀ name g, Promises (unary name g args) (Value.Obeys P) fun _ => True :=
    fun name g => promises_bind fun v => promises_bind fun x => Value.obeys_of_plain rfl rfl
  have hrelation : ∀ name g, Promises (relation name g args) (Value.Obeys P) fun _ => True :=
    fun name g => promises_bind fun p => promises_bind fun s => promises_bind fun t =>
      Value.obeys_of_plain rfl rfl
  cases f with
  | toUpper => exact keeps_ask fun h _ => hunary _ _
  | toLower => exact keeps_ask fun h _ => hunary _ _
  | trim => exact keeps_ask fun h _ => hunary _ _
  | split =>
    refine .bind (keeps_ask fun h _ => ?_) fun items hitems => keeps_newList hitems
    exact promises_bind fun p => promises_bind fun s => promises_bind fun sep =>
      obeys_mem_map fun part => Value.obeys_of_plain rfl rfl
  | join =>
    refine keeps_ask fun h _ => promises_bind fun p => ?_
    obtain ⟨items, sep⟩ := p
    cases items with
    | list r => exact promises_bind fun s => promises_bind fun parts => Value.obeys_of_plain rfl rfl
    | _ => trivial
  | contains => exact keeps_ask fun h _ => hrelation _ _
  | hasPrefix => exact keeps_ask fun h _ => hrelation _ _
  | hasSuffix => exact keeps_ask fun h _ => hrelation _ _
  | replace =>
    exact keeps_ask fun h _ => promises_bind fun p => promises_bind fun s =>
      promises_bind fun old => promises_bind fun new => Value.obeys_of_plain rfl rfl
  | «repeat» =>
    refine keeps_ask fun h _ => promises_bind fun p => promises_bind fun s =>
      promises_bind fun n => ?_
    split
    · trivial
    · split
      · trivial
      · exact Value.obeys_of_plain rfl rfl

theorem ConversionFunction.newReading_keeps (name text : String) {reading : Except String Value}
    (h : Promises reading (Value.Obeys P) fun _ => True) :
    Keeps P (newReading name text reading) (Value.Obeys P) fun _ => True := by
  cases reading with
  | ok v => exact keeps_newResult h
  | error reason => exact keeps_newFailure _

theorem ConversionFunction.call_keeps (args : Array Value) (f : ConversionFunction) :
    Keeps P (f.call args) (Value.Obeys P) fun _ => True := by
  cases f with
  | atoi =>
    refine .bind (keeps_ask_anything _) fun s _ => newReading_keeps _ _ ?_
    split
    · exact Value.obeys_of_plain rfl rfl
    · trivial
  | atof =>
    refine .bind (keeps_ask_anything _) fun s _ => newReading_keeps _ _ ?_
    cases readFloat s with
    | ok x => exact Value.obeys_of_plain rfl rfl
    | error e => trivial
  | itoa =>
    exact keeps_ask fun h _ => promises_bind fun v => promises_bind fun n =>
      Value.obeys_of_plain rfl rfl
  | parseBool =>
    refine .bind (keeps_ask_anything _) fun s _ => newReading_keeps _ _ ?_
    split
    · exact Value.obeys_of_plain rfl rfl
    · trivial

/-! ## Documents -/

namespace Json

theorem valueOfNumber_obeys (n : JsonNumber) : (valueOfNumber n).Obeys P := by
  cases n with
  | float x => exact Value.obeys_of_plain rfl rfl
  | whole n =>
    rw [valueOfNumber]
    split
    · exact Value.obeys_of_plain rfl rfl
    · exact Value.obeys_of_plain rfl rfl

mutual

theorem toValue_kept (j : Json) {h : Heap} (hobeys : h.Obeys P) :
    h.Kept P (j.toValue h).2 ∧ (j.toValue h).1.Obeys P := by
  match j with
  | .null => exact ⟨.refl hobeys, Value.obeys_of_plain rfl rfl⟩
  | .bool b => exact ⟨.refl hobeys, Value.obeys_of_plain rfl rfl⟩
  | .number n => exact ⟨.refl hobeys, valueOfNumber_obeys n⟩
  | .string s => exact ⟨.refl hobeys, Value.obeys_of_plain rfl rfl⟩
  | .array items =>
    rw [toValue]
    obtain ⟨hkept, hvalues⟩ := toValues_kept items hobeys #[]
      fun v hv => absurd hv (Array.not_mem_empty v)
    exact ⟨hkept.trans (hkept.obeys.newList hvalues), Value.obeys_of_plain rfl rfl⟩
  | .object members =>
    rw [toValue]
    obtain ⟨hkept, hentries⟩ := toEntries_kept members hobeys .empty
      fun e he => absurd he (Array.not_mem_empty e)
    exact ⟨hkept.trans (hkept.obeys.newMap hentries), Value.obeys_of_plain rfl rfl⟩

theorem toValues_kept (items : List Json) {h : Heap} (hobeys : h.Obeys P) (found : Array Value)
    (hfound : ∀ v ∈ found, v.Obeys P) :
    h.Kept P (toValues items found h).2 ∧ ∀ v ∈ (toValues items found h).1, v.Obeys P := by
  match items with
  | [] =>
    rw [toValues]
    exact ⟨.refl hobeys, hfound⟩
  | item :: rest =>
    rw [toValues]
    obtain ⟨hkept, hv⟩ := toValue_kept item hobeys
    obtain ⟨hkept', hvalues⟩ := toValues_kept rest hkept.obeys
      (found.push (item.toValue h).1) fun w hw => by
        rcases Array.mem_push.1 hw with hw | rfl
        · exact hfound w hw
        · exact hv
    exact ⟨hkept.trans hkept', hvalues⟩

theorem toEntries_kept (members : List (String × Json)) {h : Heap} (hobeys : h.Obeys P)
    (found : OrderedMap Key Value) (hfound : ∀ e ∈ found.entries, e.2.Obeys P) :
    h.Kept P (toEntries members found h).2 ∧
      ∀ e ∈ (toEntries members found h).1.entries, e.2.Obeys P := by
  match members with
  | [] =>
    rw [toEntries]
    exact ⟨.refl hobeys, hfound⟩
  | (name, item) :: rest =>
    rw [toEntries]
    obtain ⟨hkept, hv⟩ := toValue_kept item hobeys
    obtain ⟨hkept', hentries⟩ := toEntries_kept rest hkept.obeys
      (found.insert (.str name) (item.toValue h).1) fun e he => by
        rcases OrderedMap.mem_entries_insert he with he | rfl
        · exact hfound e he
        · exact hv
    exact ⟨hkept.trans hkept', hentries⟩

end

end Json

theorem JsonFunction.call_keeps (args : Array Value) (f : JsonFunction) :
    Keeps P (f.call args) (Value.Obeys P) fun _ => True := by
  cases f with
  | marshal =>
    refine keeps_ask fun h _ => promises_bind fun v => ?_
    unfold encoded
    split
    · exact Value.obeys_of_plain rfl rfl
    · trivial
  | unmarshal =>
    refine .bind (keeps_ask_anything _) fun source _ => ?_
    unfold newDocument
    split
    · rename_i j _
      exact .bind (.modifyGet fun h hobeys => Json.toValue_kept j hobeys)
        fun v hv => keeps_newResult hv
    · exact keeps_newFailure _

/-! ## The world -/

namespace World

variable (w : World)

theorem cancelled_clock (clock : Nat) : { w with clock }.cancelled = w.cancelled := rfl

theorem cancelled_draw : w.draw.2.cancelled = w.cancelled := by
  cases w
  simp only [draw]

theorem cancelled_askDriver : w.askDriver.2.cancelled = w.cancelled := by
  cases w
  simp only [askDriver]

end World

/-- A call in the world gives a value that obeys the policy, and does not ask for an end. -/
def Worldly (P : Policy) (w : World) (r : Value × World) : Prop :=
  r.1.Obeys P ∧ r.2.cancelled = w.cancelled

theorem TimeFunction.call_keeps (args : Array Value) (f : TimeFunction) (w : World) :
    Keeps P (f.call args w) (Worldly P w) fun _ => True := by
  cases f with
  | now => exact keeps_ask fun h _ => promises_bind fun _ => ⟨Value.obeys_of_plain rfl rfl, rfl⟩
  | unix => exact keeps_ask fun h _ => promises_bind fun _ => ⟨Value.obeys_of_plain rfl rfl, rfl⟩
  | sleep =>
    refine .bind (keeps_ask_anything _) fun n _ => ?_
    unfold sleepFor
    split
    · exact .throw trivial
    · split
      · exact .bind (keeps_newFailure _) fun v hv => .pure ⟨hv, rfl⟩
      · split
        · exact .bind (keeps_newFailure _) fun v hv => .pure ⟨hv, rfl⟩
        · exact .bind (keeps_newResult (Value.obeys_of_plain rfl rfl)) fun v hv =>
            .pure ⟨hv, w.cancelled_clock _⟩

theorem RandomFunction.call_keeps (args : Array Value) (f : RandomFunction) (w : World) :
    Keeps P (f.call args w) (Worldly P w) fun _ => True := by
  refine keeps_ask fun h hobeys => ?_
  cases f with
  | int =>
    refine promises_bind fun v => promises_bind fun bound => ?_
    split
    · trivial
    · exact ⟨Value.obeys_of_plain rfl rfl, w.cancelled_draw⟩
  | float => exact promises_bind fun _ => ⟨Value.obeys_of_plain rfl rfl, w.cancelled_draw⟩
  | choice =>
    refine promises_bind fun v => ?_
    cases v with
    | list l =>
      dsimp only
      split
      · trivial
      · exact ⟨obeys_getD_list hobeys l _, w.cancelled_draw⟩
    | _ => trivial

theorem UuidFunction.call_keeps (args : Array Value) (f : UuidFunction) (w : World) :
    Keeps P (f.call args w) (Worldly P w) fun _ => True := by
  cases f with
  | v4 =>
    exact keeps_ask fun h _ => promises_bind fun _ =>
      ⟨Value.obeys_of_plain rfl rfl, w.cancelled_draw⟩

/-! ## Databases -/

theorem Column.toValue_obeys (c : Column) : c.toValue.Obeys P := by
  have hread : ∀ {α : Type} {value : α → Value} (read : Except String (Option α)),
      (∀ a, (value a).Obeys P) → (valueOf value read).Obeys P := by
    intro α value read hvalue
    unfold valueOf
    split
    · exact hvalue _
    · exact Value.obeys_of_plain rfl rfl
    · exact Value.obeys_of_plain rfl rfl
  cases c <;> exact hread _ fun _ => Value.obeys_of_plain rfl rfl

theorem Row.entries_obey (row : Row) : ∀ e ∈ (Row.entries row).entries, e.2.Obeys P := by
  unfold Row.entries
  refine List.foldlRecOn row _
    (motive := fun m : OrderedMap Key Value => ∀ e ∈ m.entries, e.2.Obeys P) ?_ ?_
  · exact fun e he => absurd he (Array.not_mem_empty e)
  · intro entries hentries c _ e he
    rcases OrderedMap.mem_entries_insert he with he | rfl
    · exact hentries e he
    · exact c.2.toValue_obeys

namespace DatabaseFunction

theorem rowValues_keeps (rows : List Row) :
    Keeps P (rowValues rows) (fun vs => ∀ v ∈ vs, v.Obeys P) fun _ => True := by
  induction rows with
  | nil => exact .pure nofun
  | cons row rows ih =>
    refine .bind (keeps_newMap (Row.entries_obey row)) fun v hv => .bind ih fun vs hvs => .pure ?_
    intro u hu
    rcases List.mem_cons.1 hu with rfl | hu
    · exact hv
    · exact hvs u hu

theorem answer_keeps {α : Type} {value : α → OnHeap CallFault Value}
    (hvalue : ∀ a, Keeps P (value a) (Value.Obeys P) fun _ => True) {w : World} (w' : World)
    (hw : w'.cancelled = w.cancelled) (reply : Except String α) :
    Keeps P (answer w' value reply) (Worldly P w) fun _ => True := by
  cases reply with
  | ok a =>
    exact .bind (hvalue a) fun v hv => .bind (keeps_newResult hv) fun r hr => .pure ⟨hr, hw⟩
  | error reason => exact .bind (keeps_newFailure reason) fun r hr => .pure ⟨hr, hw⟩

theorem onConnection_keeps {next : Driver → World → OnHeap CallFault (Value × World)} {w : World}
    (hnext : ∀ driver w', w'.cancelled = w.cancelled →
      Keeps P (next driver w') (Worldly P w) fun _ => True) (connection : Nat) :
    Keeps P (onConnection w connection next) (Worldly P w) fun _ => True := by
  unfold onConnection
  split
  · exact hnext _ _ w.cancelled_askDriver
  · exact .bind (keeps_newFailure _) fun v hv => .pure ⟨hv, rfl⟩

theorem opened_keeps {w w' : World} (hw : w'.cancelled = w.cancelled) :
    Keeps P (opened w') (Worldly P w) fun _ => True :=
  .bind (.modifyGet (Q := fun _ => True) fun _ hobeys => ⟨hobeys.newId, trivial⟩) fun _ _ =>
    .bind (keeps_newResult (Value.obeys_of_plain rfl rfl)) fun _ hv => .pure ⟨hv, hw⟩

theorem call_keeps (args : Array Value) (f : DatabaseFunction) (w : World) :
    Keeps P (f.call args w) (Worldly P w) fun _ => True := by
  cases f with
  | connect =>
    refine .bind (keeps_ask_anything _) fun address _ => ?_
    dsimp only
    split
    · exact opened_keeps w.cancelled_askDriver
    · exact answer_keeps (fun _ => .pure (Value.obeys_of_plain rfl rfl)) _ w.cancelled_askDriver _
  | exec =>
    refine .bind (keeps_ask_anything _) fun found _ => onConnection_keeps (fun driver w' hw => ?_) _
    exact answer_keeps (fun _ => .pure (Value.obeys_of_plain rfl rfl)) w' hw _
  | query =>
    refine .bind (keeps_ask_anything _) fun found _ => onConnection_keeps (fun driver w' hw => ?_) _
    refine answer_keeps (fun rows => .bind (rowValues_keeps rows) fun vs hvs => ?_) w' hw _
    exact keeps_newList fun v hv => hvs v (List.mem_toArray.1 hv)
  | close =>
    have hnil : ∀ _ : Unit, Keeps P (pure .nil : HeapCall) (Value.Obeys P) fun _ => True :=
      fun _ => .pure (Value.obeys_of_plain rfl rfl)
    refine .bind (keeps_ask_anything _) fun connection _ => ?_
    split
    · exact answer_keeps hnil (w.askDriver.2.disconnected connection) w.cancelled_askDriver _
    · exact answer_keeps hnil w rfl _

end DatabaseFunction

/-! ## Calls -/

/-- The value and the heap after a call obey the policy, and no cell has changed. -/
def CallKept (P : Policy) (s : CallState) (r : Value × CallState) : Prop :=
  r.1.Obeys P ∧ s.heap.Kept P r.2.heap

/-- A call that fails does not tell of malformed code. -/
theorem CallFault.toValue_obeys (e : CallFault) : e.toValue.Obeys P :=
  Value.obeys_of_plain rfl (by cases e <;> rfl)

theorem onHeap_kept {x : HeapCall} (hx : Keeps P x (Value.Obeys P) fun _ => True) {s : CallState}
    (hobeys : s.heap.Obeys P) : CallKept P s (onHeap x s) := by
  have hrun := hx s.heap hobeys
  unfold onHeap
  dsimp only
  cases hr : x s.heap with
  | ok v heap =>
    rw [hr] at hrun
    exact ⟨hrun.2, hrun.1⟩
  | error e heap =>
    rw [hr] at hrun
    exact ⟨e.toValue_obeys, hrun.1⟩

theorem inWorld_kept {x : WorldCall} (hx : ∀ w, Keeps P (x w) (Worldly P w) fun _ => True)
    {s : CallState}
    (hobeys : s.heap.Obeys P) : CallKept P s (inWorld x s) := by
  have hrun := hx s.world s.heap hobeys
  unfold inWorld
  dsimp only
  cases hr : x s.world s.heap with
  | ok v heap =>
    rw [hr] at hrun
    exact ⟨hrun.2.1, hrun.1⟩
  | error e heap =>
    rw [hr] at hrun
    exact ⟨e.toValue_obeys, hrun.1⟩

theorem Native.call_kept (f : Native) (hargs : ∀ v ∈ args, v.Obeys P) {s : CallState}
    (hobeys : s.heap.Obeys P) : CallKept P s (f.call args s) := by
  cases f with
  | core f => exact onHeap_kept (f.call_keeps hargs) hobeys
  | math f => exact onHeap_kept (keeps_ask fun h _ => f.call_promises hargs) hobeys
  | json f => exact onHeap_kept (f.call_keeps args) hobeys
  | strings f => exact onHeap_kept (f.call_keeps args) hobeys
  | time f => exact inWorld_kept (f.call_keeps args) hobeys
  | uuid f => exact inWorld_kept (f.call_keeps args) hobeys
  | random f => exact inWorld_kept (f.call_keeps args) hobeys
  | conversion f => exact onHeap_kept (f.call_keeps args) hobeys
  | database f => exact inWorld_kept (f.call_keeps args) hobeys

/-- Whatever values the functions of a host are given that obey the policy, they give such
values. -/
def ObedientHost (P : Policy) (host : Array HostFunction) : Prop :=
  ∀ f ∈ host, ∀ (args : Array Value) (s : CallState), (∀ v ∈ args, v.Obeys P) → s.heap.Obeys P →
    (f.run args s).1.Obeys P ∧ (f.run args s).2.heap.Obeys P

theorem ObedientHost.call {host : Array HostFunction} (hhost : ObedientHost P host) (b : Builtin)
    (hargs : ∀ v ∈ args, v.Obeys P) {s : CallState} (hobeys : s.heap.Obeys P) :
    (b.call host args s).1.Obeys P ∧ (b.call host args s).2.heap.Obeys P := by
  cases b with
  | native f =>
    obtain ⟨hvalue, hkept⟩ := f.call_kept hargs hobeys
    exact ⟨hvalue, hkept.obeys⟩
  | host name slot =>
    unfold Builtin.call
    dsimp only
    cases hf : host[slot]? with
    | none => exact ⟨Value.obeys_of_plain rfl rfl, hobeys⟩
    | some f => exact hhost f (Array.mem_of_getElem? hf) args s hargs hobeys

end

/-! ## Asking for an end -/

/-- Every value may occur. -/
def Policy.everything : Policy := ⟨fun _ => True, fun _ _ _ => trivial⟩

theorem Heap.obeys_everything (h : Heap) : h.Obeys .everything :=
  ⟨fun _ _ _ _ => trivial, fun _ _ _ _ => trivial, fun _ _ => trivial⟩

theorem onHeap_cancelled (x : HeapCall) (s : CallState) :
    (onHeap x s).2.world.cancelled = s.world.cancelled := by
  unfold onHeap
  dsimp only
  split <;> rfl

theorem inWorld_cancelled {x : WorldCall}
    (hx : ∀ w, Keeps .everything (x w) (Worldly .everything w) fun _ => True) (s : CallState) :
    (inWorld x s).2.world.cancelled = s.world.cancelled := by
  have hrun := hx s.world s.heap s.heap.obeys_everything
  unfold inWorld
  dsimp only
  cases hr : x s.world s.heap with
  | ok v heap =>
    rw [hr] at hrun
    exact hrun.2.2
  | error e heap => rfl

/-- No builtin asks for an end. -/
theorem Native.call_cancelled (f : Native) (args : Array Value) (s : CallState) :
    (f.call args s).2.world.cancelled = s.world.cancelled := by
  unfold Native.call
  cases f with
  | core | math | json | strings | conversion => exact onHeap_cancelled _ s
  | time f => exact inWorld_cancelled (f.call_keeps args) s
  | uuid f => exact inWorld_cancelled (f.call_keeps args) s
  | random f => exact inWorld_cancelled (f.call_keeps args) s
  | database f => exact inWorld_cancelled (f.call_keeps args) s

/-- A host whose functions do not ask for an end, and do not take back that someone has. -/
def PatientHost (host : Array HostFunction) : Prop :=
  ∀ f ∈ host, ∀ (args : Array Value) (s : CallState),
    (f.run args s).2.world.cancelled = s.world.cancelled

theorem PatientHost.call {host : Array HostFunction} (hhost : PatientHost host) (b : Builtin)
    (args : Array Value) (s : CallState) :
    (b.call host args s).2.world.cancelled = s.world.cancelled := by
  cases b with
  | native f => exact f.call_cancelled args s
  | host name slot =>
    unfold Builtin.call
    dsimp only
    cases hf : host[slot]? with
    | none => rfl
    | some f => exact hhost f (Array.mem_of_getElem? hf) args s

end Ember
