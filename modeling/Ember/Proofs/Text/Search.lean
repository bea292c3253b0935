import Ember.Text.Search

/-! Searches for a text in another one. A search from the left that goes on after what it has found
comes to places that do not overlap, and there is one list of such places. Dividing a text cuts it
just there: the parts hold no occurrence, joined they give the text back, and joined by something
else they give what replacing gives. -/
namespace Ember.Text
set_option autoImplicit false

/-! ## Occurrences -/

/-- After its first `n` characters the text goes on with `part`. -/
def OccursAt (part s : List Char) (n : Nat) : Prop := part <+: s.drop n

/-- The places of `part` that a search from the left finds: they do not overlap, and an occurrence
that is not among them overlaps an earlier one that is. -/
structure Leftmost (part s : List Char) (places : List Nat) : Prop where
  occurs : ∀ n ∈ places, OccursAt part s n
  apart : places.Pairwise fun m n => m + part.length ≤ n
  covers : ∀ n, OccursAt part s n → ∃ m ∈ places, m ≤ n ∧ n < m + part.length

section
variable {part s front : List Char} {n : Nat}

theorem OccursAt.add_le (h : OccursAt part s n) (hpart : part ≠ []) :
    n + part.length ≤ s.length := by
  have hle := h.length_le
  have hpos := List.length_pos_iff.2 hpart
  rw [List.length_drop] at hle
  omega

theorem OccursAt.append (h : OccursAt part s n) (hpart : part ≠ []) (t : List Char) :
    OccursAt part (s ++ t) n := by
  have hle := h.add_le hpart
  rw [OccursAt, List.drop_append_of_le_length (by omega)]
  exact h.trans (List.prefix_append _ _)

theorem occursAt_append_iff :
    OccursAt part (front ++ s) (front.length + n) ↔ OccursAt part s n := by
  rw [OccursAt, OccursAt, List.drop_append, List.drop_of_length_le (by omega),
    Nat.add_sub_cancel_left, List.nil_append]

theorem exists_occursAt (h : part <:+: s) : ∃ n, OccursAt part s n := by
  obtain ⟨t, hpart, hsuffix⟩ := List.infix_iff_prefix_suffix.1 h
  rw [List.suffix_iff_eq_drop.1 hsuffix] at hpart
  exact ⟨_, hpart⟩

end

namespace Leftmost

variable {part s : List Char} {places other : List Nat}

/-- Of two places the further one does not overlap the other. -/
theorem apart_of_lt (h : Leftmost part s places) (hpart : part ≠ []) {m n : Nat} (hm : m ∈ places)
    (hn : n ∈ places) (hlt : m < n) : m + part.length ≤ n := by
  have hpos := List.length_pos_iff.2 hpart
  obtain ⟨i, hi, rfl⟩ := List.getElem_of_mem hm
  obtain ⟨j, hj, rfl⟩ := List.getElem_of_mem hn
  have hapart := List.pairwise_iff_getElem.1 h.apart
  rcases Nat.lt_trichotomy i j with hij | rfl | hji
  · exact hapart i j hi hj hij
  · exact absurd hlt (Nat.lt_irrefl _)
  · have := hapart j i hj hi hji
    omega

/-- Two searches find the same: the first place in which they differed would overlap an earlier one,
which both have found. -/
theorem mem_of_mem (h : Leftmost part s places) (hother : Leftmost part s other) (hpart : part ≠ [])
    {n : Nat} (hn : n ∈ places) : n ∈ other := by
  induction n using Nat.strongRecOn generalizing places other with
  | ind n ih =>
    obtain ⟨m, hm, hle, hlt⟩ := hother.covers n (h.occurs n hn)
    rcases Nat.eq_or_lt_of_le hle with rfl | hbefore
    · exact hm
    · have := h.apart_of_lt hpart (ih m hbefore hother h hm) hn hbefore
      omega

theorem unique (h : Leftmost part s places) (hother : Leftmost part s other) (hpart : part ≠ []) :
    other = places := by
  have hpos := List.length_pos_iff.2 hpart
  have hincreasing : ∀ {found : List Nat}, Leftmost part s found → found.Pairwise (· < ·) :=
    fun hfound => hfound.apart.imp fun hmn => by omega
  have hnodup : ∀ {found : List Nat}, Leftmost part s found → found.Nodup :=
    fun hfound => (hincreasing hfound).imp Nat.ne_of_lt
  refine List.Perm.eq_of_pairwise (fun m n _ _ hmn hnm => absurd hmn (Nat.lt_asymm hnm))
    (hincreasing hother) (hincreasing h) ?_
  refine (List.perm_ext_iff_of_nodup (hnodup hother) (hnodup h)).2 fun n => ?_
  exact ⟨hother.mem_of_mem h hpart, h.mem_of_mem hother hpart⟩

end Leftmost

/-! ## Parts -/

/-- The parts of the characters between the occurrences of `sep`, each of which is the first one
after the cut before it. -/
inductive Cuts (sep : List Char) : List Char → List (List Char) → Prop
  | whole {s : List Char} (h : ∀ n, ¬ OccursAt sep s n) : Cuts sep s [s]
  | cut {part rest : List Char} {parts : List (List Char)}
      (hfirst : ∀ n, OccursAt sep (part ++ sep ++ rest) n → part.length ≤ n)
      (h : Cuts sep rest parts) : Cuts sep (part ++ sep ++ rest) (part :: parts)

namespace Cuts

variable {sep s : List Char} {parts : List (List Char)}

theorem ne_nil (h : Cuts sep s parts) : parts ≠ [] := by
  cases h <;> exact List.cons_ne_nil _ _

theorem intercalate (h : Cuts sep s parts) : sep.intercalate parts = s := by
  induction h with
  | whole => exact List.intercalate_singleton
  | cut hfirst hrest ih => rw [List.intercalate_cons_of_ne_nil hrest.ne_nil, ih]

theorem not_infix (h : Cuts sep s parts) (hsep : sep ≠ []) {part : List Char}
    (hpart : part ∈ parts) : ¬ sep <:+: part := by
  intro hinfix
  obtain ⟨n, hn⟩ := exists_occursAt hinfix
  induction h with
  | whole h =>
    rw [List.mem_singleton.1 hpart] at hn
    exact h n hn
  | @cut first rest parts hfirst hrest ih =>
    rcases List.mem_cons.1 hpart with rfl | hpart
    · have hle := hn.add_le hsep
      have hpos := List.length_pos_iff.2 hsep
      have := hfirst n (by rw [List.append_assoc]; exact hn.append hsep _)
      omega
    · exact ih hpart

/-- Between the parts lie the places that a search from the left finds. -/
theorem exists_leftmost (h : Cuts sep s parts) (hsep : sep ≠ []) :
    ∃ places, Leftmost sep s places ∧ parts.length = places.length + 1 := by
  have hpos := List.length_pos_iff.2 hsep
  induction h with
  | whole h => exact ⟨[], ⟨nofun, .nil, fun n hn => absurd hn (h n)⟩, rfl⟩
  | @cut part rest parts hfirst hrest ih =>
    obtain ⟨places, hleft, hlength⟩ := ih
    have hfront : (part ++ sep).length = part.length + sep.length := List.length_append
    refine ⟨part.length :: places.map ((part ++ sep).length + ·), ⟨?_, ?_, ?_⟩, by simp [hlength]⟩
    · intro n hn
      rcases List.mem_cons.1 hn with rfl | hn
      · rw [List.append_assoc]
        exact (occursAt_append_iff (n := 0)).2 (List.prefix_append _ _)
      · obtain ⟨k, hk, rfl⟩ := List.mem_map.1 hn
        exact occursAt_append_iff.2 (hleft.occurs k hk)
    · refine List.pairwise_cons.2 ⟨fun n hn => ?_, ?_⟩
      · obtain ⟨k, -, rfl⟩ := List.mem_map.1 hn
        omega
      · exact List.pairwise_map.2 (hleft.apart.imp fun hmn => by omega)
    · intro n hn
      have hafter := hfirst n hn
      by_cases hnear : n < part.length + sep.length
      · exact ⟨part.length, List.mem_cons_self, hafter, hnear⟩
      · obtain ⟨k, rfl⟩ : ∃ k, n = (part ++ sep).length + k := ⟨n - (part ++ sep).length, by omega⟩
        obtain ⟨m, hm, hle, hlt⟩ := hleft.covers k (occursAt_append_iff.1 hn)
        exact ⟨_, List.mem_cons_of_mem _ (List.mem_map_of_mem hm), by omega, by omega⟩

end Cuts

/-! ## Dividing and replacing -/

theorem eq_append_of_isPrefixOf {part s : List Char} (h : part.isPrefixOf s = true) :
    s = part ++ s.drop part.length :=
  (List.prefix_iff_eq_append.1 (List.isPrefixOf_iff_prefix.1 h)).symm

/-- Where no occurrence begins in what has been read since the last cut, the search makes the cuts
that are left; and replacing puts the new text where it makes them. -/
theorem splitAt_cuts {sep s : List Char} (current : List Char) (found : Array String)
    (hsep : sep ≠ [])
    (hclear : ∀ n, OccursAt sep (current.reverse ++ s) n → current.length ≤ n) :
    ∃ parts, (splitAt sep s current found).toList = found.toList ++ parts.map String.ofList ∧
      Cuts sep (current.reverse ++ s) parts ∧
      ∀ new out : String, substitute sep new s (out ++ String.ofList current.reverse) =
        out ++ new.intercalate (parts.map String.ofList) := by
  have hpos := List.length_pos_iff.2 hsep
  fun_induction splitAt sep s current found with
  | case1 current found =>
    refine ⟨[current.reverse], Array.toList_push, ?_, fun new out => ?_⟩
    · rw [List.append_nil] at hclear ⊢
      refine .whole fun n hn => ?_
      have hle := hn.add_le hsep
      have := hclear n hn
      rw [List.length_reverse] at hle
      omega
    · rw [substitute, List.map_singleton, String.intercalate_singleton]
  | case2 current found c rest hprefix ih =>
    rw [Nat.max_eq_left hpos, List.unattach_reverse, List.unattach_attach] at ih
    have hs := eq_append_of_isPrefixOf hprefix
    generalize hafter : (c :: rest).drop sep.length = after at ih hs
    obtain ⟨parts, hfound, hcuts, hnew⟩ := ih fun n _ => Nat.zero_le n
    refine ⟨current.reverse :: parts, ?_, ?_, fun new out => ?_⟩
    · rw [Nat.max_eq_left hpos, hafter, hfound, Array.toList_push, List.append_assoc]
      rfl
    · rw [hs, ← List.append_assoc] at hclear ⊢
      refine .cut (fun n hn => ?_) hcuts
      rw [List.length_reverse]
      exact hclear n hn
    · rw [substitute, if_pos hprefix, Nat.max_eq_left hpos, hafter, List.map_cons,
        String.intercalate_cons_of_ne_nil (by simpa using hcuts.ne_nil)]
      have hrest := hnew new (out ++ String.ofList current.reverse ++ new)
      rw [List.reverse_nil, String.ofList_nil, String.append_empty] at hrest
      rw [hrest, String.append_assoc, String.append_assoc, String.append_assoc]
  | case3 current found c rest hprefix ih =>
    have hmoved : (c :: current).reverse ++ rest = current.reverse ++ c :: rest := by simp
    have hnext : ∀ n, OccursAt sep (current.reverse ++ c :: rest) n → current.length + 1 ≤ n := by
      intro n hn
      refine Nat.lt_of_le_of_ne (hclear n hn) fun heq => hprefix ?_
      have hlength : n = current.reverse.length + 0 := by rw [List.length_reverse, ← heq]; rfl
      rw [hlength] at hn
      exact List.isPrefixOf_iff_prefix.2 (occursAt_append_iff.1 hn)
    rw [hmoved] at ih
    obtain ⟨parts, hfound, hcuts, hnew⟩ := ih hnext
    refine ⟨parts, hfound, hcuts, fun new out => ?_⟩
    rw [substitute, if_neg hprefix, ← hnew new out, List.reverse_cons, String.ofList_append,
      ← String.append_assoc]
    rfl

theorem characters_eq (s : String) : (characters s).toList = s.toList.map String.singleton := by
  rw [characters, String.foldl_eq_foldl_toList, List.foldl_push_eq_append]
  simp

/-- A text divided by one that is not empty: the parts are those of its characters, and joining them
by something else replaces the one by the other. -/
theorem split_cuts {s sep : String} (hsep : sep ≠ "") :
    ∃ parts, (split s sep).toList = parts.map String.ofList ∧ Cuts sep.toList s.toList parts ∧
      ∀ new, replace s sep new = join (split s sep).toList new := by
  have hchars : sep.toList ≠ [] := mt String.toList_eq_nil_iff.1 hsep
  have hempty : ¬ sep.isEmpty = true := mt String.isEmpty_iff.1 hsep
  obtain ⟨parts, hparts, hcuts, hnew⟩ :=
    splitAt_cuts (s := s.toList) [] #[] hchars fun n _ => Nat.zero_le n
  have hsplit : (split s sep).toList = parts.map String.ofList := by
    rw [split, if_neg hempty, hparts]
    rfl
  refine ⟨parts, hsplit, hcuts, fun new => ?_⟩
  have hsubstitute := hnew new ""
  rw [List.reverse_nil, String.ofList_nil, String.append_empty, String.empty_append] at hsubstitute
  rw [replace, if_neg hempty, hsubstitute, hsplit, join]

/-- An empty separator leaves nothing between the characters. -/
theorem intercalate_singletons (s : List Char) : [].intercalate (s.map fun c => [c]) = s := by
  induction s with
  | nil => rfl
  | cons c rest ih =>
    cases rest with
    | nil => rfl
    | cons d rest =>
      rw [List.map_cons, List.intercalate_cons_of_ne_nil (by simp), ih]
      rfl

/-- The parts of a text, joined by what divides them, are the text. -/
theorem join_split (s sep : String) : join (split s sep).toList sep = s := by
  rw [join, ← String.toList_inj, String.toList_intercalate]
  by_cases hsep : sep = ""
  · subst hsep
    have hsingle : String.toList ∘ String.singleton = fun c => [c] :=
      funext fun c => String.toList_singleton c
    rw [split, if_pos (by simp), characters_eq, List.map_map, hsingle]
    exact intercalate_singletons s.toList
  · obtain ⟨parts, hsplit, hcuts, -⟩ := split_cuts (s := s) hsep
    rw [hsplit, List.map_map]
    simpa using hcuts.intercalate

end Ember.Text
