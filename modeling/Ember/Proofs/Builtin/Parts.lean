import Ember.Builtin.Strings
import Ember.Proofs.Text.Search
import Ember.Proofs.Value.Lists

/-! The functions `split`, `join` and `replace` of the library `strings`. Joining the parts of a
text by what has divided them gives the text back, and joining them by another text is replacing. -/
namespace Ember
namespace StringsFunction
set_option autoImplicit false

theorem call_split (s sep : String) (h : Heap) :
    split.call #[.str s, .str sep] h =
      .ok (.list (h.newList ((Text.split s sep).map .str)).1)
        (h.newList ((Text.split s sep).map .str)).2 := rfl

theorem call_replace (s old new : String) (h : Heap) :
    replace.call #[.str s, .str old, .str new] h = .ok (.str (Text.replace s old new)) h := rfl

theorem mapM_strArgument (name : String) (texts : List String) :
    (texts.map Value.str).mapM (strArgument name) = .ok texts := by
  induction texts with
  | nil => rfl
  | cons s texts ih =>
    rw [List.map_cons, List.mapM_cons, ih]
    rfl

theorem call_join {h : Heap} {r : ListRef} {texts : List String}
    (hr : (h.list r).toList = texts.map .str) (sep : String) :
    join.call #[.list r, .str sep] h = .ok (.str (Text.join texts sep)) h := by
  have hask : join.call #[.list r, .str sep] = ask fun h =>
      (h.list r).toList.mapM (strArgument "join") >>= fun parts =>
        .ok (.str (Text.join parts sep)) := rfl
  rw [hask, ask, hr, mapM_strArgument]
  rfl

end StringsFunction

/-- Dividing and joining are inverse. The parts of a text, joined by what has divided it, are the
text; an empty separator divides the characters. Otherwise no part holds the separator, there is one
part more than there are places to which a search from the left comes, and joining the parts by
another text replaces the separator by it. -/
theorem split_then_join (s sep : String) (h : Heap) :
    ∃ (parts : List String) (r : ListRef) (h' : Heap),
      StringsFunction.split.call #[.str s, .str sep] h = .ok (.list r) h' ∧
      h'.list r = (parts.map Value.str).toArray ∧
      StringsFunction.join.call #[.list r, .str sep] h' = .ok (.str s) h' ∧
      (sep = "" → parts = s.toList.map String.singleton) ∧
      (sep ≠ "" →
        (∀ part ∈ parts, ¬ sep.toList <:+: part.toList) ∧
        (∃ places, Text.Leftmost sep.toList s.toList places ∧
          (∀ other, Text.Leftmost sep.toList s.toList other → other = places) ∧
          parts.length = places.length + 1) ∧
        ∀ t : String, ∃ text,
          StringsFunction.replace.call #[.str s, .str sep, .str t] h' = .ok (.str text) h' ∧
          StringsFunction.join.call #[.list r, .str t] h' = .ok (.str text) h') := by
  have hlist := h.list_newList ((Text.split s sep).map .str)
  have hitems : ((h.newList ((Text.split s sep).map .str)).2.list
      (h.newList ((Text.split s sep).map .str)).1).toList = (Text.split s sep).toList.map .str := by
    rw [hlist, Array.toList_map]
  refine ⟨(Text.split s sep).toList, _, _, StringsFunction.call_split s sep h, ?_, ?_, ?_, ?_⟩
  · rw [hlist, ← Array.toList_map, Array.toArray_toList]
  · rw [StringsFunction.call_join hitems, Text.join_split]
  · rintro rfl
    rw [Text.split, if_pos (by simp), Text.characters_eq]
  · intro hsep
    have hchars : sep.toList ≠ [] := mt String.toList_eq_nil_iff.1 hsep
    obtain ⟨parts, hparts, hcuts, hreplace⟩ := Text.split_cuts (s := s) hsep
    obtain ⟨places, hleft, hlength⟩ := hcuts.exists_leftmost hchars
    refine ⟨fun part hpart => ?_, ⟨places, hleft, fun other hother => ?_, ?_⟩, fun t => ?_⟩
    · rw [hparts] at hpart
      obtain ⟨chars, hmem, rfl⟩ := List.mem_map.1 hpart
      rw [String.toList_ofList]
      exact hcuts.not_infix hchars hmem
    · exact hleft.unique hother hchars
    · rw [hparts, List.length_map, hlength]
    · refine ⟨Text.replace s sep t, StringsFunction.call_replace s sep t _, ?_⟩
      rw [StringsFunction.call_join hitems, hreplace]

/-- A separator that overlaps itself: in "aaabaa" a search for "aa" comes to the places 0 and 4, not
to 1. -/
theorem split_then_join_overlapping :
    "aa" ≠ "" ∧ Text.Leftmost "aa".toList "aaabaa".toList [0, 4] ∧
      ∃ (parts : List String) (r : ListRef) (h' : Heap),
        StringsFunction.split.call #[.str "aaabaa", .str "aa"] .empty = .ok (.list r) h' ∧
        h'.list r = (parts.map Value.str).toArray ∧ parts.length = 3 ∧
        StringsFunction.join.call #[.list r, .str "aa"] h' = .ok (.str "aaabaa") h' ∧
        StringsFunction.join.call #[.list r, .str "-"] h' =
          StringsFunction.replace.call #[.str "aaabaa", .str "aa", .str "-"] h' := by
  have hsep : "aa" ≠ "" := by decide
  have hleft : Text.Leftmost "aa".toList "aaabaa".toList [0, 4] := by
    have hcovers : ∀ n < 5, Text.OccursAt "aa".toList "aaabaa".toList n →
        ∃ m ∈ [0, 4], m ≤ n ∧ n < m + "aa".toList.length := by
      unfold Text.OccursAt
      decide
    refine ⟨?_, by decide, fun n hn => hcovers n ?_ hn⟩
    · unfold Text.OccursAt
      decide
    · have hle := hn.add_le (by decide)
      have hlengths : "aaabaa".toList.length = 6 ∧ "aa".toList.length = 2 := by decide
      omega
  obtain ⟨parts, r, h', hsplit, hlist, hjoin, -, hparts⟩ := split_then_join "aaabaa" "aa" .empty
  obtain ⟨-, ⟨places, -, hunique, hlength⟩, hreplace⟩ := hparts hsep
  obtain ⟨text, hreplaced, hjoined⟩ := hreplace "-"
  rw [← hunique [0, 4] hleft] at hlength
  exact ⟨hsep, hleft, parts, r, h', hsplit, hlist, hlength, hjoin, by rw [hreplaced, hjoined]⟩

end Ember
