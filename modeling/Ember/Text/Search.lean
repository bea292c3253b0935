/-! Finding a text in another one: occurrences are taken from the left and do not overlap. -/
namespace Ember.Text
set_option autoImplicit false

/-- Cuts characters at each occurrence of `sep`, which is not empty; `current` is what has been read
since the last cut, in reverse. -/
def splitAt (sep : List Char) (s current : List Char) (found : Array String) : Array String :=
  match s with
  | [] => found.push (String.ofList current.reverse)
  | c :: rest =>
    if sep.isPrefixOf (c :: rest) then
      splitAt sep ((c :: rest).drop (max sep.length 1)) []
        (found.push (String.ofList current.reverse))
    else splitAt sep rest (c :: current) found
termination_by s.length
decreasing_by all_goals simp only [List.length_drop, List.length_cons]; omega

/-- The characters of a text, each as a text. -/
def characters (s : String) : Array String :=
  s.foldl (fun out c => out.push (String.singleton c)) #[]

/-- The parts between occurrences of `sep`; an empty `sep` divides the characters. -/
def split (s sep : String) : Array String :=
  if sep.isEmpty then characters s else splitAt sep.toList s.toList [] #[]

def join (parts : List String) (sep : String) : String := String.intercalate sep parts

/-- Writes characters after `out`, with `new` in the place of each occurrence of `old`, which is not
empty. -/
def substitute (old : List Char) (new : String) (s : List Char) (out : String) : String :=
  match s with
  | [] => out
  | c :: rest =>
    if old.isPrefixOf (c :: rest) then
      substitute old new ((c :: rest).drop (max old.length 1)) (out ++ new)
    else substitute old new rest (out.push c)
termination_by s.length
decreasing_by all_goals simp only [List.length_drop, List.length_cons]; omega

/-- Puts `new` in the place of each occurrence of `old`; an empty `old` occurs before each character
and at the end. -/
def replace (s old new : String) : String :=
  if old.isEmpty then s.foldl (fun out c => out.push c ++ new) new
  else substitute old.toList new s.toList ""

/-- Whether the characters of `part` stand one after the other in a text. -/
def occursIn (part : List Char) : List Char → Bool
  | [] => part.isEmpty
  | c :: rest => part.isPrefixOf (c :: rest) || occursIn part rest

def contains (s part : String) : Bool := occursIn part.toList s.toList

def hasPrefix (s start : String) : Bool := start.toList.isPrefixOf s.toList

def hasSuffix (s ending : String) : Bool := ending.toList.isSuffixOf s.toList

end Ember.Text
