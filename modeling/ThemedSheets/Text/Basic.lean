/- Cutting, joining and replacing in texts. The functions work on `List Char`, the view in which
   texts are reasoned about; `split_ne_nil`, `join_split` and `join_cons` are the laws that the
   selector lists, the variable lists and the line view rest on. -/
namespace ThemedSheets.Text

/-- The pieces of a text between the occurrences of `sep`: one more than there are separators. -/
def split (sep : Char) : List Char → List (List Char)
  | [] => [[]]
  | c :: cs =>
    if c = sep then [] :: split sep cs
    else match split sep cs with
      | [] => [[c]]
      | p :: ps => (c :: p) :: ps

/-- The pieces one after another with `sep` between neighbours. -/
def join (sep : List Char) : List (List Char) → List Char
  | [] => []
  | [p] => p
  | p :: q :: ps => p ++ sep ++ join sep (q :: ps)

theorem split_ne_nil (sep : Char) (cs : List Char) : split sep cs ≠ [] := by
  cases cs with
  | nil => simp [split]
  | cons c cs =>
    by_cases h : c = sep
    · simp [split, h]
    · cases hs : split sep cs <;> simp [split, h, hs]

theorem join_cons (sep p : List Char) {ps : List (List Char)} (h : ps ≠ []) :
    join sep (p :: ps) = p ++ sep ++ join sep ps := by
  cases ps with
  | nil => exact absurd rfl h
  | cons q ps => rfl

theorem join_split (sep : Char) (cs : List Char) : join [sep] (split sep cs) = cs := by
  induction cs with
  | nil => rfl
  | cons c cs ih =>
    by_cases h : c = sep
    · rw [split, if_pos h, join_cons _ _ (split_ne_nil sep cs), ih, h]; rfl
    · rw [split, if_neg h]
      cases hs : split sep cs with
      | nil => exact absurd hs (split_ne_nil sep cs)
      | cons p ps =>
        rw [hs] at ih
        cases ps with
        | nil => simpa [join] using ih
        | cons q ps => simpa [join] using ih

/-- Replacement with `skip` characters of a replaced occurrence still to pass over. -/
def replaceFrom (old new : List Char) (skip : Nat) : List Char → List Char
  | [] => []
  | c :: cs =>
    match skip with
    | k + 1 => replaceFrom old new k cs
    | 0 =>
      if old.isPrefixOf (c :: cs) then new ++ replaceFrom old new (old.length - 1) cs
      else c :: replaceFrom old new 0 cs

/-- Every occurrence of the non-empty text `old`, taken from the left and without overlap, becomes
`new`; what results is not looked at again. -/
def replaceAll (old new : List Char) (cs : List Char) : List Char := replaceFrom old new 0 cs

/-- What follows the given start of a text, if the text has that start. -/
def afterStart? : List Char → List Char → Option (List Char)
  | [], cs => some cs
  | _ :: _, [] => none
  | p :: ps, c :: cs => if p = c then afterStart? ps cs else none

def occursIn (part : List Char) : List Char → Bool
  | [] => part.isEmpty
  | c :: cs => part.isPrefixOf (c :: cs) || occursIn part cs

/-- The text with its ASCII capitals made small; all else stays. -/
def lowerAscii (cs : List Char) : List Char := cs.map Char.toLower

/-- Whether a number lies in one of the closed ranges. -/
def inRanges (ranges : List (Nat × Nat)) (n : Nat) : Bool :=
  ranges.any fun r => r.1 ≤ n && n ≤ r.2

/-- The last member of a list kept to the members before it: all but the last, and the last. -/
def unsnoc? {α : Type} : List α → Option (List α × α)
  | [] => none
  | [a] => some ([], a)
  | a :: b :: rest => (unsnoc? (b :: rest)).map fun (front, last) => (a :: front, last)

/-- The list with each member once, where it first stands. -/
def distinct {α : Type} [DecidableEq α] : List α → List α
  | [] => []
  | a :: as => a :: (distinct as).filter (· ≠ a)

end ThemedSheets.Text
