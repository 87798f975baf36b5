import ThemedSheets.Proofs.Sheet.Scoped
/- What encloses a place of a stylesheet: the preludes of the blocks that are open there. A text
   whose braces are balanced leaves them as they are (`Balanced.preludes_readAll`); a rule, or the
   copy of a rule under a class with a balanced name, also leaves no prelude begun
   (`ClosesUp.readAll_eq`). So copies can take the place of a rule without a change to what encloses
   the rules behind it. -/
namespace ThemedSheets
open ThemedSheets.Text

/-- What stands open behind a part of a stylesheet: the preludes of its open blocks, the innermost
first, and, in reverse, the text since the last brace or semicolon. -/
structure Nesting where
  preludes : List (List Char) := []
  pending : List Char := []
  deriving DecidableEq, Repr

namespace Nesting
open Outline

/-- One more character. A closing brace without an open block closes nothing. -/
def read (n : Nesting) (c : Char) : Nesting :=
  if c = '{' then ⟨trim n.pending.reverse :: n.preludes, []⟩
  else if c = '}' then ⟨n.preludes.tail, []⟩
  else if c = ';' then ⟨n.preludes, []⟩
  else ⟨n.preludes, c :: n.pending⟩

def readAll (n : Nesting) (cs : List Char) : Nesting := cs.foldl read n

/-- The preludes that enclose the place behind a text. -/
def preludesAfter (cs : List Char) : List (List Char) := (readAll {} cs).preludes

theorem readAll_append (n : Nesting) (xs ys : List Char) :
    readAll n (xs ++ ys) = readAll (readAll n xs) ys := List.foldl_append

/-! ## Balanced texts -/

/-- How many blocks are open behind a text if `n` were open before it; none if it closes more. -/
def openAfter : Nat → List Char → Option Nat
  | n, [] => some n
  | n, c :: cs =>
    if c = '{' then openAfter (n + 1) cs
    else if c = '}' then (if n = 0 then none else openAfter (n - 1) cs)
    else openAfter n cs

/-- The text closes the blocks that it opens, and only those. -/
def Balanced (cs : List Char) : Prop := openAfter 0 cs = some 0

instance (cs : List Char) : Decidable (Balanced cs) :=
  inferInstanceAs (Decidable (openAfter 0 cs = some 0))

theorem openAfter_append (n : Nat) (xs ys : List Char) :
    openAfter n (xs ++ ys) = (openAfter n xs).bind fun m => openAfter m ys := by
  induction xs generalizing n with
  | nil => rfl
  | cons c xs ih =>
    by_cases h1 : c = '{'
    · simp [openAfter, h1, ih]
    · by_cases h2 : c = '}'
      · cases n with
        | zero => simp [openAfter, h2]
        | succ n => simp [openAfter, h2, ih]
      · simp [openAfter, h1, h2, ih]

theorem Balanced.append {xs ys : List Char} (hx : Balanced xs) (hy : Balanced ys) :
    Balanced (xs ++ ys) := by
  rw [Balanced, openAfter_append, hx]
  exact hy

theorem openAfter_of_noBrace {cs : List Char} (h : NoBrace cs) (n : Nat) :
    openAfter n cs = some n := by
  induction cs with
  | nil => rfl
  | cons c cs ih =>
    have hc := h c List.mem_cons_self
    rw [openAfter, if_neg hc.1, if_neg hc.2]
    exact ih fun d hd => h d (List.mem_cons_of_mem c hd)

theorem balanced_of_noBrace {cs : List Char} (h : NoBrace cs) : Balanced cs :=
  openAfter_of_noBrace h 0

theorem balanced_block {body : List Char} (h : NoBrace body) :
    Balanced ('{' :: (body ++ ['}'])) := by
  rw [Balanced, openAfter, if_pos rfl, openAfter_append, openAfter_of_noBrace h]
  rfl

theorem balanced_lines {cs : List (List Char)} (h : ∀ c ∈ cs, Balanced c) :
    Balanced (cs.flatMap (· ++ ['\n'])) := by
  induction cs with
  | nil => rfl
  | cons c cs ih =>
    rw [List.forall_mem_cons] at h
    have hline : Balanced (c ++ ['\n']) := h.1.append (by decide)
    exact hline.append (ih h.2)

/-- A text that closes no more than `n` blocks works on the `n` innermost ones only. -/
theorem exists_preludes_readAll {n m : Nat} {cs : List Char} (h : openAfter n cs = some m)
    (inner outer : List (List Char)) (pending : List Char) (hlen : inner.length = n) :
    ∃ inner', inner'.length = m ∧
      (readAll ⟨inner ++ outer, pending⟩ cs).preludes = inner' ++ outer := by
  -- `inner` holds the blocks that the text may close; it never runs out, so `outer` stays
  induction cs generalizing n inner pending with
  | nil =>
    obtain rfl : n = m := by simpa [openAfter] using h
    exact ⟨inner, hlen, rfl⟩
  | cons c cs ih =>
    by_cases h1 : c = '{'
    · rw [openAfter, if_pos h1] at h
      have hread : read ⟨inner ++ outer, pending⟩ c
          = ⟨(trim pending.reverse :: inner) ++ outer, []⟩ := by simp [read, h1]
      rw [readAll, List.foldl_cons, hread]
      exact ih h _ [] (by simp [hlen])
    · by_cases h2 : c = '}'
      · rw [openAfter, if_neg h1, if_pos h2] at h
        cases inner with
        | nil => simp [← hlen] at h
        | cons p inner =>
          rw [← hlen, if_neg (by simp)] at h
          have hread : read ⟨(p :: inner) ++ outer, pending⟩ c = ⟨inner ++ outer, []⟩ := by
            simp [read, h2]
          rw [readAll, List.foldl_cons, hread]
          exact ih h inner [] (by simp)
      · rw [openAfter, if_neg h1, if_neg h2] at h
        have hread : ∃ pending', read ⟨inner ++ outer, pending⟩ c = ⟨inner ++ outer, pending'⟩ := by
          by_cases h3 : c = ';'
          · exact ⟨[], by simp [read, h3]⟩
          · exact ⟨c :: pending, by simp [read, h1, h2, h3]⟩
        obtain ⟨pending', hread⟩ := hread
        rw [readAll, List.foldl_cons, hread]
        exact ih h inner pending' hlen

theorem Balanced.preludes_readAll {cs : List Char} (h : Balanced cs) (n : Nesting) :
    (readAll n cs).preludes = n.preludes := by
  obtain ⟨inner, hlen, hpre⟩ := exists_preludes_readAll h [] n.preludes n.pending rfl
  obtain rfl := List.eq_nil_of_length_eq_zero hlen
  exact hpre

/-! ## Texts that close up -/

/-- The text is balanced and ends with a closing brace. -/
structure ClosesUp (cs : List Char) : Prop where
  balanced : Balanced cs
  last : cs.getLast? = some '}'

theorem ClosesUp.readAll_eq {cs : List Char} (h : ClosesUp cs) (n : Nesting) :
    readAll n cs = ⟨n.preludes, []⟩ := by
  have hpre := h.balanced.preludes_readAll n
  obtain ⟨front, rfl⟩ := List.getLast?_eq_some_iff.1 h.last
  -- whatever was pending, the brace at the end drops it
  have hpending : (readAll n (front ++ ['}'])).pending = [] := by
    rw [readAll_append]
    simp [readAll, read]
  calc readAll n (front ++ ['}'])
      = ⟨(readAll n (front ++ ['}'])).preludes, (readAll n (front ++ ['}'])).pending⟩ := rfl
    _ = ⟨n.preludes, []⟩ := by rw [hpre, hpending]

theorem closesUp_append_block {list body : List Char} (hlist : Balanced list)
    (hbody : NoBrace body) : ClosesUp (list ++ '{' :: (body ++ ['}'])) := by
  refine ⟨hlist.append (balanced_block hbody), ?_⟩
  rw [← List.cons_append, ← List.append_assoc, List.getLast?_concat]

theorem closesUp_of_isRule {rule : List Char} (h : IsRule rule) : ClosesUp rule := by
  obtain ⟨run, body, _, hrun, hbody, rfl⟩ := h
  exact closesUp_append_block (balanced_of_noBrace hrun.noBrace) hbody

/-- The copy of a rule under a class with a balanced name closes up. -/
theorem closesUp_scopeRule {name : List Char} (hname : Balanced name)
    (exemptions : List Exemption) {rule : List Char} (h : IsRule rule) :
    ClosesUp (Selector.scopeRule exemptions name rule) := by
  by_cases hnil : name = []
  · rw [Selector.scopeRule, if_pos hnil]
    exact closesUp_of_isRule h
  · obtain ⟨run, body, _, hrun, hbody, rfl⟩ := h
    rw [Selector.scopeRule_eq hrun exemptions hnil]
    refine closesUp_append_block ?_ hbody
    exact Selector.scopeList_closed (fun _ _ => Balanced.append)
      (fun _ hcs => balanced_of_noBrace hcs.noBrace) hname exemptions hrun

theorem closesUp_join {cs : List (List Char)} (hne : cs ≠ []) (h : ∀ c ∈ cs, ClosesUp c) :
    ClosesUp (join ['\n'] cs) := by
  induction cs with
  | nil => exact absurd rfl hne
  | cons c cs ih =>
    rw [List.forall_mem_cons] at h
    cases cs with
    | nil => exact h.1
    | cons d cs =>
      have ih := ih (by simp) h.2
      have hnewline : Balanced ['\n'] := by decide
      refine ⟨(h.1.balanced.append hnewline).append ih.balanced, ?_⟩
      rw [join, List.getLast?_append, ih.last]
      rfl

end Nesting

end ThemedSheets
