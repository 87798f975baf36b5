import ThemedSheets.Path.Basic
import ThemedSheets.Proofs.Text.Split
/- Normal forms of paths. While a path is normalised its components are kept on a stack, on which a
   dot or an empty component never stands and `..` stands only where nothing can be cancelled by it
   (`Settled`). A settled stack is read off a path and pushed again without a change, so normalising
   twice is normalising once (`normalize_normalize`). Taking a path from an absolute directory, the
   directory of an absolute path and the normal form of one are all absolute. What a component is
   taken from a directory as is its name there (`name_joined`). -/
namespace ThemedSheets.Path
open ThemedSheets.Text

/-! ## The stack of components -/

/-- A component that stands for itself: no empty one, no dot, and no slash in it. -/
def IsComponent (comp : List Char) : Prop := comp ≠ [] ∧ comp ≠ ['.'] ∧ '/' ∉ comp

/-- A stack on which nothing is left to do: every component stands for itself, and `..` only lies on
another `..` or at the bottom of a path without a root. -/
def Settled (rooted : Bool) : List (List Char) → Prop
  | [] => True
  | comp :: done =>
    IsComponent comp ∧
      (comp = ['.', '.'] → (rooted = false ∧ done = []) ∨ done.head? = some ['.', '.']) ∧
      Settled rooted done

theorem Settled.isComponent {rooted : Bool} {done : List (List Char)} (h : Settled rooted done) :
    ∀ comp ∈ done, IsComponent comp := by
  induction done with
  | nil => simp
  | cons comp done ih => exact List.forall_mem_cons.2 ⟨h.1, ih h.2.2⟩

theorem pushComponent_nil (rooted : Bool) (done : List (List Char)) :
    pushComponent rooted done [] = done := by
  simp [pushComponent]

/-- A component is pushed as it is exactly where that leaves the stack settled. -/
theorem pushComponent_of_settled {rooted : Bool} {comp : List Char} {done : List (List Char)}
    (h : Settled rooted (comp :: done)) : pushComponent rooted done comp = comp :: done := by
  obtain ⟨⟨hne, hdot, -⟩, hup, -⟩ := h
  unfold pushComponent
  rw [if_neg (not_or.2 ⟨hne, hdot⟩)]
  by_cases hcomp : comp = ['.', '.']
  · rw [if_neg fun hname => hname hcomp, if_pos]
    simpa using hup hcomp
  · rw [if_pos hcomp]

theorem settled_pushComponent {rooted : Bool} {comp : List Char} {done : List (List Char)}
    (h : Settled rooted done) (hslash : '/' ∉ comp) :
    Settled rooted (pushComponent rooted done comp) := by
  unfold pushComponent
  split
  · exact h
  · next hnone =>
    have hcomp : IsComponent comp := ⟨fun e => hnone (Or.inl e), fun e => hnone (Or.inr e), hslash⟩
    split
    · next hname => exact ⟨hcomp, fun e => absurd e hname, h⟩
    · split
      · next hkeep => exact ⟨hcomp, fun _ => by simpa using hkeep, h⟩
      · cases done with
        | nil => exact h
        | cons _ done => exact h.2.2

theorem settled_foldl {rooted : Bool} {comps done : List (List Char)} (h : Settled rooted done)
    (hslash : ∀ comp ∈ comps, '/' ∉ comp) :
    Settled rooted (comps.foldl (pushComponent rooted) done) := by
  induction comps generalizing done with
  | nil => exact h
  | cons comp comps ih =>
    rw [List.forall_mem_cons] at hslash
    exact ih (settled_pushComponent h hslash.1) hslash.2

theorem foldl_reverse_of_settled {rooted : Bool} {done : List (List Char)}
    (h : Settled rooted done) : done.reverse.foldl (pushComponent rooted) [] = done := by
  induction done with
  | nil => rfl
  | cons comp done ih =>
    rw [List.reverse_cons, List.foldl_append, ih h.2.2]
    exact pushComponent_of_settled h

theorem foldl_pushComponent_replicate_nil (rooted : Bool) (n : Nat) (done : List (List Char)) :
    (List.replicate n []).foldl (pushComponent rooted) done = done := by
  induction n with
  | zero => rfl
  | succ n ih => rw [List.replicate_succ, List.foldl_cons, pushComponent_nil, ih]

/-- The components of a normal form make a settled stack. -/
theorem settled_normalComponents (cs : List Char) :
    Settled (rootSlashes cs != 0) (normalComponents cs).reverse := by
  rw [normalComponents, List.reverse_reverse]
  exact settled_foldl trivial fun _ h => not_mem_of_mem_split h

/-! ## The text of a normal form -/

theorem rootSlashes_le (cs : List Char) : rootSlashes cs ≤ 2 := by
  unfold rootSlashes
  split <;> decide

theorem rootSlashes_pos_iff {cs : List Char} : rootSlashes cs ≠ 0 ↔ isAbsoluteText cs = true := by
  unfold rootSlashes isAbsoluteText
  split
  · simp
  · simp
  · simp
  · next hfirst =>
    cases cs with
    | nil => simp
    | cons c cs =>
      have hc : c ≠ '/' := fun e => hfirst cs (e ▸ rfl)
      simp [hc]

theorem rootSlashes_replicate {n : Nat} (hn : n ≤ 2) {cs : List Char} (h : cs.head? ≠ some '/') :
    rootSlashes (List.replicate n '/' ++ cs) = n := by
  have hcs : ∀ rest, cs ≠ '/' :: rest := by
    rintro rest rfl
    exact h rfl
  match n, hn with
  | 0, _ => cases cs <;> simp_all [rootSlashes]
  | 1, _ => cases cs <;> simp_all [rootSlashes]
  | 2, _ => cases cs <;> simp_all [rootSlashes]

section
variable {comps : List (List Char)} (h : ∀ comp ∈ comps, IsComponent comp)
include h

theorem head?_join_ne_slash : (join ['/'] comps).head? ≠ some '/' := by
  cases comps with
  | nil => simp [join]
  | cons comp comps =>
    obtain ⟨hne, -, hslash⟩ := (List.forall_mem_cons.1 h).1
    obtain ⟨c, cs, rfl⟩ := List.exists_cons_of_ne_nil hne
    rw [List.mem_cons, not_or] at hslash
    cases comps <;> simpa [join] using Ne.symm hslash.1

theorem assemble_of_components {n : Nat} (hne : n ≠ 0 ∨ comps ≠ []) :
    assemble n comps = List.replicate n '/' ++ join ['/'] comps := by
  unfold assemble
  split
  · next hnil =>
    obtain ⟨hslashes, hjoin⟩ := List.append_eq_nil_iff.1 hnil
    obtain rfl : n = 0 := by simpa using hslashes
    cases comps with
    | nil => simp at hne
    | cons comp comps =>
      obtain ⟨hcomp, -, -⟩ := (List.forall_mem_cons.1 h).1
      cases comps <;> simp [join, hcomp] at hjoin
  · rfl

theorem split_replicate_join {n : Nat} (hne : comps ≠ []) :
    split '/' (List.replicate n '/' ++ join ['/'] comps) = List.replicate n [] ++ comps := by
  induction n with
  | zero => exact split_join hne fun comp hcomp => (h comp hcomp).2.2
  | succ n ih =>
    rw [List.replicate_succ, List.replicate_succ, List.cons_append, List.cons_append, ← ih]
    exact split_append '/' [] _

end

theorem split_replicate (n : Nat) :
    split '/' (List.replicate n '/') = List.replicate n [] ++ [[]] := by
  induction n with
  | zero => rfl
  | succ n ih =>
    rw [List.replicate_succ, List.replicate_succ, List.cons_append, ← ih]
    exact split_append '/' [] _

section
variable {n : Nat} {comps : List (List Char)} (hn : n ≤ 2) (h : Settled (n != 0) comps.reverse)
include hn h

theorem rootSlashes_assemble : rootSlashes (assemble n comps) = n := by
  have hcomps : ∀ comp ∈ comps, IsComponent comp := fun comp hcomp =>
    h.isComponent comp (List.mem_reverse.2 hcomp)
  by_cases hne : n ≠ 0 ∨ comps ≠ []
  · rw [assemble_of_components hcomps hne]
    exact rootSlashes_replicate hn (head?_join_ne_slash hcomps)
  · obtain ⟨rfl, rfl⟩ : n = 0 ∧ comps = [] := by simpa using hne
    rfl

theorem normalComponents_assemble : normalComponents (assemble n comps) = comps := by
  have hcomps : ∀ comp ∈ comps, IsComponent comp := fun comp hcomp =>
    h.isComponent comp (List.mem_reverse.2 hcomp)
  have hpushed : comps.foldl (pushComponent (n != 0)) [] = comps.reverse := by
    simpa using foldl_reverse_of_settled h
  rw [normalComponents, rootSlashes_assemble hn h]
  by_cases hnil : comps = []
  · subst hnil
    by_cases hzero : n = 0
    · subst hzero
      rfl
    · rw [assemble_of_components hcomps (Or.inl hzero), join, List.append_nil, split_replicate,
        List.foldl_append, foldl_pushComponent_replicate_nil]
      rfl
  · rw [assemble_of_components hcomps (Or.inr hnil), split_replicate_join hcomps hnil,
      List.foldl_append, foldl_pushComponent_replicate_nil, hpushed, List.reverse_reverse]

end

theorem normalizeText_normalizeText (cs : List Char) :
    normalizeText (normalizeText cs) = normalizeText cs := by
  have hsettled := settled_normalComponents cs
  have hslashes := rootSlashes_assemble (rootSlashes_le cs) hsettled
  have hcomps := normalComponents_assemble (rootSlashes_le cs) hsettled
  rw [normalizeText, normalizeText, hslashes, hcomps]

/-- A normal form is its own normal form. -/
theorem normalize_normalize (path : String) : normalize (normalize path) = normalize path := by
  simp only [normalize, String.toList_ofList, normalizeText_normalizeText]

/-! ## Absolute paths -/

theorem isAbsoluteText_normalizeText (cs : List Char) :
    isAbsoluteText (normalizeText cs) = isAbsoluteText cs := by
  have hslashes := rootSlashes_assemble (rootSlashes_le cs) (settled_normalComponents cs)
  rw [Bool.eq_iff_iff, ← rootSlashes_pos_iff, ← rootSlashes_pos_iff, normalizeText, hslashes]

theorem isAbsolute_normalize (path : String) : isAbsolute (normalize path) = isAbsolute path := by
  simp only [isAbsolute, normalize, String.toList_ofList, isAbsoluteText_normalizeText]

theorem isAbsoluteText_append {cs : List Char} (h : isAbsoluteText cs = true) (more : List Char) :
    isAbsoluteText (cs ++ more) = true := by
  cases cs with
  | nil => simp [isAbsoluteText] at h
  | cons c cs => exact h

theorem isAbsolute_joined {dir : String} (h : isAbsolute dir = true) (path : String) :
    isAbsolute (joined dir path) = true := by
  rw [isAbsolute, joined, String.toList_ofList, joinText]
  split
  · assumption
  · split <;> exact isAbsoluteText_append h _

theorem isAbsolute_absolute {directory : String} (h : isAbsolute directory = true) (path : String) :
    isAbsolute (absolute directory path) = true := by
  rw [absolute, isAbsolute_normalize]
  split
  · assumption
  · exact isAbsolute_joined h path

theorem isAbsoluteText_prefix {cs ds : List Char} (h : isAbsoluteText cs = true) (hne : ds ≠ [])
    (hstart : ds <+: cs) : isAbsoluteText ds = true := by
  obtain ⟨more, rfl⟩ := hstart
  cases ds with
  | nil => exact absurd rfl hne
  | cons d ds => exact h

theorem length_cutLast_lt {cs : List Char} (h : '/' ∈ cs) : (cutLast cs).2.length < cs.length := by
  have hstart := List.takeWhile_prefix (l := cs.reverse) (· != '/')
  have hlength := hstart.length_le
  rw [List.length_reverse] at hlength
  rw [cutLast, List.length_reverse]
  refine Nat.lt_of_le_of_ne hlength fun heq => ?_
  -- else no character of the path is a slash
  have hall := hstart.eq_of_length (by rw [heq, List.length_reverse])
  have hnone := List.all_takeWhile (p := (· != '/')) (l := cs.reverse)
  rw [hall, List.all_eq_true] at hnone
  simpa using hnone '/' (List.mem_reverse.2 h)

theorem isAbsoluteText_dirNameText {cs : List Char} (h : isAbsoluteText cs = true) :
    isAbsoluteText (dirNameText cs) = true := by
  have hslash : '/' ∈ cs := by
    cases cs with
    | nil => simp [isAbsoluteText] at h
    | cons c cs => simp_all [isAbsoluteText]
  have hhead : isAbsoluteText (cutLast cs).1 = true := by
    have hlength := length_cutLast_lt hslash
    refine isAbsoluteText_prefix h (fun hnil => ?_) (List.take_prefix _ _)
    have := congrArg List.length hnil
    simp only [cutLast, List.length_take, List.length_nil] at this hlength
    omega
  have hkept : ((cutLast cs).1.reverse.dropWhile (· == '/')).reverse <+: (cutLast cs).1 := by
    have := List.reverse_prefix.2 (List.dropWhile_suffix (l := (cutLast cs).1.reverse) (· == '/'))
    rwa [List.reverse_reverse] at this
  rw [dirNameText]
  split
  · exact hhead
  · next hne => exact isAbsoluteText_prefix hhead hne hkept

theorem isAbsolute_dirName {path : String} (h : isAbsolute path = true) :
    isAbsolute (dirName path) = true := by
  rw [isAbsolute, dirName, String.toList_ofList]
  exact isAbsoluteText_dirNameText h

/-! ## The name of a file in a directory -/

theorem joinText_component {comp : List Char} (h : IsComponent comp) (dir : List Char) :
    joinText dir comp = comp ∨ ∃ before, joinText dir comp = before ++ '/' :: comp := by
  obtain ⟨hne, -, hslash⟩ := h
  have hrelative : isAbsoluteText comp = false := by
    obtain ⟨c, cs, rfl⟩ := List.exists_cons_of_ne_nil hne
    rw [List.mem_cons, not_or] at hslash
    simpa [isAbsoluteText] using Ne.symm hslash.1
  rw [joinText, hrelative, if_neg Bool.false_ne_true]
  split
  · next hend =>
    rcases hend with rfl | hlast
    · exact Or.inl rfl
    · obtain ⟨before, rfl⟩ := List.getLast?_eq_some_iff.1 hlast
      exact Or.inr ⟨before, by rw [List.append_assoc, List.singleton_append]⟩
  · exact Or.inr ⟨dir, rfl⟩

theorem mem_joinText {c : Char} {dir path : List Char} (h : c ∈ joinText dir path) :
    c ∈ dir ∨ c = '/' ∨ c ∈ path := by
  unfold joinText at h
  split at h
  · exact Or.inr (Or.inr h)
  · split at h
    · exact (List.mem_append.1 h).imp_right Or.inr
    · simpa using h

theorem name_joined {file : String} (h : IsComponent file.toList) (dir : String) :
    (ofString (joined dir file)).name = file := by
  have hsplit : split '/' file.toList = [file.toList] := split_of_not_mem h.2.2
  have hkept : [file.toList].filter (fun p => p ≠ [] && p ≠ ['.']) = [file.toList] :=
    List.filter_cons_of_pos (by simp [h.1, h.2.1])
  have hpieces : ∃ before, split '/' (joined dir file).toList = before ++ [file.toList] := by
    rw [joined, String.toList_ofList]
    rcases joinText_component h dir.toList with hjoin | ⟨before, hjoin⟩
    · exact ⟨[], by rw [hjoin, hsplit, List.nil_append]⟩
    · exact ⟨split '/' before, by rw [hjoin, split_append, hsplit]⟩
  obtain ⟨before, hpieces⟩ := hpieces
  rw [name, ofString, hpieces]
  simp only [List.filter_append, hkept, List.map_append, List.map_cons, List.map_nil,
    List.getLast?_concat, Option.getD_some, String.ofList_toList]

end ThemedSheets.Path
