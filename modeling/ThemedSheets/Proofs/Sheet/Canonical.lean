import ThemedSheets.Sheet.Fragment
/- Which outlines come out of cutting a text. An outline is canonical when its rules have the form
   of rules, when every gap before a rule ends where a run may begin, and when no rule begins
   inside a gap or inside the tail.

   What is proved:
     1. `canonical_ofText`: cutting a text gives a canonical outline.
     2. `ofText_flatten`: a canonical outline is the one that cutting its own text gives.
   So the outline of a text is known as soon as the text is written as a canonical outline. That
   is how the rules of a composed text are found, however malformed the gaps are: a gap may hold
   braces, half rules and at-rules, and only a rule of its own is shut out. -/
namespace ThemedSheets
namespace Outline

/-! ## Blocks -/

def NoBreak (cs : List Char) : Prop := ∀ c ∈ cs, isBreak c = false

-- named, since the characters also have an instance that goes through all of them
instance (cs : List Char) : Decidable (NoBreak cs) := List.decidableBAll _ cs

theorem noBreak_nil : NoBreak [] := by simp [NoBreak]

def NoBrace (cs : List Char) : Prop := ∀ c ∈ cs, c ≠ '{' ∧ c ≠ '}'

instance (cs : List Char) : Decidable (NoBrace cs) := List.decidableBAll _ cs

theorem isBreak_open : isBreak '{' = true := by decide

theorem ne_brace_of_isBreak_eq_false {c : Char} (h : isBreak c = false) : c ≠ '{' ∧ c ≠ '}' := by
  constructor
  · rintro rfl; exact absurd h (by decide)
  · rintro rfl; exact absurd h (by decide)

theorem NoBreak.noBrace {cs : List Char} (h : NoBreak cs) : NoBrace cs :=
  fun c hc => ne_brace_of_isBreak_eq_false (h c hc)

theorem NoBreak.cons {c : Char} {cs : List Char} (hc : isBreak c = false) (h : NoBreak cs) :
    NoBreak (c :: cs) := List.forall_mem_cons.2 ⟨hc, h⟩

theorem block?_body {body : List Char} (h : NoBrace body) (rest : List Char) :
    block? (body ++ '}' :: rest) = some (body ++ ['}'], rest) := by
  induction body with
  | nil => simp [block?]
  | cons c body ih =>
    have hc := h c List.mem_cons_self
    have ih := ih fun x hx => h x (List.mem_cons_of_mem c hx)
    simp [block?, hc.1, hc.2, ih]

theorem exists_body_of_block? {cs b rest : List Char} (h : block? cs = some (b, rest)) :
    ∃ body, NoBrace body ∧ b = body ++ ['}'] := by
  induction cs generalizing b with
  | nil => simp [block?] at h
  | cons c cs ih =>
    by_cases h1 : c = '}'
    · rw [block?, if_pos h1] at h
      simp only [Option.some.injEq, Prod.mk.injEq] at h
      exact ⟨[], by simp [NoBrace], by rw [← h.1, h1]; rfl⟩
    · by_cases h2 : c = '{'
      · simp [block?, h2] at h
      · rw [block?, if_neg h1, if_neg h2] at h
        obtain ⟨⟨b', rest'⟩, hb, he⟩ := Option.map_eq_some_iff.1 h
        simp only [Prod.mk.injEq] at he
        obtain ⟨body, hbody, hb'⟩ := ih (he.2 ▸ hb)
        refine ⟨c :: body, ?_, ?_⟩
        · intro x hx
          rcases List.mem_cons.1 hx with rfl | hx
          · exact ⟨h2, h1⟩
          · exact hbody x hx
        · rw [← he.1, hb', List.cons_append]

/-- What follows a block does not change it. -/
theorem block?_append {cs b rest : List Char} (h : block? cs = some (b, rest)) (more : List Char) :
    block? (cs ++ more) = some (b, rest ++ more) := by
  obtain ⟨body, hbody, rfl⟩ := exists_body_of_block? h
  rw [eq_append_of_block? h, List.append_assoc, List.append_assoc, List.singleton_append,
    block?_body hbody]

theorem block?_eq_none_of_append {cs more : List Char} (h : block? (cs ++ more) = none) :
    block? cs = none := by
  cases hb : block? cs with
  | none => rfl
  | some p => rw [block?_append hb] at h; simp at h

theorem block?_append_open {cs : List Char} (h : block? cs = none) {run : List Char}
    (hrun : NoBrace run) (rest : List Char) : block? (cs ++ (run ++ '{' :: rest)) = none := by
  induction cs with
  | nil =>
    rw [List.nil_append]
    induction run with
    | nil => simp [block?]
    | cons c run ih =>
      have hc := hrun c List.mem_cons_self
      have ih := ih fun x hx => hrun x (List.mem_cons_of_mem c hx)
      simp [block?, hc.1, hc.2, ih]
  | cons c cs ih =>
    by_cases h1 : c = '}'
    · simp [block?, h1] at h
    · by_cases h2 : c = '{'
      · simp [block?, h2]
      · rw [block?, if_neg h1, if_neg h2, Option.map_eq_none_iff] at h
        rw [List.cons_append, block?, if_neg h1, if_neg h2, ih h]
        rfl

/-! ## Canonical outlines -/

/-- The form of a rule: a run, and a block without braces of its own. -/
def IsRule (rule : List Char) : Prop :=
  ∃ run body, run ≠ [] ∧ NoBreak run ∧ NoBrace body ∧ rule = run ++ '{' :: (body ++ ['}'])

/-- No rule begins in the text when it is followed by `rest`: where a brace opens after a
character of a run, no block follows. -/
def BareBefore (rest text : List Char) : Prop :=
  ∀ pre c post, text = pre ++ c :: '{' :: post → isBreak c = false → block? (post ++ rest) = none

/-- No rule begins in the text. -/
abbrev Bare (text : List Char) : Prop := BareBefore [] text

/-- A run may begin after the text: it is empty, or its last character ends runs. -/
def EndsRun (text : List Char) : Prop := ∀ c ∈ text.getLast?, isBreak c = true

/-- The outlines that are the outlines of their texts. -/
structure Canonical (o : Outline) : Prop where
  isRule : ∀ p ∈ o.rules, IsRule p.2
  gapEndsRun : ∀ p ∈ o.rules, EndsRun p.1
  gapBare : ∀ p ∈ o.rules, Bare p.1
  tailBare : Bare o.tail

theorem Canonical.cons {o : Outline} (h : o.Canonical) {gap rule : List Char} (hr : IsRule rule)
    (he : EndsRun gap) (hb : Bare gap) : (o.cons gap rule).Canonical := by
  refine ⟨?_, ?_, ?_, h.tailBare⟩
  · simpa [Outline.cons] using ⟨hr, fun a b hp => h.isRule (a, b) hp⟩
  · simpa [Outline.cons] using ⟨he, fun a b hp => h.gapEndsRun (a, b) hp⟩
  · simpa [Outline.cons] using ⟨hb, fun a b hp => h.gapBare (a, b) hp⟩

theorem Canonical.of_cons {p : List Char × List Char} {rules : List (List Char × List Char)}
    {tail : List Char} (h : Canonical ⟨p :: rules, tail⟩) : Canonical ⟨rules, tail⟩ :=
  ⟨fun q hq => h.isRule q (List.mem_cons_of_mem p hq),
    fun q hq => h.gapEndsRun q (List.mem_cons_of_mem p hq),
    fun q hq => h.gapBare q (List.mem_cons_of_mem p hq), h.tailBare⟩

theorem bareBefore_nil (rest : List Char) : BareBefore rest [] := by
  intro pre c post h
  simp at h

theorem endsRun_nil : EndsRun [] := by simp [EndsRun]

theorem BareBefore.of_append {rest xs ys : List Char} (h : BareBefore rest (xs ++ ys)) :
    BareBefore rest ys := by
  rintro pre c post rfl hc
  exact h (xs ++ pre) c post (by simp) hc

theorem BareBefore.bare_left {rest xs ys : List Char} (h : BareBefore rest (xs ++ ys)) :
    Bare xs := by
  rintro pre c post rfl hc
  have := h pre c (post ++ ys) (by simp) hc
  rw [List.append_assoc] at this
  rw [List.append_nil]
  exact block?_eq_none_of_append this

theorem Bare.before {text : List Char} (h : Bare text) {run : List Char} (hrun : NoBreak run)
    (rest : List Char) : BareBefore (run ++ '{' :: rest) text := by
  intro pre c post ht hc
  have := h pre c post ht hc
  rw [List.append_nil] at this
  exact block?_append_open this hrun.noBrace rest

/-! ## Cutting gives canonical outlines -/

/-- Reading one more character keeps a text bare, unless a brace opens a block behind a run. -/
theorem BareBefore.snoc {x : Char} {rest text : List Char} (h : BareBefore (x :: rest) text)
    (hx : x = '{' → ∀ c ∈ text.getLast?, isBreak c = false → block? rest = none) :
    BareBefore rest (text ++ [x]) := by
  intro pre c post ht hc
  rcases List.eq_nil_or_concat post with rfl | ⟨post', y, rfl⟩
  · have hsplit : text ++ [x] = (pre ++ [c]) ++ ['{'] := by rw [ht]; simp
    obtain ⟨rfl, hxe⟩ := List.append_inj' hsplit rfl
    exact hx (by simpa using hxe) c (by simp) hc
  · have hsplit : text ++ [x] = (pre ++ c :: '{' :: post') ++ [y] := by rw [ht]; simp
    obtain ⟨rfl, hxe⟩ := List.append_inj' hsplit rfl
    have hxy : x = y := by simpa using hxe
    have := h pre c post' rfl hc
    simpa [hxy] using this

/-- The outline of what is still to be read is canonical if no rule began in what was read. -/
theorem canonical_scan (gap run cs : List Char) (hgap : ∀ c ∈ gap.head?, isBreak c = true)
    (hrun : NoBreak run) (hbare : BareBefore cs (run ++ gap).reverse) :
    (scan gap run cs).Canonical := by
  -- what was read since the last rule is kept in reverse; it stays bare until a block is found
  fun_induction scan gap run cs with
  | case1 gap run => exact ⟨by simp, by simp, by simp, hbare⟩
  | case2 gap run c cs hc b rest hb ih =>
    obtain ⟨body, hbody, rfl⟩ := exists_body_of_block? hb
    rw [List.reverse_append] at hbare
    refine Canonical.cons (ih (by simp) noBreak_nil (bareBefore_nil rest)) ?_ ?_ ?_
    · exact ⟨run.reverse, body, by simpa using hc.2, by simpa [NoBreak] using hrun, hbody, rfl⟩
    · simpa [EndsRun] using hgap
    · exact hbare.bare_left
  | case3 gap run c cs hc hb ih =>
    refine ih (by simp [hc.1, isBreak_open]) noBreak_nil ?_
    have := hbare.snoc (fun _ _ _ _ => hb)
    simpa using this
  | case4 gap run c cs hc hb ih =>
    refine ih (by simpa using hb) noBreak_nil ?_
    have := BareBefore.snoc (x := c) hbare ?_
    · simpa using this
    · -- a brace here has no run before it, so the last character read is a break
      rintro rfl d hd hdb
      have hnil : run = [] := by simpa using hc
      subst hnil
      rw [hgap d (by simpa using hd)] at hdb
      simp at hdb
  | case5 gap run c cs hc hb ih =>
    have hc : isBreak c = false := by simpa using hb
    refine ih hgap (hrun.cons hc) ?_
    have := BareBefore.snoc (x := c) hbare fun h => absurd h (ne_brace_of_isBreak_eq_false hc).1
    simpa using this

theorem canonical_ofText (css : List Char) : (ofText css).Canonical :=
  canonical_scan [] [] css (by simp) noBreak_nil (bareBefore_nil css)

/-! ## Canonical outlines come from cutting -/

/-- Reading a text in which no rule begins only moves the place: what was read since the last rule
grows by it. -/
theorem scan_append_of_bare {text rest : List Char} (gap run : List Char) (hrun : NoBreak run)
    (hbare : BareBefore rest (run.reverse ++ text)) :
    ∃ gap' run', NoBreak run' ∧ run' ++ gap' = text.reverse ++ (run ++ gap) ∧
      scan gap run (text ++ rest) = scan gap' run' rest := by
  induction text generalizing gap run with
  | nil => exact ⟨gap, run, hrun, by simp, by simp⟩
  | cons c text ih =>
    have hskip : BareBefore rest ([].reverse ++ text) := by
      rw [List.append_cons] at hbare
      exact hbare.of_append
    by_cases hbrk : isBreak c = true
    · -- a break, also a brace that opens no block, ends the run
      have hstep : scan gap run (c :: text ++ rest)
          = scan (c :: (run ++ gap)) [] (text ++ rest) := by
        rw [List.cons_append, scan]
        by_cases hopen : c = '{' ∧ run ≠ []
        · obtain ⟨rfl, hne⟩ := hopen
          obtain ⟨d, ds, rfl⟩ := List.exists_cons_of_ne_nil hne
          have hnone : block? (text ++ rest) = none :=
            hbare ds.reverse d text (by simp) (hrun d List.mem_cons_self)
          rw [if_pos ⟨rfl, hne⟩]
          split
          · rename_i hsome; rw [hnone] at hsome; simp at hsome
          · rfl
        · rw [if_neg hopen, if_pos hbrk]
      obtain ⟨gap', run', hrun', heq, hscan⟩ := ih (c :: (run ++ gap)) [] noBreak_nil hskip
      exact ⟨gap', run', hrun', by simpa using heq, hstep.trans hscan⟩
    · have hc : isBreak c = false := by simpa using hbrk
      have hstep : scan gap run (c :: text ++ rest) = scan gap (c :: run) (text ++ rest) := by
        have hne := (ne_brace_of_isBreak_eq_false hc).1
        rw [List.cons_append, scan, if_neg (fun h => hne h.1), if_neg hbrk]
      obtain ⟨gap', run', hrun', heq, hscan⟩ :=
        ih gap (c :: run) (hrun.cons hc) (by simpa using hbare)
      exact ⟨gap', run', hrun', by simpa using heq, hstep.trans hscan⟩

theorem scan_gap {gap rest : List Char} (hend : EndsRun gap) (hbare : BareBefore rest gap) :
    scan [] [] (gap ++ rest) = scan gap.reverse [] rest := by
  obtain ⟨gap', run', hrun', heq, hscan⟩ :=
    @scan_append_of_bare gap rest [] [] noBreak_nil hbare
  have hnil : run' = [] := by
    cases run' with
    | nil => rfl
    | cons d ds =>
      -- the last character of the gap would stand in a run
      have hlast : gap.getLast? = some d := by
        rw [← List.head?_reverse]; simpa using congrArg List.head? heq.symm
      have := hend d (by simp [hlast])
      rw [hrun' d List.mem_cons_self] at this
      simp at this
  subst hnil
  rw [hscan, show gap' = gap.reverse by simpa using heq]

theorem scan_run {run : List Char} (hrun : NoBreak run) (gap before cs : List Char) :
    scan gap before (run ++ cs) = scan gap (run.reverse ++ before) cs := by
  induction run generalizing before with
  | nil => rfl
  | cons c run ih =>
    have hc := hrun c List.mem_cons_self
    have hne := (ne_brace_of_isBreak_eq_false hc).1
    rw [List.cons_append, scan, if_neg (fun h => hne h.1), if_neg (by simp [hc]),
      ih fun x hx => hrun x (List.mem_cons_of_mem c hx)]
    simp

/-- A rule behind a gap is cut out. -/
theorem scan_rule {rule : List Char} (hrule : IsRule rule) (gap rest : List Char) :
    scan gap [] (rule ++ rest) = (scan [] [] rest).cons gap.reverse rule := by
  obtain ⟨run, body, hne, hrun, hbody, rfl⟩ := hrule
  -- the run is read whole, and the brace behind it finds the block
  have hb : block? (body ++ '}' :: rest) = some (body ++ ['}'], rest) := block?_body hbody rest
  rw [List.append_assoc, scan_run hrun, List.append_nil, List.cons_append, List.append_assoc,
    List.singleton_append, scan, if_pos ⟨rfl, by simpa using hne⟩]
  split
  · rename_i b rest' hsome
    rw [hb] at hsome
    simp only [Option.some.injEq, Prod.mk.injEq] at hsome
    rw [← hsome.1, ← hsome.2, List.reverse_reverse]
  · rename_i hnone
    rw [hb] at hnone
    simp at hnone

/-- A canonical outline is the outline of its text. -/
theorem ofText_flatten {o : Outline} (h : o.Canonical) : ofText o.flatten = o := by
  obtain ⟨rules, tail⟩ := o
  induction rules with
  | nil =>
    obtain ⟨gap', run', _, heq, hscan⟩ :=
      @scan_append_of_bare tail [] [] [] noBreak_nil h.tailBare
    rw [List.append_nil] at hscan
    simp only [ofText, flatten, List.flatMap_nil, List.nil_append, hscan, scan, heq]
    simp
  | cons p rules ih =>
    obtain ⟨gap, rule⟩ := p
    -- the gap is read up to the rule, the rule is cut out, and the rest begins anew
    have ih := ih h.of_cons
    have hrule : IsRule rule := h.isRule (gap, rule) List.mem_cons_self
    obtain ⟨run, body, _, hrun, _, hform⟩ := id hrule
    have hbefore : BareBefore (rule ++ flatten ⟨rules, tail⟩) gap := by
      rw [hform, List.append_assoc, List.cons_append]
      exact (h.gapBare (gap, rule) List.mem_cons_self).before hrun _
    have hflat : flatten ⟨(gap, rule) :: rules, tail⟩ = gap ++ (rule ++ flatten ⟨rules, tail⟩) := by
      rw [← List.append_assoc]; exact flatten_cons gap rule ⟨rules, tail⟩
    rw [hflat, ofText, scan_gap (h.gapEndsRun (gap, rule) List.mem_cons_self) hbefore,
      scan_rule hrule, List.reverse_reverse, ← ofText, ih]
    rfl

end Outline

end ThemedSheets
