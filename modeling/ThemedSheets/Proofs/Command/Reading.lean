import ThemedSheets.Command.Arguments
import ThemedSheets.Command.ScopeArgument
import ThemedSheets.Proofs.Outcome
/- Reading the words of a command line. An option takes its words from the front of those behind it
   (`serves_takeOption`), so every round of reading leaves fewer words (`readWords_cases`), and a
   round for each word is enough. With the later edition an option has a value exactly where it asks
   for one, from the first round to the last; no scope and no directory is named then without saying
   which. With the earlier edition an attached double dash leaves an option without its value. -/
namespace ThemedSheets.Command

namespace Grammar
variable {κ : Type} {g : Grammar κ} {edition : Edition}

/-! ## One option -/

/-- A word comes to its option and further ones of the grammar, and leaves an end of the words that
stand behind it. With the later edition the options that ask for values have them, and no others. -/
structure Serves (g : Grammar κ) (edition : Edition) (rule : Rule κ) (behind : List (Word κ))
    (taken : Taken κ) : Prop where
  rest : taken.rest <:+ behind
  rules : ∀ x ∈ taken.given, x.1 = rule ∨ x.1 ∈ g.rules
  values : edition = .later → ∀ x ∈ taken.given, x.2.isNone = standsAlone x.1

section
variable {rule : Rule κ} {behind : List (Word κ)} {taken : Taken κ}

theorem serves_one {value : Option String} {rest : List (Word κ)} (hrest : rest <:+ behind)
    (hvalue : edition = .later → value.isNone = standsAlone rule) (extras : List String) :
    g.Serves edition rule behind ⟨[(rule, value)], rest, extras⟩ := by
  refine ⟨hrest, ?_, ?_⟩
  · intro x hx
    obtain rfl := List.mem_singleton.1 hx
    exact Or.inl rfl
  · intro hlater x hx
    obtain rfl := List.mem_singleton.1 hx
    exact hvalue hlater

theorem serves_alone {rest : List (Word κ)} (hrest : rest <:+ behind)
    (halone : standsAlone rule = true) (extras : List String) :
    g.Serves edition rule behind ⟨[(rule, none)], rest, extras⟩ := by
  have hvalue : (none : Option String).isNone = standsAlone rule := halone.symm
  exact serves_one hrest (fun _ => hvalue) extras

theorem serves_letter {more : Rule κ} {others : Except Stop (Taken κ)} (hmore : more ∈ g.rules)
    (halone : ¬ (!standsAlone rule) = true)
    (hothers : ∀ taken, others = .ok taken → g.Serves edition more behind taken)
    (h : (others >>= fun taken => pure { taken with given := (rule, none) :: taken.given })
      = .ok taken) : g.Serves edition rule behind taken := by
  obtain ⟨last, hlast, h⟩ := Outcome.bind_eq_ok.1 h
  cases h
  have hserves := hothers last hlast
  refine ⟨hserves.rest, ?_, ?_⟩
  · intro x hx
    rcases List.mem_cons.1 hx with rfl | hx
    · exact Or.inl rfl
    · rcases hserves.rules x hx with hsame | hmem
      · exact Or.inr (hsame ▸ hmore)
      · exact Or.inr hmem
  · intro hlater
    rw [Bool.not_eq_true', Bool.not_eq_false] at halone
    rw [List.forall_mem_cons]
    exact ⟨halone.symm, hserves.values hlater⟩

theorem mem_of_mem_names {x : String × Rule κ} (h : x ∈ g.names) : x.2 ∈ g.rules := by
  obtain ⟨own, hown, hnames⟩ := List.mem_flatMap.1 h
  obtain ⟨name, -, rfl⟩ := List.mem_map.1 hnames
  exact hown

theorem mem_of_rule? {name : List Char} (h : g.rule? name = some rule) : rule ∈ g.rules := by
  obtain ⟨x, hx, rfl⟩ := Option.map_eq_some_iff.1 h
  exact mem_of_mem_names (List.mem_of_find?_eq_some hx)

theorem serves_takeNext (h : g.takeNext rule behind = .ok taken) :
    g.Serves edition rule behind taken := by
  unfold takeNext at h
  split at h
  · next halone =>
    cases h
    exact serves_alone (List.suffix_refl _) halone []
  · next halone =>
    split at h
    · next value rest =>
      cases h
      have hvalue : (some value).isNone = standsAlone rule := by simpa using halone
      exact serves_one (List.suffix_cons _ _) (fun _ => hvalue) []
    · cases h

/-- The letters of a word are taken one after another, and only the last one may ask for a value. -/
theorem serves_takeAttached {afterEquals : Bool} {text : List Char}
    (h : g.takeAttached edition rule behind afterEquals text = .ok taken) :
    g.Serves edition rule behind taken := by
  fun_induction takeAttached g edition rule behind afterEquals text generalizing taken with
  | case1 text rule afterEquals halone =>
    -- all of the text is the value, with the later edition a double dash too
    cases h
    refine serves_one (List.suffix_refl _) (fun hlater => ?_) []
    subst hlater
    rw [Bool.not_eq_true'] at halone
    rw [halone]
    rfl
  | case2 => cases h
  | case3 => cases h
  | case4 rule afterEquals halone c cs hletter hnone =>
    -- from a letter on that is no option, nothing is taken
    rw [Bool.not_eq_true', Bool.not_eq_false] at halone
    cases edition with
    | earlier => cases h
    | later =>
      cases h
      exact serves_alone (List.suffix_refl _) halone _
  | case5 rule afterEquals halone c hletter more hmore =>
    -- the last letter may have its value in the next word
    exact serves_letter (mem_of_rule? hmore) halone (fun _ => serves_takeNext) h
  | case6 rule afterEquals halone c hletter more hmore =>
    rename_i ih
    exact serves_letter (mem_of_rule? hmore) halone (fun _ => ih) h
  | case7 rule afterEquals halone c hletter more hmore =>
    rename_i ih
    exact serves_letter (mem_of_rule? hmore) halone (fun _ => ih) h

theorem serves_takeOption {name : String} {attached : Option Attached}
    (h : g.takeOption edition rule name attached behind = .ok taken) :
    g.Serves edition rule behind taken := by
  unfold takeOption at h
  split at h
  · exact serves_takeNext h
  · split at h
    · cases h
    · exact serves_takeAttached h

end

/-! ## Words and what they are -/

/-- The options among the words are those of the grammar. -/
def Knows (g : Grammar κ) (words : List (Word κ)) : Prop :=
  ∀ w ∈ words, ∀ rule name attached, w.role = .option rule name attached → rule ∈ g.rules

section
variable {text name : String} {rule : Rule κ} {attached : Option Attached}

theorem mem_of_named? (h : g.named? text = some (.option rule name attached)) : rule ∈ g.rules := by
  unfold named? at h
  split at h
  · next found hfound =>
    cases h
    exact mem_of_rule? hfound
  · obtain ⟨⟨start, after⟩, -, h⟩ := Option.bind_eq_some_iff.1 h
    obtain ⟨found, hfound, h⟩ := Option.bind_eq_some_iff.1 h
    cases h
    exact mem_of_rule? hfound

theorem mem_of_mem_readings {cs : List Char} {full : String}
    (h : (full, .option rule name attached) ∈ g.readings cs) : rule ∈ g.rules := by
  unfold readings at h
  split at h
  · obtain ⟨x, hx, hsame⟩ := List.mem_map.1 h
    cases hsame
    exact mem_of_mem_names (List.mem_filter.1 hx).1
  · obtain ⟨x, hx, hsame⟩ := List.mem_filterMap.1 h
    dsimp only at hsame
    split at hsame
    · cases hsame
      exact mem_of_mem_names hx
    · split at hsame
      · cases hsame
        exact mem_of_mem_names hx
      · cases hsame

theorem mem_of_classify (h : g.classify text = .ok (.option rule name attached)) :
    rule ∈ g.rules := by
  unfold classify at h
  dsimp only at h
  split at h
  · cases h
  · split at h
    · next hnamed =>
      cases h
      exact mem_of_named? hnamed
    · next hreadings =>
      cases h
      exact mem_of_mem_readings (hreadings ▸ List.mem_singleton_self _)
    · split at h <;> cases h
    · cases h

theorem knows_of_classifyAll {line : List String} {words : List (Word κ)}
    (h : g.classifyAll line = .ok words) : g.Knows words := by
  induction line generalizing words with
  | nil =>
    cases h
    exact fun _ hw => absurd hw List.not_mem_nil
  | cons text line ih =>
    unfold classifyAll at h
    split at h
    · cases h
      intro w hw rule name attached hrole
      rcases List.mem_cons.1 hw with rfl | hw
      · cases hrole
      · obtain ⟨_, -, rfl⟩ := List.mem_map.1 hw
        cases hrole
    · obtain ⟨role, hclassify, h⟩ := Outcome.bind_eq_ok.1 h
      obtain ⟨others, hothers, h⟩ := Outcome.bind_eq_ok.1 h
      cases h
      intro w hw rule name attached hrole
      rcases List.mem_cons.1 hw with rfl | hw
      · obtain rfl : role = .option rule name attached := hrole
        exact mem_of_classify hclassify
      · exact ih hothers w hw rule name attached hrole

end

/-! ## Rounds of reading -/

/-- What an option of the grammar gives, with a value if the option asks for one. -/
def Gives (g : Grammar κ) (x : κ × Option String) : Prop :=
  ∃ rule ∈ g.rules, rule.kind = x.1 ∧ x.2.isNone = standsAlone rule

section
variable {words behind : List (Word κ)} {before reading : Reading κ}

theorem Knows.suffix (h : g.Knows words) (hsuffix : behind <:+ words) : g.Knows behind :=
  fun w hw => h w (hsuffix.subset hw)

theorem accept_eq_ok {rule : Rule κ} {value : Option String} {one : κ × Option String}
    (h : g.accept rule value = .ok one) : one = (rule.kind, value) := by
  unfold accept at h
  split at h
  · cases h
  · split at h
    · exact (Except.ok.inj h).symm
    · cases h
  · exact (Except.ok.inj h).symm

theorem acceptAll_eq_ok {given : List (Rule κ × Option String)} {more : List (κ × Option String)}
    (h : g.acceptAll given = .ok more) : more = given.map fun x => (x.1.kind, x.2) := by
  induction given generalizing more with
  | nil => exact (Except.ok.inj h).symm
  | cons x given ih =>
    obtain ⟨one, hone, h⟩ := Outcome.bind_eq_ok.1 h
    obtain ⟨others, hothers, h⟩ := Outcome.bind_eq_ok.1 h
    rw [← Except.ok.inj h, accept_eq_ok hone, ih hothers]
    rfl

theorem takeOperand?_suffix {w : Word κ} {texts : List String} {rest : List (Word κ)}
    (h : g.takeOperand? (w :: behind) = some (texts, rest)) : rest <:+ behind := by
  unfold takeOperand? at h
  split at h
  · next text others hwords =>
    have hsuffix : others <:+ behind := by
      have hcons : ⟨text, .operand⟩ :: others <:+ w :: behind :=
        hwords ▸ List.dropWhile_suffix _
      rcases List.suffix_cons_iff.1 hcons with hsame | hbehind
      · exact (List.cons.inj hsame).2 ▸ List.suffix_refl _
      · exact (List.suffix_cons _ _).trans hbehind
    split at h
    · cases h
      exact List.nil_suffix
    · cases h
      exact (List.dropWhile_suffix _).trans hsuffix
  · cases h

theorem readWords_nil (n : Nat) : g.readWords edition n before [] = .ok before := by
  cases n with
  | zero => simp [readWords]
  | succ n => rw [readWords]

/-- One round ends the reading, or goes on with an end of the words behind the first one. -/
theorem readWords_cases (before : Reading κ) (w : Word κ) (behind : List (Word κ)) :
    (∃ stop, ∀ n, g.readWords edition (n + 1) before (w :: behind) = .error stop) ∨
      ∃ after rest, rest <:+ behind ∧
        (g.Knows (w :: behind) → edition = .later →
          ∀ x ∈ after.given, x ∈ before.given ∨ g.Gives x) ∧
        ∀ n, g.readWords edition (n + 1) before (w :: behind)
          = g.readWords edition n after rest := by
  obtain ⟨text, role⟩ := w
  let passed : Reading κ := { before with extras := before.extras ++ [text] }
  obtain ⟨found, hfound⟩ : ∃ found, g.takeOperand? (⟨text, role⟩ :: behind) = found := ⟨_, rfl⟩
  cases role with
  | unknown =>
    refine Or.inr ⟨passed, behind, List.suffix_refl _, fun _ _ x hx => Or.inl hx, fun n => ?_⟩
    rw [readWords]
  | option rule name attached =>
    cases hoption : g.takeOption edition rule name attached behind with
    | error stop =>
      refine Or.inl ⟨stop, fun n => ?_⟩
      rw [readWords, hoption]
      rfl
    | ok taken =>
      cases haccept : g.acceptAll taken.given with
      | error stop =>
        refine Or.inl ⟨stop, fun n => ?_⟩
        rw [readWords, hoption]
        change (g.acceptAll taken.given >>= _) = _
        rw [haccept]
        rfl
      | ok more =>
        have hserves := serves_takeOption hoption
        refine Or.inr ⟨{ before with
          given := before.given ++ more, extras := before.extras ++ taken.extras }, taken.rest,
          hserves.rest, fun hknows hlater x hx => ?_, fun n => ?_⟩
        · rcases List.mem_append.1 hx with hx | hx
          · exact Or.inl hx
          · rw [acceptAll_eq_ok haccept] at hx
            obtain ⟨y, hy, rfl⟩ := List.mem_map.1 hx
            have hrule : y.1 ∈ g.rules := by
              rcases hserves.rules y hy with hsame | hmem
              · exact hsame ▸ hknows _ List.mem_cons_self rule name attached rfl
              · exact hmem
            exact Or.inr ⟨y.1, hrule, rfl, hserves.values hlater y hy⟩
        · rw [readWords, hoption]
          change (g.acceptAll taken.given >>= _) = _
          rw [haccept]
          rfl
  | operand | separator =>
    cases hoperand : before.operand with
    | some texts =>
      refine Or.inr ⟨passed, behind, List.suffix_refl _, fun _ _ x hx => Or.inl hx, fun n => ?_⟩
      simp only [readWords, hoperand, skip, passed]
    | none =>
      cases found with
      | none =>
        refine Or.inr ⟨passed, behind, List.suffix_refl _, fun _ _ x hx => Or.inl hx, fun n => ?_⟩
        simp only [readWords, hoperand, hfound, skip, passed]
      | some found =>
        obtain ⟨texts, rest⟩ := found
        cases haccept : g.acceptOperand texts with
        | error stop =>
          refine Or.inl ⟨stop, fun n => ?_⟩
          simp only [readWords, hoperand, hfound, haccept]
          rfl
        | ok operand =>
          refine Or.inr ⟨{ before with operand := some operand }, rest,
            takeOperand?_suffix hfound, fun _ _ x hx => Or.inl hx, fun n => ?_⟩
          simp only [readWords, hoperand, hfound, haccept]
          rfl

/-- **A round for each word is enough.** -/
theorem readWords_of_length_le (before : Reading κ) {n : Nat} (h : words.length ≤ n) :
    g.readWords edition n before words = g.readWords edition words.length before words := by
  -- a round may take several words, so what is left is compared for any two counts
  suffices hall : ∀ n m before (words : List (Word κ)), words.length ≤ n → words.length ≤ m →
      g.readWords edition n before words = g.readWords edition m before words from
    hall n _ before words h (Nat.le_refl _)
  intro n
  induction n with
  | zero =>
    intro m before words hn _
    rw [List.length_eq_zero_iff.1 (Nat.le_zero.1 hn), readWords_nil, readWords_nil]
  | succ n ih =>
    intro m before words hn hm
    cases words with
    | nil => rw [readWords_nil, readWords_nil]
    | cons w behind =>
      obtain ⟨m, rfl⟩ : ∃ k, m = k + 1 := ⟨m - 1, by simp only [List.length_cons] at hm; omega⟩
      rcases readWords_cases before w behind with ⟨stop, hstop⟩ | ⟨after, rest, hrest, -, hgoes⟩
      · rw [hstop, hstop]
      · have hshorter := hrest.length_le
        simp only [List.length_cons] at hn hm
        rw [hgoes, hgoes]
        exact ih m after rest (by omega) (by omega)

/-- **With the later edition every option that is read has a value where it asks for one.** -/
theorem gives_of_readWords {n : Nat} (hknows : g.Knows words)
    (hbefore : ∀ x ∈ before.given, g.Gives x)
    (h : g.readWords .later n before words = .ok reading) : ∀ x ∈ reading.given, g.Gives x := by
  induction n generalizing before words with
  | zero =>
    cases h
    exact hbefore
  | succ n ih =>
    cases words with
    | nil =>
      rw [readWords_nil] at h
      cases h
      exact hbefore
    | cons w behind =>
      rcases readWords_cases before w behind
        with ⟨stop, hstop⟩ | ⟨after, rest, hrest, hgiven, hgoes⟩
      · rw [hstop] at h
        cases h
      · rw [hgoes] at h
        refine ih (hknows.suffix (hrest.trans (List.suffix_cons w behind))) ?_ h
        intro x hx
        rcases hgiven hknows rfl x hx with hold | hnew
        · exact hbefore x hold
        · exact hnew

theorem gives_of_read {line : List String} (h : g.read .later line = .ok reading) :
    ∀ x ∈ reading.given, g.Gives x := by
  obtain ⟨words, hwords, h⟩ := Outcome.bind_eq_ok.1 h
  obtain ⟨found, hfound, h⟩ := Outcome.bind_eq_ok.1 h
  have hsame : found = reading := by
    split at h
    · cases h
    · exact Except.ok.inj h
  exact gives_of_readWords (knows_of_classifyAll hwords) (fun _ hx => absurd hx List.not_mem_nil)
    (hsame ▸ hfound)

end

end Grammar

/-! ## The arguments of the program -/

section
variable {line : List String} {a : Arguments}

theorem not_standsAlone_of_repeated : ∀ rule ∈ compileGrammar.rules,
    rule.kind = .scope ∨ rule.kind = .includePath → Grammar.standsAlone rule = false := by
  decide

theorem none_not_mem_foldl_take {given : List (CompileOption × Option String)}
    (hgiven : ∀ x ∈ given, x.1 = .scope ∨ x.1 = .includePath → x.2 ≠ none)
    (hscopes : none ∉ a.scopes) (hpaths : none ∉ a.includePaths) :
    none ∉ (given.foldl Arguments.take a).scopes ∧
      none ∉ (given.foldl Arguments.take a).includePaths := by
  induction given generalizing a with
  | nil => exact ⟨hscopes, hpaths⟩
  | cons x given ih =>
    obtain ⟨hx, hrest⟩ := List.forall_mem_cons.1 hgiven
    obtain ⟨kind, value⟩ := x
    have hmore : ∀ before : List (Option String), none ∉ before → value ≠ none →
        none ∉ before ++ [value] := by
      intro before hbefore hvalue hmem
      rcases List.mem_append.1 hmem with hmem | hmem
      · exact hbefore hmem
      · exact hvalue (List.mem_singleton.1 hmem).symm
    cases kind with
    | scope => exact ih hrest (hmore _ hscopes (hx (Or.inl rfl))) hpaths
    | includePath => exact ih hrest hscopes (hmore _ hpaths (hx (Or.inr rfl)))
    | help | output | config | outputStyle | sourceMap | noVerify | dependencies =>
      exact ih hrest hscopes hpaths

theorem none_not_mem_of_read (h : Arguments.read .later line = .ok a) :
    none ∉ a.scopes ∧ none ∉ a.includePaths := by
  obtain ⟨outer, -, h⟩ := Outcome.bind_eq_ok.1 h
  obtain ⟨inner, hinner, h⟩ := Outcome.bind_eq_ok.1 h
  dsimp only at h
  split at h
  · cases h
  · obtain rfl := Except.ok.inj h
    refine none_not_mem_foldl_take ?_ List.not_mem_nil List.not_mem_nil
    intro x hx hkind
    obtain ⟨rule, hrule, hsame, hvalue⟩ := Grammar.gives_of_read hinner x hx
    rw [← hsame] at hkind
    rw [not_standsAlone_of_repeated rule hrule hkind] at hvalue
    intro hnone
    rw [hnone] at hvalue
    cases hvalue

theorem readScopes_ne_missingValue {texts : List (Option String)} (h : none ∉ texts)
    (option : RepeatedOption) : readScopes texts ≠ .error (.missingValue option) := by
  induction texts with
  | nil => exact fun hread => by cases hread
  | cons text texts ih =>
    cases text with
    | none => exact absurd List.mem_cons_self h
    | some text =>
      intro hread
      rcases Outcome.bind_eq_error.1 hread with hscope | ⟨scope, -, hread⟩
      · unfold readScope at hscope
        dsimp only at hscope
        split at hscope <;> cases hscope
      · rcases Outcome.bind_eq_error.1 hread with hrest | ⟨scopes, -, hread⟩
        · exact ih (fun hmem => h (List.mem_cons_of_mem _ hmem)) hrest
        · cases hread

theorem readDirectories_ne_missingValue {current : String} {texts : List (Option String)}
    (h : none ∉ texts) (option : RepeatedOption) :
    readDirectories current texts ≠ .error (.missingValue option) := by
  induction texts with
  | nil => exact fun hread => by cases hread
  | cons text texts ih =>
    cases text with
    | none => exact absurd List.mem_cons_self h
    | some text =>
      intro hread
      exact ih (fun hmem => h (List.mem_cons_of_mem _ hmem)) (Outcome.map_eq_error.1 hread)

/-- **With the later edition no repeated option lacks its value.** Whatever the line, its scopes and
directories are never refused for a value that is missing. -/
theorem ne_missingValue_of_read (h : Arguments.read .later line = .ok a) (current : String)
    (option : RepeatedOption) :
    readScopes a.scopes ≠ .error (.missingValue option) ∧
      readDirectories current a.includePaths ≠ .error (.missingValue option) := by
  obtain ⟨hscopes, hpaths⟩ := none_not_mem_of_read h
  exact ⟨readScopes_ne_missingValue hscopes option, readDirectories_ne_missingValue hpaths option⟩

example : [Edition.earlier, .later].map (fun edition =>
      (Arguments.read edition ["compile", "a.scss", "--scope=--"]).toOption.map (·.scopes))
    = [some [none], some [some "--"]] := by decide +kernel

end

end ThemedSheets.Command
