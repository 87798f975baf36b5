import ThemedSheets.Proofs.Sheet.Scoped
import ThemedSheets.Proofs.Sheet.Spans
/- Flat stylesheets: rules one behind another, each a selector list and declarations between braces.
   Cutting knows braces as characters only, also where a string of the declarations holds them. The
   fragment that begins where a rule does ends at the first brace of its declarations, and there is
   none if that brace opens another block (`mem_segment_at_rule`). So a flat sheet is cut into its own
   rules if and only if no declarations hold a brace (`segment_flat`). -/
namespace ThemedSheets

/-- A rule: a selector list without a character that ends runs, and any text as declarations. -/
structure FlatRule where
  selectors : List Char
  declarations : List Char
  selectors_ne_nil : selectors ≠ []
  selectors_noBreak : Outline.NoBreak selectors

namespace FlatRule
open Outline
variable {r : FlatRule}

def withBlock (r : FlatRule) (body : List Char) : List Char := r.selectors ++ '{' :: (body ++ ['}'])

def text (r : FlatRule) : List Char := r.withBlock r.declarations

def sheet (rules : List FlatRule) : List Char := rules.flatMap text

def spanBehind (front : List FlatRule) (r : FlatRule) (body : List Char) : Fragment :=
  ⟨String.ofList (r.withBlock body), (sheet front).length,
    (sheet front).length + (r.withBlock body).length⟩

/-- Whether all braces of declarations stand inside strings, and every string is closed. The text
begins inside a string if a quote is given. -/
def quotesBraces : Option Char → List Char → Bool
  | none, [] => true
  | some _, [] => false
  | none, c :: cs =>
    if c = '{' ∨ c = '}' then false
    else quotesBraces (if c = '"' ∨ c = '\'' then some c else none) cs
  | some _, ['\\'] => false
  | some quote, '\\' :: _ :: cs => quotesBraces (some quote) cs
  | some quote, c :: cs => quotesBraces (if c = quote then none else some quote) cs

/-! ## Rules and their blocks -/

theorem isRule_withBlock {body : List Char} (h : NoBrace body) : IsRule (r.withBlock body) :=
  ⟨r.selectors, body, r.selectors_ne_nil, r.selectors_noBreak, h, rfl⟩

theorem withBlock_append (r : FlatRule) (body rest : List Char) :
    r.withBlock body ++ rest = r.selectors ++ '{' :: (body ++ '}' :: rest) := by
  simp [withBlock]

/-- A run ends where its text has the first brace, so two ways to begin a text with a run and a brace
are one. -/
theorem run_unique {run run' rest rest' : List Char} (hrun : NoBreak run) (hrun' : NoBreak run')
    (h : run ++ '{' :: rest = run' ++ '{' :: rest') : run = run' ∧ rest = rest' := by
  have hcut := congrArg Fragment.cutSelector h
  rw [cutSelector_rule hrun, cutSelector_rule hrun'] at hcut
  obtain ⟨hrun, hrest⟩ := Prod.mk.inj hcut
  exact ⟨hrun, (List.cons.inj hrest).2⟩

theorem exists_body_of_isRule {rule rest more : List Char} (hrule : IsRule rule)
    (h : rule ++ more = r.selectors ++ '{' :: rest) :
    ∃ body, NoBrace body ∧ rule = r.withBlock body ∧ rest = body ++ '}' :: more := by
  obtain ⟨run, body, -, hrun, hbody, rfl⟩ := hrule
  rw [List.append_assoc, List.cons_append, List.append_assoc, List.singleton_append] at h
  obtain ⟨rfl, rfl⟩ := run_unique hrun r.selectors_noBreak h
  exact ⟨body, hbody, rfl, rfl⟩

theorem isRule_text_iff : IsRule r.text ↔ NoBrace r.declarations := by
  constructor
  · intro h
    have htext : r.text ++ [] = r.selectors ++ '{' :: (r.declarations ++ '}' :: []) :=
      withBlock_append r r.declarations []
    obtain ⟨body, hbody, heq, -⟩ := exists_body_of_isRule h htext
    have hblock : r.declarations ++ ['}'] = body ++ ['}'] :=
      (run_unique r.selectors_noBreak r.selectors_noBreak heq).2
    rwa [List.append_cancel_right hblock]
  · intro h
    exact isRule_withBlock h

/-- Of two beginnings of one text that end with a closing brace, one without another brace before is
the shorter. -/
theorem prefix_of_append {body declarations more rest : List Char} (hbody : NoBrace body)
    (h : body ++ '}' :: more = declarations ++ '}' :: rest) :
    body ++ ['}'] <+: declarations ++ ['}'] := by
  have hleft : body ++ ['}'] <+: body ++ '}' :: more := ⟨more, by simp⟩
  have hright : declarations ++ ['}'] <+: body ++ '}' :: more := ⟨rest, by simp [h]⟩
  rcases List.prefix_or_prefix_of_prefix hleft hright with hshort | hlong
  · exact hshort
  · rcases List.prefix_concat_iff.1 hlong with heq | hinside
    · exact heq ▸ List.prefix_refl _
    · -- the closing brace of the second would be one of the first body's
      have hmem : '}' ∈ body := hinside.subset (by simp)
      exact absurd rfl (hbody '}' hmem).2

/-! ## Flat sheets -/

theorem sheet_append (front back : List FlatRule) :
    sheet (front ++ back) = sheet front ++ sheet back := List.flatMap_append

theorem endsRun_sheet (rules : List FlatRule) : EndsRun (sheet rules) := by
  rcases List.eq_nil_or_concat rules with rfl | ⟨front, r, rfl⟩
  · exact endsRun_nil
  · intro c hc
    have hlast : sheet (front.concat r)
        = sheet front ++ r.selectors ++ '{' :: r.declarations ++ ['}'] := by
      simp [List.concat_eq_append, sheet, text, withBlock]
    rw [hlast, List.getLast?_concat] at hc
    obtain rfl : '}' = c := Option.some.inj hc
    decide

/-- **The fragment at the place of a rule** goes on to the first brace of its declarations, their own
closing brace counted. There is none if that brace opens a block. -/
theorem mem_segment_at_rule (front : List FlatRule) (r : FlatRule) (back : List FlatRule)
    (f : Fragment) :
    f ∈ Fragment.segment (String.ofList (sheet (front ++ r :: back))) ∧
        f.start = (sheet front).length ↔
      ∃ body, NoBrace body ∧ body ++ ['}'] <+: r.declarations ++ ['}'] ∧
        f = spanBehind front r body := by
  have hsheet : sheet (front ++ r :: back)
      = sheet front ++ (r.selectors ++ '{' :: (r.declarations ++ '}' :: sheet back)) := by
    rw [sheet_append]
    exact congrArg (sheet front ++ ·) (withBlock_append r r.declarations (sheet back))
  rw [Fragment.mem_segment_iff, String.toList_ofList, hsheet]
  constructor
  · rintro ⟨⟨before, rule, more, htext, -, hrule, rfl⟩, hstart⟩
    rw [List.append_assoc] at htext
    obtain ⟨rfl, hbehind⟩ := List.append_inj htext.symm hstart
    obtain ⟨body, hbody, rfl, hrest⟩ := exists_body_of_isRule hrule hbehind
    exact ⟨body, hbody, prefix_of_append hbody hrest.symm, rfl⟩
  · rintro ⟨body, hbody, ⟨more, hmore⟩, rfl⟩
    refine ⟨⟨sheet front, r.withBlock body, more ++ sheet back, ?_, endsRun_sheet front,
      isRule_withBlock hbody, rfl⟩, rfl⟩
    rw [List.append_assoc, withBlock_append]
    refine congrArg (fun rest => sheet front ++ (r.selectors ++ '{' :: rest)) ?_
    calc r.declarations ++ '}' :: sheet back
        = (r.declarations ++ ['}']) ++ sheet back := by simp
      _ = (body ++ ['}'] ++ more) ++ sheet back := by rw [hmore]
      _ = body ++ '}' :: (more ++ sheet back) := by simp

theorem texts_sheet {rules : List FlatRule} (h : ∀ r ∈ rules, NoBrace r.declarations) :
    (ofText (sheet rules)).texts = rules.map text := by
  let outline : Outline := ⟨rules.map fun r => ([], r.text), []⟩
  have hcanonical : outline.Canonical := by
    refine ⟨?_, ?_, ?_, bareBefore_nil []⟩
    · exact List.forall_mem_map.2 fun r hr => isRule_text_iff.2 (h r hr)
    · exact List.forall_mem_map.2 fun r _ => endsRun_nil
    · exact List.forall_mem_map.2 fun r _ => bareBefore_nil []
  have hflat : outline.flatten = sheet rules := by
    simp [outline, flatten, sheet, List.flatMap_map]
  rw [← hflat, ofText_flatten hcanonical]
  simp [outline, texts]

/-- **A flat sheet is cut into its own rules if and only if no declarations hold a brace.** Where a
rule's declarations hold none, the rule is a fragment whole, and it is one only there; the fragment
at a rule's place goes on to the first brace of its declarations, quoted or not, if that brace
closes. -/
theorem segment_flat (rules : List FlatRule) :
    ((Fragment.segment (String.ofList (sheet rules))).map (·.text.toList) = rules.map text ↔
      ∀ r ∈ rules, NoBrace r.declarations) ∧
    ∀ front r back, rules = front ++ r :: back →
      (spanBehind front r r.declarations ∈ Fragment.segment (String.ofList (sheet rules)) ↔
        NoBrace r.declarations) ∧
      ∀ f, f ∈ Fragment.segment (String.ofList (sheet rules)) ∧ f.start = (sheet front).length ↔
        ∃ body, NoBrace body ∧ body ++ ['}'] <+: r.declarations ++ ['}'] ∧
          f = spanBehind front r body := by
  refine ⟨⟨?_, ?_⟩, ?_⟩
  · intro htexts r hr
    have hmem : r.text ∈ (Fragment.segment (String.ofList (sheet rules))).map (·.text.toList) := by
      rw [htexts]
      exact List.mem_map_of_mem hr
    obtain ⟨f, hf, htext⟩ := List.mem_map.1 hmem
    apply isRule_text_iff.1
    rw [← htext]
    exact Fragment.isRule_of_mem_segment hf
  · intro h
    rw [Fragment.map_text_segment, String.toList_ofList]
    exact texts_sheet h
  · rintro front r back rfl
    refine ⟨⟨?_, ?_⟩, mem_segment_at_rule front r back⟩
    · intro hmem
      have hrule := Fragment.isRule_of_mem_segment hmem
      rw [spanBehind, String.toList_ofList] at hrule
      exact isRule_text_iff.1 hrule
    · intro h
      exact ((mem_segment_at_rule front r back _).2
        ⟨r.declarations, h, List.prefix_refl _, rfl⟩).1

/-- A rule without braces in its declarations in front of one with a quoted brace: the first is a
fragment whole, and the second is cut behind the quoted brace. -/
theorem segment_flat_of_quoted_brace :
    let plain : FlatRule := ⟨".a".toList, "top:0".toList, by decide, by decide⟩
    let quoted : FlatRule := ⟨".b".toList, "content:\"\x7d\"".toList, by decide, by decide⟩
    let fragments := Fragment.segment (String.ofList (sheet [plain, quoted]))
    [plain, quoted] = [plain] ++ quoted :: [] ∧
      ⟨".a\x7btop:0\x7d", 0, 9⟩ ∈ fragments ∧ ⟨".b\x7bcontent:\"\x7d", 9, 22⟩ ∈ fragments ∧
      fragments.map (·.text.toList) ≠ [plain.text, quoted.text] := by
  intro plain quoted fragments
  obtain ⟨hwhole, hplaces⟩ := segment_flat [plain, quoted]
  have hplain : NoBrace plain.declarations := by decide
  have hquoted : ¬ NoBrace quoted.declarations := by decide
  have hcut : spanBehind [plain] quoted "content:\"".toList ∈ fragments :=
    (((hplaces [plain] quoted [] rfl).2 _).2 ⟨_, by decide, by decide, rfl⟩).1
  refine ⟨rfl, (hplaces [] plain [quoted] rfl).1.2 hplain, hcut, ?_⟩
  intro h
  exact hquoted (hwhole.1 h quoted (by simp))

/-- A brace between quotes is cut at: the fragment of the one rule ends behind it, and what follows
is left over. -/
theorem segment_cuts_quoted_brace :
    let r : FlatRule := ⟨".a".toList, "content:\"\x7d\"".toList, by decide, by decide⟩
    quotesBraces none r.declarations = true ∧
      Fragment.segment (String.ofList (sheet [r])) = [⟨".a\x7bcontent:\"\x7d", 0, 13⟩] ∧
      r.text ≠ ".a\x7bcontent:\"\x7d".toList := by
  decide +kernel

end FlatRule
end ThemedSheets
