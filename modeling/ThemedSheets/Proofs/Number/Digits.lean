import ThemedSheets.Number.Integer
import ThemedSheets.Proofs.Number.Decimal
/- Numbers that are written with digits only. A digit of any script is no blank, no sign, no
   underscore and no letter, so nothing is dropped in front of digits or behind them and every one
   of them counts (`readInt?_of_digits`). So a number is read back from its digits
   (`readInt?_digitsOf`). -/
namespace ThemedSheets.Number
open ThemedSheets.Text

theorem digitZeros_apart_blankRanges :
    ∀ z ∈ digitZeros, ∀ r ∈ blankRanges, z + 9 < r.1 ∨ r.2 < z := by
  decide

theorem digitValue?_spec {c : Char} {v : Nat} (h : digitValue? c = some v) :
    ∃ z ∈ digitZeros, z ≤ c.toNat ∧ c.toNat ≤ z + 9 ∧ v = c.toNat - z := by
  obtain ⟨z, hfind, rfl⟩ := Option.map_eq_some_iff.1 h
  have hrow := List.find?_some hfind
  simp only [Bool.and_eq_true, decide_eq_true_eq] at hrow
  exact ⟨z, List.mem_of_find?_eq_some hfind, hrow.1, hrow.2, rfl⟩

theorem digitIn?_ten {c : Char} {v : Nat} (h : digitValue? c = some v) : digitIn? 10 c = some v := by
  obtain ⟨z, -, hlow, hhigh, rfl⟩ := digitValue?_spec h
  have hlt : c.toNat - z < 10 := by omega
  simp [digitIn?, h, Option.filter, hlt]

section
variable {c : Char} (hdigit : (digitValue? c).isSome = true)
include hdigit

theorem isBlank_of_digit : isBlank c = false := by
  obtain ⟨v, hv⟩ := Option.isSome_iff_exists.1 hdigit
  obtain ⟨z, hz, hlow, hhigh, -⟩ := digitValue?_spec hv
  have hapart := digitZeros_apart_blankRanges z hz
  rw [isBlank, inRanges, List.any_eq_false]
  intro r hr
  have := hapart r hr
  simp only [Bool.and_eq_true, decide_eq_true_eq]
  omega

theorem ne_of_digit {d : Char} (h : digitValue? d = none) : c ≠ d := by
  rintro rfl
  simp [h] at hdigit

end

section
variable {ds : List Char} (hdigits : ∀ c ∈ ds, (digitValue? c).isSome = true)
include hdigits

theorem dropWhile_isNumberBlank_digits : ds.dropWhile isNumberBlank = ds := by
  cases ds with
  | nil => rfl
  | cons d ds =>
    have hblank := isBlank_of_digit (hdigits d List.mem_cons_self)
    simp [isNumberBlank, hblank]

theorem trimNumber_digits : trimNumber ds = ds := by
  have hreverse : ds.reverse.dropWhile isNumberBlank = ds.reverse :=
    dropWhile_isNumberBlank_digits fun c hc => hdigits c (List.mem_reverse.1 hc)
  rw [trimNumber, dropWhile_isNumberBlank_digits hdigits, hreverse, List.reverse_reverse]

theorem takeSign_digits : takeSign ds = (false, ds) := by
  unfold takeSign
  split
  · exact absurd rfl (ne_of_digit (hdigits '-' List.mem_cons_self) (by decide))
  · exact absurd rfl (ne_of_digit (hdigits '+' List.mem_cons_self) (by decide))
  · rfl

theorem groupedDigits?_digits (hne : ds ≠ []) :
    groupedDigits? 10 ds = some (ds.map fun c => (digitValue? c).getD 0) := by
  induction ds with
  | nil => exact absurd rfl hne
  | cons d ds ih =>
    rw [List.forall_mem_cons] at hdigits
    obtain ⟨v, hv⟩ := Option.isSome_iff_exists.1 hdigits.1
    cases ds with
    | nil => simp [groupedDigits?, digitIn?_ten hv, hv]
    | cons e ds =>
      have hvalues := ih hdigits.2 (List.cons_ne_nil _ _)
      have hgap : e ≠ '_' := ne_of_digit (hdigits.2 e List.mem_cons_self) (by decide)
      have hvalue : (digitValue? d).getD 0 = v := by rw [hv, Option.getD_some]
      rw [groupedDigits?, digitIn?_ten hv, hvalues, List.map_cons (l := e :: ds), hvalue]
      · rfl
      · exact List.cons_ne_nil e ds
      · simpa using hgap

/-- Digits spell the number that they are worth, unless there are too many of them. -/
theorem readInt?_of_digits (hne : ds ≠ []) (hlength : ds.length ≤ maxDecimalDigits) :
    readInt? 10 ds = some (Binary64.decimalValue ds : Int) := by
  have hmark : dropBaseMark 10 ds = ds := by
    unfold dropBaseMark
    split <;> simp [baseMark]
  have hvalue : ofDigits 10 (ds.map fun c => (digitValue? c).getD 0) = Binary64.decimalValue ds := by
    rw [ofDigits, List.foldl_map, Binary64.decimalValue]
  simp [readInt?, trimNumber_digits hdigits, takeSign_digits hdigits, hmark,
    groupedDigits?_digits hdigits hne, hvalue, Nat.not_lt.2 hlength]

end

theorem isSome_digitValue?_of_mem_digitsOf {n : Nat} {c : Char} (h : c ∈ digitsOf 10 n) :
    (digitValue? c).isSome = true := by
  rw [Binary64.digitValue?_of_isDigit (Binary64.isDigit_of_mem_digitsOf h)]
  rfl

theorem readInt?_digitsOf {n : Nat} (h : (digitsOf 10 n).length ≤ maxDecimalDigits) :
    readInt? 10 (digitsOf 10 n) = some (n : Int) := by
  rw [readInt?_of_digits (fun c hc => isSome_digitValue?_of_mem_digitsOf hc)
    (Binary64.digitsOf_ne_nil n) h, Binary64.decimalValue_digitsOf]

end ThemedSheets.Number
