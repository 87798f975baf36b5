import Mathlib.Algebra.Group.Nat.Defs
import ThemedSheets.Number.Shortest
import ThemedSheets.Proofs.Text.Split
/- Decimal digits and what they are worth. The digits of a number are worth the number, the first of
   them is no zero unless the number is, and how many they are tells between which powers of ten the
   number lies. Zeros at the end of digits are a factor of ten each, and zeros in front are worth
   nothing. -/
namespace ThemedSheets.Number
open ThemedSheets.Text

namespace Binary64

theorem digitValue?_of_isDigit {c : Char} (h : c.isDigit = true) :
    digitValue? c = some (c.toNat - '0'.toNat) := by
  obtain ⟨hlow, hhigh⟩ := Char.isDigit_iff_toNat.1 h
  have hrow : (0x30 ≤ c.toNat && c.toNat ≤ 0x30 + 9) = true := by
    simp only [Bool.and_eq_true, decide_eq_true_eq]
    exact ⟨hlow, hhigh⟩
  -- the zero of ASCII is the first one of the table
  have hfind : digitZeros.find? (fun z => z ≤ c.toNat && c.toNat ≤ z + 9) = some 0x30 :=
    List.find?_cons_of_pos hrow
  rw [digitValue?, hfind]
  rfl

theorem decimalValue_eq_ofDigitChars {ds : List Char} (h : ∀ c ∈ ds, c.isDigit = true) :
    decimalValue ds = Nat.ofDigitChars 10 ds 0 := by
  suffices hfold : ∀ n, ds.foldl (fun n c => n * 10 + (digitValue? c).getD 0) n
      = Nat.ofDigitChars 10 ds n from hfold 0
  induction ds with
  | nil => exact fun _ => rfl
  | cons c ds ih =>
    rw [List.forall_mem_cons] at h
    intro n
    rw [List.foldl_cons, Nat.ofDigitChars_cons, ← ih h.2, digitValue?_of_isDigit h.1,
      Option.getD_some, Nat.mul_comm 10]

theorem decimalValue_append (ds es : List Char) :
    decimalValue (ds ++ es) = decimalValue ds * 10 ^ es.length + decimalValue es := by
  suffices hfold : ∀ n, es.foldl (fun n c => n * 10 + (digitValue? c).getD 0) n
      = n * 10 ^ es.length + decimalValue es by
    rw [decimalValue, List.foldl_append]
    exact hfold _
  induction es with
  | nil => intro n; simp [decimalValue]
  | cons c es ih =>
    intro n
    have hcons : decimalValue (c :: es) = (0 * 10 + (digitValue? c).getD 0) * 10 ^ es.length
        + decimalValue es := ih _
    rw [List.foldl_cons, ih, hcons, List.length_cons, Nat.pow_succ', Nat.zero_mul, Nat.zero_add,
      Nat.add_mul, Nat.mul_assoc, Nat.add_assoc]

theorem decimalValue_replicate_zero (n : Nat) : decimalValue (List.replicate n '0') = 0 := by
  induction n with
  | zero => rfl
  | succ n ih =>
    rw [List.replicate_succ', decimalValue_append, ih, Nat.zero_mul, Nat.zero_add]
    rfl

theorem decimalValue_zeros_append (n : Nat) (ds : List Char) :
    decimalValue (List.replicate n '0' ++ ds) = decimalValue ds := by
  rw [decimalValue_append, decimalValue_replicate_zero, Nat.zero_mul, Nat.zero_add]

theorem decimalValue_append_zeros (ds : List Char) (n : Nat) :
    decimalValue (ds ++ List.replicate n '0') = decimalValue ds * 10 ^ n := by
  rw [decimalValue_append, decimalValue_replicate_zero, Nat.add_zero, List.length_replicate]

theorem decimalValue_lt {ds : List Char} (h : ∀ c ∈ ds, c.isDigit = true) :
    decimalValue ds < 10 ^ ds.length := by
  induction ds with
  | nil => decide
  | cons c ds ih =>
    rw [List.forall_mem_cons] at h
    have hdigit : decimalValue [c] ≤ 9 := by
      have hhigh := (Char.isDigit_iff_toNat.1 h.1).2
      have h9 : '9'.toNat = '0'.toNat + 9 := rfl
      rw [decimalValue, List.foldl_cons, List.foldl_nil, digitValue?_of_isDigit h.1,
        Option.getD_some]
      omega
    have hrest := ih h.2
    have hpos : 0 < 10 ^ ds.length := Nat.pow_pos (by decide)
    have hmul : decimalValue [c] * 10 ^ ds.length ≤ 9 * 10 ^ ds.length :=
      Nat.mul_le_mul_right _ hdigit
    rw [← List.singleton_append, decimalValue_append, List.length_append, List.length_singleton,
      Nat.add_comm 1, Nat.pow_succ]
    omega

/-! ## The digits of a number -/

theorem isDigit_of_mem_digitsOf {n : Nat} {c : Char} (h : c ∈ digitsOf 10 n) : c.isDigit = true :=
  Nat.isDigit_of_mem_toDigits (by decide) (by decide) h

theorem digitsOf_ne_nil (n : Nat) : digitsOf 10 n ≠ [] := Nat.toDigits_ne_nil

theorem length_digitsOf_pos (n : Nat) : 0 < (digitsOf 10 n).length := Nat.length_toDigits_pos

theorem decimalValue_digitsOf (n : Nat) : decimalValue (digitsOf 10 n) = n := by
  rw [decimalValue_eq_ofDigitChars fun _ => isDigit_of_mem_digitsOf]
  exact Nat.ofDigitChars_toDigits (by decide) (by decide)

theorem length_digitsOf_le_iff {n k : Nat} (hk : 0 < k) :
    (digitsOf 10 n).length ≤ k ↔ n < 10 ^ k :=
  Nat.length_toDigits_le_iff (by decide) hk

theorem lt_pow_length_digitsOf (n : Nat) : n < 10 ^ (digitsOf 10 n).length :=
  (length_digitsOf_le_iff (length_digitsOf_pos n)).1 (Nat.le_refl _)

theorem pow_length_digitsOf_le {n : Nat} (hn : 0 < n) :
    10 ^ ((digitsOf 10 n).length - 1) ≤ n := by
  by_cases hone : (digitsOf 10 n).length = 1
  · rw [hone]
    exact hn
  · have hpos := length_digitsOf_pos n
    have hnot : ¬ (digitsOf 10 n).length ≤ (digitsOf 10 n).length - 1 := by omega
    rw [length_digitsOf_le_iff (by omega)] at hnot
    exact Nat.not_lt.1 hnot

theorem head?_digitsOf_ne_zero {n : Nat} (hn : 0 < n) : (digitsOf 10 n).head? ≠ some '0' := by
  intro hzero
  obtain ⟨ds, hds⟩ := List.head?_eq_some_iff.1 hzero
  have hlow := pow_length_digitsOf_le hn
  have hvalue := decimalValue_digitsOf n
  rw [hds, List.length_cons, Nat.add_sub_cancel] at hlow
  rw [hds, ← List.singleton_append, ← List.replicate_one, decimalValue_zeros_append] at hvalue
  have hhigh := decimalValue_lt fun c hc =>
    isDigit_of_mem_digitsOf (n := n) (hds ▸ List.mem_cons_of_mem _ hc)
  omega

theorem length_digitsOf_decimalValue {ds : List Char} (hne : ds ≠ [])
    (h : ∀ c ∈ ds, c.isDigit = true) : (digitsOf 10 (decimalValue ds)).length ≤ ds.length :=
  (length_digitsOf_le_iff (List.length_pos_iff.2 hne)).2 (decimalValue_lt h)

/-! ## Zeros at the end -/

theorem trimZeros_append (ds : List Char) :
    ∃ n, ds = trimZeros ds ++ List.replicate n '0' := exists_trailing '0' ds

theorem trimZeros_spec {n : Nat} (hn : 0 < n) :
    trimZeros (digitsOf 10 n) ≠ [] ∧ (∀ c ∈ trimZeros (digitsOf 10 n), c.isDigit = true) ∧
      (trimZeros (digitsOf 10 n)).head? ≠ some '0' ∧
      ∃ z, (digitsOf 10 n).length = (trimZeros (digitsOf 10 n)).length + z ∧
        decimalValue (trimZeros (digitsOf 10 n)) * 10 ^ z = n := by
  obtain ⟨z, hz⟩ := trimZeros_append (digitsOf 10 n)
  have hvalue := decimalValue_digitsOf n
  have hhead := head?_digitsOf_ne_zero hn
  have hdigits : ∀ c ∈ digitsOf 10 n, c.isDigit = true := fun c => isDigit_of_mem_digitsOf
  generalize digitsOf 10 n = all at *
  have hworth : decimalValue (trimZeros all) * 10 ^ z = n := by
    rw [← decimalValue_append_zeros, ← hz, hvalue]
  have hne : trimZeros all ≠ [] := by
    intro hnil
    rw [hnil] at hworth
    simp only [decimalValue, List.foldl_nil, Nat.zero_mul] at hworth
    omega
  refine ⟨hne, fun c hc => ?_, ?_, z, ?_, hworth⟩
  · refine hdigits c ?_
    rw [hz]
    exact List.mem_append_left _ hc
  · obtain ⟨c, cs, hcons⟩ := List.exists_cons_of_ne_nil hne
    rw [hz, hcons, List.cons_append, List.head?_cons] at hhead
    rwa [hcons, List.head?_cons]
  · simpa using congrArg List.length hz

end Binary64

end ThemedSheets.Number
