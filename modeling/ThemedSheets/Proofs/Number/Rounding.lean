import Mathlib.Algebra.Order.Field.Power
import Mathlib.Algebra.Order.Ring.Rat
import Mathlib.Tactic.FieldSimp
import Mathlib.Tactic.Linarith
import Mathlib.Tactic.NormNum
import Mathlib.Tactic.Positivity
import Mathlib.Tactic.Ring
import ThemedSheets.Proofs.Number.Decimal
/- Rounding to floating-point numbers, told in exact rationals. The whole number nearest to a fraction
   and the exponent at which a fraction is measured are each unique, so what a fraction is read as
   depends on its value alone, however it is written. A fraction that lies in the interval of a number,
   which is closed for an even mantissa and open for an odd one, is read as that number
   (`ofRatio_of_mem`); the only number whose interval reaches below its own power of two is the least
   of that power, and there rounding carries back up to it. -/
namespace ThemedSheets.Number.Binary64
open ThemedSheets.Text

/-! ## The nearest whole number -/

/-- The whole number is nearest to the rational, and even if another one is as near. -/
def IsNearest (q : ℚ) (m : ℕ) : Prop := |q - m| ≤ 1 / 2 ∧ (|q - m| = 1 / 2 → m % 2 = 0)

theorem isNearest_of_sub_le {q : ℚ} {m : ℕ} (hlow : (m : ℚ) - 1 / 2 ≤ q) (hhigh : q ≤ m + 1 / 2)
    (hodd : m % 2 = 1 → (m : ℚ) - 1 / 2 < q ∧ q < m + 1 / 2) : IsNearest q m := by
  refine ⟨abs_le.2 ⟨by linarith, by linarith⟩, fun htie => ?_⟩
  by_contra heven
  obtain ⟨hlow, hhigh⟩ := hodd (Nat.mod_two_ne_zero.1 heven)
  have hlt : |q - m| < 1 / 2 := abs_lt.2 ⟨by linarith, by linarith⟩
  exact hlt.ne htie

theorem IsNearest.unique {q : ℚ} {m n : ℕ} (hm : IsNearest q m) (hn : IsNearest q n) : m = n := by
  -- of two different numbers both lie half a unit away, and one of them is odd
  suffices hle : ∀ {m n : ℕ}, IsNearest q m → IsNearest q n → m < n → False by
    rcases lt_trichotomy m n with h | h | h
    · exact (hle hm hn h).elim
    · exact h
    · exact (hle hn hm h).elim
  clear hm hn m n
  intro m n hm hn hlt
  obtain ⟨-, hhigh⟩ := abs_le.1 hm.1
  obtain ⟨hlow, -⟩ := abs_le.1 hn.1
  have hsucc : (m : ℚ) + 1 ≤ n := by exact_mod_cast hlt
  have heq : (n : ℚ) = m + 1 := by linarith
  have hmid : q = m + 1 / 2 := by linarith
  have hmeven := hm.2 (by rw [hmid]; norm_num)
  have hneven := hn.2 (by rw [hmid, heq]; norm_num)
  have : n = m + 1 := by exact_mod_cast heq
  omega

theorem isNearest_nearest (num : ℕ) {den : ℕ} (hden : 0 < den) :
    IsNearest (num / den) (nearest num den) := by
  have hpos : (0 : ℚ) < den := by exact_mod_cast hden
  have hparts : (num : ℚ) = den * (num / den : ℕ) + (num % den : ℕ) := by
    exact_mod_cast (Nat.div_add_mod num den).symm
  have hq : (num : ℚ) / den = (num / den : ℕ) + ((num % den : ℕ) : ℚ) / den := by
    rw [hparts]
    field_simp
  have hr0 : (0 : ℚ) ≤ ((num % den : ℕ) : ℚ) / den := by positivity
  have hr1 : ((num % den : ℕ) : ℚ) / den < 1 := by
    rw [div_lt_one hpos]
    exact_mod_cast Nat.mod_lt num hden
  have hhalf : ∀ {a b : ℕ}, a < b → (a : ℚ) < b := fun h => by exact_mod_cast h
  rw [hq]
  unfold nearest
  dsimp only
  generalize num / den = q at *
  split
  · next hless =>
    have hlt : ((num % den : ℕ) : ℚ) / den < 1 / 2 := by
      rw [div_lt_div_iff₀ hpos (by norm_num)]
      have := hhalf hless
      push_cast at this
      linarith
    exact isNearest_of_sub_le (by linarith) (by linarith) fun _ => ⟨by linarith, by linarith⟩
  · split
    · next hmore =>
      have hgt : 1 / 2 < ((num % den : ℕ) : ℚ) / den := by
        rw [div_lt_div_iff₀ (by norm_num) hpos]
        have := hhalf hmore
        push_cast at this
        linarith
      refine isNearest_of_sub_le ?_ ?_ fun _ => ⟨?_, ?_⟩ <;> push_cast <;> linarith
    · next hless hmore =>
      have htie : ((num % den : ℕ) : ℚ) / den = 1 / 2 := by
        have : 2 * (num % den) = den := by omega
        rw [div_eq_div_iff hpos.ne' (by norm_num)]
        have : (2 : ℚ) * (num % den : ℕ) = den := by exact_mod_cast this
        linarith
      rw [htie]
      split
      · exact isNearest_of_sub_le (by linarith) (by linarith) fun hodd => by omega
      · exact isNearest_of_sub_le (by push_cast; linarith) (by push_cast; linarith)
          fun hodd => by omega

/-! ## The exponent -/

/-- The exponent at which a rational is measured: the mantissa is below `2 ^ 53`, and at least `2 ^ 52`
unless the exponent is the least one. -/
structure IsExponent (x : ℚ) (e : ℤ) : Prop where
  least : -1074 ≤ e
  lt : x / 2 ^ e < 2 ^ 53
  ge : e = -1074 ∨ 2 ^ 52 ≤ x / 2 ^ e

theorem div_zpow_succ (x : ℚ) (e : ℤ) : x / 2 ^ e = 2 * (x / 2 ^ (e + 1)) := by
  rw [zpow_add_one₀ (by norm_num)]
  field_simp

theorem IsExponent.unique {x : ℚ} {e f : ℤ} (he : IsExponent x e) (hf : IsExponent x f) :
    e = f := by
  suffices hle : ∀ {e f : ℤ}, IsExponent x e → IsExponent x f → e < f → False by
    rcases lt_trichotomy e f with h | h | h
    · exact (hle he hf h).elim
    · exact h
    · exact (hle hf he h).elim
  clear he hf e f
  intro e f he hf hlt
  have hge : 2 ^ 52 ≤ x / 2 ^ f := hf.ge.resolve_left (by have := he.least; omega)
  have hx : 2 ^ 52 * (2 : ℚ) ^ f ≤ x := (le_div_iff₀ (by positivity)).1 hge
  have hstep : (2 : ℚ) ^ (e + 1) ≤ 2 ^ f := zpow_le_zpow_right₀ (by norm_num) (by omega)
  have hlt' : x < 2 ^ 53 * (2 : ℚ) ^ e := (div_lt_iff₀ (by positivity)).1 he.lt
  rw [zpow_add_one₀ (by norm_num)] at hstep
  linarith

theorem div_zpow_spec {base : ℕ} (hbase : 0 < base) (num : ℕ) {den : ℕ} (hden : 0 < den) (e : ℤ) :
    let (n, d) := if 0 ≤ e then (num, den * Nat.pow base e.toNat)
      else (num * Nat.pow base (-e).toNat, den)
    0 < d ∧ (n : ℚ) / d = (num : ℚ) / den / (base : ℚ) ^ e := by
  split
  · next n d hparts =>
    split at hparts
    · next he =>
      obtain ⟨rfl, rfl⟩ := Prod.mk.inj hparts
      refine ⟨Nat.mul_pos hden (Nat.pow_pos hbase), ?_⟩
      have hpow : (base : ℚ) ^ e = base ^ e.toNat := by
        rw [← zpow_natCast, Int.toNat_of_nonneg he]
      rw [hpow, div_div, Nat.pow_eq]
      push_cast
      rfl
    · next he =>
      obtain ⟨rfl, rfl⟩ := Prod.mk.inj hparts
      refine ⟨hden, ?_⟩
      have hpow : (base : ℚ) ^ e = ((base : ℚ) ^ (-e).toNat)⁻¹ := by
        rw [← zpow_natCast, ← zpow_neg, Int.toNat_of_nonneg (by omega), neg_neg]
      rw [hpow, div_inv_eq_mul, Nat.pow_eq]
      push_cast
      ring

theorem inUnits_spec (num : ℕ) {den : ℕ} (hden : 0 < den) (e : ℤ) :
    0 < (inUnits num den e).2 ∧
      ((inUnits num den e).1 : ℚ) / (inUnits num den e).2 = (num : ℚ) / den / 2 ^ e := by
  have h := div_zpow_spec two_pos num hden e
  exact_mod_cast h

theorem isExponent_exponentFor {num den : ℕ} (hnum : 0 < num) (hden : 0 < den) :
    IsExponent (num / den) (exponentFor num den) := by
  have hpos : (0 : ℚ) < den := by exact_mod_cast hden
  set x : ℚ := num / den with hx
  have hxpos : 0 < x := by positivity
  -- the logarithms tell the power of two at the front within a factor of two
  have hlow : (2 : ℚ) ^ ((num.log2 : ℤ) - den.log2 - 1) < x := by
    have hn : (2 : ℚ) ^ (num.log2 : ℤ) ≤ num := by
      rw [zpow_natCast]
      exact_mod_cast Nat.log2_self_le hnum.ne'
    have hd : (den : ℚ) < 2 ^ ((den.log2 : ℤ) + 1) := by
      have := Nat.lt_log2_self (n := den)
      exact_mod_cast this
    rw [hx, lt_div_iff₀ hpos]
    calc (2 : ℚ) ^ ((num.log2 : ℤ) - den.log2 - 1) * den
        < 2 ^ ((num.log2 : ℤ) - den.log2 - 1) * 2 ^ ((den.log2 : ℤ) + 1) :=
          mul_lt_mul_of_pos_left hd (by positivity)
      _ = 2 ^ (num.log2 : ℤ) := by rw [← zpow_add₀ (by norm_num)]; congr 1; omega
      _ ≤ num := hn
  have hhigh : x < (2 : ℚ) ^ ((num.log2 : ℤ) - den.log2 + 1) := by
    have hn : (num : ℚ) < 2 ^ ((num.log2 : ℤ) + 1) := by
      have := Nat.lt_log2_self (n := num)
      exact_mod_cast this
    have hd : (2 : ℚ) ^ (den.log2 : ℤ) ≤ den := by
      rw [zpow_natCast]
      exact_mod_cast Nat.log2_self_le hden.ne'
    rw [hx, div_lt_iff₀ hpos]
    calc (num : ℚ) < 2 ^ ((num.log2 : ℤ) + 1) := hn
      _ = 2 ^ ((num.log2 : ℤ) - den.log2 + 1) * 2 ^ (den.log2 : ℤ) := by
          rw [← zpow_add₀ (by norm_num)]; congr 1; omega
      _ ≤ 2 ^ ((num.log2 : ℤ) - den.log2 + 1) * den :=
          mul_le_mul_of_nonneg_left hd (by positivity)
  unfold exponentFor
  dsimp only
  set e : ℤ := max ((num.log2 : ℤ) - den.log2 - 53) (-1074) with he
  obtain ⟨hd, hquot⟩ := inUnits_spec num hden e
  have hfloor : (inUnits num den e).1 / (inUnits num den e).2 < Nat.pow 2 53 ↔ x / 2 ^ e < 2 ^ 53 := by
    rw [← hquot, Nat.div_lt_iff_lt_mul hd, div_lt_iff₀ (by exact_mod_cast hd)]
    exact_mod_cast Iff.rfl
  split
  · next hlt =>
    refine ⟨le_max_right _ _, hfloor.1 hlt, ?_⟩
    rcases max_choice ((num.log2 : ℤ) - den.log2 - 53) (-1074) with hmax | hmax
    · refine Or.inr ((le_div_iff₀ (by positivity)).2 ?_)
      calc (2 : ℚ) ^ 52 * 2 ^ e = 2 ^ ((num.log2 : ℤ) - den.log2 - 1) := by
            rw [← zpow_natCast, ← zpow_add₀ (by norm_num), he, hmax]; congr 1; push_cast; ring
        _ ≤ x := hlow.le
    · exact Or.inl (he.trans hmax)
  · next hge =>
    have hge : 2 ^ 53 ≤ x / 2 ^ e := not_lt.1 fun h => hge (hfloor.2 h)
    have hhalf := div_zpow_succ x e
    refine ⟨by have := le_max_right ((num.log2 : ℤ) - den.log2 - 53) (-1074); omega, ?_,
      Or.inr (by linarith)⟩
    rw [div_lt_iff₀ (by positivity)]
    calc x < (2 : ℚ) ^ ((num.log2 : ℤ) - den.log2 + 1) := hhigh
      _ ≤ 2 ^ (53 + (e + 1)) := zpow_le_zpow_right₀ (by norm_num) (by
          have := le_max_left ((num.log2 : ℤ) - den.log2 - 53) (-1074); omega)
      _ = 2 ^ 53 * 2 ^ (e + 1) := by rw [zpow_add₀ (by norm_num)]; norm_num

/-! ## Fractions -/

/-- A number of the format: a finite one has its mantissa and exponent within their ranges. -/
def IsCanonical : Binary64 → Prop
  | .finite _ m e => m < 2 ^ 53 ∧ -1074 ≤ e ∧ e ≤ 971 ∧ (e = -1074 ∨ 2 ^ 52 ≤ m)
  | _ => True

/-- The rational lies in the interval that is read as a mantissa at an exponent: half a unit to either
side, a quarter below a power of two, the ends only for an even mantissa. -/
structure InInterval (m : ℕ) (e : ℤ) (x : ℚ) : Prop where
  low : (m : ℚ) - (if m = 2 ^ 52 ∧ -1074 < e then 1 / 4 else 1 / 2) ≤ x / 2 ^ e
  high : x / 2 ^ e ≤ m + 1 / 2
  odd : m % 2 = 1 → (m : ℚ) - 1 / 2 < x / 2 ^ e ∧ x / 2 ^ e < m + 1 / 2

section
variable {num den : ℕ} (hnum : 0 < num) (hden : 0 < den)
include hnum hden

theorem isCanonical_ofRatio (negative : Bool) : (ofRatio negative num den).IsCanonical := by
  have he := isExponent_exponentFor hnum hden
  obtain ⟨hd, hquot⟩ := inUnits_spec num hden (exponentFor num den)
  obtain ⟨hnear, -⟩ := isNearest_nearest (inUnits num den (exponentFor num den)).1 hd
  rw [hquot] at hnear
  obtain ⟨hbelow, habove⟩ := abs_le.1 hnear
  unfold ofRatio
  rw [if_neg hnum.ne']
  dsimp only
  generalize nearest _ _ = m at hbelow habove ⊢
  generalize exponentFor num den = e at he hbelow habove ⊢
  have hlt := he.lt
  have hm : m ≤ 2 ^ 53 := by
    have : (m : ℚ) < 2 ^ 53 + 1 := by linarith
    exact Nat.le_of_lt_succ (by exact_mod_cast this)
  have hge : e = -1074 ∨ 2 ^ 52 ≤ m := he.ge.imp_right fun hge => by
    have : (2 : ℚ) ^ 52 < m + 1 := by linarith
    exact Nat.le_of_lt_succ (by exact_mod_cast this)
  have hleast := he.least
  rw [Nat.pow_eq, Nat.pow_eq]
  by_cases hcarry : m = 2 ^ 53
  · simp only [hcarry, if_true]
    split
    · trivial
    · exact ⟨by norm_num, by omega, by omega, Or.inr le_rfl⟩
  · simp only [hcarry, if_false]
    split
    · trivial
    · exact ⟨by omega, hleast, by omega, hge⟩

/-- A fraction in the interval of a number is read as that number. -/
theorem ofRatio_of_mem {negative : Bool} {m : ℕ} {e : ℤ}
    (hcanonical : (finite negative m e).IsCanonical) (hm : 0 < m)
    (hmem : InInterval m e (num / den)) : ofRatio negative num den = .finite negative m e := by
  obtain ⟨hlt, hleast, hmost, hge⟩ := hcanonical
  have hmq : (1 : ℚ) ≤ m := by exact_mod_cast hm
  -- the exponent and the mantissa are told by what they have to satisfy
  have hread : ∀ {n : ℕ} {f : ℤ}, IsExponent ((num : ℚ) / den) f →
      IsNearest ((num : ℚ) / den / 2 ^ f) n →
      ofRatio negative num den =
        let carried := if n = 2 ^ 53 then (2 ^ 52, f + 1) else (n, f)
        if 971 < carried.2 then .infinite negative else .finite negative carried.1 carried.2 := by
    intro n f hf hn
    obtain rfl := (isExponent_exponentFor hnum hden).unique hf
    obtain ⟨hd, hquot⟩ := inUnits_spec num hden (exponentFor num den)
    have hnear := isNearest_nearest (inUnits num den (exponentFor num den)).1 hd
    rw [hquot] at hnear
    obtain rfl := hnear.unique hn
    unfold ofRatio
    rw [if_neg hnum.ne']
    rfl
  have hhigh := hmem.high
  by_cases hbelow : (num : ℚ) / den / 2 ^ e < 2 ^ 52 ∧ -1074 < e
  · -- only the least mantissa has fractions below its power of two
    obtain ⟨hless, hmore⟩ := hbelow
    have hmin : 2 ^ 52 ≤ m := hge.resolve_left (by omega)
    have hlow := hmem.low
    have hmeq : m = 2 ^ 52 := by
      by_contra hne
      rw [if_neg fun h => hne h.1] at hlow
      have : (2 : ℚ) ^ 52 + 1 ≤ m := by exact_mod_cast (by omega : 2 ^ 52 + 1 ≤ m)
      linarith
    subst hmeq
    rw [if_pos ⟨rfl, hmore⟩] at hlow
    push_cast at hlow
    have hdouble := div_zpow_succ ((num : ℚ) / den) (e - 1)
    rw [sub_add_cancel] at hdouble
    have hexp : IsExponent ((num : ℚ) / den) (e - 1) := by
      refine ⟨by omega, ?_, Or.inr ?_⟩ <;> rw [hdouble] <;> linarith
    have hnear : IsNearest ((num : ℚ) / den / 2 ^ (e - 1)) (2 ^ 53) := by
      refine isNearest_of_sub_le ?_ ?_ fun hodd => by norm_num at hodd
      · rw [hdouble]; push_cast; linarith
      · rw [hdouble]; push_cast; linarith
    rw [hread hexp hnear]
    simp only [if_true, sub_add_cancel]
    rw [if_neg (by omega)]
  · have hlow : (m : ℚ) - 1 / 2 ≤ (num : ℚ) / den / 2 ^ e := by
      have := hmem.low
      split at this <;> linarith
    have hexp : IsExponent ((num : ℚ) / den) e := by
      refine ⟨hleast, ?_, ?_⟩
      · rcases Nat.mod_two_eq_zero_or_one m with heven | hodd
        · have : (m : ℚ) + 2 ≤ 2 ^ 53 := by exact_mod_cast (by omega : m + 2 ≤ 2 ^ 53)
          linarith
        · have := (hmem.odd hodd).2
          have : (m : ℚ) + 1 ≤ 2 ^ 53 := by exact_mod_cast (by omega : m + 1 ≤ 2 ^ 53)
          linarith
      · by_cases hmore : -1074 < e
        · exact Or.inr (not_lt.1 fun hless => hbelow ⟨hless, hmore⟩)
        · exact Or.inl (by omega)
    rw [hread hexp (isNearest_of_sub_le hlow hhigh hmem.odd)]
    rw [if_neg (by omega : ¬ m = 2 ^ 53)]
    simp only
    rw [if_neg (by omega)]

end

/-! ## Decimal numbers -/

theorem isCanonical_zero (negative : Bool) : (zero negative).IsCanonical :=
  ⟨by norm_num, le_rfl, by norm_num, Or.inl rfl⟩

theorem isCanonical_ofDecimal (negative : Bool) (digits : ℕ) (exp : ℤ) :
    (ofDecimal negative digits exp).IsCanonical := by
  unfold ofDecimal
  split
  · exact isCanonical_zero negative
  · next hne =>
    dsimp only
    split
    · trivial
    · split
      · exact isCanonical_zero negative
      · split
        · exact isCanonical_ofRatio
            (Nat.mul_pos (Nat.pos_of_ne_zero hne) (Nat.pow_pos (by decide))) one_pos negative
        · exact isCanonical_ofRatio (Nat.pos_of_ne_zero hne) (Nat.pow_pos (by decide)) negative

theorem InInterval.range {negative : Bool} {m : ℕ} {e : ℤ} {x : ℚ}
    (hcanonical : (finite negative m e).IsCanonical) (hm : 0 < m) (h : InInterval m e x) :
    (2 : ℚ) ^ (-1075 : ℤ) ≤ x ∧ x ≤ 2 ^ (1024 : ℤ) := by
  obtain ⟨hlt, hleast, hmost, -⟩ := hcanonical
  have hmq : (1 : ℚ) ≤ m := by exact_mod_cast hm
  have hmq' : (m : ℚ) + 1 ≤ 2 ^ 53 := by exact_mod_cast hlt
  have hlow : 1 / 2 ≤ x / 2 ^ e := by
    have := h.low
    split at this <;> linarith
  have hhigh : x / 2 ^ e ≤ 2 ^ 53 := by
    have := h.high
    linarith
  constructor
  · calc (2 : ℚ) ^ (-1075 : ℤ) = 1 / 2 * 2 ^ (-1074 : ℤ) := by
          rw [show (-1075 : ℤ) = -1074 - 1 by norm_num, zpow_sub_one₀ (by norm_num)]
          ring
      _ ≤ 1 / 2 * 2 ^ e :=
          mul_le_mul_of_nonneg_left (zpow_le_zpow_right₀ (by norm_num) hleast) (by norm_num)
      _ ≤ x := (le_div_iff₀ (by positivity)).1 hlow
  · calc x ≤ 2 ^ 53 * 2 ^ e := (div_le_iff₀ (by positivity)).1 hhigh
      _ ≤ 2 ^ 53 * 2 ^ (971 : ℤ) :=
          mul_le_mul_of_nonneg_left (zpow_le_zpow_right₀ (by norm_num) hmost) (by norm_num)
      _ = 2 ^ (1024 : ℤ) := by
          rw [← zpow_natCast, ← zpow_add₀ (by norm_num)]
          rfl

theorem zpow_length_digitsOf {n : ℕ} (hn : 0 < n) :
    (10 : ℚ) ^ (((digitsOf 10 n).length : ℤ) - 1) ≤ n ∧
      (n : ℚ) < 10 ^ ((digitsOf 10 n).length : ℤ) := by
  have hlow := pow_length_digitsOf_le hn
  have hlen := length_digitsOf_pos n
  constructor
  · rw [show ((digitsOf 10 n).length : ℤ) - 1 = (((digitsOf 10 n).length - 1 : ℕ) : ℤ) by omega,
      zpow_natCast]
    exact_mod_cast hlow
  · rw [zpow_natCast]
    exact_mod_cast lt_pow_length_digitsOf n

theorem InInterval.digits_pos {negative : Bool} {m : ℕ} {e : ℤ} {digits : ℕ} {exp : ℤ}
    (hcanonical : (finite negative m e).IsCanonical) (hm : 0 < m)
    (h : InInterval m e (digits * 10 ^ exp)) : 0 < digits := by
  have hlow := (h.range hcanonical hm).1
  rcases Nat.eq_zero_or_pos digits with rfl | hpos
  · rw [Nat.cast_zero, zero_mul] at hlow
    exact absurd hlow (not_le.2 (by positivity))
  · exact hpos

/-- A decimal in the interval of a number is read as that number. -/
theorem ofDecimal_of_mem {negative : Bool} {m : ℕ} {e : ℤ} {digits : ℕ} {exp : ℤ}
    (hcanonical : (finite negative m e).IsCanonical) (hm : 0 < m)
    (hmem : InInterval m e (digits * 10 ^ exp)) :
    ofDecimal negative digits exp = .finite negative m e := by
  have hdigits := hmem.digits_pos hcanonical hm
  obtain ⟨hlow, hhigh⟩ := hmem.range hcanonical hm
  obtain ⟨hleast, hmost⟩ := zpow_length_digitsOf hdigits
  have hpos : (0 : ℚ) < 10 ^ exp := by positivity
  have hshort : ¬ 310 < ((digitsOf 10 digits).length : ℤ) + exp := by
    intro hlong
    have hpow : (10 : ℚ) ^ (310 : ℤ) ≤ 10 ^ (((digitsOf 10 digits).length : ℤ) - 1 + exp) :=
      zpow_le_zpow_right₀ (by norm_num) (by omega)
    rw [zpow_add₀ (by norm_num)] at hpow
    have hmul := mul_le_mul_of_nonneg_right hleast hpos.le
    have hbig : (2 : ℚ) ^ (1024 : ℤ) < 10 ^ (310 : ℤ) := by
      exact_mod_cast (by decide +kernel : 2 ^ 1024 < 10 ^ 310)
    exact absurd (hpow.trans (hmul.trans hhigh)) (not_le.2 hbig)
  have hlong : ¬ ((digitsOf 10 digits).length : ℤ) + exp < -330 := by
    intro hshort
    have hpow : (10 : ℚ) ^ (((digitsOf 10 digits).length : ℤ) + exp) ≤ 10 ^ (-331 : ℤ) :=
      zpow_le_zpow_right₀ (by norm_num) (by omega)
    rw [zpow_add₀ (by norm_num)] at hpow
    have hmul := mul_lt_mul_of_pos_right hmost hpos
    have hsmall : (10 : ℚ) ^ (-331 : ℤ) < 2 ^ (-1075 : ℤ) := by
      rw [zpow_neg, zpow_neg]
      refine inv_strictAnti₀ (by positivity) ?_
      exact_mod_cast (by decide +kernel : 2 ^ 1075 < 10 ^ 331)
    exact absurd hlow (not_le.2 ((hmul.trans_le hpow).trans hsmall))
  unfold ofDecimal
  rw [if_neg hdigits.ne']
  dsimp only
  rw [if_neg hshort, if_neg hlong]
  split
  · next hexp =>
    refine ofRatio_of_mem (Nat.mul_pos hdigits (Nat.pow_pos (by decide))) one_pos hcanonical hm ?_
    have hpow : (10 : ℚ) ^ exp = 10 ^ exp.toNat := by
      rw [← zpow_natCast, Int.toNat_of_nonneg hexp]
    push_cast
    rw [div_one, ← hpow]
    exact hmem
  · next hexp =>
    refine ofRatio_of_mem hdigits (Nat.pow_pos (by decide)) hcanonical hm ?_
    have hpow : (10 : ℚ) ^ exp = (10 ^ (-exp).toNat)⁻¹ := by
      rw [← zpow_natCast, ← zpow_neg, Int.toNat_of_nonneg (by omega), neg_neg]
    push_cast
    rw [div_eq_mul_inv, ← hpow]
    exact hmem

end ThemedSheets.Number.Binary64
