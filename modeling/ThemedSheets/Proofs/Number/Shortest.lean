import Mathlib.Data.Nat.Cast.Order.Field
import ThemedSheets.Proofs.Number.Rounding
/- The shortest digits of a number read back as it. The comparisons of `readsBack` tell in whole numbers
   whether a decimal lies in the interval of a number (`readsBack_iff`). On the grid of seventeen digits
   the gap is less than nine tenths of a unit, so of the two neighbours of a number one lies in its
   interval; hence the search for digits always ends with some that read back (`shortest_mem`). -/
namespace ThemedSheets.Number.Binary64
open ThemedSheets.Text

/-! ## Reading back -/

theorem mul_zpow_spec {base : ℕ} (hbase : 0 < base) (num : ℕ) (e : ℤ) :
    let (n, d) := if 0 ≤ e then (num * Nat.pow base e.toNat, 1) else (num, Nat.pow base (-e).toNat)
    0 < d ∧ (n : ℚ) / d = num * (base : ℚ) ^ e := by
  split
  · next n d hparts =>
    split at hparts
    · next he =>
      obtain ⟨rfl, rfl⟩ := Prod.mk.inj hparts
      have hpow : (base : ℚ) ^ e = base ^ e.toNat := by
        rw [← zpow_natCast, Int.toNat_of_nonneg he]
      refine ⟨one_pos, ?_⟩
      rw [hpow, Nat.pow_eq]
      push_cast
      exact div_one _
    · next he =>
      obtain ⟨rfl, rfl⟩ := Prod.mk.inj hparts
      have hpow : (base : ℚ) ^ e = ((base : ℚ) ^ (-e).toNat)⁻¹ := by
        rw [← zpow_natCast, ← zpow_neg, Int.toNat_of_nonneg (by omega), neg_neg]
      refine ⟨Nat.pow_pos hbase, ?_⟩
      rw [hpow, Nat.pow_eq]
      push_cast
      exact div_eq_mul_inv _ _

theorem readsBack_iff {m : ℕ} (hm : 0 < m) (e : ℤ) (c : ℕ) (k : ℤ) :
    readsBack m e c k = true ↔ InInterval m e (c * 10 ^ k) := by
  have hunit := mul_zpow_spec two_pos 1 e
  have hgrid := mul_zpow_spec (show 0 < 10 by norm_num) c k
  unfold readsBack interval
  rw [Nat.one_mul] at hunit
  dsimp only
  generalize (if 0 ≤ e then (Nat.pow 2 e.toNat, 1) else (1, Nat.pow 2 (-e).toNat)) = unit at *
  generalize (if 0 ≤ k then (c * Nat.pow 10 k.toNat, 1) else (c, Nat.pow 10 (-k).toNat)) = grid at *
  obtain ⟨un, ud⟩ := unit
  obtain ⟨gn, gd⟩ := grid
  obtain ⟨hud, hunit⟩ := hunit
  obtain ⟨hgd, hgrid⟩ := hgrid
  push_cast at hunit hgrid
  have hudq : (0 : ℚ) < ud := by exact_mod_cast hud
  have hgdq : (0 : ℚ) < gd := by exact_mod_cast hgd
  have hunq : (0 : ℚ) < un := by
    have : (0 : ℚ) < un / ud := by rw [hunit]; positivity
    exact (div_pos_iff_of_pos_right hudq).1 this
  have hplace : (c : ℚ) * 10 ^ k / 2 ^ e = gn * ud / (un * gd) := by
    rw [← hgrid, ← one_mul ((2 : ℚ) ^ e), ← hunit]
    field_simp
  have hden : (0 : ℚ) < un * gd := mul_pos hunq hgdq
  -- quarters of a unit compare with the decimal as whole numbers and as rationals alike
  have hle : ∀ {l : ℕ} {q : ℚ}, (l : ℚ) / 4 = q →
      (l * un * gd ≤ 4 * gn * ud ↔ q ≤ c * 10 ^ k / 2 ^ e) := by
    rintro l q rfl
    rw [hplace, div_le_div_iff₀ (by norm_num) hden, ← Nat.cast_le (α := ℚ)]
    push_cast
    constructor <;> intro h <;> linarith
  have hge : ∀ {l : ℕ} {q : ℚ}, (l : ℚ) / 4 = q →
      (4 * gn * ud ≤ l * un * gd ↔ c * 10 ^ k / 2 ^ e ≤ q) := by
    rintro l q rfl
    rw [hplace, div_le_div_iff₀ hden (by norm_num), ← Nat.cast_le (α := ℚ)]
    push_cast
    constructor <;> intro h <;> linarith
  have hhigh : ((4 * m + 2 : ℕ) : ℚ) / 4 = m + 1 / 2 := by push_cast; ring
  have hhalf : ((4 * m - 2 : ℕ) : ℚ) / 4 = m - 1 / 2 := by
    rw [Nat.cast_sub (by omega)]
    push_cast
    ring
  have hlow : ((4 * m - (if m = 2 ^ 52 ∧ -1074 < e then 1 else 2) : ℕ) : ℚ) / 4
      = m - (if m = 2 ^ 52 ∧ -1074 < e then 1 / 4 else 1 / 2) := by
    split
    · rw [Nat.cast_sub (by omega)]
      push_cast
      ring
    · exact hhalf
  dsimp only
  rw [Nat.pow_eq]
  split
  · next heven =>
    rw [Bool.and_eq_true, decide_eq_true_eq, decide_eq_true_eq, hle hlow, hge hhigh]
    exact ⟨fun ⟨hl, hh⟩ => ⟨hl, hh, fun hodd => by omega⟩, fun h => ⟨h.low, h.high⟩⟩
  · next hodd =>
    -- an odd mantissa is no power of two, so both ends are half a unit away
    have hmin : ¬ (m = 2 ^ 52 ∧ -1074 < e) := fun h => hodd (by rw [h.1]; norm_num)
    rw [if_neg hmin, Bool.and_eq_true, decide_eq_true_eq, decide_eq_true_eq, ← not_le, ← not_le,
      hge hhalf, hle hhigh, not_le, not_le]
    constructor
    · rintro ⟨hl, hh⟩
      exact ⟨by rw [if_neg hmin]; exact hl.le, hh.le, fun _ => ⟨hl, hh⟩⟩
    · exact fun h => h.odd (Nat.mod_two_ne_zero.1 hodd)

/-! ## The search -/

theorem nearest_eq (num den : ℕ) : nearest num den = num / den ∨ nearest num den = num / den + 1 := by
  unfold nearest
  dsimp only
  split
  · exact Or.inl rfl
  · split
    · exact Or.inr rfl
    · split
      · exact Or.inl rfl
      · exact Or.inr rfl

theorem readsBack_of_onGrid? {m : ℕ} {e : ℤ} {num den n c : ℕ} {k : ℤ}
    (h : onGrid? m e num den n = some (c, k)) : readsBack m e c k = true := by
  unfold onGrid? at h
  dsimp only at h
  split at h
  · next hbelow habove =>
    obtain ⟨rfl, rfl⟩ := Prod.mk.inj (Option.some.inj h)
    rcases nearest_eq _ _ with heq | heq
    · rw [heq]
      exact hbelow
    · rw [heq]
      exact habove
  · next hbelow _ =>
    obtain ⟨rfl, rfl⟩ := Prod.mk.inj (Option.some.inj h)
    exact hbelow
  · next _ habove =>
    obtain ⟨rfl, rfl⟩ := Prod.mk.inj (Option.some.inj h)
    exact habove
  · cases h

theorem zpow_leadingPower_le {num den : ℕ} (hnum : 0 < num) (hden : 0 < den) :
    (10 : ℚ) ^ leadingPower num den ≤ num / den := by
  have hpos : (0 : ℚ) < den := by exact_mod_cast hden
  unfold leadingPower
  split
  · next hle =>
    have hquot : 0 < num / den := Nat.div_pos hle hden
    calc (10 : ℚ) ^ (((digitsOf 10 (num / den)).length : ℤ) - 1) ≤ (num / den : ℕ) :=
          (zpow_length_digitsOf hquot).1
      _ ≤ num / den := Nat.cast_div_le
  · next hlt =>
    have hfloor := lt_pow_length_digitsOf ((den - 1) / num)
    rw [Nat.div_lt_iff_lt_mul hnum] at hfloor
    have hbound : (den : ℚ) ≤ 10 ^ (digitsOf 10 ((den - 1) / num)).length * num := by
      exact_mod_cast (by omega : den ≤ 10 ^ (digitsOf 10 ((den - 1) / num)).length * num)
    rw [zpow_neg, zpow_natCast, inv_le_iff_one_le_mul₀ (by positivity), ← mul_div_right_comm,
      one_le_div hpos]
    exact hbound.trans_eq (mul_comm _ _)

section
variable {negative : Bool} {m : ℕ} {e : ℤ} (hcanonical : (finite negative m e).IsCanonical)
  (hm : 0 < m)
include hcanonical hm

/-- On the grid of seventeen digits a neighbour of the number reads back. -/
theorem onGrid?_seventeen {num den : ℕ} (hden : 0 < den)
    (hvalue : (num : ℚ) / den = m * 2 ^ e) : onGrid? m e num den 17 ≠ none := by
  obtain ⟨hlt, -⟩ := hcanonical
  have hmq : (1 : ℚ) ≤ m := by exact_mod_cast hm
  have hunit : (0 : ℚ) < 2 ^ e := by positivity
  have hnum : 0 < num := by
    rcases Nat.eq_zero_or_pos num with rfl | hpos
    · have : (0 : ℚ) < m * 2 ^ e := by positivity
      rw [← hvalue] at this
      norm_num at this
    · exact hpos
  intro hnone
  unfold onGrid? at hnone
  dsimp only at hnone
  have hlead := zpow_leadingPower_le hnum hden
  set k : ℤ := leadingPower num den - ((17 : ℕ) - 1) with hk
  have hgrid := div_zpow_spec (show 0 < 10 by norm_num) num hden k
  generalize (if 0 ≤ k then (num, den * Nat.pow 10 k.toNat)
    else (num * Nat.pow 10 (-k).toNat, den)) = parts at *
  obtain ⟨x, y⟩ := parts
  obtain ⟨hy, hquot⟩ := hgrid
  push_cast at hquot
  have hyq : (0 : ℚ) < y := by exact_mod_cast hy
  have hgap : (0 : ℚ) < 10 ^ k := by positivity
  -- the gap of the grid in units of the number
  set t : ℚ := 10 ^ k / 2 ^ e with ht
  have htpos : 0 < t := by positivity
  have htle : t * 10 ^ 16 ≤ m := by
    rw [ht, div_mul_eq_mul_div, div_le_iff₀ hunit, ← hvalue]
    calc (10 : ℚ) ^ k * 10 ^ 16 = 10 ^ leadingPower num den := by
          rw [← zpow_natCast, ← zpow_add₀ (by norm_num), hk]
          congr 1
          push_cast
          ring
      _ ≤ num / den := hlead
  have hbelow : ((x / y : ℕ) : ℚ) * t ≤ m := by
    have hfloor : ((x / y : ℕ) : ℚ) ≤ x / y := Nat.cast_div_le
    have hmul := mul_le_mul_of_nonneg_right hfloor htpos.le
    have hone : (x : ℚ) / y * t = m := by
      rw [hquot, hvalue, ht]
      field_simp
    linarith
  have habove : (m : ℚ) < ((x / y : ℕ) : ℚ) * t + t := by
    have hfloor : (x : ℚ) / y < (x / y : ℕ) + 1 := by
      rw [div_lt_iff₀ hyq]
      exact_mod_cast Nat.lt_mul_of_div_lt (Nat.lt_succ_self (x / y)) hy
    have hmul := mul_lt_mul_of_pos_right hfloor htpos
    have hone : (x : ℚ) / y * t = m := by
      rw [hquot, hvalue, ht]
      field_simp
    linarith
  have hread : ∀ c : ℕ, readsBack m e c k = true ↔ InInterval m e (c * 10 ^ k) :=
    fun c => readsBack_iff hm e c k
  have hplace : ∀ c : ℕ, (c : ℚ) * 10 ^ k / 2 ^ e = c * t := fun c => by rw [ht, mul_div_assoc]
  have hnot : ¬ InInterval m e ((x / y : ℕ) * 10 ^ k) ∧
      ¬ InInterval m e ((x / y + 1 : ℕ) * 10 ^ k) := by
    rw [← hread, ← hread]
    split at hnone
    · cases hnone
    · cases hnone
    · cases hnone
    · next h1 h2 => exact ⟨by rw [h1]; exact Bool.false_ne_true, by rw [h2]; exact Bool.false_ne_true⟩
  have hmq' : (m : ℚ) + 1 ≤ 2 ^ 53 := by exact_mod_cast hlt
  by_cases hnear : ((x / y : ℕ) : ℚ) * t + t < m + 1 / 2
  · -- the neighbour above is near enough
    refine hnot.2 ⟨?_, ?_, fun _ => ⟨?_, ?_⟩⟩ <;> rw [hplace] <;> push_cast
    · split <;> linarith
    · linarith
    · linarith
    · linarith
  · have hmin : ¬ (m = 2 ^ 52 ∧ -1074 < e) := by
      rintro ⟨rfl, -⟩
      push_cast at *
      linarith
    refine hnot.1 ⟨?_, ?_, fun _ => ⟨?_, ?_⟩⟩ <;> rw [hplace]
    · rw [if_neg hmin]
      linarith
    · linarith
    · linarith
    · linarith

/-- **The shortest digits of a number lie in its interval.** -/
theorem shortest_mem : InInterval m e ((shortest m e).1 * 10 ^ (shortest m e).2) := by
  rw [← readsBack_iff hm]
  have hparts := mul_zpow_spec two_pos m e
  unfold shortest
  generalize (if 0 ≤ e then (m * Nat.pow 2 e.toNat, 1) else (m, Nat.pow 2 (-e).toNat)) = parts at *
  obtain ⟨num, den⟩ := parts
  obtain ⟨hden, hvalue⟩ := hparts
  push_cast at hvalue
  dsimp only
  cases hfound : (List.range 17).findSome? fun i => onGrid? m e num den (i + 1) with
  | none =>
    rw [List.findSome?_eq_none_iff] at hfound
    exact absurd (hfound 16 (by simp)) (onGrid?_seventeen hcanonical hm hden hvalue)
  | some found =>
    obtain ⟨i, -, hi⟩ := List.exists_of_findSome?_eq_some hfound
    exact readsBack_of_onGrid? hi

theorem shortest_pos : 0 < (shortest m e).1 :=
  (shortest_mem hcanonical hm).digits_pos hcanonical hm

end

end ThemedSheets.Number.Binary64
