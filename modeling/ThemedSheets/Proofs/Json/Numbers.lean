import ThemedSheets.Json.Printer
import ThemedSheets.Json.Reader
import ThemedSheets.Proofs.Number.Shortest
/- Numbers and words of JSON text. A number is spelled by its whole part, a fraction and an exponent
   (`Spelling`); a spelling is read up to its end wherever something else follows it, and as a float it
   is worth its digits times its power of ten. The layout of shortest digits is a spelling of the same
   worth, so what is written for a whole number or for a float of the format is read as it. Whatever is
   read without quotes, brackets and braces is such a scalar. -/
namespace ThemedSheets.Json
open ThemedSheets.Text ThemedSheets.Number ThemedSheets.Number.Binary64

/-! ## What ends a number -/

/-- What follows does not go on with a number. -/
def EndsNumber (rest : List Char) : Prop :=
  ∀ c ∈ rest.head?, c.isDigit = false ∧ c ≠ '.' ∧ c ≠ 'e' ∧ c ≠ 'E'

theorem endsNumber_nil : EndsNumber [] := by simp [EndsNumber]

theorem endsNumber_cons {c : Char} (h : c.isDigit = false ∧ c ≠ '.' ∧ c ≠ 'e' ∧ c ≠ 'E')
    (rest : List Char) : EndsNumber (c :: rest) := by
  simpa [EndsNumber] using h

def EndsDigits (rest : List Char) : Prop := ∀ c ∈ rest.head?, c.isDigit = false

theorem EndsNumber.endsDigits {rest : List Char} (h : EndsNumber rest) : EndsDigits rest :=
  fun c hc => (h c hc).1

theorem takeDigits_append {ds rest : List Char} (hds : ∀ c ∈ ds, c.isDigit = true)
    (hrest : EndsDigits rest) : takeDigits (ds ++ rest) = (ds, rest) := by
  have htake : rest.takeWhile Char.isDigit = [] := by
    cases rest with
    | nil => rfl
    | cons c rest => simp [hrest c rfl]
  have hdrop : rest.dropWhile Char.isDigit = rest := by
    cases rest with
    | nil => rfl
    | cons c rest => simp [hrest c rfl]
  rw [takeDigits, List.takeWhile_append_of_pos hds, List.dropWhile_append_of_pos hds, htake, hdrop,
    List.append_nil]

theorem isDigit_of_mem_zeros {n : ℕ} {c : Char} (h : c ∈ List.replicate n '0') :
    c.isDigit = true := by
  rw [List.eq_of_mem_replicate h]
  rfl

/-! ## Parts of a number -/

/-- The whole part of a number, one zero or all digits, and what follows it. -/
def wholePart (cs : List Char) : List Char × List Char :=
  match cs with
  | '0' :: rest => (['0'], rest)
  | _ => takeDigits cs

/-- A number whose whole part is known. -/
def fromWhole (negative : Bool) (ds rest : List Char) : Except ReadError (Json × List Char) :=
  if ds.isEmpty then .error .malformed
  else
    let (fraction, rest) := takeFraction rest
    let (exponent, rest) := takeExponent rest
    match fraction, exponent with
    | none, none =>
      if maxDecimalDigits < ds.length then .error .numberTooLong
      else .ok (.int (if negative then -(decimalValue ds : Int) else decimalValue ds), rest)
    | f, e =>
      .ok (.float (ofDecimal negative (decimalValue (ds ++ f.getD []))
        (e.getD 0 - (f.getD []).length)), rest)

theorem unsignedNumber_eq (negative : Bool) (cs : List Char) :
    unsignedNumber negative cs = fromWhole negative (wholePart cs).1 (wholePart cs).2 := rfl

theorem wholePart_append {whole rest : List Char} (hwhole : whole ≠ [])
    (hdigits : ∀ c ∈ whole, c.isDigit = true)
    (hhead : whole = ['0'] ∨ whole.head? ≠ some '0') (hrest : EndsDigits rest) :
    wholePart (whole ++ rest) = (whole, rest) := by
  rcases hhead with rfl | hhead
  · rfl
  · obtain ⟨c, cs, rfl⟩ := List.exists_cons_of_ne_nil hwhole
    have hc : c ≠ '0' := fun h => hhead (by rw [h]; rfl)
    unfold wholePart
    split
    · next hzero => exact absurd (List.cons.inj hzero).1 hc
    · exact takeDigits_append hdigits hrest

/-! ## Spellings -/

/-- A number without its sign as it is written. -/
structure Spelling where
  whole : List Char
  fraction : Option (List Char) := none
  exponent : Option Int := none

namespace Spelling

def fractionText : Option (List Char) → List Char
  | none => []
  | some ds => '.' :: ds

/-- An exponent with its letter, its sign and at least two digits. -/
def exponentText : Option Int → List Char
  | none => []
  | some n => 'e' :: (if n < 0 then '-' else '+') :: paddedDigits 10 2 n.natAbs

def text (s : Spelling) : List Char :=
  s.whole ++ (fractionText s.fraction ++ exponentText s.exponent)

def digits (s : Spelling) : Nat := decimalValue (s.whole ++ s.fraction.getD [])

/-- The power of ten at the last digit of a spelling. -/
def power (s : Spelling) : Int := s.exponent.getD 0 - (s.fraction.getD []).length

/-- The spelling has digits where it needs them, and no zero in front of others. -/
structure IsWellFormed (s : Spelling) : Prop where
  whole_ne_nil : s.whole ≠ []
  whole_digits : ∀ c ∈ s.whole, c.isDigit = true
  whole_head : s.whole = ['0'] ∨ s.whole.head? ≠ some '0'
  fraction : ∀ ds, s.fraction = some ds → ds ≠ [] ∧ ∀ c ∈ ds, c.isDigit = true

theorem isDigit_of_mem_paddedDigits {width n : Nat} {c : Char} (h : c ∈ paddedDigits 10 width n) :
    c.isDigit = true :=
  (List.mem_append.1 h).elim isDigit_of_mem_zeros isDigit_of_mem_digitsOf

theorem decimalValue_paddedDigits (width n : Nat) : decimalValue (paddedDigits 10 width n) = n := by
  rw [paddedDigits, decimalValue_zeros_append, decimalValue_digitsOf]

theorem takeExponent_text (x : Option Int) {rest : List Char} (hrest : EndsNumber rest) :
    takeExponent (exponentText x ++ rest) = (x, rest) := by
  cases x with
  | none =>
    cases rest with
    | nil => rfl
    | cons c rest =>
      obtain ⟨-, -, he, hE⟩ := hrest c rfl
      simp [exponentText, takeExponent, he, hE]
  | some n =>
    have htake : takeDigits (paddedDigits 10 2 n.natAbs ++ rest) = (paddedDigits 10 2 n.natAbs, rest) :=
      takeDigits_append (fun _ => isDigit_of_mem_paddedDigits) hrest.endsDigits
    have hne : (paddedDigits 10 2 n.natAbs).isEmpty = false := by
      simp [paddedDigits, digitsOf_ne_nil]
    have hvalue := decimalValue_paddedDigits 2 n.natAbs
    by_cases hn : n < 0
    · have hsigned : -(n.natAbs : Int) = n := by omega
      simp only [exponentText, hn, if_true, List.cons_append, takeExponent, true_or, takeSign, htake,
        hne, Bool.false_eq_true, if_false, hvalue, hsigned]
    · have hsigned : (n.natAbs : Int) = n := by omega
      simp only [exponentText, hn, if_true, if_false, List.cons_append, takeExponent, true_or,
        takeSign, htake, hne, Bool.false_eq_true, hvalue, hsigned]

theorem endsDigits_exponentText (x : Option Int) {rest : List Char} (hrest : EndsNumber rest) :
    EndsDigits (exponentText x ++ rest) := by
  cases x with
  | none => exact hrest.endsDigits
  | some n =>
    intro c hc
    obtain rfl : 'e' = c := by simpa [exponentText] using hc
    rfl

theorem takeFraction_text {f : Option (List Char)} {rest : List Char}
    (hf : ∀ ds, f = some ds → ds ≠ [] ∧ ∀ c ∈ ds, c.isDigit = true)
    (hrest : EndsDigits rest) (hpoint : rest.head? ≠ some '.') :
    takeFraction (fractionText f ++ rest) = (f, rest) := by
  cases f with
  | none =>
    show takeFraction rest = (none, rest)
    unfold takeFraction
    split
    · exact absurd rfl hpoint
    · rfl
  | some ds =>
    obtain ⟨hne, hds⟩ := hf ds rfl
    simp [fractionText, takeFraction, takeDigits_append hds hrest, hne]

theorem head?_exponentText (x : Option Int) {rest : List Char} (hrest : EndsNumber rest) :
    (exponentText x ++ rest).head? ≠ some '.' := by
  cases x with
  | none => exact fun h => (hrest '.' h).2.1 rfl
  | some n => simp [exponentText]

theorem endsDigits_fractionText {f : Option (List Char)} {rest : List Char}
    (hrest : EndsDigits rest) : EndsDigits (fractionText f ++ rest) := by
  cases f with
  | none => exact hrest
  | some ds =>
    intro c hc
    obtain rfl : '.' = c := by simpa [fractionText] using hc
    rfl

section
variable {s : Spelling} (h : s.IsWellFormed) (negative : Bool) {rest : List Char}
  (hrest : EndsNumber rest)
include h hrest

theorem unsignedNumber_text :
    unsignedNumber negative (s.text ++ rest) =
      match s.fraction, s.exponent with
      | none, none =>
        if maxDecimalDigits < s.whole.length then .error .numberTooLong
        else .ok (.int (if negative then -(decimalValue s.whole : Int) else decimalValue s.whole),
          rest)
      | _, _ => .ok (.float (ofDecimal negative s.digits s.power), rest) := by
  have hexponent := takeExponent_text s.exponent hrest
  have hfraction := takeFraction_text h.fraction (endsDigits_exponentText s.exponent hrest)
    (head?_exponentText s.exponent hrest)
  have hwhole := wholePart_append h.whole_ne_nil h.whole_digits h.whole_head
    (endsDigits_fractionText (f := s.fraction) (endsDigits_exponentText s.exponent hrest))
  have hempty : s.whole.isEmpty = false := by simpa using h.whole_ne_nil
  rw [text, List.append_assoc, List.append_assoc, unsignedNumber_eq, hwhole, fromWhole, hempty,
    hfraction]
  dsimp only
  rw [hexponent]
  rcases s with ⟨whole, _ | ds, _ | n⟩ <;> rfl

theorem unsignedNumber_float (hfloat : s.fraction ≠ none ∨ s.exponent ≠ none) :
    unsignedNumber negative (s.text ++ rest)
      = .ok (.float (ofDecimal negative s.digits s.power), rest) := by
  rw [unsignedNumber_text h negative hrest]
  rcases s with ⟨whole, _ | ds, _ | n⟩
  · simp at hfloat
  · rfl
  · rfl
  · rfl

end

end Spelling

/-! ## Layouts -/

/-- The spelling is that of a float: it writes a text and is worth a rational. -/
structure Spelling.IsLayout (s : Spelling) (text : List Char) (worth : ℚ) : Prop
    extends s.IsWellFormed where
  float : s.fraction ≠ none ∨ s.exponent ≠ none
  text_eq : s.text = text
  worth_eq : (s.digits : ℚ) * 10 ^ s.power = worth

section
variable {ds : List Char} (hne : ds ≠ []) (hdigits : ∀ c ∈ ds, c.isDigit = true)
  (hhead : ds.head? ≠ some '0')
include hne hdigits

theorem isLayout_below_one {point : ℤ} (hlow : -4 < point) (hhigh : point ≤ 0) :
    Spelling.IsLayout ⟨['0'], some (List.replicate (-point).toNat '0' ++ ds), none⟩
      (layout ds point) (decimalValue ds * 10 ^ (point - ds.length)) where
  whole_ne_nil := by simp
  whole_digits := by simp
  whole_head := Or.inl rfl
  fraction := by
    rintro _ ⟨⟩
    refine ⟨by simp [hne], fun c hc => (List.mem_append.1 hc).elim isDigit_of_mem_zeros (hdigits c)⟩
  float := Or.inl (by simp)
  text_eq := by
    have hpositional : -4 < point ∧ point ≤ 16 := ⟨hlow, by omega⟩
    simp [Spelling.text, Spelling.fractionText, Spelling.exponentText, layout, hpositional, hhigh]
  worth_eq := by
    have hpower : point - ds.length = -(((-point).toNat + ds.length : ℕ) : ℤ) := by omega
    simp [Spelling.digits, Spelling.power, ← List.replicate_succ, ← List.cons_append, hpower,
      decimalValue_zeros_append]

include hhead

theorem isLayout_whole {point : ℤ} (hlow : 0 < point) (hhigh : point ≤ 16)
    (hlong : ds.length ≤ point.toNat) :
    Spelling.IsLayout ⟨ds ++ List.replicate (point.toNat - ds.length) '0', some ['0'], none⟩
      (layout ds point) (decimalValue ds * 10 ^ (point - ds.length)) where
  whole_ne_nil := by simp [hne]
  whole_digits := fun c hc => (List.mem_append.1 hc).elim (hdigits c) isDigit_of_mem_zeros
  whole_head := Or.inr (by rwa [List.head?_append_of_ne_nil _ hne])
  fraction := by
    rintro _ ⟨⟩
    exact ⟨by simp, by simp⟩
  float := Or.inl (by simp)
  text_eq := by
    have hpositional : -4 < point ∧ point ≤ 16 := ⟨by omega, hhigh⟩
    simp [Spelling.text, Spelling.fractionText, Spelling.exponentText, layout, hpositional,
      not_le.2 hlow, hlong]
  worth_eq := by
    have hpower : point - ds.length = ((point.toNat - ds.length : ℕ) : ℤ) := by omega
    have hone : decimalValue (ds ++ List.replicate (point.toNat - ds.length) '0' ++ ['0'])
        = decimalValue ds * 10 ^ (point.toNat - ds.length) * 10 :=
      (decimalValue_append_zeros _ 1).trans (by rw [decimalValue_append_zeros, pow_one])
    simp only [Spelling.digits, Spelling.power, Option.getD_some, Option.getD_none, hone, hpower]
    push_cast
    rw [zpow_natCast, zero_sub, List.length_singleton, Nat.cast_one, zpow_neg_one, mul_assoc,
      mul_inv_cancel₀ (by norm_num), mul_one]

theorem isLayout_parted {point : ℤ} (hlow : 0 < point) (hhigh : point ≤ 16)
    (hshort : point.toNat < ds.length) :
    Spelling.IsLayout ⟨ds.take point.toNat, some (ds.drop point.toNat), none⟩
      (layout ds point) (decimalValue ds * 10 ^ (point - ds.length)) where
  whole_ne_nil := by
    rw [ne_eq, List.take_eq_nil_iff, not_or]
    exact ⟨by omega, hne⟩
  whole_digits := fun c hc => hdigits c (List.mem_of_mem_take hc)
  whole_head := Or.inr (by rwa [List.head?_take, if_neg (by omega)])
  fraction := by
    rintro _ ⟨⟩
    refine ⟨?_, fun c hc => hdigits c (List.mem_of_mem_drop hc)⟩
    rw [ne_eq, List.drop_eq_nil_iff]
    omega
  float := Or.inl (by simp)
  text_eq := by
    have hpositional : -4 < point ∧ point ≤ 16 := ⟨by omega, hhigh⟩
    simp [Spelling.text, Spelling.fractionText, Spelling.exponentText, layout, hpositional,
      not_le.2 hlow, not_le.2 hshort]
  worth_eq := by
    have hpower : point - ds.length = -((ds.length - point.toNat : ℕ) : ℤ) := by omega
    simp [Spelling.digits, Spelling.power, hpower]

theorem exists_isLayout_exponent {point : ℤ} (hfar : ¬ (-4 < point ∧ point ≤ 16)) :
    ∃ s : Spelling, s.IsLayout (layout ds point) (decimalValue ds * 10 ^ (point - ds.length)) := by
  obtain ⟨d, tail, rfl⟩ := List.exists_cons_of_ne_nil hne
  rw [List.forall_mem_cons] at hdigits
  have hfirst : d ≠ '0' := by simpa using hhead
  cases tail with
  | nil =>
    refine ⟨⟨[d], none, some (point - 1)⟩, ⟨by simp, by simpa using hdigits.1,
      Or.inr (by simpa using hfirst), by simp⟩, Or.inr (by simp), ?_, ?_⟩
    · simp [Spelling.text, Spelling.fractionText, Spelling.exponentText, layout, hfar]
    · simp [Spelling.digits, Spelling.power]
  | cons next tail =>
    refine ⟨⟨[d], some (next :: tail), some (point - 1)⟩, ⟨by simp, by simpa using hdigits.1,
      Or.inr (by simpa using hfirst), ?_⟩, Or.inr (by simp), ?_, ?_⟩
    · rintro _ ⟨⟩
      exact ⟨by simp, hdigits.2⟩
    · simp [Spelling.text, Spelling.fractionText, Spelling.exponentText, layout, hfar]
    · have hpower : point - 1 - (next :: tail).length = point - (d :: next :: tail).length := by
        simp only [List.length_cons]
        push_cast
        omega
      rw [Spelling.digits, Spelling.power, ← hpower]
      rfl

/-- **Digits laid out at a point are a spelling of what the digits are worth there.** -/
theorem exists_isLayout (point : ℤ) :
    ∃ s : Spelling, s.IsLayout (layout ds point) (decimalValue ds * 10 ^ (point - ds.length)) := by
  by_cases hpositional : -4 < point ∧ point ≤ 16
  · by_cases hsmall : point ≤ 0
    · exact ⟨_, isLayout_below_one hne hdigits hpositional.1 hsmall⟩
    · by_cases hlong : ds.length ≤ point.toNat
      · exact ⟨_, isLayout_whole hne hdigits hhead (by omega) hpositional.2 hlong⟩
      · exact ⟨_, isLayout_parted hne hdigits hhead (by omega) hpositional.2 (by omega)⟩
  · exact exists_isLayout_exponent hne hdigits hhead hpositional

end

/-! ## Signs and words -/

def signed (negative : Bool) (cs : List Char) : List Char := (if negative then ['-'] else []) ++ cs

theorem scalar_signed (negative : Bool) {c : Char} (hc : c.isDigit = true) (cs : List Char) :
    scalar (signed negative (c :: cs)) = unsignedNumber negative (c :: cs) := by
  have hne : ∀ {d : Char}, d.isDigit = false → d ≠ c := fun hd h => by simp [h, hc] at hd
  have hminus : c ≠ '-' := (hne rfl).symm
  cases negative
  · simp [scalar, signed, words, afterStart?, hne, hminus]
  · simp [scalar, signed, words, afterStart?, hne]

theorem Spelling.scalar_text {s : Spelling} (h : s.IsWellFormed) (negative : Bool)
    (rest : List Char) :
    scalar (signed negative s.text ++ rest) = unsignedNumber negative (s.text ++ rest) := by
  obtain ⟨c, cs, hwhole⟩ := List.exists_cons_of_ne_nil h.whole_ne_nil
  have hc : c.isDigit = true := h.whole_digits c (by simp [hwhole])
  rw [signed, Spelling.text, hwhole, List.append_assoc]
  exact scalar_signed negative hc _

/-- **A whole number of no more digits than are read is read back.** -/
theorem scalar_intText {i : ℤ} (h : (digitsOf 10 i.natAbs).length ≤ maxDecimalDigits)
    {rest : List Char} (hrest : EndsNumber rest) : scalar (intText i ++ rest) = .ok (.int i, rest) := by
  have hwell : Spelling.IsWellFormed ⟨digitsOf 10 i.natAbs, none, none⟩ := by
    refine ⟨digitsOf_ne_nil _, fun c => isDigit_of_mem_digitsOf, ?_, by simp⟩
    rcases Nat.eq_zero_or_pos i.natAbs with hzero | hpos
    · rw [hzero]
      exact Or.inl rfl
    · exact Or.inr (head?_digitsOf_ne_zero hpos)
  have htext : intText i = signed (i < 0) (Spelling.text ⟨digitsOf 10 i.natAbs, none, none⟩) := by
    by_cases hneg : i < 0 <;>
      simp [intText, signed, hneg, Spelling.text, Spelling.fractionText, Spelling.exponentText]
  have hsigned : (if decide (i < 0) = true then -((i.natAbs : ℕ) : ℤ) else (i.natAbs : ℕ)) = i := by
    simp only [decide_eq_true_eq]
    split <;> omega
  rw [htext, Spelling.scalar_text hwell, Spelling.unsignedNumber_text hwell _ hrest]
  dsimp only
  rw [if_neg (Nat.not_lt.2 h), decimalValue_digitsOf, hsigned]

/-- **A float of the format is read back.** -/
theorem scalar_text_float {x : Binary64} (h : x.IsCanonical) {rest : List Char}
    (hrest : EndsNumber rest) :
    scalar (x.text jsonWords ++ rest) = .ok (.float x, rest) := by
  cases x with
  | nan => rfl
  | infinite negative => cases negative <;> rfl
  | finite negative m e =>
    rcases Nat.eq_zero_or_pos m with rfl | hm
    · obtain ⟨-, -, -, he⟩ := h
      obtain rfl : e = -1074 := he.resolve_right (by norm_num)
      have hwell : Spelling.IsWellFormed ⟨['0'], some ['0'], none⟩ :=
        ⟨by simp, by simp, Or.inl rfl, by rintro _ ⟨⟩; exact ⟨by simp, by simp⟩⟩
      have htext : (finite negative 0 (-1074)).text jsonWords
          = signed negative (Spelling.text ⟨['0'], some ['0'], none⟩) := rfl
      rw [htext, Spelling.scalar_text hwell, Spelling.unsignedNumber_float hwell _ hrest (Or.inl (by simp))]
      rfl
    · obtain ⟨hne, hdigits, hhead, z, hlength, hworth⟩ := trimZeros_spec (shortest_pos h hm)
      obtain ⟨s, hs⟩ := exists_isLayout hne hdigits hhead
        ((digitsOf 10 (shortest m e).1).length + (shortest m e).2)
      have htext : (finite negative m e).text jsonWords = signed negative s.text := by
        rw [hs.text_eq, Binary64.text]
        simp [hm.ne', signed]
      have hmem : InInterval m e (s.digits * 10 ^ s.power) := by
        have hpower : ((digitsOf 10 (shortest m e).1).length + (shortest m e).2
            - (trimZeros (digitsOf 10 (shortest m e).1)).length : ℤ) = z + (shortest m e).2 := by
          omega
        have hsame : (s.digits : ℚ) * 10 ^ s.power
            = (shortest m e).1 * 10 ^ (shortest m e).2 := by
          rw [hs.worth_eq, hpower, zpow_add₀ (by norm_num), zpow_natCast, ← mul_assoc]
          exact_mod_cast congrArg (fun n : ℕ => (n : ℚ) * 10 ^ (shortest m e).2) hworth
        rw [hsame]
        exact shortest_mem h hm
      rw [htext, Spelling.scalar_text hs.toIsWellFormed,
        Spelling.unsignedNumber_float hs.toIsWellFormed _ hrest hs.float, ofDecimal_of_mem h hm hmem]

/-! ## Scalars -/

/-- A value without quotes, brackets and braces: a word, a whole number of no more digits than are
read, or a float of the format. -/
inductive IsScalar : Json → Prop
  | null : IsScalar .null
  | bool (b : Bool) : IsScalar (.bool b)
  | int (i : ℤ) (h : (digitsOf 10 i.natAbs).length ≤ maxDecimalDigits) : IsScalar (.int i)
  | float (x : Binary64) (h : x.IsCanonical) : IsScalar (.float x)

/-- **What is written for a scalar is read as it.** -/
theorem IsScalar.scalar_text {v : Json} (h : IsScalar v) {rest : List Char}
    (hrest : EndsNumber rest) : scalar (v.text ++ rest) = .ok (v, rest) := by
  cases h with
  | null => rfl
  | bool b => cases b <;> rfl
  | int i h => exact scalar_intText h hrest
  | float x h => exact scalar_text_float h hrest

theorem isDigit_of_mem_wholePart {cs : List Char} {c : Char} (h : c ∈ (wholePart cs).1) :
    c.isDigit = true := by
  unfold wholePart at h
  split at h
  · obtain rfl := List.mem_singleton.1 h
    rfl
  · exact List.all_eq_true.1 List.all_takeWhile c h

theorem isScalar_of_unsignedNumber {negative : Bool} {cs rest : List Char} {v : Json}
    (h : unsignedNumber negative cs = .ok (v, rest)) : IsScalar v := by
  have hdigits : ∀ c ∈ (wholePart cs).1, c.isDigit = true := fun _ => isDigit_of_mem_wholePart
  rw [unsignedNumber_eq] at h
  generalize (wholePart cs).1 = ds at h hdigits
  unfold fromWhole at h
  split at h
  · cases h
  · next hne =>
    dsimp only at h
    split at h
    · split at h
      · cases h
      · next hlength =>
        obtain ⟨rfl, -⟩ := Prod.mk.inj (Except.ok.inj h)
        have hcount := length_digitsOf_decimalValue (by simpa using hne) hdigits
        refine .int _ ?_
        split <;> simp only [Int.natAbs_neg, Int.natAbs_natCast] <;> omega
    · obtain ⟨rfl, -⟩ := Prod.mk.inj (Except.ok.inj h)
      exact .float _ (isCanonical_ofDecimal _ _ _)

theorem isScalar_of_scalar {cs rest : List Char} {v : Json} (h : scalar cs = .ok (v, rest)) :
    IsScalar v := by
  unfold scalar at h
  split at h
  · next hword =>
    obtain ⟨⟨w, u⟩, hmem, hfound⟩ := List.exists_of_findSome?_eq_some hword
    obtain ⟨after, -, hpart⟩ := Option.map_eq_some_iff.1 hfound
    obtain ⟨rfl, -⟩ := Prod.mk.inj (hpart.trans (Except.ok.inj h))
    simp only [words, List.mem_cons, Prod.mk.injEq, List.not_mem_nil, or_false] at hmem
    rcases hmem with ⟨-, rfl⟩ | ⟨-, rfl⟩ | ⟨-, rfl⟩ | ⟨-, rfl⟩ | ⟨-, rfl⟩ | ⟨-, rfl⟩
    · exact .null
    · exact .bool true
    · exact .bool false
    · exact .float _ trivial
    · exact .float _ trivial
    · exact .float _ trivial
  · split at h
    · exact isScalar_of_unsignedNumber h
    · exact isScalar_of_unsignedNumber h

theorem scalar_of_mark {c : Char} (h : c ∈ ['"', '[', ']', '{', ' ', '\t', '\n', '\r'])
    (cs : List Char) : scalar (c :: cs) = .error .malformed := by
  simp only [List.mem_cons, List.not_mem_nil, or_false] at h
  rcases h with rfl | rfl | rfl | rfl | rfl | rfl | rfl | rfl <;> rfl

theorem exists_cons_of_scalar {cs : List Char} {r : Json × List Char} (h : scalar cs = .ok r) :
    ∃ c tail, cs = c :: tail ∧ c ∉ ['"', '[', ']', '{', ' ', '\t', '\n', '\r'] := by
  cases cs with
  | nil => cases h
  | cons c cs =>
    refine ⟨c, cs, rfl, fun hmark => ?_⟩
    rw [scalar_of_mark hmark] at h
    cases h

end ThemedSheets.Json
