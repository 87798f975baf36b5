import ThemedSheets.Json.Printer
import ThemedSheets.Json.Reader
/- Strings of JSON text. A unit of UTF-16 is written with four hexadecimal digits that are read as it,
   every character is escaped so that its units are read, and the units of a row of characters are
   those characters again. So what is written for a string is read as it (`string_text`). -/
namespace ThemedSheets.Json
open ThemedSheets.Text

/-! ## Units -/

theorem paddedDigits_succ {width : Nat} (hwidth : 0 < width) (n : Nat) :
    paddedDigits 16 (width + 1) n = paddedDigits 16 width (n / 16) ++ [Nat.digitChar (n % 16)] := by
  by_cases hn : n < 16
  · have hquotient : n / 16 = 0 := Nat.div_eq_of_lt hn
    have hone : digitsOf 16 n = [Nat.digitChar n] := Nat.toDigits_of_lt_base hn
    have hzero : digitsOf 16 0 = ['0'] := Nat.toDigits_zero 16
    obtain ⟨width, rfl⟩ : ∃ w, width = w + 1 := ⟨width - 1, by omega⟩
    rw [hquotient, Nat.mod_eq_of_lt hn, paddedDigits, paddedDigits, hone, hzero]
    simp [List.replicate_succ']
  · have hmore : digitsOf 16 n = digitsOf 16 (n / 16) ++ [Nat.digitChar (n % 16)] :=
      Nat.toDigits_of_base_le (by decide) (Nat.not_lt.1 hn)
    rw [paddedDigits, paddedDigits, hmore]
    simp

theorem hexDigit?_digitChar : ∀ n < 16, hexDigit? (Nat.digitChar n) = some n := by decide

/-- **Four hexadecimal digits are read as the unit they are written for.** -/
theorem exists_hexUnit? {u : Nat} (hu : u < 0x10000) :
    ∃ a b c d, paddedDigits 16 4 u = [a, b, c, d] ∧ hexUnit? a b c d = some u := by
  have hquotient : u / 16 / 16 / 16 < 16 := by omega
  have hlast : paddedDigits 16 1 (u / 16 / 16 / 16) = [Nat.digitChar (u / 16 / 16 / 16)] := by
    have hone : digitsOf 16 (u / 16 / 16 / 16) = [Nat.digitChar (u / 16 / 16 / 16)] :=
      Nat.toDigits_of_lt_base hquotient
    rw [paddedDigits, hone]
    rfl
  have hdigits : paddedDigits 16 4 u = [Nat.digitChar (u / 16 / 16 / 16),
      Nat.digitChar (u / 16 / 16 % 16), Nat.digitChar (u / 16 % 16), Nat.digitChar (u % 16)] := by
    rw [paddedDigits_succ (by decide), paddedDigits_succ (by decide), paddedDigits_succ (by decide),
      hlast]
    rfl
  refine ⟨_, _, _, _, hdigits, ?_⟩
  have hdigit : ∀ n, hexDigit? (Nat.digitChar (n % 16)) = some (n % 16) :=
    fun n => hexDigit?_digitChar _ (Nat.mod_lt _ (by decide))
  have hfirst := hexDigit?_digitChar _ hquotient
  have hworth : ((u / 16 / 16 / 16 * 16 + u / 16 / 16 % 16) * 16 + u / 16 % 16) * 16 + u % 16 = u := by
    omega
  simp only [hexUnit?, hfirst, hdigit, Option.bind_eq_bind, Option.bind_some, Option.pure_def, hworth]

theorem stringUnits_unit {u : Nat} (hu : u < 0x10000) (cs : List Char) :
    stringUnits ('\\' :: 'u' :: paddedDigits 16 4 u ++ cs)
      = (stringUnits cs).map fun (us, rest) => (u :: us, rest) := by
  obtain ⟨a, b, c, d, hdigits, hunit⟩ := exists_hexUnit? hu
  rw [hdigits]
  show stringUnits ('\\' :: 'u' :: a :: b :: c :: d :: cs) = _
  rw [stringUnits, hunit]

theorem stringUnits_units {us : List Nat} (h : ∀ u ∈ us, u < 0x10000) (cs : List Char) :
    stringUnits ((us.flatMap fun u => '\\' :: 'u' :: paddedDigits 16 4 u) ++ cs)
      = (stringUnits cs).map fun (more, rest) => (us ++ more, rest) := by
  induction us with
  | nil =>
    show stringUnits cs = _
    cases stringUnits cs <;> rfl
  | cons u us ih =>
    rw [List.forall_mem_cons] at h
    rw [List.flatMap_cons, List.append_assoc, stringUnits_unit h.1, ih h.2]
    cases stringUnits cs <;> rfl

/-! ## Characters -/

theorem toNat_range (c : Char) : c.toNat < 0xd800 ∨ 0xe000 ≤ c.toNat ∧ c.toNat < 0x110000 := by
  rcases c.valid with h | h
  · exact Or.inl h
  · exact Or.inr ⟨Nat.succ_le_of_lt h.1, h.2⟩

theorem utf16Units_lt {c : Char} : ∀ u ∈ utf16Units c.toNat, u < 0x10000 := by
  have hrange := toNat_range c
  unfold utf16Units
  split
  · next hsmall => simpa using hsmall
  · simp only [List.mem_cons, List.not_mem_nil, or_false, forall_eq_or_imp, forall_eq]
    omega

theorem stringUnits_escaped {c e : Char} (hc : c ≠ 'u') (he : escaped? c = some e)
    (cs : List Char) : stringUnits ('\\' :: c :: cs)
      = (stringUnits cs).map fun (us, rest) => (e.toNat :: us, rest) := by
  rw [stringUnits, he]
  exact fun _ _ _ _ _ h => absurd h hc

theorem stringUnits_plain {c : Char} (hquote : c ≠ '"') (hslash : c ≠ '\\') (hlow : ' ' ≤ c)
    (cs : List Char) : stringUnits (c :: cs)
      = (stringUnits cs).map fun (us, rest) => (c.toNat :: us, rest) := by
  have hlow : ¬ (c.toNat < 0x20 ∨ c = '\\') := not_or.2 ⟨Nat.not_lt.2 hlow, hslash⟩
  rw [stringUnits, if_neg hlow]
  · exact hquote
  · exact fun _ _ _ _ _ h => absurd h hslash
  · exact fun _ _ h => absurd h hslash

/-- **What is written for a character is read as its units.** -/
theorem stringUnits_escapeChar (c : Char) (cs : List Char) :
    stringUnits (escapeChar c ++ cs)
      = (stringUnits cs).map fun (us, rest) => (utf16Units c.toNat ++ us, rest) := by
  by_cases hshort : c ∈ ['"', '\\', '\n', '\r', '\t', '\x0c', '\x08']
  · -- a letter after a backslash
    simp only [List.mem_cons, List.not_mem_nil, or_false] at hshort
    rcases hshort with rfl | rfl | rfl | rfl | rfl | rfl | rfl <;>
      exact stringUnits_escaped (by decide) rfl cs
  · simp only [List.mem_cons, List.not_mem_nil, or_false, not_or] at hshort
    obtain ⟨hquote, hslash, hn, hr, ht, hf, hb⟩ := hshort
    unfold escapeChar
    rw [if_neg hquote, if_neg hslash, if_neg hn, if_neg hr, if_neg ht, if_neg hf, if_neg hb]
    split
    · next hplain =>
      have hone : utf16Units c.toNat = [c.toNat] :=
        if_pos (Nat.lt_of_le_of_lt hplain.2 (by decide))
      rw [hone]
      exact stringUnits_plain hquote hslash hplain.1 cs
    · exact stringUnits_units utf16Units_lt cs

theorem unitChar_toNat (c : Char) : unitChar c.toNat = .ok c := by
  have hrange := toNat_range c
  have hsingle : ¬ (0xd800 ≤ c.toNat ∧ c.toNat < 0xe000) := by omega
  rw [unitChar, if_neg hsingle, Char.ofNat_toNat]

theorem ofUnits_utf16Units (c : Char) (us : List Nat) :
    ofUnits (utf16Units c.toNat ++ us) = (ofUnits us).map (c :: ·) := by
  have hrange := toNat_range c
  unfold utf16Units
  split
  · have hhigh : ¬ (0xd800 ≤ c.toNat ∧ c.toNat < 0xdc00) := by omega
    cases us with
    | nil =>
      show (unitChar c.toNat).map _ = _
      rw [unitChar_toNat]
      rfl
    | cons v us =>
      have hpair : ¬ (0xd800 ≤ c.toNat ∧ c.toNat < 0xdc00 ∧ 0xdc00 ≤ v ∧ v < 0xe000) :=
        fun h => hhigh ⟨h.1, h.2.1⟩
      rw [List.singleton_append, ofUnits, if_neg hpair, unitChar_toNat]
      cases ofUnits (v :: us) <;> rfl
  · have hpair : 0xd800 ≤ 0xd800 + (c.toNat - 0x10000) / 0x400 ∧
        0xd800 + (c.toNat - 0x10000) / 0x400 < 0xdc00 ∧
        0xdc00 ≤ 0xdc00 + (c.toNat - 0x10000) % 0x400 ∧
        0xdc00 + (c.toNat - 0x10000) % 0x400 < 0xe000 := by omega
    have hworth : 0x10000 + (0xd800 + (c.toNat - 0x10000) / 0x400 - 0xd800) * 0x400
        + (0xdc00 + (c.toNat - 0x10000) % 0x400 - 0xdc00) = c.toNat := by omega
    show ofUnits (_ :: _ :: us) = _
    rw [ofUnits, if_pos hpair, hworth, Char.ofNat_toNat]

/-! ## Strings -/

theorem stringUnits_flatMap (cs rest : List Char) :
    stringUnits (cs.flatMap escapeChar ++ '"' :: rest)
      = .ok (cs.flatMap fun c => utf16Units c.toNat, rest) := by
  induction cs with
  | nil => rfl
  | cons c cs ih =>
    rw [List.flatMap_cons, List.append_assoc, stringUnits_escapeChar, ih]
    rfl

theorem ofUnits_flatMap (cs : List Char) :
    ofUnits (cs.flatMap fun c => utf16Units c.toNat) = .ok cs := by
  induction cs with
  | nil => rfl
  | cons c cs ih =>
    rw [List.flatMap_cons, ofUnits_utf16Units, ih]
    rfl

/-- **What is written for a string is read as it.** -/
theorem string_text (s : String) (rest : List Char) :
    string (s.toList.flatMap escapeChar ++ '"' :: rest) = .ok (s, rest) := by
  rw [string, stringUnits_flatMap]
  show (ofUnits (s.toList.flatMap fun c => utf16Units c.toNat)).bind
    (fun text => .ok (String.ofList text, rest)) = _
  rw [ofUnits_flatMap]
  exact congrArg (fun t => Except.ok (t, rest)) String.ofList_toList

end ThemedSheets.Json
