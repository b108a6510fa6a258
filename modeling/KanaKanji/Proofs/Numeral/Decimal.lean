/-
The number that a text of digits denotes.

* `decimal_append`: digits behind digits move these to higher places;
* `decimal_significant`: leading zeros do not count;
* `significant_inj`: without them a number has one text.
-/
import KanaKanji.Numeral
import Mathlib.Data.Nat.Digits.Defs

namespace KanaKanji

/-- The number of a text of digits, the last of which is the lowest. -/
def decimal (s : Text) : Nat :=
  Nat.ofDigits 10 (s.map digitValue).reverse

/-- The digits behind the leading zeros. -/
def significant (s : Text) : Text :=
  s.dropWhile (· == '0')

/-! ### Digits -/

variable {c : Char} {s t : Text}

theorem digitValue_lt_ten (hc : c.isDigit = true) : digitValue c < 10 := by
  simp only [Char.isDigit, Bool.and_eq_true, decide_eq_true_eq] at hc
  have hle : c.toNat ≤ 57 := hc.2
  show c.toNat - 48 < 10
  omega

theorem ofNat_digitValue (hc : c.isDigit = true) : Char.ofNat (digitValue c + 48) = c := by
  simp only [Char.isDigit, Bool.and_eq_true, decide_eq_true_eq] at hc
  have hge : 48 ≤ c.toNat := hc.1
  have hvalue : digitValue c + 48 = c.toNat := by
    show c.toNat - 48 + 48 = c.toNat
    omega
  rw [hvalue, Char.ofNat_toNat]

theorem digitValue_eq_zero_iff (hc : c.isDigit = true) : digitValue c = 0 ↔ c = '0' := by
  refine ⟨fun h => ?_, fun h => by rw [h]; rfl⟩
  rw [← ofNat_digitValue hc, h]

/-- Texts of digits are known from the values. -/
theorem eq_of_map_digitValue_eq (hs : ∀ c ∈ s, c.isDigit = true) (ht : ∀ c ∈ t, c.isDigit = true)
    (h : s.map digitValue = t.map digitValue) : s = t := by
  have hback : ∀ s : Text, (∀ c ∈ s, c.isDigit = true) →
      (s.map digitValue).map (fun d => Char.ofNat (d + 48)) = s := by
    intro s hs
    rw [List.map_map]
    exact (List.map_congr_left fun c hc => ofNat_digitValue (hs c hc)).trans (List.map_id s)
  rw [← hback s hs, h, hback t ht]

/-! ### Values -/

@[simp] theorem decimal_nil : decimal [] = 0 := rfl

theorem decimal_append (s t : Text) : decimal (s ++ t) = decimal s * 10 ^ t.length + decimal t := by
  rw [decimal, List.map_append, List.reverse_append, Nat.ofDigits_append, List.length_reverse,
    List.length_map, Nat.mul_comm, Nat.add_comm]
  rfl

theorem decimal_singleton (c : Char) : decimal [c] = digitValue c :=
  Nat.ofDigits_singleton

theorem decimal_cons (c : Char) (s : Text) :
    decimal (c :: s) = digitValue c * 10 ^ s.length + decimal s := by
  rw [← List.singleton_append, decimal_append, decimal_singleton]

theorem decimal_cons_eq_zero : decimal (c :: s) = 0 ↔ digitValue c = 0 ∧ decimal s = 0 := by
  rw [decimal_cons]
  simp

theorem decimal_lt (hs : ∀ c ∈ s, c.isDigit = true) : decimal s < 10 ^ s.length := by
  have hlt : ∀ d ∈ (s.map digitValue).reverse, d < 10 := by
    intro d hd
    obtain ⟨c, hc, rfl⟩ := List.mem_map.mp (List.mem_reverse.mp hd)
    exact digitValue_lt_ten (hs c hc)
  simpa [decimal] using Nat.ofDigits_lt_base_pow_length (by omega) hlt

/-! ### Leading zeros -/

theorem isDigit_of_mem_significant (hs : ∀ c ∈ s, c.isDigit = true) :
    ∀ c ∈ significant s, c.isDigit = true :=
  fun c hc => hs c (List.dropWhile_subset _ hc)

theorem decimal_significant (s : Text) : decimal (significant s) = decimal s := by
  induction s with
  | nil => rfl
  | cons c s ih =>
    by_cases hc : c = '0'
    · have hdrop : significant (c :: s) = significant s :=
        List.dropWhile_cons_of_pos (by simpa using hc)
      have hzero : digitValue c = 0 := by rw [hc]; rfl
      rw [hdrop, ih, decimal_cons, hzero, Nat.zero_mul, Nat.zero_add]
    · have hkeep : significant (c :: s) = c :: s := List.dropWhile_cons_of_neg (by simpa using hc)
      rw [hkeep]

theorem head_significant_ne (h : significant s ≠ []) : (significant s).head h ≠ '0' := by
  simpa [significant] using List.head_dropWhile_not (fun c => c == '0') h

/-- **A number has one text without leading zeros.** -/
theorem significant_inj (hs : ∀ c ∈ s, c.isDigit = true) (ht : ∀ c ∈ t, c.isDigit = true)
    (h : decimal s = decimal t) : significant s = significant t := by
  -- the values of the text, lowest first, are the digits of the number
  have hdigits : ∀ s : Text, (∀ c ∈ s, c.isDigit = true) →
      Nat.digits 10 (decimal s) = ((significant s).map digitValue).reverse := by
    intro s hs
    rw [← decimal_significant]
    refine Nat.digits_ofDigits 10 (by omega) _ ?_ ?_
    · intro d hd
      obtain ⟨c, hc, rfl⟩ := List.mem_map.mp (List.mem_reverse.mp hd)
      exact digitValue_lt_ten (isDigit_of_mem_significant hs c hc)
    · intro hne
      have hsig : significant s ≠ [] := by simpa using hne
      have hdigit := isDigit_of_mem_significant hs _ (List.head_mem hsig)
      rw [List.getLast_reverse, List.head_map]
      exact fun hzero => head_significant_ne hsig ((digitValue_eq_zero_iff hdigit).mp hzero)
  refine eq_of_map_digitValue_eq (isDigit_of_mem_significant hs) (isDigit_of_mem_significant ht) ?_
  rw [← List.reverse_inj, ← hdigits s hs, ← hdigits t ht, h]

theorem decimal_eq_zero_iff (hs : ∀ c ∈ s, c.isDigit = true) :
    decimal s = 0 ↔ significant s = [] := by
  refine ⟨fun h => ?_, fun h => by rw [← decimal_significant, h]; rfl⟩
  exact significant_inj hs (fun c hc => absurd hc List.not_mem_nil) h

end KanaKanji
