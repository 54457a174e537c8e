import BudgetCache.Proofs.DumpText
import BudgetCache.Proofs.Numerals
import Mathlib

/-!
# Trimmed decimals

A decimal with a fixed count of fraction digits consists of a sign, a whole part, a point and the
fraction. Trimming takes the zeros off the end of the fraction, and with the last digit of the
fraction the point; the whole part keeps its zeros. What is left denotes the same number, and since
the count of the fraction digits is known, it tells what the text was. The percentages that a cache
shows are such texts, and the numbers that they denote are those of the floats up to half a unit of
the last place.
-/

namespace BudgetCache

namespace Text

variable {α : Type}

theorem dropEndWhile_append_replicate {p : α → Bool} {x : α} (hx : p x = true) (xs : List α)
    (n : Nat) : dropEndWhile p (xs ++ List.replicate n x) = dropEndWhile p xs := by
  induction n with
  | zero => simp
  | succ n ih =>
    rw [List.replicate_succ', ← List.append_assoc, dropEndWhile_concat, if_pos hx, ih]

theorem dropEndWhile_of_getLast? [BEq α] [LawfulBEq α] {mark : α} {xs : List α}
    (h : xs.getLast? ≠ some mark) : dropEndWhile (· == mark) xs = xs := by
  rcases List.eq_nil_or_concat' xs with rfl | ⟨front, x, rfl⟩
  · rfl
  · have hx : x ≠ mark := by simpa using h
    rw [dropEndWhile_concat, if_neg (by simpa using hx)]

end Text

namespace Decimal

/-! ## The numbers that decimal texts denote -/

/-- A decimal without a sign, with the number that it denotes. -/
inductive Magnitude : List Char → ℚ → Prop
  | whole {cs : List Char} {n : Nat} (h : Numeral cs n) : Magnitude cs n
  | pointed {cs ds : List Char} {m n : Nat} (h : Numeral cs m) (hfraction : Numeral ds n) :
    Magnitude (cs ++ '.' :: ds) (m + n / 10 ^ ds.length)

/-- A decimal with or without a minus sign. -/
inductive Denotes : List Char → ℚ → Prop
  | plain {cs : List Char} {q : ℚ} (h : Magnitude cs q) : Denotes cs q
  | minus {cs : List Char} {q : ℚ} (h : Magnitude cs q) : Denotes ('-' :: cs) (-q)

theorem Numeral.notMem {cs : List Char} {n : Nat} (h : Numeral cs n) {c : Char}
    (hc : c.isDigit = false) : c ∉ cs := by
  intro hmem
  rw [h.digits.2 c hmem] at hc
  cases hc

theorem Numeral.unique {cs : List Char} {m n : Nat} (h : Numeral cs m) (h' : Numeral cs n) :
    m = n := by
  rw [← h.value, h'.value]

theorem Magnitude.minus_notMem {cs : List Char} {q : ℚ} (h : Magnitude cs q) : '-' ∉ cs := by
  cases h with
  | whole h => exact h.notMem rfl
  | pointed h hfraction =>
    have hwhole := h.notMem (c := '-') rfl
    have hafter := hfraction.notMem (c := '-') rfl
    simp [hwhole, hafter]

theorem Magnitude.unique {cs : List Char} {q r : ℚ} (h : Magnitude cs q) (h' : Magnitude cs r) :
    q = r := by
  cases h with
  | whole h =>
    cases h' with
    | whole h' => rw [h.unique h']
    | pointed => exact absurd (by simp) (h.notMem (c := '.') rfl)
  | pointed h hfraction =>
    generalize htext : _ ++ '.' :: _ = text at h'
    cases h' with
    | whole h' =>
      rw [← htext] at h'
      exact absurd (by simp) (h'.notMem (c := '.') rfl)
    | pointed h' hfraction' =>
      obtain ⟨rfl, rfl⟩ := Text.append_cons_inj (h.notMem rfl) (h'.notMem rfl) htext
      rw [h.unique h', hfraction.unique hfraction']

/-- A text denotes one number at most. -/
theorem Denotes.unique {cs : List Char} {q r : ℚ} (h : Denotes cs q) (h' : Denotes cs r) :
    q = r := by
  cases h with
  | plain h =>
    cases h' with
    | plain h' => exact h.unique h'
    | minus => exact absurd (by simp) h.minus_notMem
  | minus h =>
    cases h' with
    | plain h' => exact absurd (by simp) h'.minus_notMem
    | minus h' => rw [h.unique h']

theorem Denotes.iff {cs : List Char} {q : ℚ} (h : Denotes cs q) (r : ℚ) :
    Denotes cs r ↔ r = q := by
  constructor
  · exact fun h' => h'.unique h
  · rintro rfl
    exact h

/-! ## The parts of a decimal -/

/-- The parts of a decimal text with `places` fraction digits. -/
structure Parts (places : Nat) (text sign whole fraction : List Char) : Prop where
  /-- The text consists of the parts and the point. -/
  text_eq : text = sign ++ (whole ++ '.' :: fraction)
  /-- The sign is a minus sign, or there is none. -/
  sign_eq : sign = [] ∨ sign = ['-']
  /-- The whole part has a digit. -/
  whole_ne_nil : whole ≠ []
  /-- The whole part consists of digits. -/
  whole_digits : ∀ c ∈ whole, c.isDigit = true
  /-- The whole part has no superfluous zero in front. -/
  whole_lead : whole.head? = some '0' → whole = ['0']
  /-- The fraction consists of digits. -/
  fraction_digits : ∀ c ∈ fraction, c.isDigit = true
  /-- The fraction has so many digits. -/
  length_fraction : fraction.length = places

theorem length_lastDigits (count n : Nat) : (lastDigits count n).length = count := by
  induction count generalizing n with
  | zero => rfl
  | succ count ih => rw [lastDigits, List.length_append, ih, List.length_singleton]

/-- The digits of a number begin with a zero only if it is zero. -/
theorem eq_zero_of_head?_digits {n : Nat} (h : (digits n).head? = some '0') : n = 0 := by
  induction n using Nat.strong_induction_on with
  | _ n ih =>
    rw [digits, Nat.toDigits_eq_if (by decide)] at h
    split at h
    · next hlt => interval_cases n <;> simp_all
    · next hge =>
      -- the first digit of `n` is that of `n / 10`
      rw [List.head?_append_of_ne_nil _ Nat.toDigits_ne_nil] at h
      have hzero := ih (n / 10) (by omega) h
      omega

theorem parts_fixedDigits (places : Nat) (negative : Bool) (significand : Nat) (exponent : Int) :
    ∃ sign whole fraction,
      Parts places (fixedDigits places negative significand exponent) sign whole fraction := by
  refine ⟨if negative then ['-'] else [], _, _, rfl, ?_, digits_ne_nil _,
    fun _ => isDigit_of_mem_digits, fun hlead => ?_, fun _ => isDigit_of_mem_lastDigits,
    length_lastDigits _ _⟩
  · cases negative <;> simp
  · rw [eq_zero_of_head?_digits hlead]
    rfl

/-! ## Trimming -/

/-- What is left of a fraction, and the zeros after it. -/
theorem exists_zeros (cs : List Char) :
    ∃ kept n, cs = kept ++ List.replicate n '0' ∧ kept.getLast? ≠ some '0' := by
  induction cs using List.reverseRecOn with
  | nil => exact ⟨[], 0, rfl, by simp⟩
  | append_singleton cs c ih =>
    by_cases hc : c = '0'
    · obtain ⟨kept, n, rfl, hkept⟩ := ih
      exact ⟨kept, n + 1, by rw [hc, List.replicate_succ', List.append_assoc], hkept⟩
    · exact ⟨cs ++ [c], 0, by simp, by simpa using hc⟩

/-- A text without the point if there is no fraction after it. -/
def withFraction (head kept : List Char) : List Char :=
  if kept = [] then head else head ++ '.' :: kept

theorem trimZeros_eq {head kept : List Char} (hhead : '.' ∉ head) (hkept : '.' ∉ kept)
    (hlast : kept.getLast? ≠ some '0') (n : Nat) :
    trimZeros (head ++ '.' :: (kept ++ List.replicate n '0')) = withFraction head kept := by
  have hzeros : head ++ '.' :: (kept ++ List.replicate n '0') =
      head ++ '.' :: kept ++ List.replicate n '0' := by simp
  rw [trimZeros, hzeros, Text.dropEndWhile_append_replicate rfl, withFraction]
  rcases List.eq_nil_or_concat' kept with rfl | ⟨front, c, rfl⟩
  · have hpoint : head.getLast? ≠ some '.' := fun h => hhead (List.mem_of_getLast? h)
    simp [Text.dropEndWhile_concat, Text.dropEndWhile_of_getLast? hpoint]
  · have hpoint : c ≠ '.' := fun h => hkept (by simp [h])
    have hzero : c ≠ '0' := by simpa using hlast
    rw [← List.cons_append, ← List.append_assoc, Text.dropEndWhile_concat,
      if_neg (by simpa using hzero), Text.dropEndWhile_concat, if_neg (by simpa using hpoint),
      if_neg (by simp)]

/-- A text with its fraction brought to `places` digits. -/
def withPlaces (places : Nat) (cs : List Char) : List Char :=
  let fraction := (cs.dropWhile (· != '.')).tail
  cs.takeWhile (· != '.') ++ '.' :: (fraction ++ List.replicate (places - fraction.length) '0')

theorem withPlaces_withFraction {head : List Char} (hhead : '.' ∉ head) (kept : List Char)
    (n : Nat) : withPlaces (kept.length + n) (withFraction head kept) =
      head ++ '.' :: (kept ++ List.replicate n '0') := by
  have hall : ∀ c ∈ head, (c != '.') = true := by
    intro c hc
    simpa using fun h : c = '.' => hhead (h ▸ hc)
  unfold withFraction withPlaces
  split
  · next hkept =>
    have htake := List.takeWhile_eq_self_iff.2 hall
    have hdrop := List.dropWhile_eq_nil_iff.2 hall
    simp [hkept, htake, hdrop]
  · simp [List.takeWhile_append_of_pos hall, List.dropWhile_append_of_pos hall]

theorem append_withFraction (sign whole kept : List Char) :
    withFraction (sign ++ whole) kept = sign ++ withFraction whole kept := by
  unfold withFraction
  split
  · rfl
  · exact List.append_assoc sign whole _

theorem Parts.point_notMem {places : Nat} {text sign whole fraction : List Char}
    (h : Parts places text sign whole fraction) : '.' ∉ sign ++ whole ∧ '.' ∉ fraction := by
  have hpoint : ∀ cs : List Char, (∀ c ∈ cs, c.isDigit = true) → '.' ∉ cs :=
    fun cs hcs hmem => absurd (hcs '.' hmem) (by decide)
  refine ⟨?_, hpoint fraction h.fraction_digits⟩
  rw [List.mem_append, not_or]
  refine ⟨?_, hpoint whole h.whole_digits⟩
  rcases h.sign_eq with rfl | rfl <;> decide

/-- The parts of a trimmed text are those of the text, up to the zeros that end the fraction. -/
theorem Parts.trimmed {places : Nat} {text sign whole fraction : List Char}
    (h : Parts places text sign whole fraction) :
    ∃ kept n, fraction = kept ++ List.replicate n '0' ∧ kept.getLast? ≠ some '0' ∧
      trimZeros text = sign ++ withFraction whole kept ∧
      withPlaces places (trimZeros text) = text := by
  obtain ⟨kept, n, rfl, hlast⟩ := exists_zeros fraction
  obtain ⟨hhead, hfraction⟩ := h.point_notMem
  have hkept : '.' ∉ kept := fun hmem => hfraction (List.mem_append_left _ hmem)
  have htrim : trimZeros text = withFraction (sign ++ whole) kept := by
    rw [h.text_eq, ← List.append_assoc]
    exact trimZeros_eq hhead hkept hlast n
  have hlength : kept.length + n = places := by simpa using h.length_fraction
  refine ⟨kept, n, rfl, hlast, by rw [htrim, append_withFraction], ?_⟩
  rw [htrim, ← hlength, withPlaces_withFraction hhead, h.text_eq, List.append_assoc]

/-- A trimmed text ends neither in the point nor in a zero of the fraction. -/
theorem Parts.getLast?_trimZeros {places : Nat} {text sign whole fraction : List Char}
    (h : Parts places text sign whole fraction) :
    ('.' ∈ trimZeros text → (trimZeros text).getLast? ≠ some '0') ∧
      (trimZeros text).getLast? ≠ some '.' := by
  obtain ⟨kept, n, rfl, hlast, htrim, -⟩ := h.trimmed
  obtain ⟨hhead, hfraction⟩ := h.point_notMem
  rw [htrim, ← append_withFraction, withFraction]
  rcases List.eq_nil_or_concat' kept with rfl | ⟨front, c, rfl⟩
  · rw [if_pos rfl]
    exact ⟨fun hmem => absurd hmem hhead, fun hpoint => hhead (List.mem_of_getLast? hpoint)⟩
  · have hpoint : c ≠ '.' := fun hc => hfraction (by simp [hc])
    have hzero : c ≠ '0' := by simpa using hlast
    have hend : (sign ++ whole ++ '.' :: (front ++ [c])).getLast? = some c := by
      rw [← List.cons_append, ← List.append_assoc, List.getLast?_concat]
    rw [if_neg (by simp), hend]
    exact ⟨fun _ => by simpa using hzero, by simpa using hpoint⟩

/-- Trimming leaves what tells texts with equally many fraction digits apart. -/
theorem Parts.trimZeros_inj {places : Nat} {text sign whole fraction : List Char}
    {text' sign' whole' fraction' : List Char} (h : Parts places text sign whole fraction)
    (h' : Parts places text' sign' whole' fraction') (heq : trimZeros text = trimZeros text') :
    text = text' := by
  obtain ⟨-, -, -, -, -, hback⟩ := h.trimmed
  obtain ⟨-, -, -, -, -, hback'⟩ := h'.trimmed
  rw [← hback, heq, hback']

/-! ## The value of a trimmed text -/

/-- The number that a whole part and a fraction denote. -/
def amount (whole fraction : List Char) : ℚ :=
  Nat.ofDigitChars 10 whole 0 + Nat.ofDigitChars 10 fraction 0 / 10 ^ fraction.length

theorem amount_zeros (whole kept : List Char) (n : Nat) :
    amount whole (kept ++ List.replicate n '0') = amount whole kept := by
  have hpow : (10 : ℚ) ^ n ≠ 0 := pow_ne_zero n (by norm_num)
  rw [amount, amount, Nat.ofDigitChars_append, Nat.ofDigitChars_replicate_zero, List.length_append,
    List.length_replicate]
  push_cast
  rw [pow_add, mul_comm, mul_div_mul_right _ _ hpow]

theorem magnitude_withFraction {whole fraction : List Char} (hne : whole ≠ [])
    (hwhole : ∀ c ∈ whole, c.isDigit = true) (hfraction : ∀ c ∈ fraction, c.isDigit = true) :
    Magnitude (withFraction whole fraction) (amount whole fraction) := by
  have hnumeral := numeral_of_digits hne hwhole
  unfold withFraction
  split
  · next hnil =>
    have hamount : amount whole fraction = (Nat.ofDigitChars 10 whole 0 : ℕ) := by
      rw [hnil]
      simp [amount]
    rw [hamount]
    exact .whole hnumeral
  · next hne => exact .pointed hnumeral (numeral_of_digits hne hfraction)

/-- A text and the trimmed text denote the same number. -/
theorem Parts.denotes {places : Nat} {text sign whole fraction : List Char}
    (h : Parts places text sign whole fraction) (hplaces : 0 < places) :
    ∃ q, Denotes text q ∧ Denotes (trimZeros text) q := by
  obtain ⟨kept, n, hfraction, -, htrim, -⟩ := h.trimmed
  have hne : fraction ≠ [] := by
    rintro rfl
    exact absurd h.length_fraction (Nat.ne_of_lt hplaces)
  have htext : text = sign ++ withFraction whole fraction := by
    rw [withFraction, if_neg hne]
    exact h.text_eq
  have hlong := magnitude_withFraction h.whole_ne_nil h.whole_digits h.fraction_digits
  have hshort : Magnitude (withFraction whole kept) (amount whole fraction) := by
    rw [hfraction, amount_zeros]
    exact magnitude_withFraction h.whole_ne_nil h.whole_digits fun c hc =>
      h.fraction_digits c (by simp [hfraction, hc])
  rw [htext] at htrim ⊢
  rw [htrim]
  rcases h.sign_eq with rfl | rfl
  · exact ⟨_, .plain hlong, .plain hshort⟩
  · exact ⟨_, .minus hlong, .minus hshort⟩

/-- What is left of a text with `places` fraction digits. -/
structure Trims (places : Nat) (text short : List Char) : Prop where
  /-- The sign and the whole part stay, and the fraction loses the zeros at its end. -/
  parts : ∃ sign whole kept zeros, Parts places text sign whole (kept ++ List.replicate zeros '0') ∧
    kept.getLast? ≠ some '0' ∧ short = sign ++ withFraction whole kept
  /-- Both texts denote one number, and it is the same. -/
  value : ∃ q, (∀ r, Denotes text r ↔ r = q) ∧ ∀ r, Denotes short r ↔ r = q
  /-- No zero ends a fraction. -/
  zero : '.' ∈ short → short.getLast? ≠ some '0'
  /-- The point does not end the text. -/
  point : short.getLast? ≠ some '.'

theorem Parts.trims {places : Nat} {text sign whole fraction : List Char}
    (h : Parts places text sign whole fraction) (hplaces : 0 < places) :
    Trims places text (trimZeros text) := by
  obtain ⟨hzero, hpoint⟩ := h.getLast?_trimZeros
  obtain ⟨q, hlong, hshort⟩ := h.denotes hplaces
  obtain ⟨kept, zeros, rfl, hlast, htrim, -⟩ := h.trimmed
  exact ⟨⟨sign, whole, kept, zeros, h, hlast, htrim⟩, ⟨q, hlong.iff, hshort.iff⟩, hzero, hpoint⟩

/-! ## The number that is rounded -/

/-- A magnitude with or without a minus sign in front. -/
def signed (negative : Bool) (q : ℚ) : ℚ :=
  if negative then -q else q

theorem abs_signed_sub (negative : Bool) (p q : ℚ) :
    |signed negative p - signed negative q| = |p - q| := by
  cases negative with
  | false => rfl
  | true =>
    show |-p - -q| = |p - q|
    rw [neg_sub_neg, abs_sub_comm]

theorem ofDigitChars_lastDigits (count n : Nat) :
    Nat.ofDigitChars 10 (lastDigits count n) 0 = n % 10 ^ count := by
  induction count generalizing n with
  | zero =>
    rw [Nat.pow_zero, Nat.mod_one]
    rfl
  | succ count ih =>
    have hdigit : n % 10 < 10 := Nat.mod_lt n (by decide)
    rw [lastDigits, Nat.ofDigitChars_append, ih, Nat.ofDigitChars_cons_digitChar_of_lt_ten hdigit,
      Nat.ofDigitChars_nil, Nat.pow_succ', Nat.mod_mul, Nat.add_comm]

/-- The whole part and the fraction of `n / 10 ^ places` make up this number. -/
theorem amount_pointed (places n : Nat) :
    amount (digits (n / 10 ^ places)) (lastDigits places n) = n / 10 ^ places := by
  have hpow : (10 : ℚ) ^ places ≠ 0 := pow_ne_zero places (by norm_num)
  have hsplit : ((n / 10 ^ places : ℕ) : ℚ) * 10 ^ places + (n % 10 ^ places : ℕ) = n := by
    exact_mod_cast Nat.div_add_mod' n (10 ^ places)
  rw [amount, ofDigitChars_lastDigits, length_lastDigits, digits, Nat.ofDigitChars_ten_toDigits,
    ← hsplit, add_div, mul_div_cancel_right₀ _ hpow]

theorem magnitude_pointed {places : Nat} (hplaces : 0 < places) (n : Nat) :
    Magnitude (pointed places n) (n / 10 ^ places) := by
  have hne : lastDigits places n ≠ [] := by
    intro hnil
    have hlength := length_lastDigits places n
    rw [hnil] at hlength
    exact absurd hlength (Nat.ne_of_lt hplaces)
  have hshape : withFraction (digits (n / 10 ^ places)) (lastDigits places n) = pointed places n :=
    if_neg hne
  rw [← amount_pointed, ← hshape]
  exact magnitude_withFraction (digits_ne_nil _) (fun _ => isDigit_of_mem_digits)
    fun _ => isDigit_of_mem_lastDigits

theorem denotes_fixedDigits {places : Nat} (hplaces : 0 < places) (negative : Bool)
    (significand : Nat) (exponent : Int) :
    Denotes (fixedDigits places negative significand exponent)
      (signed negative (inUnits places significand exponent / 10 ^ places)) := by
  have hmagnitude := magnitude_pointed hplaces (inUnits places significand exponent)
  cases negative with
  | false => exact .plain hmagnitude
  | true => exact .minus hmagnitude

/-- The quotient is within half a unit of the rounded one. -/
theorem abs_roundDiv_sub_le (num : Nat) {den : Nat} (hden : 0 < den) :
    |(roundDiv num den : ℚ) - num / den| ≤ 1 / 2 := by
  have hpos : (0 : ℚ) < den := by exact_mod_cast hden
  obtain ⟨habove, hbelow⟩ := roundDiv_near num hden
  have habove' : 2 * ((roundDiv num den : ℚ) * den) ≤ 2 * num + den := by exact_mod_cast habove
  have hbelow' : 2 * (num : ℚ) ≤ 2 * (roundDiv num den * den) + den := by exact_mod_cast hbelow
  rw [abs_sub_le_iff, sub_le_iff_le_add, sub_le_iff_le_add, ← sub_le_iff_le_add',
    le_div_iff₀ hpos, div_le_iff₀ hpos]
  constructor <;> linarith

/-- The count of units is within half a unit of the number. -/
theorem abs_inUnits_sub_le (places significand : Nat) (exponent : Int) :
    |(inUnits places significand exponent : ℚ) - significand * 2 ^ exponent * 10 ^ places| ≤
      1 / 2 := by
  cases exponent with
  | ofNat e =>
    have hexact : (inUnits places significand (.ofNat e) : ℚ) =
        significand * 2 ^ (Int.ofNat e) * 10 ^ places := by
      simp [inUnits]
    rw [hexact, sub_self, abs_zero]
    norm_num
  | negSucc e =>
    have hquotient : (significand : ℚ) * 2 ^ (Int.negSucc e) * 10 ^ places =
        (significand * 10 ^ places : ℕ) / (2 ^ (e + 1) : ℕ) := by
      rw [zpow_negSucc]
      push_cast
      ring
    rw [hquotient]
    exact abs_roundDiv_sub_le (significand * 10 ^ places) (Nat.pow_pos (by decide))

namespace FloatValue

/-- The number that a finite float denotes. -/
def toRat? : FloatValue → Option ℚ
  | .finite negative significand exponent => some (signed negative (significand * 2 ^ exponent))
  | .undefined | .infinite _ => none

/-- The text of a finite float denotes a number within half a unit of its last place of what the
float denotes. -/
theorem fixed_near {places : Nat} (hplaces : 0 < places) {v : FloatValue} {exact : ℚ}
    (h : v.toRat? = some exact) :
    ∃ shown, Denotes (v.fixed places).toList shown ∧ |shown - exact| ≤ 1 / 2 / 10 ^ places := by
  cases v with
  | undefined => cases h
  | infinite negative => cases h
  | finite negative significand exponent =>
    obtain rfl : signed negative (significand * 2 ^ exponent) = exact := Option.some.inj h
    refine ⟨signed negative (inUnits places significand exponent / 10 ^ places), ?_, ?_⟩
    · rw [fixed, textWith, String.toList_ofList]
      exact denotes_fixedDigits hplaces negative significand exponent
    · have hpow : (0 : ℚ) < 10 ^ places := pow_pos (by norm_num) places
      have hunits : (inUnits places significand exponent : ℚ) / 10 ^ places -
          significand * 2 ^ exponent =
            (inUnits places significand exponent - significand * 2 ^ exponent * 10 ^ places) /
              10 ^ places := by
        rw [sub_div, mul_div_cancel_right₀ _ hpow.ne']
      rw [abs_signed_sub, hunits, abs_div, abs_of_pos hpow]
      exact div_le_div_of_nonneg_right (abs_inUnits_sub_le places significand exponent) hpow.le

end FloatValue

/-! ## Finite floats -/

namespace FloatValue

open Float.Model in
/-- The largest biased exponent marks what is not finite. -/
theorem biased_ne_of_isFinite {x : Float} (h : x.isFinite = true) :
    x.toBits.toNat / Nat.pow 2 52 % Nat.pow 2 11 ≠ Nat.pow 2 11 - 1 := by
  intro hbiased
  -- the bits that are read here are those that core's model of a float unpacks
  have hexponent : @UnpackedFloat.unpackExponent .binary64 x.toBits.toBitVec = -1#_ := by
    apply BitVec.eq_of_toNat_eq
    rw [UnpackedFloat.unpackExponent, BitVec.toNat_cast, BitVec.extractLsb_toNat,
      Nat.shiftRight_eq_div_pow]
    exact hbiased
  change (UnpackedFloat.unpack .binary64 x.toBits.toBitVec).isFinite = true at h
  rw [UnpackedFloat.unpack] at h
  simp only [hexponent, if_true] at h
  split at h <;> cases h

theorem exists_finite {x : Float} (h : x.isFinite = true) :
    ∃ negative significand exponent, ofFloat x = finite negative significand exponent := by
  unfold ofFloat ofBits
  rw [if_neg (biased_ne_of_isFinite h)]
  split
  · exact ⟨_, _, _, rfl⟩
  · exact ⟨_, _, _, rfl⟩

theorem exists_toRat? {x : Float} (h : x.isFinite = true) :
    ∃ exact, (ofFloat x).toRat? = some exact := by
  obtain ⟨negative, significand, exponent, hx⟩ := exists_finite h
  rw [hx]
  exact ⟨_, rfl⟩

end FloatValue

end Decimal

namespace Cache

open Decimal

/-- The percentage of a finite ratio is its text with three fraction digits, trimmed. -/
theorem toList_percentage {x : Float} (h : x.isFinite = true) :
    (∃ sign whole fraction, Parts 3 ((FloatValue.ofFloat x).fixed 3).toList sign whole fraction) ∧
      (percentage x).toList = trimZeros ((FloatValue.ofFloat x).fixed 3).toList := by
  obtain ⟨negative, significand, exponent, hx⟩ := FloatValue.exists_finite h
  rw [percentage, hx, FloatValue.fixed, FloatValue.trimmed, FloatValue.textWith,
    FloatValue.textWith, String.toList_ofList, String.toList_ofList]
  exact ⟨parts_fixedDigits 3 negative significand exponent, rfl⟩

/-- The percentage of a finite ratio is what is left of its text with three fraction digits. It
denotes the same number, which is the ratio up to half a thousandth, and tells what that text is. -/
theorem percentage_canonical {x : Float} (hx : x.isFinite = true) :
    Trims 3 ((FloatValue.ofFloat x).fixed 3).toList (percentage x).toList ∧
      (∃ exact shown : ℚ, (FloatValue.ofFloat x).toRat? = some exact ∧
        Denotes (percentage x).toList shown ∧ |shown - exact| ≤ 1 / 2000) ∧
      ∀ y : Float, y.isFinite = true → (percentage x = percentage y ↔
        (FloatValue.ofFloat x).fixed 3 = (FloatValue.ofFloat y).fixed 3) := by
  obtain ⟨⟨sign, whole, fraction, hparts⟩, htrim⟩ := toList_percentage hx
  have htrims : Trims 3 ((FloatValue.ofFloat x).fixed 3).toList (percentage x).toList := by
    rw [htrim]
    exact hparts.trims (by decide)
  refine ⟨htrims, ?_, fun y hy => ?_⟩
  · obtain ⟨exact, hexact⟩ := FloatValue.exists_toRat? hx
    obtain ⟨shown, hshown, hnear⟩ := FloatValue.fixed_near (by decide : 0 < 3) hexact
    obtain ⟨q, hlong, hshort⟩ := htrims.value
    refine ⟨exact, shown, hexact, (hshort shown).2 ((hlong shown).1 hshown), hnear.trans ?_⟩
    norm_num
  · obtain ⟨⟨sign', whole', fraction', hparts'⟩, htrim'⟩ := toList_percentage hy
    constructor
    · intro heq
      rw [heq, htrim'] at htrim
      exact String.toList_inj.1 (hparts.trimZeros_inj hparts' htrim.symm)
    · intro heq
      rw [heq, ← htrim'] at htrim
      exact String.toList_inj.1 htrim

/-- One hundred keeps its zeros, and a zero below zero keeps its sign. -/
theorem percentage_canonical_hundred :
    percentage 100.0 = "100" ∧ percentage (-0.0) = "-0" ∧
      Trims 3 "100.000".toList "100".toList ∧ Trims 3 "-0.000".toList "-0".toList ∧
      (∃ exact shown : ℚ, (FloatValue.ofFloat 100.0).toRat? = some exact ∧
        Denotes "100".toList shown ∧ |shown - exact| ≤ 1 / 2000) ∧
      percentage 100.0 ≠ percentage (-0.0) := by
  have hundred : percentage 100.0 = "100" := by decide
  have hundred_fixed : (FloatValue.ofFloat 100.0).fixed 3 = "100.000" := by decide
  have zero : percentage (-0.0) = "-0" := by decide +kernel
  have zero_fixed : (FloatValue.ofFloat (-0.0)).fixed 3 = "-0.000" := by decide +kernel
  have hfinite : (100.0 : Float).isFinite = true := by decide
  have hfinite' : (-0.0 : Float).isFinite = true := by decide
  obtain ⟨htrims, hnear, htell⟩ := percentage_canonical hfinite
  obtain ⟨htrims', -⟩ := percentage_canonical hfinite'
  rw [hundred, hundred_fixed] at htrims
  rw [hundred] at hnear
  rw [zero, zero_fixed] at htrims'
  refine ⟨hundred, zero, htrims, htrims', hnear, ?_⟩
  rw [Ne, htell (-0.0) hfinite', hundred_fixed, zero_fixed]
  decide

end Cache

end BudgetCache
