import BudgetCache.Text.Printable

/-!
# Quoted texts

Log messages and summaries show a text between double quotes, on one line whatever it holds. The
quote and the backslash are escaped, the usual control characters have one-letter escapes, and every
other character that is not printable is written by code point.
-/

namespace BudgetCache.Text

/-- The escape that names a code point in hexadecimal, as in `\u{1b}`. -/
def codePointEscape (c : Char) : List Char :=
  ['\\', 'u', '\x7b'] ++ Nat.toDigits 16 c.toNat ++ ['\x7d']

/-- How one character is shown between quotes. -/
def quotedChar (c : Char) : List Char :=
  if c = '"' then ['\\', '"']
  else if c = '\\' then ['\\', '\\']
  else if c = '\n' then ['\\', 'n']
  else if c = '\r' then ['\\', 'r']
  else if c = '\t' then ['\\', 't']
  else if c = '\x00' then ['\\', '0']
  else if isPrintable c then [c]
  else codePointEscape c

/-- The text between double quotes. -/
def quoted (text : String) : String :=
  String.ofList ('"' :: text.toList.flatMap quotedChar ++ ['"'])

theorem isPrintable_digitChar (n : Nat) : isPrintable n.digitChar = true := by
  refine isPrintable_of_ascii ?_
  by_cases h : n < 16
  · decide +revert
  · rw [Nat.digitChar_eq_star.mpr (by omega)]
    decide

theorem isPrintable_of_mem_toDigits {c : Char} {n : Nat} (hc : c ∈ Nat.toDigits 16 n) :
    isPrintable c = true := by
  induction n using Nat.strongRecOn with
  | ind n ih =>
    rw [Nat.toDigits_eq_if (by decide)] at hc
    split at hc
    case isTrue hsmall =>
      rw [List.mem_singleton.mp hc]
      exact isPrintable_digitChar n
    case isFalse hlarge =>
      rcases List.mem_append.mp hc with hfront | hlast
      · exact ih (n / 16) (by omega) hfront
      · rw [List.mem_singleton.mp hlast]
        exact isPrintable_digitChar (n % 16)

theorem isPrintable_of_mem_quotedChar (c : Char) : ∀ d ∈ quotedChar c, isPrintable d = true := by
  unfold quotedChar
  -- The escapes with a letter of their own are two fixed characters each.
  iterate 6
    split
    · exact List.forall_mem_cons.mpr ⟨isPrintable_of_ascii (by decide),
        List.forall_mem_singleton.mpr (isPrintable_of_ascii (by decide))⟩
  split
  case isTrue hprintable =>
    intro d hd
    rwa [List.mem_singleton.mp hd]
  case isFalse =>
    intro d hd
    simp only [codePointEscape, List.mem_append] at hd
    rcases hd with (hmark | hdigit) | hclose
    · simp only [List.mem_cons, List.not_mem_nil, or_false] at hmark
      rcases hmark with rfl | rfl | rfl <;> exact isPrintable_of_ascii (by decide)
    · exact isPrintable_of_mem_toDigits hdigit
    · rw [List.mem_singleton.mp hclose]
      exact isPrintable_of_ascii (by decide)

/-- Whatever the text, only printable characters are shown: no line ends inside the quotes. -/
theorem isPrintable_of_mem_quoted {text : String} {c : Char} (hc : c ∈ (quoted text).toList) :
    isPrintable c = true := by
  simp only [quoted, String.toList_ofList, List.cons_append, List.mem_cons, List.mem_append,
    List.mem_flatMap, List.not_mem_nil, or_false] at hc
  have hquote : isPrintable '"' = true := isPrintable_of_ascii (by decide)
  rcases hc with rfl | ⟨d, -, hd⟩ | rfl
  · exact hquote
  · exact isPrintable_of_mem_quotedChar d c hd
  · exact hquote

example : quoted "a\u200be\u0301 \ufeff\u00ad\ue000\n" =
    "\"a\\u\x7b200b\x7de\\u\x7b301\x7d \\u\x7bfeff\x7d\\u\x7bad\x7d\\u\x7be000\x7d\\n\"" := by
  decide +kernel

end BudgetCache.Text
