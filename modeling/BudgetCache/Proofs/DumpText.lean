import BudgetCache.Script.Artifact
import Mathlib

/-!
# Reading dumps

A dump can be taken apart again as long as the texts in it keep clear of the separators. The heading
ends at the first line feed after the limit, since a percentage has none; a row ends at the first
line feed if the value has none, and its key ends at the first space if the key has none. The cost
of an artifact stands after the last parenthesis that opens, so any text at all may come before it.
-/

namespace BudgetCache

namespace Text

/-- A text can be cut at a mark that does not occur before. -/
theorem append_cons_inj {α : Type} {mark : α} {xs xs' ys ys' : List α} (hxs : mark ∉ xs)
    (hxs' : mark ∉ xs') (h : xs ++ mark :: ys = xs' ++ mark :: ys') : xs = xs' ∧ ys = ys' := by
  induction xs generalizing xs' with
  | nil =>
    cases xs' with
    | nil => exact ⟨rfl, List.tail_eq_of_cons_eq h⟩
    | cons x' xs' =>
      have hmark : mark = x' := List.head_eq_of_cons_eq h
      exact absurd (hmark ▸ List.mem_cons_self) hxs'
  | cons x xs ih =>
    cases xs' with
    | nil =>
      have hmark : x = mark := List.head_eq_of_cons_eq h
      exact absurd (hmark ▸ List.mem_cons_self) hxs
    | cons x' xs' =>
      obtain ⟨hhead, hrest⟩ := List.cons.inj h
      obtain ⟨hxs, hys⟩ := ih (List.not_mem_of_not_mem_cons hxs)
        (List.not_mem_of_not_mem_cons hxs') hrest
      exact ⟨by rw [hhead, hxs], hys⟩

theorem trimEnd_newline {text : String} {c : Char} (hlast : text.toList.getLast? = some c)
    (hc : isBlank c = false) : trimEnd (text ++ "\n") = text := by
  obtain ⟨cs, hcs⟩ := List.getLast?_eq_some_iff.1 hlast
  have hnewline : isBlank '\n' = true := by decide
  have hkeep : dropEndWhile isBlank text.toList = text.toList := by
    rw [hcs, dropEndWhile_concat, hc]
    rfl
  have hdrop : dropEndWhile isBlank (text ++ "\n").toList = text.toList := by
    rw [String.toList_append]
    refine (dropEndWhile_concat isBlank text.toList '\n').trans ?_
    rw [if_pos hnewline, hkeep]
  rw [trimEnd, hdrop, String.ofList_toList]

theorem getLast?_append {text : String} {c : Char} (h : text.toList.getLast? = some c)
    (before : String) : (before ++ text).toList.getLast? = some c := by
  rw [String.toList_append, List.getLast?_append, h]
  rfl

end Text

namespace Decimal

theorem isDigit_of_mem_lastDigits {count n : Nat} {c : Char} (h : c ∈ lastDigits count n) :
    c.isDigit = true := by
  induction count generalizing n with
  | zero => exact (List.not_mem_nil h).elim
  | succ count ih =>
    rcases List.mem_append.1 h with hmem | hmem
    · exact ih hmem
    · rw [List.mem_singleton.1 hmem, Nat.isDigit_digitChar]
      exact decide_eq_true (Nat.mod_lt n (by decide))

theorem mem_fixedDigits {places significand : Nat} {negative : Bool} {exponent : Int} {c : Char}
    (h : c ∈ fixedDigits places negative significand exponent) :
    c = '-' ∨ c = '.' ∨ c.isDigit = true := by
  unfold fixedDigits pointed at h
  rcases List.mem_append.1 h with hmem | hmem
  · left
    cases negative with
    | true => exact List.mem_singleton.1 hmem
    | false => exact (List.not_mem_nil hmem).elim
  · right
    rcases List.mem_append.1 hmem with hmem | hmem
    · exact .inr (isDigit_of_mem_digits hmem)
    · rcases List.mem_cons.1 hmem with rfl | hmem
      · exact .inl rfl
      · exact .inr (isDigit_of_mem_lastDigits hmem)

theorem mem_of_mem_trimZeros {cs : List Char} {c : Char} (h : c ∈ trimZeros cs) : c ∈ cs :=
  (List.rdropWhile_prefix _ cs).subset ((List.rdropWhile_prefix _ _).subset h)

end Decimal

theorem Cache.newline_notMem_percentage (ratio : Float) : '\n' ∉ (percentage ratio).toList := by
  unfold percentage Decimal.FloatValue.trimmed
  cases Decimal.FloatValue.ofFloat ratio with
  | undefined => decide
  | infinite negative => cases negative <;> decide
  | finite negative significand exponent =>
    rw [Decimal.FloatValue.textWith, String.toList_ofList]
    intro h
    rcases Decimal.mem_fixedDigits (Decimal.mem_of_mem_trimZeros h) with h | h | h <;>
      exact absurd h (by decide)

theorem Artifact.newline_mem_text {a : Artifact} (h : '\n' ∈ a.display.toList) :
    '\n' ∈ a.text.toList := by
  have hdigits : '\n' ∉ Decimal.digits a.cost := fun hmem =>
    absurd (Decimal.isDigit_of_mem_digits hmem) (by decide)
  simpa [display, Decimal.ofNat, hdigits] using h

/-- An artifact can be told from the text that a dump shows. -/
theorem Artifact.display_inj {a b : Artifact} (h : a.display = b.display) : a = b := by
  have hdigits : ∀ n : Nat, '(' ∉ ')' :: (Decimal.digits n).reverse := by
    intro n hmem
    rcases List.mem_cons.1 hmem with hmem | hmem
    · exact absurd hmem (by decide)
    · exact absurd (Decimal.isDigit_of_mem_digits (List.mem_reverse.1 hmem)) (by decide)
  -- from the end, the digits come before the first parenthesis that opens
  have hback : ∀ a : Artifact, a.display.toList.reverse =
      (')' :: (Decimal.digits a.cost).reverse) ++ '(' :: ' ' :: a.text.toList.reverse := by
    intro a
    simp [display, Decimal.ofNat]
  have hboth := congrArg (fun text : String => text.toList.reverse) h
  simp only [hback] at hboth
  obtain ⟨hcost, htext⟩ := Text.append_cons_inj (hdigits a.cost) (hdigits b.cost) hboth
  have hcosts : a.cost = b.cost :=
    Decimal.digits_inj (List.reverse_injective (List.tail_eq_of_cons_eq hcost))
  have htexts : a.text = b.text :=
    String.toList_inj.1 (List.reverse_injective (List.tail_eq_of_cons_eq htext))
  rw [Artifact.mk.injEq]
  exact ⟨htexts, hcosts⟩

namespace Cache

/-! ## Rows -/

/-- Texts of a key and a value that can be told apart in a row. -/
def Legible (pair : String × String) : Prop :=
  ' ' ∉ pair.1.toList ∧ '\n' ∉ pair.2.toList

/-- The rows as one list of characters. -/
def rowText (rows : List (String × String)) : List Char :=
  rows.flatMap fun pair => (row pair.1 pair.2).toList

theorem rowText_cons (pair : String × String) (rows : List (String × String)) :
    rowText (pair :: rows) =
      pair.1.toList ++ ' ' :: '-' :: '>' :: ' ' :: (pair.2.toList ++ '\n' :: rowText rows) := by
  simp [rowText, row]

theorem rowText_ne_nil (pair : String × String) (rows : List (String × String)) :
    rowText (pair :: rows) ≠ [] := by
  rw [rowText_cons]
  exact List.append_ne_nil_of_right_ne_nil _ (List.cons_ne_nil _ _)

/-- Rows of legible texts can be read back. -/
theorem rowText_inj {rows rows' : List (String × String)} (h : ∀ pair ∈ rows, Legible pair)
    (h' : ∀ pair ∈ rows', Legible pair) (heq : rowText rows = rowText rows') : rows = rows' := by
  induction rows generalizing rows' with
  | nil =>
    cases rows' with
    | nil => rfl
    | cons pair rows' => exact absurd heq.symm (rowText_ne_nil pair rows')
  | cons pair rows ih =>
    cases rows' with
    | nil => exact absurd heq (rowText_ne_nil pair rows)
    | cons pair' rows' =>
      obtain ⟨hpair, hrows⟩ := List.forall_mem_cons.1 h
      obtain ⟨hpair', hrows'⟩ := List.forall_mem_cons.1 h'
      rw [rowText_cons, rowText_cons] at heq
      obtain ⟨hkey, hrest⟩ := Text.append_cons_inj hpair.1 hpair'.1 heq
      have hvalues : pair.2.toList ++ '\n' :: rowText rows =
          pair'.2.toList ++ '\n' :: rowText rows' := by simpa using hrest
      obtain ⟨hvalue, htail⟩ := Text.append_cons_inj hpair.2 hpair'.2 hvalues
      have hsame : pair = pair' :=
        Prod.ext (String.toList_inj.1 hkey) (String.toList_inj.1 hvalue)
      rw [hsame, ih hrows hrows' htail]

variable {κ ν : Type} [BEq κ] [Hashable κ]

theorem toList_dump [Shown κ] [Shown ν] (c : Cache κ ν) :
    c.dump.toList =
      (c.name ++ "[" ++ Decimal.ofInt c.limit ++ "]: ").toList ++
        ((percentage c.percentUsed ++ "% full").toList ++ '\n' :: rowText c.rows) := by
  simp [dump, heading, rowText, String.toList_join, List.flatMap_map]

/-- Dumps of caches that have the same name and limit differ if their rows do. -/
theorem rows_eq_of_dump_eq [Shown κ] [Shown ν] {c d : Cache κ ν} (hname : c.name = d.name)
    (hlimit : c.limit = d.limit) (hc : ∀ pair ∈ c.rows, Legible pair)
    (hd : ∀ pair ∈ d.rows, Legible pair) (h : c.dump = d.dump) : c.rows = d.rows := by
  have hheading : ∀ c : Cache κ ν, '\n' ∉ (percentage c.percentUsed ++ "% full").toList := by
    intro c hmem
    rw [String.toList_append] at hmem
    rcases List.mem_append.1 hmem with hmem | hmem
    · exact newline_notMem_percentage _ hmem
    · exact absurd hmem (by decide)
  have htexts := congrArg String.toList h
  rw [toList_dump, toList_dump, hname, hlimit] at htexts
  have hrest := List.append_cancel_left htexts
  obtain ⟨-, hrows⟩ := Text.append_cons_inj (hheading c) (hheading d) hrest
  exact rowText_inj hc hd hrows

/-! ## The end of a dump -/

/-- The dump of a cache of artifacts ends with a line feed and with no other blank before it. -/
theorem trimEnd_dump [Shown κ] (c : Cache κ Artifact) : Text.trimEnd c.dump ++ "\n" = c.dump := by
  have hends : ∃ text last, c.dump = text ++ "\n" ∧ text.toList.getLast? = some last ∧
      Text.isBlank last = false := by
    rcases List.eq_nil_or_concat' c.rows with hnil | ⟨rows, pair, hrows⟩
    · refine ⟨c.heading c.name, 'l', ?_, Text.getLast?_append rfl _, by decide⟩
      rw [dump, hnil]
      exact String.append_empty
    · have hpair : pair ∈ c.rows := by
        rw [hrows]
        exact List.mem_concat_self
      obtain ⟨⟨key, value⟩, -, rfl⟩ :=
        List.mem_map.1 ((List.mergeSort_perm _ _).mem_iff.1 hpair)
      have hvalue : value.display.toList.getLast? = some ')' := Text.getLast?_append rfl _
      refine ⟨c.heading c.name ++ "\n" ++ String.join (rows.map fun pair => row pair.1 pair.2) ++
        (Shown.shown key ++ " -> ") ++ value.display, ')', ?_, Text.getLast?_append hvalue _,
        by decide⟩
      rw [dump, hrows, List.map_append, String.join_append]
      simp [row, Shown.shown, String.append_assoc]
  obtain ⟨text, last, hdump, hlast, hblank⟩ := hends
  rw [hdump, Text.trimEnd_newline hlast hblank]

end Cache

end BudgetCache
