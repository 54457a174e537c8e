import BudgetCache.Text.Lines
import BudgetCache.Text.Utf8
import Mathlib

/-!
# Where lines end

How a sequence of bytes falls into lines, as a grammar: a line ends at a line feed, or at a carriage
return and a line feed, and what comes after the last line feed is a line if it is not empty.
Cutting at line feeds finds the only such division. A line feed cuts what is before it off from what
comes after it, and another carriage return before it adds at most that byte to the line. As no
character outside ASCII has a byte in common with a character of ASCII, line endings are whole
characters of the text that the bytes encode.
-/

namespace BudgetCache.Text

/-- Bytes and the lines that they fall into. -/
inductive Lined : List UInt8 → List (List UInt8) → Prop
  | empty : Lined [] []
  | unended {line : List UInt8} (hne : line ≠ []) (hline : lineFeed ∉ line) : Lined line [line]
  | ended {line rest : List UInt8} {lines : List (List UInt8)} (hline : lineFeed ∉ line)
    (hreturn : line.getLast? ≠ some carriageReturn) (hrest : Lined rest lines) :
    Lined (line ++ lineFeed :: rest) (line :: lines)
  | returned {line rest : List UInt8} {lines : List (List UInt8)} (hline : lineFeed ∉ line)
    (hrest : Lined rest lines) :
    Lined (line ++ carriageReturn :: lineFeed :: rest) (line :: lines)

/-! ## Cutting at line feeds -/

theorem closeLines_append (pieces : List (List UInt8)) {others : List (List UInt8)}
    (h : others ≠ []) :
    closeLines (pieces ++ others) = pieces.map dropReturn ++ closeLines others := by
  induction pieces with
  | nil => rfl
  | cons piece pieces ih =>
    have hne : pieces ++ others ≠ [] := by simp [h]
    rw [List.cons_append, closeLines, ih]
    · rfl
    · exact hne

/-- A line feed cuts off what comes after it. -/
theorem linesOf_append (bytes rest : List UInt8) :
    linesOf (bytes ++ lineFeed :: rest) =
      (bytes.splitOnP (· == lineFeed)).map dropReturn ++ linesOf rest := by
  unfold linesOf
  rw [List.splitOnP_append_cons _ _ (by decide), closeLines_append _ (List.splitOnP_ne_nil _ _)]

theorem splitOnP_of_notMem {line : List UInt8} (h : lineFeed ∉ line) :
    line.splitOnP (· == lineFeed) = [line] := by
  apply List.splitOnP_eq_singleton
  intro b hb
  simp only [beq_eq_false_iff_ne, ne_eq]
  rintro rfl
  exact h hb

theorem linesOf_append_of_notMem {line : List UInt8} (h : lineFeed ∉ line) (rest : List UInt8) :
    linesOf (line ++ lineFeed :: rest) = dropReturn line :: linesOf rest := by
  rw [linesOf_append, splitOnP_of_notMem h]
  rfl

theorem dropReturn_concat (line : List UInt8) : dropReturn (line ++ [carriageReturn]) = line := by
  simp [dropReturn]

theorem dropReturn_of_ne {line : List UInt8} (h : line.getLast? ≠ some carriageReturn) :
    dropReturn line = line :=
  if_neg h

theorem lineFeed_notMem_concat {line : List UInt8} (h : lineFeed ∉ line) :
    lineFeed ∉ line ++ [carriageReturn] := by
  simp only [List.mem_append, List.mem_singleton, not_or]
  exact ⟨h, by decide⟩

theorem Lined.linesOf_eq {bytes : List UInt8} {lines : List (List UInt8)} (h : Lined bytes lines) :
    linesOf bytes = lines := by
  induction h with
  | empty => rfl
  | unended hne hline =>
    unfold linesOf
    rw [splitOnP_of_notMem hline]
    simp [closeLines, hne]
  | ended hline hreturn _ ih =>
    rw [linesOf_append_of_notMem hline, dropReturn_of_ne hreturn, ih]
  | @returned line rest lines hline _ ih =>
    have hcut := linesOf_append_of_notMem (lineFeed_notMem_concat hline) rest
    rw [List.append_assoc, dropReturn_concat, ih] at hcut
    exact hcut

theorem lined_linesOf (bytes : List UInt8) : Lined bytes (linesOf bytes) := by
  induction hlength : bytes.length using Nat.strong_induction_on generalizing bytes with
  | _ n ih =>
    by_cases hfeed : lineFeed ∈ bytes
    · obtain ⟨piece, rest, rfl, hpiece⟩ := List.eq_append_cons_of_mem hfeed
      have hrest : Lined rest (linesOf rest) := by
        refine ih rest.length ?_ rest rfl
        rw [← hlength, List.length_append, List.length_cons]
        omega
      rw [linesOf_append_of_notMem hpiece]
      by_cases hreturn : piece.getLast? = some carriageReturn
      · obtain ⟨line, rfl⟩ := List.getLast?_eq_some_iff.1 hreturn
        rw [dropReturn_concat, List.append_assoc]
        exact .returned (fun hmem => hpiece (List.mem_append_left _ hmem)) hrest
      · rw [dropReturn_of_ne hreturn]
        exact .ended hpiece hreturn hrest
    · by_cases hne : bytes = []
      · subst hne
        exact .empty
      · have hline := Lined.unended hne hfeed
        rw [hline.linesOf_eq]
        exact hline

/-- Bytes fall into lines in one way, and cutting at line feeds finds it. -/
theorem lined_iff {bytes : List UInt8} {lines : List (List UInt8)} :
    Lined bytes lines ↔ linesOf bytes = lines := by
  constructor
  · exact Lined.linesOf_eq
  · rintro rfl
    exact lined_linesOf bytes

/-! ## Carriage returns before line feeds -/

/-- The bytes with a carriage return added before every line feed. -/
def withReturns (bytes : List UInt8) : List UInt8 :=
  bytes.flatMap fun b => if b = lineFeed then [carriageReturn, lineFeed] else [b]

theorem withReturns_append (bytes rest : List UInt8) :
    withReturns (bytes ++ rest) = withReturns bytes ++ withReturns rest :=
  List.flatMap_append

theorem withReturns_of_notMem {line : List UInt8} (h : lineFeed ∉ line) :
    withReturns line = line := by
  induction line with
  | nil => rfl
  | cons b line ih =>
    have hb : b ≠ lineFeed := fun heq => h (heq ▸ List.mem_cons_self)
    have hline := ih fun hmem => h (List.mem_cons_of_mem b hmem)
    unfold withReturns at hline ⊢
    rw [List.flatMap_cons, if_neg hb, hline]
    rfl

theorem withReturns_lineFeed (bytes : List UInt8) :
    withReturns (lineFeed :: bytes) = carriageReturn :: lineFeed :: withReturns bytes := by
  unfold withReturns
  rw [List.flatMap_cons, if_pos rfl]
  rfl

/-- At most one carriage return at the end is new. -/
def AddsReturn (line line' : List UInt8) : Prop :=
  line' = line ∨ line' = line ++ [carriageReturn]

/-- The carriage returns that are added go with the line feeds. Where there was one before, it is
now the last byte of the line. -/
theorem Lined.withReturns {bytes : List UInt8} {lines : List (List UInt8)} (h : Lined bytes lines) :
    ∃ lines', Lined (Text.withReturns bytes) lines' ∧ List.Forall₂ AddsReturn lines lines' := by
  induction h with
  | empty => exact ⟨[], .empty, .nil⟩
  | unended hne hline =>
    rw [withReturns_of_notMem hline]
    exact ⟨_, .unended hne hline, .cons (.inl rfl) .nil⟩
  | ended hline hreturn _ ih =>
    obtain ⟨lines', hlines', hadds⟩ := ih
    rw [withReturns_append, withReturns_of_notMem hline, withReturns_lineFeed]
    exact ⟨_, .returned hline hlines', .cons (.inl rfl) hadds⟩
  | @returned line rest lines hline _ ih =>
    obtain ⟨lines', hlines', hadds⟩ := ih
    have hpiece := lineFeed_notMem_concat hline
    have hbytes : line ++ carriageReturn :: lineFeed :: rest =
        (line ++ [carriageReturn]) ++ lineFeed :: rest := by simp
    rw [hbytes, withReturns_append, withReturns_of_notMem hpiece, withReturns_lineFeed]
    exact ⟨_, .returned hpiece hlines', .cons (.inr rfl) hadds⟩

/-! ## Texts as bytes -/

/-- Only a character of ASCII is encoded with a byte of ASCII. -/
theorem toNat_of_mem_utf8EncodeChar {c : Char} {b : UInt8} (h : b ∈ String.utf8EncodeChar c)
    (hb : b.toNat < 0x80) : c.toNat = b.toNat := by
  have hc : c.toNat = c.val.toNat := rfl
  have hlong : ∀ n k, 0x80 ≤ k → n + k < 0x100 → b ≠ UInt8.ofNat (n + k) := by
    intro n k hk hn heq
    rw [heq, UInt8.toNat_ofNat'] at hb
    omega
  unfold String.utf8EncodeChar at h
  dsimp only at h
  split at h
  · rw [List.mem_singleton.1 h, UInt8.toNat_ofNat']
    omega
  · exfalso
    split at h
    · simp only [List.mem_cons, List.not_mem_nil, or_false] at h
      rcases h with h | h <;> exact hlong _ _ (by omega) (by omega) h
    · split at h
      · simp only [List.mem_cons, List.not_mem_nil, or_false] at h
        rcases h with h | h | h <;> exact hlong _ _ (by omega) (by omega) h
      · simp only [List.mem_cons, List.not_mem_nil, or_false] at h
        rcases h with h | h | h | h <;> exact hlong _ _ (by omega) (by omega) h

theorem encode_append (text text' : String) :
    encode (text ++ text') = encode text ++ encode text' := by
  simp [encode]

theorem encode_push (text : String) (c : Char) :
    encode (text.push c) = encode text ++ String.utf8EncodeChar c := by
  simp [encode]

theorem lineFeed_notMem_encode {text : String} (h : '\n' ∉ text.toList) :
    lineFeed ∉ encode text := by
  intro hmem
  obtain ⟨c, hc, hfeed⟩ := List.mem_flatMap.1 hmem
  have hnat : c.toNat = lineFeed.toNat := toNat_of_mem_utf8EncodeChar hfeed (by decide)
  have heq : c = '\n' := Char.toNat_inj.1 hnat
  exact h (heq ▸ hc)

/-- The last byte is a carriage return only if the last character is one. -/
theorem exists_of_encode_concat {text : String} {bytes : List UInt8}
    (h : encode text = bytes ++ [carriageReturn]) :
    ∃ initial : String, text = initial.push '\r' ∧ encode initial = bytes := by
  rcases List.eq_nil_or_concat' text.toList with hnil | ⟨cs, c, htext⟩
  · rw [encode, hnil] at h
    simp at h
  · have hpush : text = (String.ofList cs).push c := by
      rw [← String.toList_inj, htext, String.toList_push, String.toList_ofList]
    rw [hpush, encode_push] at h
    have hlast : carriageReturn ∈ String.utf8EncodeChar c := by
      apply List.mem_of_getLast?
      rw [← List.getLast?_append_of_ne_nil _ String.utf8EncodeChar_ne_nil, h, List.getLast?_concat]
    have hnat : c.toNat = carriageReturn.toNat := toNat_of_mem_utf8EncodeChar hlast (by decide)
    obtain rfl : c = '\r' := Char.toNat_inj.1 hnat
    exact ⟨String.ofList cs, hpush, List.append_cancel_right h⟩

theorem decode?_eq_some_iff {bytes : List UInt8} {text : String} :
    decode? bytes = some text ↔ encode text = bytes := by
  constructor
  · intro h
    unfold decode? String.fromUTF8? at h
    split at h
    · next hvalid =>
      have htext : text.toByteArray = bytes.toByteArray := by
        rw [← Option.some.inj h]
        rfl
      have hencode : (encode text).toByteArray = text.toByteArray := String.utf8Encode_toList
      exact List.toByteArray_inj.1 (hencode.trans htext)
    · cases h
  · rintro rfl
    exact decode?_encode text

/-- A carriage return at the end is part of the text and has no bearing on whether there is one. -/
theorem decode?_concat_return (bytes : List UInt8) :
    decode? (bytes ++ [carriageReturn]) = (decode? bytes).map (·.push '\r') := by
  cases hbytes : decode? bytes with
  | some text =>
    refine decode?_eq_some_iff.2 ?_
    rw [encode_push, decode?_eq_some_iff.1 hbytes]
    rfl
  | none =>
    cases hlonger : decode? (bytes ++ [carriageReturn]) with
    | none => rfl
    | some text =>
      obtain ⟨initial, -, hinitial⟩ := exists_of_encode_concat (decode?_eq_some_iff.1 hlonger)
      rw [decode?_eq_some_iff.2 hinitial] at hbytes
      cases hbytes

/-- A text with a line feed after it is the first line, unless it has line endings of its own. -/
theorem linesOf_encode {line : String} (hfeed : '\n' ∉ line.toList)
    (hreturn : line.toList.getLast? ≠ some '\r') (rest : List UInt8) :
    linesOf (encode (line ++ "\n") ++ rest) = encode line :: linesOf rest := by
  have hbytes : encode (line ++ "\n") ++ rest = encode line ++ lineFeed :: rest := by
    rw [encode_append, List.append_assoc]
    rfl
  have hlast : (encode line).getLast? ≠ some carriageReturn := by
    intro hlast
    obtain ⟨bytes, hbytes⟩ := List.getLast?_eq_some_iff.1 hlast
    obtain ⟨initial, rfl, -⟩ := exists_of_encode_concat hbytes
    rw [String.toList_push, List.getLast?_concat] at hreturn
    exact hreturn rfl
  rw [hbytes, linesOf_append_of_notMem (lineFeed_notMem_encode hfeed), dropReturn_of_ne hlast]

end BudgetCache.Text
