import BudgetCache.Text.Trim
import BudgetCache.Text.Words
import Mathlib

/-!
# How words stand on a line

A line shows a list of words if it consists of them in order, each preceded by blanks and followed
by a blank or by the end of the line, with blanks at the end. This says what the words of a line are
without saying how they are found: splitting at blanks finds exactly the words that a line shows.
Blanks at either end are of no account, so a trimmed line has the same words.
-/

namespace BudgetCache.Text

/-- Blanks only, perhaps none. -/
def IsGap (cs : List Char) : Prop :=
  ∀ c ∈ cs, isBlank c = true

/-- At least one character, and no blank. -/
def IsWord (cs : List Char) : Prop :=
  cs ≠ [] ∧ ∀ c ∈ cs, isBlank c = false

/-- Beyond the space, no character of ASCII is blank. -/
theorem not_isBlank_of_ascii {c : Char} (hmin : 0x20 < c.toNat) (hmax : c.toNat < 0x80) :
    isBlank c = false := by
  rw [← Bool.not_eq_true, isBlank_iff]
  rintro ⟨range, hrange, hfrom, hto⟩
  simp only [blankRanges, List.mem_cons, List.not_mem_nil, or_false] at hrange
  rcases hrange with rfl | rfl | rfl | rfl | rfl | rfl | rfl | rfl | rfl | rfl <;>
    simp only at hfrom hto <;> omega

/-- A text and the words on it. No word could be longer: a blank or the end comes after it. -/
inductive Shows : List Char → List (List Char) → Prop
  | blank {gap : List Char} (hgap : IsGap gap) : Shows gap []
  | word {gap word rest : List Char} {words : List (List Char)} (hgap : IsGap gap)
    (hword : IsWord word) (hend : ∀ c ∈ rest.head?, isBlank c = true) (hrest : Shows rest words) :
    Shows (gap ++ word ++ rest) (word :: words)

theorem wordsOf_gap_append {gap : List Char} (h : IsGap gap) (cs : List Char) :
    wordsOf (gap ++ cs) = wordsOf cs := by
  induction gap with
  | nil => rfl
  | cons c gap ih =>
    have hc := h c List.mem_cons_self
    rw [List.cons_append, wordsOf_cons_blank hc]
    exact ih fun d hd => h d (List.mem_cons_of_mem c hd)

theorem wordsOf_word {word : List Char} (h : IsWord word) : wordsOf word = [word] := by
  obtain ⟨hne, hword⟩ := h
  rw [wordsOf, List.splitOnP_eq_singleton hword]
  simp [hne]

theorem wordsOf_word_append {word rest : List Char} (hword : IsWord word)
    (hend : ∀ c ∈ rest.head?, isBlank c = true) :
    wordsOf (word ++ rest) = word :: wordsOf rest := by
  cases rest with
  | nil => rw [List.append_nil, wordsOf_word hword, wordsOf_nil]
  | cons c rest =>
    have hc : isBlank c = true := hend c rfl
    rw [wordsOf_append_blank hc, wordsOf_word hword, wordsOf_cons_blank hc]
    rfl

theorem Shows.wordsOf_eq {cs : List Char} {words : List (List Char)} (h : Shows cs words) :
    wordsOf cs = words := by
  induction h with
  | @blank gap hgap =>
    have hwords := wordsOf_gap_append hgap []
    rw [List.append_nil, wordsOf_nil] at hwords
    exact hwords
  | word hgap hword hend _ ih =>
    rw [List.append_assoc, wordsOf_gap_append hgap, wordsOf_word_append hword hend, ih]

theorem Shows.cons_blank {cs : List Char} {words : List (List Char)} (h : Shows cs words)
    {c : Char} (hc : isBlank c = true) : Shows (c :: cs) words := by
  cases h with
  | blank hgap => exact .blank (List.forall_mem_cons.2 ⟨hc, hgap⟩)
  | @word gap word rest words hgap hword hend hrest =>
    have hgap' : IsGap (c :: gap) := List.forall_mem_cons.2 ⟨hc, hgap⟩
    exact .word hgap' hword hend hrest

/-- A further character in front belongs to the first word if no blank comes after it, and is a word
of its own otherwise. -/
theorem Shows.cons_mark {cs : List Char} {words : List (List Char)} (h : Shows cs words)
    {c : Char} (hc : isBlank c = false) : ∃ words', Shows (c :: cs) words' := by
  have hnone : IsGap [] := fun d hd => (List.not_mem_nil hd).elim
  have halone : (∀ d ∈ cs.head?, isBlank d = true) → ∃ words', Shows (c :: cs) words' := by
    intro hend
    have hword : IsWord [c] := ⟨by simp, by simpa using hc⟩
    exact ⟨_, .word hnone hword hend h⟩
  cases h with
  | blank hgap =>
    exact halone fun d hd => hgap d (List.mem_of_mem_head? hd)
  | @word gap word rest words hgap hword hend hrest =>
    cases gap with
    | nil =>
      have hlonger : IsWord (c :: word) := ⟨by simp, List.forall_mem_cons.2 ⟨hc, hword.2⟩⟩
      exact ⟨_, .word hnone hlonger hend hrest⟩
    | cons d gap =>
      refine halone fun d' hd' => ?_
      obtain rfl : d = d' := by simpa using hd'
      exact hgap d List.mem_cons_self

theorem exists_shows (cs : List Char) : ∃ words, Shows cs words := by
  induction cs with
  | nil => exact ⟨[], .blank fun c hc => (List.not_mem_nil hc).elim⟩
  | cons c cs ih =>
    obtain ⟨words, hwords⟩ := ih
    cases hc : isBlank c with
    | true => exact ⟨words, hwords.cons_blank hc⟩
    | false => exact hwords.cons_mark hc

/-- Every text shows one list of words, and splitting at blanks finds it. -/
theorem shows_iff {cs : List Char} {words : List (List Char)} :
    Shows cs words ↔ wordsOf cs = words := by
  constructor
  · exact Shows.wordsOf_eq
  · rintro rfl
    obtain ⟨words, hwords⟩ := exists_shows cs
    rw [hwords.wordsOf_eq]
    exact hwords

theorem Shows.isWord {cs : List Char} {words : List (List Char)} (h : Shows cs words) :
    ∀ word ∈ words, IsWord word := by
  induction h with
  | blank hgap => exact fun word hword => (List.not_mem_nil hword).elim
  | word hgap hword hend _ ih => exact List.forall_mem_cons.2 ⟨hword, ih⟩

/-! ## Lines -/

/-- A line and the words on it. -/
def Spaced (line : String) (words : List String) : Prop :=
  Shows line.toList (words.map String.toList)

theorem spaced_iff {line : String} {words' : List String} :
    Spaced line words' ↔ words line = words' := by
  rw [Spaced, shows_iff, words]
  constructor
  · intro h
    rw [h, List.map_map]
    simp
  · rintro rfl
    rw [List.map_map]
    simp

theorem spaced_words (line : String) : Spaced line (words line) :=
  spaced_iff.2 rfl

theorem Spaced.isWord {line : String} {words : List String} (h : Spaced line words) :
    ∀ word ∈ words, IsWord word.toList := by
  intro word hword
  exact Shows.isWord h word.toList (List.mem_map_of_mem hword)

/-- How words are laid out on a line: the blanks before each word, of which only the first may have
none, and the blanks at the end. -/
structure Layout where
  /-- The words, each with the blanks before it. -/
  pieces : List (List Char × String)
  /-- The blanks at the end. -/
  trail : List Char
  gaps : ∀ piece ∈ pieces, IsGap piece.1
  apart : ∀ piece ∈ pieces.tail, piece.1 ≠ []
  trail_gap : IsGap trail

namespace Layout

/-- The words that are laid out. -/
def words (l : Layout) : List String :=
  l.pieces.map (·.2)

/-- The line that comes of it. -/
def line (l : Layout) : String :=
  String.ofList (l.pieces.flatMap (fun piece => piece.1 ++ piece.2.toList) ++ l.trail)

end Layout

theorem shows_pieces {pieces : List (List Char × String)} {trail : List Char}
    (hgaps : ∀ piece ∈ pieces, IsGap piece.1) (hapart : ∀ piece ∈ pieces.tail, piece.1 ≠ [])
    (htrail : IsGap trail) (hwords : ∀ piece ∈ pieces, IsWord piece.2.toList) :
    Shows (pieces.flatMap (fun piece => piece.1 ++ piece.2.toList) ++ trail)
      (pieces.map (·.2.toList)) := by
  induction pieces with
  | nil => exact .blank htrail
  | cons piece pieces ih =>
    obtain ⟨hgap, hgaps⟩ := List.forall_mem_cons.1 hgaps
    obtain ⟨hword, hwords⟩ := List.forall_mem_cons.1 hwords
    have hrest := ih hgaps (fun other hother => hapart other (List.mem_of_mem_tail hother)) hwords
    rw [List.flatMap_cons, List.append_assoc]
    refine .word hgap hword ?_ hrest
    -- a blank comes next: the first of the gap before the next word, or of those at the end
    intro c hc
    cases pieces with
    | nil => exact htrail c (List.mem_of_mem_head? hc)
    | cons next pieces =>
      obtain ⟨d, gap, hnext⟩ := List.exists_cons_of_ne_nil (hapart next List.mem_cons_self)
      have hd : d = c := by simpa [hnext] using hc
      refine hgaps next List.mem_cons_self c ?_
      rw [hnext, hd]
      exact List.mem_cons_self

/-- A line shows the words that were laid out on it. -/
theorem Layout.spaced (l : Layout) (hwords : ∀ word ∈ l.words, IsWord word.toList) :
    Spaced l.line l.words := by
  rw [Spaced, Layout.line, Layout.words, String.toList_ofList, List.map_map]
  exact shows_pieces l.gaps l.apart l.trail_gap fun piece hpiece =>
    hwords piece.2 (List.mem_map_of_mem hpiece)

/-! ## Trimming -/

theorem wordsOf_dropWhile (cs : List Char) : wordsOf (cs.dropWhile isBlank) = wordsOf cs := by
  induction cs with
  | nil => rfl
  | cons c cs ih =>
    cases hc : isBlank c with
    | true => rw [List.dropWhile_cons_of_pos hc, ih, wordsOf_cons_blank hc]
    | false => rw [List.dropWhile_cons_of_neg (by simp [hc])]

theorem wordsOf_dropEndWhile (cs : List Char) : wordsOf (dropEndWhile isBlank cs) = wordsOf cs := by
  induction cs using List.reverseRecOn with
  | nil => rfl
  | append_singleton cs c ih =>
    rw [dropEndWhile_concat]
    split
    · next hc => rw [ih, wordsOf_append_blank hc, wordsOf_nil, List.append_nil]
    · rfl

theorem wordsOf_trim (line : String) : wordsOf (trim line).toList = wordsOf line.toList := by
  rw [trim, String.toList_ofList, wordsOf_dropEndWhile, wordsOf_dropWhile]

theorem dropWhile_of_isWord {cs : List Char} (h : IsWord cs) : cs.dropWhile isBlank = cs := by
  obtain ⟨c, rest, rfl⟩ := List.exists_cons_of_ne_nil h.1
  have hc : isBlank c = false := h.2 c List.mem_cons_self
  exact List.dropWhile_cons_of_neg (by simp [hc])

theorem trim_of_isWord {text : String} (h : IsWord text.toList) : trim text = text := by
  have hreverse : IsWord text.toList.reverse := by
    refine ⟨by simpa using h.1, ?_⟩
    intro c hc
    exact h.2 c (List.mem_reverse.1 hc)
  rw [trim, dropWhile_of_isWord h, dropEndWhile, dropWhile_of_isWord hreverse, List.reverse_reverse,
    String.ofList_toList]

theorem trim_push (text : String) {c : Char} (hc : isBlank c = true) :
    trim (text.push c) = trim text := by
  have hend : [c].dropWhile isBlank = [] := by simp [hc]
  unfold trim
  rw [String.toList_push, List.dropWhile_append]
  split
  · next hnil =>
    rw [hend, List.isEmpty_iff.1 hnil]
  · rw [dropEndWhile_concat, if_pos hc]

theorem not_isBlank_of_head?_trim {line : String} {c : Char}
    (h : c ∈ (trim line).toList.head?) : isBlank c = false := by
  rw [trim, String.toList_ofList] at h
  have hinitial : dropEndWhile isBlank (line.toList.dropWhile isBlank) <+:
      line.toList.dropWhile isBlank := List.rdropWhile_prefix isBlank _
  have hhead : c ∈ (line.toList.dropWhile isBlank).head? := by
    obtain ⟨rest, hrest⟩ := hinitial
    rw [← hrest, List.head?_append, Option.mem_def.1 h]
    rfl
  have hfirst := List.head?_dropWhile_not isBlank line.toList
  rw [Option.mem_def.1 hhead] at hfirst
  exact hfirst

/-- A text that does not begin with a blank begins with its first word. -/
theorem Shows.head?_eq {cs : List Char} {words : List (List Char)} (h : Shows cs words)
    (hmark : ∀ c ∈ cs.head?, isBlank c = false) : cs.head? = words.head?.bind List.head? := by
  have hgap : ∀ {gap rest : List Char}, IsGap gap → cs = gap ++ rest → gap = [] := by
    intro gap rest hgap hcs
    cases gap with
    | nil => rfl
    | cons c gap =>
      rw [hcs] at hmark
      have hc := hmark c rfl
      rw [hgap c List.mem_cons_self] at hc
      cases hc
  cases h with
  | blank h => rw [hgap h (List.append_nil cs).symm]; rfl
  | @word gap word rest words h hword hend hrest =>
    obtain ⟨c, cs, rfl⟩ := List.exists_cons_of_ne_nil hword.1
    rw [hgap h (List.append_assoc ..)]
    rfl

theorem Spaced.trim {line : String} {words : List String} (h : Spaced line words) :
    Spaced (Text.trim line) words := by
  rw [Spaced, shows_iff, wordsOf_trim]
  exact shows_iff.1 h

theorem Spaced.head?_trim {line : String} {words : List String} (h : Spaced line words) :
    (Text.trim line).toList.head? = words.head?.bind (·.toList.head?) := by
  have hshows : Shows (Text.trim line).toList (words.map String.toList) := h.trim
  rw [hshows.head?_eq fun c hc => not_isBlank_of_head?_trim hc, List.head?_map, Option.bind_map]
  rfl

end BudgetCache.Text
