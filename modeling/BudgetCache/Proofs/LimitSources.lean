import BudgetCache.Proofs.Grammar
import BudgetCache.Proofs.Replaying
import Mathlib

/-!
# A limit from the environment or from the script

The limit of a session may be given by the environment, before the script begins, or by the first
line of the script. Lowering the limit of an empty table evicts nothing, so both lead to the same
session. A word that is no limit has no effect in either place, but the line is answered with what
is wrong with it.
-/

namespace BudgetCache

/-- The texts that are limits: integers that fit in 64 bits with their signs. -/
def IsLimit (text : String) : Prop :=
  ∃ z, Decimal.Signed text.toList z ∧ -2 ^ 63 ≤ z ∧ z < 2 ^ 63

theorem isLimit_iff {text : String} : IsLimit text ↔ (Quantity.limit? text).isSome = true := by
  rw [Option.isSome_iff_exists]
  simp only [Command.limit?_eq_some]
  rfl

instance : DecidablePred IsLimit := fun _ => decidable_of_iff _ isLimit_iff.symm

theorem Table.after_setLimit_empty {κ ν : Type} [BEq κ] [Hashable κ] (limit z : Int) :
    ((empty limit : Table κ ν).setLimit z).after = empty z := by
  unfold setLimit
  split <;> rfl

/-- A variable that holds a word sets the limit if the word is one. -/
theorem Settings.ofEnvironment_word {text : String} (h : Text.IsWord text.toList)
    (name : Option (List UInt8)) :
    ofEnvironment { spaceLimit := some (Text.encode text), cacheName := name } =
      { ofEnvironment { cacheName := name } with
        limit := (Quantity.limit? text).getD Cache.defaultLimit } := by
  simp only [ofEnvironment, Option.bind_some, Option.bind_none, Option.getD_none,
    Text.decode?_encode, limitOf?, Text.trim_of_isWord h]

namespace Session

/-! ## The line that sets a limit -/

theorem spaced_limit {text : String} (h : Text.IsWord text.toList) :
    Text.Spaced ("limit " ++ text) ["limit", text] := by
  let l : Text.Layout := {
    pieces := [([], "limit"), ([' '], text)]
    trail := []
    gaps := by simp [Text.IsGap, Text.isBlank, Text.blankRanges]
    apart := by simp
    trail_gap := by simp [Text.IsGap] }
  have hline : l.line = "limit " ++ text := by
    rw [← String.toList_inj]
    simp [Text.Layout.line, l]
  rw [← hline]
  refine l.spaced ?_
  intro word hword
  have hcases : word = "limit" ∨ word = text := by simpa [Text.Layout.words, l] using hword
  rcases hcases with rfl | rfl
  · have hspells : Keyword.Spells "limit" .limit := by decide
    exact Command.isWord_of_spells hspells
  · exact h

theorem isSilent_limit {text : String} (h : Text.IsWord text.toList) :
    isSilent (Text.trim ("limit " ++ text)) = false := by
  rw [← Bool.not_eq_true, isSilent_trim (spaced_limit h)]
  intro hsign
  have hletter : 'l' = '#' := hsign 'l' rfl
  cases hletter

theorem ofLine_limit {text : String} (h : Text.IsWord text.toList) :
    Command.ofLine ("limit " ++ text) =
      match Quantity.limit? text with
      | some z => .ok (.limit z)
      | none => .error (.notNumber .limit text) := by
  have hkeyword : Keyword.ofWord? "limit" = some .limit := by decide
  rw [Command.ofLine_of_spaced (spaced_limit h), Command.ofWords, hkeyword]
  cases hlimit : Quantity.limit? text with
  | some z => simp only [Command.ofArguments, hlimit]
  | none => simp only [Command.ofArguments, hlimit]

theorem after_perform_limit (settings : Settings) (z : Int) :
    ((ofSettings settings).perform (.limit z)).after = ofSettings { settings with limit := z } := by
  have htable := Table.after_setLimit_empty (κ := String) (ν := Artifact) settings.limit z
  unfold ofSettings Cache.empty
  rw [← htable]
  rfl

/-- The line leads to the session that the text leads to as the value of the variable. -/
theorem respond_limit {text : String} (h : Text.IsWord text.toList)
    (name : Option (List UInt8)) :
    let turn := (ofSettings (Settings.ofEnvironment { cacheName := name })).respond
      ("limit " ++ text)
    turn.response =
        some (if IsLimit text then "OK" else "error: Invalid number for limit: " ++ text) ∧
      turn.after = ofSettings (Settings.ofEnvironment
        { spaceLimit := some (Text.encode text), cacheName := name }) := by
  have hread := ofLine_limit h
  rw [Settings.ofEnvironment_word h name]
  simp only [isLimit_iff]
  cases hlimit : Quantity.limit? text with
  | some z =>
    rw [hlimit] at hread
    rw [respond_of_ok _ (isSilent_limit h) hread]
    exact ⟨rfl, after_perform_limit _ z⟩
  | none =>
    rw [hlimit] at hread
    rw [respond_of_error _ (isSilent_limit h) hread]
    exact ⟨rfl, rfl⟩

/-- After the line, a script goes on as it does from the start under the variable. -/
theorem replay_limit {text : String} (h : Text.IsWord text.toList) (name : Option (List UInt8))
    (lines : List (List UInt8)) :
    let t := (ofSettings (Settings.ofEnvironment { cacheName := name })).replay
      (Text.encode ("limit " ++ text) :: lines)
    let t' := (ofSettings (Settings.ofEnvironment
      { spaceLimit := some (Text.encode text), cacheName := name })).replay lines
    t.complete = t'.complete ∧
      t.responses =
        (if IsLimit text then "OK" else "error: Invalid number for limit: " ++ text) ::
          t'.responses := by
  obtain ⟨hresponse, hafter⟩ := respond_limit h name
  rw [replay, Text.decode?_encode]
  dsimp only
  rw [hresponse, hafter]
  exact ⟨rfl, rfl⟩

end Session

namespace Replay

/-! ## Whole runs -/

theorem linesOf_limit {text : String} (h : Text.IsWord text.toList) (rest : List UInt8) :
    Text.linesOf (Text.encode ("limit " ++ text ++ "\n") ++ rest) =
      Text.encode ("limit " ++ text) :: Text.linesOf rest := by
  have hline : ("limit " ++ text).toList = "limit ".toList ++ text.toList := String.toList_append
  refine Text.linesOf_encode ?_ ?_ rest
  · rw [hline]
    intro hmem
    rcases List.mem_append.1 hmem with hmem | hmem
    · revert hmem
      decide
    · have hmark := h.2 '\n' hmem
      revert hmark
      decide
  · rw [hline, List.getLast?_append_of_ne_nil _ h.1]
    intro hlast
    have hmark := h.2 '\r' (List.mem_of_getLast? hlast)
    revert hmark
    decide

/-- The limit may be set by the variable or by the first line. The line is answered, the rest of the
output and the exit code are the same. -/
theorem limit_by_variable_or_line (text : String) (h : Text.IsWord text.toList)
    (name : Option (List UInt8)) (input : List UInt8) (file? : String → Option Source) :
    let byVariable := program { spaceLimit := some (Text.encode text), cacheName := name } []
      input file?
    let byLine := program { spaceLimit := none, cacheName := name } []
      (Text.encode ("limit " ++ text ++ "\n") ++ input) file?
    byLine.exitCode = byVariable.exitCode ∧
      byLine.output =
        (if IsLimit text then "OK" else "error: Invalid number for limit: " ++ text) ++ "\n" ++
          byVariable.output := by
  intro byVariable byLine
  obtain ⟨hcomplete, hresponses⟩ := Session.replay_limit h name (Text.linesOf input)
  unfold byLine byVariable
  refine ⟨?_, ?_⟩
  · simp only [exitCode_program, linesOf_limit h, hcomplete]
  · rw [output_program, output_program, linesOf_limit h, hresponses]
    exact output_append [_] _

/-- A negative limit, and a word that is none. -/
theorem limit_by_variable_or_line_two :
    Text.IsWord "-1".toList ∧ IsLimit "-1" ∧ Text.IsWord "ten".toList ∧ ¬IsLimit "ten" ∧
      ((program {} [] (Text.encode "limit -1\n" ++ Text.encode "put a x") fun _ => none).output =
        "OK\n" ++ (program { spaceLimit := some (Text.encode "-1") } []
          (Text.encode "put a x") fun _ => none).output) ∧
      ((program {} [] (Text.encode "limit ten\n" ++ Text.encode "put a x") fun _ => none).output =
        "error: Invalid number for limit: ten\n" ++
          (program { spaceLimit := some (Text.encode "ten") } []
            (Text.encode "put a x") fun _ => none).output) := by
  have hword : Text.IsWord "-1".toList := by
    simp [Text.IsWord, Text.isBlank, Text.blankRanges]
  have hword' : Text.IsWord "ten".toList := by
    simp [Text.IsWord, Text.isBlank, Text.blankRanges]
  have hlimit : IsLimit "-1" := by decide
  have hnone : ¬IsLimit "ten" := by decide
  refine ⟨hword, hlimit, hword', hnone, ?_, ?_⟩
  · have hsame := (limit_by_variable_or_line "-1" hword none (Text.encode "put a x")
      fun _ => none).2
    rw [if_pos hlimit] at hsame
    exact hsame
  · have hsame := (limit_by_variable_or_line "ten" hword' none (Text.encode "put a x")
      fun _ => none).2
    rw [if_neg hnone] at hsame
    exact hsame

end Replay

end BudgetCache
