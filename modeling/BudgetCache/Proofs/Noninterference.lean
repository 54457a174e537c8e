import BudgetCache.Proofs.Spacing
import BudgetCache.Script.Replay
import Mathlib

/-!
# Lines that change nothing

What a session makes of a line depends on the words of the line only: whether it is silent, whether
it is a command and which one. Blank lines, remarks, lines that are not commands and commands that
only ask leave the session as it was. So they can be left out of a script, and lines can be
respaced, without any effect on what comes of the other lines.
-/

namespace BudgetCache

/-- The commands that only ask. `get` is none of them, since it touches the key. -/
def Command.Asks : Command → Prop
  | .peek _ | .oldest | .ratio | .dump | .stats => True
  | .put _ _ _ | .get _ | .remove _ | .flush _ | .limit _ => False

/-- The lines after which nothing is different. -/
inductive Idle (line : String) : Prop
  | blank (h : Text.IsGap line.toList)
  | remark {gap rest : List Char} (hgap : Text.IsGap gap) (h : line.toList = gap ++ '#' :: rest)
  | malformed {defect : Defect} (h : Command.ofLine line = .error defect)
  | asks {c : Command} (h : Command.ofLine line = .ok c) (hc : c.Asks)

/-- The lines have the same words in the same order. -/
def SameWords (line line' : String) : Prop :=
  ∃ words, Text.Spaced line words ∧ Text.Spaced line' words

theorem ofLine_trim (line : String) : Command.ofLine (Text.trim line) = Command.ofLine line := by
  rw [Command.ofLine, Command.ofLine, Text.spaced_iff.1 (Text.spaced_words line).trim]

namespace Session

theorem isSilent_iff {text : String} :
    isSilent text = true ↔ ∀ c ∈ text.toList.head?, c = '#' := by
  rw [isSilent]
  cases text.toList with
  | nil => simp
  | cons c cs => simp

/-- The first word tells whether a line is silent. -/
theorem isSilent_trim {line : String} {words : List String} (h : Text.Spaced line words) :
    isSilent (Text.trim line) = true ↔ ∀ c ∈ words.head?.bind (·.toList.head?), c = '#' := by
  rw [isSilent_iff, h.head?_trim]

/-! ## One line -/

theorem respond_silent (s : Session) {line : String} (h : isSilent (Text.trim line) = true) :
    s.respond line = { response := none, after := s, log := [] } := by
  rw [respond]
  exact if_pos h

theorem respond_of_error (s : Session) {line : String} {defect : Defect}
    (hline : isSilent (Text.trim line) = false) (h : Command.ofLine line = .error defect) :
    s.respond line =
      { response := some (complaint defect)
        after := s
        log := [skipped (Text.trim line) defect] } := by
  unfold respond
  simp only [hline, ofLine_trim, h, Bool.false_eq_true, if_false]

theorem respond_of_ok (s : Session) {line : String} {c : Command}
    (hline : isSilent (Text.trim line) = false) (h : Command.ofLine line = .ok c) :
    s.respond line =
      { response := some (s.perform c).reply
        after := (s.perform c).after
        log := (s.perform c).events.map (·.logLine s.cache.name) } := by
  unfold respond
  simp only [hline, ofLine_trim, h, Bool.false_eq_true, if_false]

theorem after_respond_error (s : Session) {line : String} {defect : Defect}
    (h : Command.ofLine line = .error defect) : (s.respond line).after = s := by
  rw [respond]
  dsimp only
  split
  · rfl
  · rw [ofLine_trim, h]

theorem after_perform_asks (s : Session) {c : Command} (h : c.Asks) : (s.perform c).after = s := by
  cases c with
  | peek key => rfl
  | oldest => rfl
  | ratio => rfl
  | dump => rfl
  | stats => rfl
  | put key text cost => exact h.elim
  | get key => exact h.elim
  | remove key => exact h.elim
  | flush key => exact h.elim
  | limit z => exact h.elim

theorem isSilent_trim_of_blank {line : String} (h : Text.IsGap line.toList) :
    isSilent (Text.trim line) = true := by
  have hwords : Text.Spaced line [] := .blank h
  exact (isSilent_trim hwords).2 (by simp)

theorem isSilent_trim_of_remark {line : String} {gap rest : List Char} (hgap : Text.IsGap gap)
    (h : line.toList = gap ++ '#' :: rest) : isSilent (Text.trim line) = true := by
  -- what is left of the line begins with the sign, unless nothing is left
  have hsign : Text.isBlank '#' = false := by decide
  have hdrop : line.toList.dropWhile Text.isBlank = '#' :: rest := by
    rw [h, List.dropWhile_append_of_pos hgap, List.dropWhile_cons_of_neg (by simp [hsign])]
  have hinitial : (Text.trim line).toList <+: '#' :: rest := by
    rw [Text.trim, String.toList_ofList, hdrop]
    exact List.rdropWhile_prefix Text.isBlank _
  rw [isSilent_iff]
  intro c hc
  obtain ⟨tail, htail⟩ := hinitial
  have hhead : ((Text.trim line).toList ++ tail).head? = some c := by
    rw [List.head?_append, Option.mem_def.1 hc]
    rfl
  rw [htail] at hhead
  exact (Option.some.inj hhead).symm

theorem after_respond_idle (s : Session) {line : String} (h : Idle line) :
    (s.respond line).after = s := by
  cases h with
  | blank h => rw [respond_silent s (isSilent_trim_of_blank h)]
  | remark hgap h => rw [respond_silent s (isSilent_trim_of_remark hgap h)]
  | malformed h => exact after_respond_error s h
  | asks h hc =>
    rw [respond]
    dsimp only
    split
    · rfl
    · rw [ofLine_trim, h]
      exact after_perform_asks s hc

/-- Only the log shows how the words of a line were spaced. -/
theorem respond_sameWords (s : Session) {line line' : String} (h : SameWords line line') :
    (s.respond line).response = (s.respond line').response ∧
      (s.respond line).after = (s.respond line').after := by
  obtain ⟨words, hwords, hwords'⟩ := h
  have hread : Command.ofLine line = Command.ofLine line' := by
    rw [Command.ofLine, Command.ofLine, Text.spaced_iff.1 hwords, Text.spaced_iff.1 hwords']
  have hsilent : isSilent (Text.trim line) = isSilent (Text.trim line') := by
    rw [Bool.eq_iff_iff, isSilent_trim hwords, isSilent_trim hwords']
  simp only [respond, ofLine_trim, hread, hsilent]
  cases isSilent (Text.trim line') with
  | true => simp
  | false => cases Command.ofLine line' <;> simp

/-! ## Scripts -/

/-- What comes of each line of a script. -/
def turns (s : Session) : List String → List Turn
  | [] => []
  | line :: lines => s.respond line :: (s.respond line).after.turns lines

/-- The session after a script. -/
def afterAll (s : Session) (lines : List String) : Session :=
  lines.foldl (fun s line => (s.respond line).after) s

@[simp]
theorem turns_cons (s : Session) (line : String) (lines : List String) :
    s.turns (line :: lines) = s.respond line :: (s.respond line).after.turns lines :=
  rfl

@[simp]
theorem afterAll_cons (s : Session) (line : String) (lines : List String) :
    s.afterAll (line :: lines) = (s.respond line).after.afterAll lines := by
  rw [afterAll, afterAll, List.foldl_cons]

/-- Scripts are replayed line by line, up to a line that is no text. -/
theorem replay_encode (s : Session) (lines : List String) {rest : List (List UInt8)}
    (h : ∀ bytes ∈ rest.head?, Text.decode? bytes = none) :
    s.replay (lines.map Text.encode ++ rest) =
      { responses := ((s.turns lines).map (·.response)).reduceOption
        after := s.afterAll lines
        log := (s.turns lines).flatMap (·.log)
        complete := rest.isEmpty } := by
  induction lines generalizing s with
  | nil =>
    cases rest with
    | nil => rfl
    | cons bytes rest =>
      rw [List.map_nil, List.nil_append, replay, h bytes rfl]
      rfl
  | cons line lines ih =>
    rw [List.map_cons, List.cons_append, replay, Text.decode?_encode]
    dsimp only
    rw [ih]
    cases hresponse : (s.respond line).response with
    | none => simp [hresponse, List.reduceOption]
    | some response => simp [hresponse, List.reduceOption]

/-- The elements with a mark. -/
def marked {α : Type} (xs : List α) (marks : List Bool) : List α :=
  ((xs.zip marks).filter (·.2)).map (·.1)

theorem marked_cons_true {α : Type} (x : α) (xs : List α) (marks : List Bool) :
    marked (x :: xs) (true :: marks) = x :: marked xs marks :=
  rfl

theorem marked_cons_false {α : Type} (x : α) (xs : List α) (marks : List Bool) :
    marked (x :: xs) (false :: marks) = marked xs marks :=
  rfl

theorem turns_marked (s : Session) {lines : List String} {marks : List Bool}
    (h : List.Forall₂ (fun line mark => mark = false → Idle line) lines marks) :
    s.turns (marked lines marks) = marked (s.turns lines) marks ∧
      s.afterAll (marked lines marks) = s.afterAll lines := by
  induction h generalizing s with
  | nil => exact ⟨rfl, rfl⟩
  | @cons line mark lines marks hidle _ ih =>
    cases mark with
    | true =>
      obtain ⟨hturns, hafter⟩ := ih (s.respond line).after
      refine ⟨?_, ?_⟩
      · rw [marked_cons_true, turns_cons, turns_cons, marked_cons_true, hturns]
      · rw [marked_cons_true, afterAll_cons, afterAll_cons, hafter]
    | false =>
      have hline := after_respond_idle s (hidle rfl)
      obtain ⟨hturns, hafter⟩ := ih s
      refine ⟨?_, ?_⟩
      · rw [marked_cons_false, turns_cons, marked_cons_false, hline, hturns]
      · rw [marked_cons_false, afterAll_cons, hline, hafter]

theorem turns_sameWords (s : Session) {lines lines' : List String}
    (h : List.Forall₂ SameWords lines lines') :
    (s.turns lines).map (fun turn => (turn.response, turn.after)) =
        (s.turns lines').map (fun turn => (turn.response, turn.after)) ∧
      s.afterAll lines = s.afterAll lines' := by
  induction h generalizing s with
  | nil => exact ⟨rfl, rfl⟩
  | @cons line line' lines lines' hwords _ ih =>
    obtain ⟨hresponse, hafter⟩ := respond_sameWords s hwords
    obtain ⟨hturns, hfinal⟩ := ih (s.respond line').after
    refine ⟨?_, ?_⟩
    · rw [turns_cons, turns_cons, List.map_cons, List.map_cons, hresponse, hafter, hturns]
    · rw [afterAll_cons, afterAll_cons, hafter, hfinal]

/-- Leaving out idle lines changes nothing about the other lines, neither their responses nor what
they log, nor the session after each of them. Respacing lines changes what is logged at most. -/
theorem turns_noninterference :
    (∀ (s : Session) (lines : List String) (marks : List Bool),
      List.Forall₂ (fun line mark => mark = false → Idle line) lines marks →
      s.turns (marked lines marks) = marked (s.turns lines) marks ∧
        s.afterAll (marked lines marks) = s.afterAll lines) ∧
    (∀ (s : Session) (lines lines' : List String), List.Forall₂ SameWords lines lines' →
      (s.turns lines).map (fun turn => (turn.response, turn.after)) =
          (s.turns lines').map (fun turn => (turn.response, turn.after)) ∧
        s.afterAll lines = s.afterAll lines') :=
  ⟨fun s _ _ h => s.turns_marked h, fun s _ _ h => s.turns_sameWords h⟩

/-- Of six lines only the first and the last matter, and blanks around words do not. -/
theorem turns_noninterference_six :
    (ofSettings {}).afterAll ["put a x", "get a"] =
        (ofSettings {}).afterAll
          ["put a x", "", " # a note", "jump over", "peek a", "get a"] ∧
      ((ofSettings {}).turns [" put\ta  x "]).map (fun turn => (turn.response, turn.after)) =
        ((ofSettings {}).turns ["put a x"]).map (fun turn => (turn.response, turn.after)) := by
  obtain ⟨hleft, hspaced⟩ := turns_noninterference
  have hblank : Idle "" := .blank fun c hc => (List.not_mem_nil hc).elim
  have hremark : Idle " # a note" :=
    @Idle.remark _ [' '] " a note".toList (by simp [Text.IsGap]; decide) rfl
  have hunknown : Command.ofLine "jump over" = .error (.unknown "jump") := by cbv
  have hmalformed : Idle "jump over" := .malformed hunknown
  have hasks : Idle "peek a" := .asks (c := .peek "a") (by cbv) trivial
  have hwords : SameWords " put\ta  x " "put a x" :=
    ⟨["put", "a", "x"], Text.spaced_iff.2 (by cbv), Text.spaced_iff.2 (by cbv)⟩
  let lines := ["put a x", "", " # a note", "jump over", "peek a", "get a"]
  let marks := [true, false, false, false, false, true]
  have hidle : List.Forall₂ (fun line mark => mark = false → Idle line) lines marks := by
    refine .cons ?_ (.cons ?_ (.cons ?_ (.cons ?_ (.cons ?_ (.cons ?_ .nil)))))
    · exact fun h => Bool.noConfusion h
    · exact fun _ => hblank
    · exact fun _ => hremark
    · exact fun _ => hmalformed
    · exact fun _ => hasks
    · exact fun h => Bool.noConfusion h
  have hmarked : marked lines marks = ["put a x", "get a"] := rfl
  have hafter := (hleft (ofSettings {}) lines marks hidle).2
  rw [hmarked] at hafter
  exact ⟨hafter, (hspaced (ofSettings {}) _ _ (.cons hwords .nil)).1⟩

end Session

end BudgetCache
