import BudgetCache.Proofs.LineEndings
import BudgetCache.Proofs.ScriptedSessions
import Mathlib

/-!
# From bytes to responses

A run of the program on the bytes of its standard input. The lines are read as texts up to the first
that is none; the session answers these in order, one response for each line that is neither blank
nor a remark, and the run fails exactly if a line was left. Hence neither the kind of line ending
nor what comes later in the input has any bearing on what was printed before. The log of the run
warns of each line that is not a command and, if no line was left, ends with the state of the
session.
-/

namespace BudgetCache

namespace Text

/-- How bytes read as a script: the lines up to the first that is no text, and those from there
on. -/
structure ReadAs (bytes : List UInt8) (good : List String) (rest : List (List UInt8)) : Prop where
  lined : Lined bytes (good.map encode ++ rest)
  stuck : ∀ line ∈ rest.head?, ∀ text, encode text ≠ line

theorem decode?_eq_none_iff {bytes : List UInt8} :
    decode? bytes = none ↔ ∀ text, encode text ≠ bytes := by
  rw [Option.eq_none_iff_forall_ne_some]
  simp only [ne_eq, decode?_eq_some_iff]

theorem exists_good (lines : List (List UInt8)) :
    ∃ good rest, lines = List.map encode good ++ rest ∧
      ∀ line ∈ rest.head?, ∀ text, encode text ≠ line := by
  induction lines with
  | nil => exact ⟨[], [], rfl, by simp⟩
  | cons line lines ih =>
    cases hline : decode? line with
    | none =>
      refine ⟨[], line :: lines, rfl, ?_⟩
      rintro first ⟨⟩
      exact decode?_eq_none_iff.1 hline
    | some text =>
      obtain ⟨good, rest, rfl, hstuck⟩ := ih
      refine ⟨text :: good, rest, ?_, hstuck⟩
      rw [List.map_cons, decode?_eq_some_iff.1 hline, List.cons_append]

theorem ReadAs.eq {bytes : List UInt8} {good good' : List String} {rest rest' : List (List UInt8)}
    (h : ReadAs bytes good rest) (h' : ReadAs bytes good' rest') : good' = good ∧ rest' = rest := by
  have hlines := h'.lined.linesOf_eq.symm.trans h.lined.linesOf_eq
  have hstuck := h.stuck
  have hstuck' := h'.stuck
  clear h h'
  induction good generalizing good' with
  | nil =>
    cases good' with
    | nil => exact ⟨rfl, hlines⟩
    | cons text good' =>
      obtain rfl : rest = _ := hlines.symm
      exact absurd rfl (hstuck (encode text) rfl text)
  | cons text good ih =>
    cases good' with
    | nil =>
      obtain rfl : rest' = _ := hlines
      exact absurd rfl (hstuck' (encode text) rfl text)
    | cons text' good' =>
      simp only [List.map_cons, List.cons_append, List.cons.injEq] at hlines
      obtain ⟨htext, hlines⟩ := hlines
      have hsame : text' = text := by
        have hdecode := congrArg decode? htext
        rw [decode?_encode, decode?_encode] at hdecode
        exact Option.some.inj hdecode
      obtain ⟨hgood, hrest⟩ := ih hlines
      rw [hsame, hgood]
      exact ⟨rfl, hrest⟩

theorem existsUnique_readAs (bytes : List UInt8) :
    ∃! script : List String × List (List UInt8), ReadAs bytes script.1 script.2 := by
  obtain ⟨good, rest, hlines, hstuck⟩ := exists_good (linesOf bytes)
  have hread : ReadAs bytes good rest := ⟨lined_iff.2 hlines, hstuck⟩
  refine ⟨(good, rest), hread, ?_⟩
  rintro ⟨good', rest'⟩ hread'
  obtain ⟨rfl, rfl⟩ := hread.eq hread'
  rfl

/-- Some line is no text exactly if not all lines are read. -/
theorem ReadAs.exists_bad_iff {bytes : List UInt8} {good : List String} {rest : List (List UInt8)}
    (h : ReadAs bytes good rest) :
    (∃ line ∈ good.map encode ++ rest, ∀ text, encode text ≠ line) ↔ rest ≠ [] := by
  constructor
  · rintro ⟨line, hline, hbad⟩ rfl
    rw [List.append_nil] at hline
    obtain ⟨text, -, htext⟩ := List.mem_map.1 hline
    exact hbad text htext
  · intro hne
    obtain ⟨line, lines, rfl⟩ := List.exists_cons_of_ne_nil hne
    exact ⟨line, by simp, h.stuck line rfl⟩

end Text

namespace Session

/-! ## Silent lines -/

/-- The lines that ask for nothing: blank ones, and remarks. -/
def Silent (line : String) : Prop :=
  Text.IsGap line.toList ∨ ∃ gap rest, Text.IsGap gap ∧ line.toList = gap ++ '#' :: rest

theorem isSilent_trim_iff {line : String} : isSilent (Text.trim line) = true ↔ Silent line := by
  constructor
  · intro h
    rw [isSilent_trim (Text.spaced_words line)] at h
    have hshows : Text.Shows line.toList ((Text.words line).map String.toList) :=
      Text.spaced_words line
    generalize hwords : (Text.words line).map String.toList = words at hshows
    generalize hline : line.toList = cs at hshows
    cases hshows with
    | blank hgap => exact .inl (hline ▸ hgap)
    | @word gap word rest words hgap hword hend hrest =>
      obtain ⟨first, others, hfirst, rfl, -⟩ := List.map_eq_cons_iff.1 hwords
      obtain ⟨c, cs, hcs⟩ := List.exists_cons_of_ne_nil hword.1
      obtain rfl : c = '#' := h c (by simp [hfirst, hcs])
      refine .inr ⟨gap, cs ++ rest, hgap, ?_⟩
      rw [hline, hcs, List.append_assoc, List.cons_append]
  · rintro (hgap | ⟨gap, rest, hgap, hline⟩)
    · exact isSilent_trim_of_blank hgap
    · exact isSilent_trim_of_remark hgap hline

instance : DecidablePred Silent := fun _ => decidable_of_iff _ isSilent_trim_iff

theorem response_respond_eq_none {s : Session} {line : String} :
    (s.respond line).response = none ↔ Silent line := by
  rw [← isSilent_trim_iff]
  constructor
  · intro h
    by_contra hspoken
    rw [respond] at h
    dsimp only at h
    rw [if_neg hspoken] at h
    split at h <;> cases h
  · intro h
    rw [respond_silent s h]

/-- The responses to the lines of a script, in order. -/
def responses (s : Session) (lines : List String) : List String :=
  ((s.turns lines).map (·.response)).reduceOption

theorem responses_cons (s : Session) (line : String) (lines : List String) :
    s.responses (line :: lines) =
      (s.respond line).response.toList ++ (s.respond line).after.responses lines := by
  unfold responses
  rw [turns_cons, List.map_cons]
  cases (s.respond line).response <;> rfl

/-- Every line has a response unless it is silent. -/
theorem length_responses (s : Session) (lines : List String) :
    (s.responses lines).length = lines.countP (¬Silent ·) := by
  induction lines generalizing s with
  | nil => rfl
  | cons line lines ih =>
    rw [responses_cons, List.length_append, ih, List.countP_cons]
    cases hresponse : (s.respond line).response with
    | none =>
      have hsilent := response_respond_eq_none.1 hresponse
      simp [hsilent]
    | some response =>
      have hspoken : ¬Silent line := by
        intro hsilent
        rw [response_respond_eq_none.2 hsilent] at hresponse
        cases hresponse
      simp [hspoken, Nat.add_comm]

/-! ## Replaying -/

/-- Each line of a script has its turn in some session. -/
theorem exists_respond_mem_turns (s : Session) {lines : List String} {line : String}
    (hline : line ∈ lines) : ∃ s' : Session, s'.respond line ∈ s.turns lines := by
  induction lines generalizing s with
  | nil => cases hline
  | cons first lines ih =>
    rw [turns_cons]
    rcases List.mem_cons.1 hline with rfl | hlater
    · exact ⟨s, List.mem_cons_self⟩
    · obtain ⟨s', hturn⟩ := ih (s.respond first).after hlater
      exact ⟨s', List.mem_cons_of_mem _ hturn⟩

/-- More lines only add responses. -/
theorem responses_replay_append (s : Session) (lines more : List (List UInt8)) :
    (s.replay lines).responses <+: (s.replay (lines ++ more)).responses := by
  induction lines generalizing s with
  | nil => exact List.nil_prefix
  | cons bytes lines ih =>
    rw [List.cons_append, replay, replay]
    cases Text.decode? bytes with
    | none => exact List.prefix_rfl
    | some line => exact (List.prefix_append_right_inj _).2 (ih (s.respond line).after)

theorem respond_push (s : Session) (line : String) {c : Char} (hc : Text.isBlank c = true) :
    s.respond (line.push c) = s.respond line := by
  unfold respond
  rw [Text.trim_push line hc]

theorem replay_addsReturn (s : Session) {lines lines' : List (List UInt8)}
    (h : List.Forall₂ Text.AddsReturn lines lines') : s.replay lines' = s.replay lines := by
  induction h generalizing s with
  | nil => rfl
  | @cons line line' lines lines' hline _ ih =>
    rcases hline with rfl | rfl
    · unfold replay
      simp only [ih]
    · unfold replay
      rw [Text.decode?_concat_return]
      cases Text.decode? line with
      | none => rfl
      | some text =>
        rw [Option.map_some]
        dsimp only
        rw [respond_push s text (by decide), ih]

end Session

namespace Replay

theorem program_of_readAs (env : Environment) (file? : String → Option Source)
    {input : List UInt8} {good : List String} {rest : List (List UInt8)}
    (h : Text.ReadAs input good rest) :
    program env [] input file? =
      let settings := Settings.ofEnvironment env
      let s := Session.ofSettings settings
      let log := configured settings :: (s.turns good).flatMap (·.log)
      if rest = [] then
        { output := output (s.responses good)
          log := log ++ [completed (s.responses good).length (s.afterAll good).cache.usage]
          failure := none }
      else
        { output := output (s.responses good), log, failure := some .cannotReadLine } := by
  have hstuck : ∀ bytes ∈ rest.head?, Text.decode? bytes = none := fun bytes hbytes =>
    Text.decode?_eq_none_iff.2 (h.stuck bytes hbytes)
  unfold program ofSource
  dsimp only
  rw [h.lined.linesOf_eq, Session.replay_encode _ _ hstuck]
  dsimp only
  cases rest with
  | nil => rfl
  | cons line rest => rfl

/-- The log warns of every line that was read and is not a command. The warning quotes the line, and
whatever the line holds, the quotation consists of printable characters. -/
theorem warning_mem_log (env : Environment) (file? : String → Option Source) {input : List UInt8}
    {good : List String} {rest : List (List UInt8)} (h : Text.ReadAs input good rest)
    {line : String} (hline : line ∈ good) (hspoken : ¬Session.Silent line) {defect : Defect}
    (hdefect : Command.ofLine line = .error defect) :
    let shown := Text.quoted (Text.trim line)
    ⟨.warn, "Skipping line " ++ shown ++ ": " ++ defect.message⟩ ∈
        (program env [] input file?).log ∧
      ∀ c ∈ shown.toList, ∀ range ∈ Text.unprintableRanges ++ Text.graphemeExtendRanges,
        ¬(range.1 ≤ c.toNat ∧ c.toNat ≤ range.2) := by
  intro shown
  refine ⟨?_, fun c hc => Text.isPrintable_iff.1 (Text.isPrintable_of_mem_quoted hc)⟩
  obtain ⟨s, hturn⟩ :=
    (Session.ofSettings (Settings.ofEnvironment env)).exists_respond_mem_turns hline
  have hsilent : Session.isSilent (Text.trim line) = false := by
    rwa [← Bool.not_eq_true, Session.isSilent_trim_iff]
  rw [s.respond_of_error hsilent hdefect] at hturn
  have hlog := List.mem_flatMap_of_mem (f := (·.log)) hturn (List.mem_singleton.2 rfl)
  rw [program_of_readAs env file? h]
  dsimp only
  split
  · exact List.mem_append_left _ (List.mem_cons_of_mem _ hlog)
  · exact List.mem_cons_of_mem _ hlog

theorem output_append (responses more : List String) :
    output (responses ++ more) = output responses ++ output more := by
  rw [output, List.map_append, String.join_append]
  rfl

theorem output_program (env : Environment) (input : List UInt8) (file? : String → Option Source) :
    (program env [] input file?).output =
      output ((Session.ofSettings (Settings.ofEnvironment env)).replay
        (Text.linesOf input)).responses := by
  unfold program ofSource
  dsimp only
  split <;> rfl

theorem exitCode_program (env : Environment) (input : List UInt8) (file? : String → Option Source) :
    (program env [] input file?).exitCode =
      if ((Session.ofSettings (Settings.ofEnvironment env)).replay
        (Text.linesOf input)).complete then 0 else 1 := by
  unfold program ofSource Report.exitCode
  dsimp only
  split <;> rfl

/-- The output of a run consists of the responses to the lines before the first that is no text, and
the run fails exactly if there is such a line. Otherwise its log ends with what was done, of which
the hit rate is the share of the lookups that found their key, or zero without lookups. Neither
carriage returns before line feeds nor what comes after a line feed change what was printed
before. -/
theorem program_on_input (env : Environment) (file? : String → Option Source) :
    (∀ input, ∃! script : List String × List (List UInt8),
      Text.ReadAs input script.1 script.2) ∧
    (∀ input good rest, Text.ReadAs input good rest →
      let r := program env [] input file?
      let s := Session.ofSettings (Settings.ofEnvironment env)
      let final := (s.afterAll good).cache
      let lines := good.map Text.encode ++ rest
      r.output = String.join (((s.turns good).filterMap (·.response)).map (· ++ "\n")) ∧
      (r.exitCode = 1 ∧ r.failure.map Failure.message = some "Failed to read script line" ↔
        ∃ line ∈ lines, ∀ text, Text.encode text ≠ line) ∧
      ((∀ line ∈ lines, ∃ text, Text.encode text = line) →
        r.exitCode = 0 ∧ r.failure = none ∧
        r.log.getLast? = some ⟨.info,
          "Replay complete: " ++ Decimal.ofNat (good.countP (¬Session.Silent ·)) ++ " commands, " ++
            Decimal.ofNat final.size ++ " entries, " ++ Decimal.ofNat final.counters.evictions ++
            " evictions, hit rate " ++
            (Decimal.FloatValue.ofFloat final.usage.hitRate).fixed 2⟩ ∧
        final.usage.hitRate =
          let lookups := final.counters.hits + final.counters.misses
          if lookups = 0 then 0.0 else Float.ofNat final.counters.hits / Float.ofNat lookups)) ∧
    (∀ input, program env [] (Text.withReturns input) file? = program env [] input file?) ∧
    ∀ input more, ∃ later,
      (program env [] (input ++ Text.lineFeed :: more) file?).output =
        (program env [] (input ++ [Text.lineFeed]) file?).output ++ later := by
  refine ⟨Text.existsUnique_readAs, ?_, ?_, ?_⟩
  · intro input good rest h r s final lines
    have hbad := h.exists_bad_iff
    have hr : r = _ := program_of_readAs env file? h
    have hresponses : s.responses good = (s.turns good).filterMap (·.response) := by
      unfold Session.responses List.reduceOption
      rw [List.filterMap_map]
      rfl
    by_cases hrest : rest = []
    · rw [if_pos hrest] at hr
      rw [hr]
      refine ⟨?_, ?_, ?_⟩
      · rw [← hresponses]
        rfl
      · rw [hbad]
        simp [hrest, Report.exitCode]
      · intro _
        refine ⟨rfl, rfl, ?_, rfl⟩
        rw [List.getLast?_concat, Session.length_responses]
        rfl
    · rw [if_neg hrest] at hr
      rw [hr]
      refine ⟨?_, ?_, ?_⟩
      · rw [← hresponses]
        rfl
      · rw [hbad]
        simp [hrest, Report.exitCode, Failure.message]
      · intro hgood
        obtain ⟨line, hline, hno⟩ := hbad.2 hrest
        obtain ⟨text, htext⟩ := hgood line hline
        exact absurd htext (hno text)
  · intro input
    obtain ⟨lines', hlined, hadds⟩ := (Text.lined_linesOf input).withReturns
    unfold program ofSource
    dsimp only
    rw [hlined.linesOf_eq, Session.replay_addsReturn _ hadds]
  · intro input more
    have hended : Text.linesOf (input ++ [Text.lineFeed]) =
        (input.splitOnP (· == Text.lineFeed)).map Text.dropReturn := by
      rw [Text.linesOf_append]
      exact List.append_nil _
    obtain ⟨responses, hresponses⟩ :=
      Session.responses_replay_append (Session.ofSettings (Settings.ofEnvironment env))
        (Text.linesOf (input ++ [Text.lineFeed])) (Text.linesOf more)
    refine ⟨output responses, ?_⟩
    rw [output_program, output_program, ← output_append, hresponses, hended, Text.linesOf_append]

/-- Two lines are read, a remark and one that is not a command, before one that is no text. In a
second run all four lines are read, and one of its two lookups finds its key. -/
theorem program_on_input_two :
    let input := Text.encode "\t# note\r\nput a\n" ++ 0xFF :: Text.lineFeed :: Text.encode "get a"
    let r := program {} [] input fun _ => none
    let input' := Text.encode "put a x\n# note\nget a\nget b\n"
    let r' := program {} [] input' fun _ => none
    (Text.ReadAs input ["\t# note", "put a"] [[0xFF], Text.encode "get a"] ∧
      r.output = "error: Missing argument for put: text\n" ∧ r.exitCode = 1) ∧
    Text.ReadAs input' ["put a x", "# note", "get a", "get b"] [] ∧
      r'.exitCode = 0 ∧ r'.failure = none ∧
      r'.log.getLast? = some ⟨.info,
        "Replay complete: 3 commands, 1 entries, 0 evictions, hit rate 0.50"⟩ := by
  have hnone : ∀ text, Text.encode text ≠ [0xFF] := Text.decode?_eq_none_iff.1 (by decide)
  have hlines : Text.linesOf
      (Text.encode "\t# note\r\nput a\n" ++ 0xFF :: Text.lineFeed :: Text.encode "get a") =
        List.map Text.encode ["\t# note", "put a"] ++ [[0xFF], Text.encode "get a"] := by cbv
  have hlines' : Text.linesOf (Text.encode "put a x\n# note\nget a\nget b\n") =
      List.map Text.encode ["put a x", "# note", "get a", "get b"] ++ [] := by cbv
  have hremark : ∀ s : Session,
      s.respond "\t# note" = { response := none, after := s, log := [] } :=
    fun s => s.respond_silent (by cbv)
  have hput : Command.ofLine "put a" = .error (.missing .put .text) := by cbv
  intro input r input' r'
  have hread : Text.ReadAs input ["\t# note", "put a"] [[0xFF], Text.encode "get a"] := by
    refine ⟨Text.lined_iff.2 hlines, ?_⟩
    intro line hline
    rw [List.head?_cons, Option.mem_some_iff] at hline
    exact hline ▸ hnone
  have hread' : Text.ReadAs input' ["put a x", "# note", "get a", "get b"] [] :=
    ⟨Text.lined_iff.2 hlines', by simp⟩
  obtain ⟨houtput, hfails, -⟩ := (program_on_input {} fun _ => none).2.1 input _ _ hread
  obtain ⟨-, -, hcomplete⟩ := (program_on_input {} fun _ => none).2.1 input' _ _ hread'
  refine ⟨⟨hread, houtput.trans ?_, (hfails.2 ⟨[0xFF], by simp, hnone⟩).1⟩, hread', ?_⟩
  · rw [Session.turns, hremark, Session.turns, Session.respond_of_error _ (by cbv) hput]
    rfl
  · have htexts : ∀ line ∈ List.map Text.encode ["put a x", "# note", "get a", "get b"] ++ [],
        ∃ text, Text.encode text = line := by
      simp only [List.map_cons, List.map_nil, List.append_nil, List.forall_mem_cons]
      exact ⟨⟨_, rfl⟩, ⟨_, rfl⟩, ⟨_, rfl⟩, ⟨_, rfl⟩, by simp⟩
    obtain ⟨hexit, hfailure, hlast, hrate⟩ := hcomplete htexts
    let s := Session.ofSettings (Settings.ofEnvironment {})
    let final := (s.afterAll ["put a x", "# note", "get a", "get b"]).cache
    have hstart : s.Scripted := .start (.empty _ _) rfl
    have hsound : final.Sound := (hstart.afterAll _).reachable.ready.sound
    have hview : final.view = ((Reference.empty 100).run
        [.put "a" ⟨"x", 1⟩, .get "a", .get "b"]).after :=
      Session.view_afterAll hstart.reachable.ready.sound _
    have hsize : final.size = 1 := hsound.size.trans (by rw [hview]; cbv)
    have hcounters : final.counters = { hits := 1, misses := 1 } := by
      show final.view.counters = _
      rw [hview]
      cbv
    have hcommands : ["put a x", "# note", "get a", "get b"].countP (¬Session.Silent ·) = 3 := by
      cbv
    refine ⟨hexit, hfailure, hlast.trans ?_⟩
    rw [hrate, hcommands]
    show some (⟨.info, "Replay complete: " ++ Decimal.ofNat 3 ++ " commands, " ++
      Decimal.ofNat final.size ++ " entries, " ++ Decimal.ofNat final.counters.evictions ++
      " evictions, hit rate " ++ _⟩ : LogLine) = _
    rw [hsize, hcounters]
    decide +kernel

end Replay

end BudgetCache
